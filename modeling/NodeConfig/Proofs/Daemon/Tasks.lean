import Mathlib
import NodeConfig.Proofs.Channel.Wakeups
import NodeConfig.Proofs.Daemon.Log

namespace NodeConfig

namespace Daemon

open Traffic (Fine Stage)

inductive Task where
  | handler
  | listener
  deriving DecidableEq

inductive Handling where
  | waiting
  | sending
  /-- The send has its outcome, which is to be looked at when the call is over. -/
  | sent (result : Except SendFault SendOutcome)

structure Tasks where
  run : Running
  identity : Identity
  traffic : Fine Task
  handling : Handling
  received : Bool
  signalled : Bool
  signals : ℕ

def announced (r : Running) : ℕ := r.logged.countP (·.message = "Bootstrap key changed")

def undelivered : Except SendFault SendOutcome → List Event
  | .ok _ => []
  | .error e =>
    [⟨.warn, target, "Bootstrap key reload not delivered", [("error", .shown e.message)]⟩]

/-- What happens within a call, and does not give it its outcome. -/
def within : Traffic.Event Task → Bool
  | .park _ | .register _ | .retry _ | .unpark _ | .wake _ | .stir _ => true
  | _ => false

inductive Act where
  | hangup
  | own
  deriving DecidableEq

namespace Tasks

def begin (r : Running) (s : Store) : Tasks :=
  ⟨r, s.identity, .begin s.keyChanged, .waiting, false, false, 0⟩

inductive Step (t : Tasks) : Act → Tasks → Prop
  | hangup (h : announced t.run = t.signals) :
      Step t .hangup { t with signalled := true, signals := t.signals + 1 }
  | take {u : Fine Task} (h : t.handling = .waiting) (hs : t.signalled = true)
      (hcall : t.traffic.Step (.call .handler .notify) u) :
      Step t .own { t with
        run := t.run.log hangupEvent, traffic := u, handling := .sending, signalled := false }
  | send {u : Fine Task} {result : Except SendFault SendOutcome}
      (hsent : t.traffic.Step (.notified .handler result) u) :
      Step t .own { t with
        run := t.run.logAll t.traffic.state.channel.send.report.events
        traffic := u, handling := .sent result }
  | finish {result : Except SendFault SendOutcome} (h : t.handling = .sent result)
      (hidle : t.traffic.state.stage .handler = .idle) :
      Step t .own { t with run := t.run.logAll (undelivered result), handling := .waiting }
  | wait {u : Fine Task} (h : t.received = false)
      (hcall : t.traffic.Step (.call .listener .recv) u) : Step t .own { t with traffic := u }
  | receive {u : Fine Task} {taken : Bool}
      (hreceived : t.traffic.Step (.received .listener taken) u) :
      Step t .own { t with traffic := u, received := taken }
  | announce (h : t.received = true) (hidle : t.traffic.state.stage .listener = .idle) :
      Step t .own { t with run := t.run.log (changedEvent t.identity), received := false }
  | within {e : Traffic.Event Task} {u : Fine Task} (he : within e = true)
      (h : t.traffic.Step e u) : Step t .own { t with traffic := u }

/-! ### Where a signal is -/

inductive Phase where
  | rest
  | signalled
  | taken
  | passed
  | heard
  deriving DecidableEq

def Phase.logged : Phase → List Event
  | .rest => []
  | .signalled => []
  | _ => [hangupEvent]

/-- Where the handler is in a call. It never sleeps, for it finds the slot empty. -/
def HandlerAt (handling : Handling) : Stage → Prop
  | .idle => handling = .waiting ∨ handling = .sent (.ok .delivered)
  | .ready call => call = .notify ∧ handling = .sending
  | .raised => handling = .sent (.ok .delivered)
  | .waking => handling = .sent (.ok .delivered)
  | _ => False

/-- Where the listener is in a call, and whether it has looked at the slot in vain. -/
def ListenerAt (received missed : Bool) : Stage → Prop
  | .idle => missed = false
  | .ready call => call = .recv ∧ received = false ∧ missed = false
  | .registered _ => received = false
  | .parked call => call = .recv ∧ received = false ∧ missed = false
  | .taken => received = true ∧ missed = false
  | _ => False

variable {r : Running} {x : Identity} {c : Channel} {n : ℕ} {phase : Phase} {t t' : Tasks}
  {act : Act}

/-- All there is to say of the tasks while a signal comes this far, after `n` others. -/
structure At (r : Running) (x : Identity) (c : Channel) (n : ℕ) (phase : Phase) (t : Tasks) :
    Prop where
  run : t.run = r.logAll (reloading x n ++ phase.logged)
  identity : t.identity = x
  signals : t.signals = n + if phase = .rest then 0 else 1
  signalled : t.signalled = decide (phase = .signalled)
  sending : t.handling = .sending ↔ phase = .taken
  received : t.received = decide (phase = .heard)
  channel : t.traffic.state.channel = { c with pending := decide (phase = .passed) }
  handler : HandlerAt t.handling (t.traffic.state.stage .handler)
  listener : ListenerAt t.received (t.traffic.missed .listener) (t.traffic.state.stage .listener)
  missed : t.traffic.missed .handler = false
  owed : t.traffic.Owed

theorem at_begin (r : Running) {s : Store} (hs : s.keyChanged.pending = false) :
    At r s.identity s.keyChanged 0 .rest (begin r s) where
  run := rfl
  identity := rfl
  signals := rfl
  signalled := rfl
  sending := by simp [begin]
  received := rfl
  channel := by
    change s.keyChanged = { s.keyChanged with pending := false }
    rw [← hs]
  handler := .inl rfl
  listener := rfl
  missed := rfl
  owed := Fine.owed_begin _

/-! ### Weights -/

/-- An upper bound of the steps that a handler has to take, and that others have to take for it. -/
def handlerWeight : Handling → Stage → ℕ
  | .waiting, _ => 0
  | .sending, _ => 12
  | .sent _, .raised => 6
  | .sent _, .waking => 5
  | .sent _, _ => 1

def listenerWeight (received missed : Bool) : Stage → ℕ
  | .idle => 4 + received.toNat
  | .ready _ => 3
  | .registered woken => 2 + 3 * woken.toNat - missed.toNat
  | .taken => 6
  | _ => 0

/-- An upper bound of the steps that all tasks take until a signal comes. -/
def weight (t : Tasks) : ℕ :=
  13 * t.signalled.toNat + handlerWeight t.handling (t.traffic.state.stage .handler) +
    5 * t.traffic.state.channel.pending.toNat +
    listenerWeight t.received (t.traffic.missed .listener) (t.traffic.state.stage .listener)

/-- A step that only moves the tasks within their calls. -/
theorem At.moved (ht : At r x c n phase t) {e : Traffic.Event Task} {u : Fine Task}
    (h : t.traffic.Step e u) (hchannel : u.state.channel = t.traffic.state.channel)
    (hhandler : HandlerAt t.handling (u.state.stage .handler))
    (hlistener : ListenerAt t.received (u.missed .listener) (u.state.stage .listener))
    (hmissed : u.missed .handler = false) : At r x c n phase { t with traffic := u } :=
  { ht with
    channel := hchannel.trans ht.channel
    handler := hhandler
    listener := hlistener
    missed := hmissed
    owed := ht.owed.step h }

theorem HandlerAt.unpark {handling : Handling} {stage : Stage} (h : HandlerAt handling stage) :
    stage.unpark = stage := by
  cases stage <;> first | rfl | cases h

/-- To wake the sleepers does not concern a listener that sleeps as a task. -/
theorem ListenerAt.unpark {received missed : Bool} {stage : Stage}
    (h : ListenerAt received missed stage) : stage.unpark = stage := by
  cases stage with
  | parked call =>
    obtain ⟨rfl, -⟩ := h
    rfl
  | _ => rfl

theorem ListenerAt.wake {received missed : Bool} {stage : Stage}
    (h : ListenerAt received missed stage) : ListenerAt received missed stage.wake := by
  cases stage with
  | parked call =>
    obtain ⟨rfl, h⟩ := h
    exact ⟨rfl, h⟩
  | _ => exact h

/-- Who is woken has to go round once more. -/
theorem ListenerAt.listenerWeight_wake {received missed : Bool} {stage : Stage}
    (h : ListenerAt received missed stage) :
    listenerWeight received missed stage.wake ≤ listenerWeight received missed stage + 3 := by
  cases stage with
  | parked call =>
    obtain ⟨rfl, -⟩ := h
    exact le_rfl
  | registered woken => cases woken <;> cases missed <;> simp [Stage.wake, listenerWeight]
  | _ => exact Nat.le_add_right _ _

/-- What goes on within calls changes nothing else, and comes to an end. -/
theorem At.within (ht : At r x c n phase t) {e : Traffic.Event Task} {u : Fine Task}
    (he : Daemon.within e = true) (h : t.traffic.Step e u) :
    At r x c n phase { t with traffic := u } ∧ weight { t with traffic := u } < weight t := by
  have hh := ht.handler
  have hl := ht.listener
  have hstep := h
  cases h with
  | other h hm hr =>
    cases h with
    | @park task call hs hp =>
      -- The handler finds the slot empty, and the listener does not look before it is registered.
      cases task with
      | handler =>
        rw [hs] at hh
        obtain ⟨rfl, hsending⟩ := hh
        simp [Traffic.Call.parks, ht.channel, ht.sending.1 hsending] at hp
      | listener =>
        rw [hs] at hl
        obtain ⟨rfl, -⟩ := hl
        simp [Traffic.Call.parks] at hp
    | @register task hs =>
      cases task with
      | handler =>
        rw [hs] at hh
        cases hh.1
      | listener =>
        rw [hs] at hl
        refine ⟨ht.moved hstep rfl ?_ ?_ ht.missed, ?_⟩
        · simpa [Traffic.State.move] using hh
        · simpa [Traffic.State.move, ListenerAt] using hl.2.1
        · simp [weight, Traffic.State.move, hs, listenerWeight, hl.2.2]
    | retry hs hp => exact absurd rfl (hr _)
    | @unparkSent task hs =>
      cases task with
      | handler =>
        rw [hs] at hh
        have hl' : (t.traffic.state.stage .listener).unpark = t.traffic.state.stage .listener :=
          hl.unpark
        refine ⟨ht.moved hstep rfl ?_ ?_ ht.missed, ?_⟩
        · simpa [Traffic.State.move, HandlerAt] using hh
        · simpa [Traffic.State.move, hl'] using hl
        · simp [weight, Traffic.State.move, hs, hl', handlerWeight, show t.handling = _ from hh]
      | listener =>
        rw [hs] at hl
        cases hl
    | @unparkTaken task hs =>
      cases task with
      | handler =>
        rw [hs] at hh
        cases hh
      | listener =>
        rw [hs] at hl
        have hh' : (t.traffic.state.stage .handler).unpark = t.traffic.state.stage .handler :=
          hh.unpark
        refine ⟨ht.moved hstep rfl ?_ ?_ ht.missed, ?_⟩
        · simpa [Traffic.State.move, hh'] using hh
        · simpa [Traffic.State.move, ListenerAt] using hl.2
        · simp [weight, Traffic.State.move, hs, hh', listenerWeight, hl.1]
    | @wake task hs =>
      cases task with
      | handler =>
        rw [hs] at hh
        refine ⟨ht.moved hstep rfl ?_ ?_ ht.missed, ?_⟩
        · simpa [Traffic.State.move, HandlerAt] using Or.inr hh
        · simpa [Traffic.State.move] using hl.wake
        · have hlight := hl.listenerWeight_wake
          simp only [weight, Traffic.State.move, hs, handlerWeight, show t.handling = _ from hh]
          simp
          omega
      | listener =>
        rw [hs] at hl
        cases hl
    | @stir task call hs hcall =>
      cases task with
      | handler =>
        rw [hs] at hh
        cases hh
      | listener =>
        rw [hs] at hl
        exact absurd hl.1 hcall
    | _ => cases he
  | @miss task woken hs hm hp =>
    cases task with
    | handler =>
      rw [hs] at hh
      cases hh
    | listener =>
      rw [hs] at hl
      refine ⟨ht.moved hstep rfl hh ?_ ?_, ?_⟩
      · simpa [hs, ListenerAt] using hl
      · simpa using ht.missed
      · simp [weight, hs, hm, listenerWeight]
  | @sleep task woken hs hm =>
    cases task with
    | handler =>
      rw [hs] at hh
      cases hh
    | listener =>
      rw [hs] at hl
      have hl' : t.received = false := hl
      refine ⟨ht.moved hstep rfl ?_ ?_ ?_, ?_⟩
      · simpa [Traffic.State.move] using hh
      · cases woken <;> simp [Traffic.State.move, ListenerAt, hl']
      · simpa using ht.missed
      · cases woken <;> simp [weight, Traffic.State.move, hs, hm, listenerWeight]

/-! ### The log -/

structure Follows (r : Running) (x : Identity) : Prop where
  hangup : r.filter.shows hangupEvent = true
  changed : r.filter.shows (changedEvent x) = true
  none : announced r = 0

theorem Follows.filter_reloading (hr : Follows r x) (n : ℕ) :
    (reloading x n).filter r.filter.shows = reloading x n := by
  refine List.filter_eq_self.2 fun e he => ?_
  rcases mem_reloading he with rfl | rfl
  · exact hr.hangup
  · exact hr.changed

theorem At.logged (ht : At r x c n phase t) (hr : Follows r x) :
    t.run.logged = r.logged ++ reloading x n ++ phase.logged := by
  have hlast : phase.logged.filter r.filter.shows = phase.logged := by
    cases phase <;> simp [Phase.logged, hr.hangup]
  rw [ht.run, (r.onward_logAll _).logged, List.filter_append, hr.filter_reloading, hlast,
    List.append_assoc]

theorem At.announced_eq (ht : At r x c n phase t) (hr : Follows r x) : announced t.run = n := by
  have hchanged : (reloading x n).countP (·.message = "Bootstrap key changed") = n := by
    simp [reloading, List.countP_flatten, hangupEvent, changedEvent]
  have hlast : phase.logged.countP (·.message = "Bootstrap key changed") = 0 := by
    cases phase <;> rfl
  have hnone := hr.none
  rw [Daemon.announced] at hnone
  rw [Daemon.announced, ht.logged hr, List.countP_append, List.countP_append, hchanged, hlast,
    hnone]
  omega

/-! ### Steps -/

theorem At.hangup (ht : At r x c n phase t) (hr : Follows r x)
    (hcount : announced t.run = t.signals) :
    At r x c n .signalled { t with signalled := true, signals := t.signals + 1 } ∧
      t.signalled = false := by
  have hrest : phase = .rest := by
    rw [ht.announced_eq hr, ht.signals] at hcount
    by_contra hne
    simp [hne] at hcount
  subst hrest
  exact ⟨⟨ht.run, ht.identity, by simp [ht.signals], rfl, by simpa using ht.sending, ht.received,
    ht.channel, ht.handler, ht.listener, ht.missed, ht.owed⟩, ht.signalled⟩

section Own

variable {u : Fine Task}

theorem At.take (ht : At r x c n phase t) (hwaiting : t.handling = .waiting)
    (hs : t.signalled = true) (hcall : t.traffic.Step (.call .handler .notify) u) :
    let t' := { t with
      run := t.run.log hangupEvent, traffic := u, handling := .sending, signalled := false }
    At r x c n .taken t' ∧ weight t' < weight t := by
  have hphase : phase = .signalled := of_decide_eq_true (ht.signalled.symm.trans hs)
  subst hphase
  have howed := ht.owed.step hcall
  cases hcall with
  | other hcall hm _ =>
    cases hcall with
    | call hidle _ =>
      refine ⟨⟨?_, ht.identity, ht.signals, rfl, by simp, ht.received, ht.channel, ?_, ?_,
        ht.missed, howed⟩, ?_⟩
      · rw [ht.run, Running.logAll_append, Running.logAll_append]
        rfl
      · simp [Traffic.State.move, HandlerAt]
      · simpa [Traffic.State.move] using ht.listener
      · simp [weight, Traffic.State.move, hs, hwaiting, handlerWeight]

/-- The handler finds the slot empty, so its send ends well at once. -/
theorem At.send (ht : At r x c n phase t) {result : Except SendFault SendOutcome}
    (hsent : t.traffic.Step (.notified .handler result) u) :
    let t' := { t with
      run := t.run.logAll t.traffic.state.channel.send.report.events
      traffic := u, handling := .sent result }
    At r x c n .passed t' ∧ weight t' < weight t := by
  have hh := ht.handler
  have howed := ht.owed.step hsent
  cases hsent with
  | other hsent hm _ =>
    cases hsent with
    | notify hs =>
      rw [hs] at hh
      have hphase := ht.sending.1 hh.2
      subst hphase
      have hempty : t.traffic.state.channel.pending = false := by simp [ht.channel]
      rw [send_of_empty hempty] at howed ⊢
      refine ⟨⟨ht.run, ht.identity, ht.signals, ht.signalled, by simp, ht.received, ?_, ?_, ?_,
        ht.missed, howed⟩, ?_⟩
      · simp [Traffic.State.afterSend, Channel.raise, ht.channel]
      · simp [Traffic.State.afterSend, Traffic.State.move, HandlerAt]
      · simpa [Traffic.State.afterSend, Traffic.State.move] using ht.listener
      · simp [weight, Traffic.State.afterSend, Traffic.State.move, Channel.raise, hempty, hh.2,
          handlerWeight]

theorem At.finish (ht : At r x c n phase t) {result : Except SendFault SendOutcome}
    (hsent : t.handling = .sent result) (hidle : t.traffic.state.stage .handler = .idle) :
    let t' := { t with run := t.run.logAll (undelivered result), handling := .waiting }
    At r x c n phase t' ∧ weight t' < weight t := by
  have hh := ht.handler
  rw [hidle] at hh
  -- The send went well, so nothing is said of it.
  obtain hwaiting | hdelivered := hh
  · cases hsent.symm.trans hwaiting
  · cases hsent.symm.trans hdelivered
    refine ⟨⟨ht.run, ht.identity, ht.signals, ht.signalled, ?_, ht.received, ht.channel, ?_,
      ht.listener, ht.missed, ht.owed⟩, ?_⟩
    · simpa [hsent] using ht.sending
    · rw [hidle]
      exact .inl rfl
    · simp [weight, hidle, handlerWeight, hsent]

theorem At.wait (ht : At r x c n phase t) (hreceived : t.received = false)
    (hcall : t.traffic.Step (.call .listener .recv) u) :
    At r x c n phase { t with traffic := u } ∧ weight { t with traffic := u } < weight t := by
  have hl := ht.listener
  have hstep := hcall
  cases hcall with
  | other hcall hm _ =>
    cases hcall with
    | call hidle _ =>
      rw [hidle] at hl
      refine ⟨ht.moved hstep rfl ?_ ?_ ht.missed, ?_⟩
      · simpa [Traffic.State.move] using ht.handler
      · simpa [Traffic.State.move, ListenerAt] using ⟨hreceived, hl⟩
      · simp [weight, Traffic.State.move, hidle, listenerWeight, hreceived]

theorem At.receive (ht : At r x c n phase t) {taken : Bool}
    (hreceived : t.traffic.Step (.received .listener taken) u) :
    let t' := { t with traffic := u, received := taken }
    At r x c n .heard t' ∧ weight t' < weight t := by
  have hl := ht.listener
  have howed := ht.owed.step hreceived
  cases hreceived with
  | other hreceived hm _ =>
    -- The listener waits as a task does, so it receives in no other way.
    cases hreceived with
    | tryRecv hs =>
      rw [hs] at hl
      cases hl.1
    | recvWithin hs =>
      rw [hs] at hl
      cases hl.1
    | recvBlocking hs _ =>
      rw [hs] at hl
      cases hl.1
    | @recv _ woken hs hp =>
      have hphase : phase = .passed := by simpa [ht.channel] using hp
      subst hphase
      have hlooks : t.traffic.missed .listener = false := hm
      refine ⟨⟨ht.run, ht.identity, ht.signals, ht.signalled, ?_, ?_, ?_, ?_, ?_, ht.missed,
        howed⟩, ?_⟩
      · simpa using ht.sending
      · simpa [Channel.receive] using hp
      · simp [Traffic.State.afterReceive, Channel.receive, ht.channel]
      · simpa [Traffic.State.afterReceive, Traffic.State.move] using ht.handler
      · simp [Traffic.State.afterReceive, Traffic.State.move, Channel.receive, hp, ListenerAt,
          hlooks]
      · simp [weight, Traffic.State.afterReceive, Traffic.State.move, Channel.receive, hp, hs,
          listenerWeight, hlooks]
        omega

theorem At.announce (ht : At r x c n phase t) (hreceived : t.received = true)
    (hidle : t.traffic.state.stage .listener = .idle) :
    let t' := { t with run := t.run.log (changedEvent t.identity), received := false }
    At r x c (n + 1) .rest t' ∧ weight t' < weight t := by
  have hl := ht.listener
  have hphase : phase = .heard := of_decide_eq_true (ht.received.symm.trans hreceived)
  subst hphase
  rw [hidle] at hl
  refine ⟨⟨?_, ht.identity, ?_, ht.signalled, ?_, rfl, ht.channel, ht.handler, ?_, ht.missed,
    ht.owed⟩, ?_⟩
  · rw [ht.run, ht.identity, reloading_add, List.append_assoc, Running.logAll_append,
      Running.logAll_append]
    rfl
  · simp [ht.signals]
  · simpa using ht.sending
  · rw [hidle]
    exact hl
  · simp [weight, hidle, listenerWeight, hreceived]

end Own

/-- A step of a task keeps a signal on its way, and there is less to be done after it. -/
theorem At.own (ht : At r x c n phase t) (h : Step t .own t') :
    (∃ m phase', At r x c m phase' t') ∧ weight t' < weight t := by
  cases h with
  | take hwaiting hs hcall => exact (ht.take hwaiting hs hcall).imp_left fun h => ⟨_, _, h⟩
  | send hsent => exact (ht.send hsent).imp_left fun h => ⟨_, _, h⟩
  | finish hsent hidle => exact (ht.finish hsent hidle).imp_left fun h => ⟨_, _, h⟩
  | wait hreceived hcall => exact (ht.wait hreceived hcall).imp_left fun h => ⟨_, _, h⟩
  | receive hreceived => exact (ht.receive hreceived).imp_left fun h => ⟨_, _, h⟩
  | announce hreceived hidle => exact (ht.announce hreceived hidle).imp_left fun h => ⟨_, _, h⟩
  | within he h => exact (ht.within he h).imp_left fun h => ⟨_, _, h⟩

theorem signals_own (h : Step t .own t') : t'.signals = t.signals := by
  cases h <;> rfl

/-- The channel is not full for long: while a signal is on its way some task can go on. -/
theorem At.progress (ht : At r x c n phase t) (hphase : phase ≠ .rest) :
    ∃ u, Step t .own u := by
  have hh := ht.handler
  have hl := ht.listener
  -- The phase says which task has the signal, and that one can go on.
  cases phase with
  | rest => exact absurd rfl hphase
  | signalled =>
    cases hs : t.traffic.state.stage .handler with
    | idle =>
      rw [hs] at hh
      obtain hwaiting | hsent := hh
      · exact ⟨_, .take hwaiting ht.signalled (.other (.call hs .notify) ht.missed nofun)⟩
      · exact ⟨_, .finish hsent hs⟩
    | ready call =>
      rw [hs] at hh
      cases ht.sending.1 hh.2
    | raised => exact ⟨_, .within rfl (.other (.unparkSent hs) ht.missed nofun)⟩
    | waking => exact ⟨_, .within rfl (.other (.wake hs) ht.missed nofun)⟩
    | _ =>
      rw [hs] at hh
      cases hh
  | taken =>
    have hsending := ht.sending.2 rfl
    cases hs : t.traffic.state.stage .handler with
    | ready call =>
      rw [hs] at hh
      obtain ⟨rfl, -⟩ := hh
      exact ⟨_, .send (.other (.notify hs) ht.missed nofun)⟩
    | _ =>
      rw [hs, hsending] at hh
      simp [HandlerAt] at hh
  | passed =>
    have hfull : t.traffic.state.channel.pending = true := by simp [ht.channel]
    have hreceived : t.received = false := ht.received
    cases hs : t.traffic.state.stage .listener with
    | idle =>
      rw [hs] at hl
      exact ⟨_, .wait hreceived (.other (.call hs .recv) hl nofun)⟩
    | ready call =>
      rw [hs] at hl
      obtain ⟨rfl, -, hm⟩ := hl
      exact ⟨_, .within rfl (.other (.register hs) hm nofun)⟩
    | registered woken =>
      cases hm : t.traffic.missed .listener with
      | false => exact ⟨_, .receive (.other (.recv hs hfull) hm nofun)⟩
      | true => exact ⟨_, .within rfl (.sleep hs hm)⟩
    | parked call =>
      rw [hs] at hl
      obtain ⟨rfl, -⟩ := hl
      -- Who sleeps over a signal has a wake-up to come, and only the handler can owe it.
      obtain ⟨task, howes⟩ := ht.owed .listener .recv (.inl hs) hfull
      cases task with
      | listener =>
        rw [hs] at howes
        cases howes
      | handler =>
        obtain ⟨hraised, -⟩ | ⟨hwaking, -⟩ | ⟨-, hnever⟩ := Fine.owes_cases howes
        · exact ⟨_, .within rfl (.other (.unparkSent hraised) ht.missed nofun)⟩
        · exact ⟨_, .within rfl (.other (.wake hwaking) ht.missed nofun)⟩
        · cases hnever
    | _ =>
      rw [hs, hreceived] at hl
      simp [ListenerAt] at hl
  | heard =>
    have hreceived : t.received = true := ht.received
    cases hs : t.traffic.state.stage .listener with
    | idle => exact ⟨_, .announce hreceived hs⟩
    | taken =>
      rw [hs] at hl
      exact ⟨_, .within rfl (.other (.unparkTaken hs) hl.2 nofun)⟩
    | _ =>
      rw [hs, hreceived] at hl
      simp [ListenerAt] at hl

end Tasks

end Daemon

end NodeConfig
