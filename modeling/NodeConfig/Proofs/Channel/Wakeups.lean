import Mathlib
import NodeConfig.Proofs.Channel.Calls
import NodeConfig.Proofs.Run

namespace NodeConfig

namespace Traffic

variable {ι : Type}

/-- A state, and which of the registered tasks have looked at the slot in vain. -/
structure Fine (ι : Type) where
  state : State ι
  missed : ι → Bool

def Fine.begin (c : Channel) : Fine ι := ⟨.begin c, fun _ => false⟩

def Event.thread : Event ι → ι
  | .call t _ | .notified t _ | .sent t _ | .received t _ | .park t | .register t | .retry t
  | .unpark t | .wake t | .stir t | .cancel t => t

variable [DecidableEq ι]

/-- One step, where a task that has looked in vain goes to sleep in a step of its own: only then
does it find out whether it was woken since it registered. -/
inductive Fine.Step (s : Fine ι) : Event ι → Fine ι → Prop
  | other {e : Event ι} {u : State ι} (h : Traffic.Step s.state e u)
      (hm : s.missed e.thread = false) (hr : ∀ t, e ≠ .retry t) : Step s e { s with state := u }
  | miss {t : ι} {woken : Bool} (h : s.state.stage t = .registered woken)
      (hm : s.missed t = false) (hp : s.state.channel.pending = false) :
      Step s (.retry t) { s with missed := Function.update s.missed t true }
  | sleep {t : ι} {woken : Bool} (h : s.state.stage t = .registered woken)
      (hm : s.missed t = true) :
      Step s (.park t)
        ⟨s.state.move t (if woken then .ready .recv else .parked .recv),
          Function.update s.missed t false⟩

def Event.outer : Event ι → Bool
  | .call _ _ => true
  | .stir _ => true
  | .cancel _ => true
  | _ => false

def Call.receives : Call → Bool
  | .tryRecv => true
  | .recvWithin _ => true
  | .recvBlocking => true
  | .recv => true
  | _ => false

def Stage.owes (c : Call) : Stage → Prop
  | .raised => c.receives = true
  | .waking => c = .recv
  | .taken => c.receives = false
  | _ => False

/-- A thread that sleeps in a call, or a task that will do so without looking again. -/
def Fine.Waits (s : Fine ι) (t : ι) (c : Call) : Prop :=
  s.state.stage t = .parked c ∨
    (c = .recv ∧ s.missed t = true ∧ s.state.stage t = .registered false)

/-- Who waits for what the slot already is has a wake-up to come. -/
def Fine.Owed (s : Fine ι) : Prop :=
  ∀ t c, s.Waits t c → s.state.channel.pending = c.receives → ∃ u, (s.state.stage u).owes c

namespace Fine

variable {s s' : Fine ι} {t : ι} {e : Event ι} {es : List (Event ι)}

omit [DecidableEq ι] in
theorem owed_of_kept (hi : s.Owed) (hp : s'.state.channel.pending = s.state.channel.pending)
    (h : ∀ t c, s'.Waits t c → s'.state.channel.pending = c.receives →
      s.Waits t c ∧ ∀ u, (s.state.stage u).owes c → (s'.state.stage u).owes c) : s'.Owed := by
  intro t c ht hc
  obtain ⟨hwaits, howes⟩ := h t c ht hc
  obtain ⟨u, hu⟩ := hi t c hwaits (hp ▸ hc)
  exact ⟨u, howes u hu⟩

/-- A thread that owes nothing may go on, if it does not go to sleep over what the slot is. -/
theorem owed_of_moved (hi : s.Owed) {before : Stage} (ht : s.state.stage t = before)
    (hbefore : ∀ c, ¬ before.owes c) (hm : s.missed t = false) {u : State ι} {stage : Stage}
    (hstage : u.stage = Function.update s.state.stage t stage)
    (hp : u.channel.pending = s.state.channel.pending)
    (hnew : ∀ c, stage = .parked c → s.state.channel.pending ≠ c.receives) :
    Owed { s with state := u } := by
  refine owed_of_kept hi hp fun v c hv hc => ⟨?_, fun w hw => ?_⟩
  · by_cases hvt : v = t
    · subst hvt
      rcases hv with hv | ⟨-, hv, -⟩
      · simp only [hstage, Function.update_self] at hv
        exact absurd (hp ▸ hc) (hnew c hv)
      · simp [hm] at hv
    · simpa only [Waits, hstage, Function.update_of_ne hvt] using hv
  · have hwt : w ≠ t := fun h => hbefore c (ht ▸ h ▸ hw)
    simpa only [hstage, Function.update_of_ne hwt] using hw

omit [DecidableEq ι] in
theorem owed_of_raised (ht : s.state.stage t = .raised) (hp : s.state.channel.pending = true) :
    s.Owed := by
  intro u c _ hc
  exact ⟨t, by rw [ht]; exact hc.symm.trans hp⟩

omit [DecidableEq ι] in
theorem owed_of_taken (ht : s.state.stage t = .taken) (hp : s.state.channel.pending = false) :
    s.Owed := by
  intro u c _ hc
  exact ⟨t, by rw [ht]; exact hc.symm.trans hp⟩

def Settles {α : Type} (c : Channel) (sent : Sent α) : Prop :=
  match sent.result with
  | .ok _ => sent.channel.pending = true
  | .error _ => sent.channel = c

theorem settles_trySend (c : Channel) : Settles c c.trySend := by
  obtain ⟨name, policy, pending⟩ := c
  cases pending <;> exact rfl

theorem settles_sendWithin (c : Channel) (ns : ℕ) : Settles c (c.sendWithin ns) := by
  obtain ⟨name, policy, pending⟩ := c
  cases pending <;> exact rfl

theorem settles_send (c : Channel) : Settles c c.send := by
  obtain ⟨name, policy, pending⟩ := c
  cases policy <;> cases pending <;> exact rfl

theorem owed_afterSend (hi : s.Owed) {c : Call} (ht : s.state.stage t = .ready c)
    (hm : s.missed t = false) {α : Type} {sent : Sent α}
    (hs : Settles s.state.channel sent) : Owed { s with state := s.state.afterSend t sent } := by
  unfold State.afterSend
  cases h : sent.result with
  | ok a =>
    have hpending : sent.channel.pending = true := by simpa [Settles, h] using hs
    exact owed_of_raised (t := t) (by simp [State.move]) hpending
  | error e =>
    have hchannel : sent.channel = s.state.channel := by simpa [Settles, h] using hs
    exact owed_of_moved hi ht (fun _ => id) hm rfl (by rw [hchannel]) nofun

theorem owed_afterReceive (hi : s.Owed) {before : Stage} (ht : s.state.stage t = before)
    (hbefore : ∀ c, ¬ before.owes c) (hm : s.missed t = false) :
    Owed { s with state := s.state.afterReceive t s.state.channel.receive } := by
  unfold State.afterReceive Channel.receive
  cases hp : s.state.channel.pending with
  | true => exact owed_of_taken (t := t) (by simp [State.move]) rfl
  | false => exact owed_of_moved hi ht hbefore hm rfl hp.symm nofun

theorem ne_receives_of_parks {c : Call} {channel : Channel} (h : c.parks channel = true) :
    channel.pending ≠ c.receives := by
  cases c <;> simp_all [Call.parks, Call.receives]

omit [DecidableEq ι] in
theorem unpark_eq_parked {stage : Stage} {c : Call} (h : stage.unpark = .parked c) :
    c = .recv ∧ stage = .parked .recv := by
  unfold Stage.unpark at h
  split at h
  · cases h
    exact ⟨rfl, rfl⟩
  · cases h
  · next hne => exact absurd h (hne _)

theorem unpark_eq_registered {stage : Stage} {woken : Bool} (h : stage.unpark = .registered woken) :
    stage = .registered woken := by
  unfold Stage.unpark at h
  split at h
  · cases h
  · cases h
  · exact h

theorem wake_eq_parked {stage : Stage} {c : Call} (h : stage.wake = .parked c) :
    c ≠ .recv ∧ stage = .parked c := by
  unfold Stage.wake at h
  split at h
  · cases h
  · cases h
  · next hne _ =>
    refine ⟨?_, h⟩
    rintro rfl
    exact hne h

theorem wake_ne_registered (stage : Stage) : stage.wake ≠ .registered false := by
  unfold Stage.wake
  split
  · simp
  · simp
  · next hne => exact hne false

theorem owes_cases {stage : Stage} {c : Call} (h : stage.owes c) :
    (stage = .raised ∧ c.receives = true) ∨ (stage = .waking ∧ c = .recv) ∨
      (stage = .taken ∧ c.receives = false) := by
  cases stage with
  | raised => exact .inl ⟨rfl, h⟩
  | waking => exact .inr (.inl ⟨rfl, h⟩)
  | taken => exact .inr (.inr ⟨rfl, h⟩)
  | _ => cases h

theorem owes_unpark {stage : Stage} {c : Call} (h : stage.owes c) : stage.unpark.owes c := by
  rcases owes_cases h with ⟨rfl, _⟩ | ⟨rfl, _⟩ | ⟨rfl, _⟩ <;> exact h

theorem owes_wake {stage : Stage} {c : Call} (h : stage.owes c) : stage.wake.owes c := by
  rcases owes_cases h with ⟨rfl, _⟩ | ⟨rfl, _⟩ | ⟨rfl, _⟩ <;> exact h

/-- Who waits after a thread has changed the stages of all others, but does not wait itself. -/
theorem waits_of_changed {g : Stage → Stage} {stage : Stage} {u : ι} {c : Call}
    (h : Waits ⟨State.move { s.state with stage := fun v => g (s.state.stage v) } t stage,
      s.missed⟩ u c) (hparked : stage ≠ .parked c) (hregistered : stage ≠ .registered false) :
    g (s.state.stage u) = .parked c ∨
      (c = .recv ∧ s.missed u = true ∧ g (s.state.stage u) = .registered false) := by
  have hut : u ≠ t := by
    rintro rfl
    rcases h with h | ⟨-, -, h⟩
    · exact hparked (by simpa [State.move] using h)
    · exact hregistered (by simpa [State.move] using h)
  simpa [Waits, State.move, hut] using h

/-- After all threads were unparked only tasks wait, and they did before. -/
theorem waits_of_unpark {stage : Stage} {u : ι} {c : Call}
    (h : Waits ⟨State.move { s.state with stage := fun v => (s.state.stage v).unpark } t stage,
      s.missed⟩ u c) (hparked : stage ≠ .parked c) (hregistered : stage ≠ .registered false) :
    c = .recv ∧ s.Waits u c := by
  rcases waits_of_changed h hparked hregistered with h | ⟨hc, hm, h⟩
  · obtain ⟨rfl, hstage⟩ := unpark_eq_parked h
    exact ⟨rfl, .inl hstage⟩
  · exact ⟨hc, .inr ⟨hc, hm, unpark_eq_registered h⟩⟩

/-- After all tasks were woken only threads wait, and they did before. -/
theorem waits_of_wake {stage : Stage} {u : ι} {c : Call}
    (h : Waits ⟨State.move { s.state with stage := fun v => (s.state.stage v).wake } t stage,
      s.missed⟩ u c) (hparked : stage ≠ .parked c) (hregistered : stage ≠ .registered false) :
    c ≠ .recv ∧ s.Waits u c := by
  rcases waits_of_changed h hparked hregistered with h | ⟨-, -, h⟩
  · obtain ⟨hc, hstage⟩ := wake_eq_parked h
    exact ⟨hc, .inl hstage⟩
  · exact absurd h (wake_ne_registered _)

/-- Every step keeps it. -/
theorem Owed.step (hi : s.Owed) (h : Step s e s') : s'.Owed := by
  cases h with
  | other h hm hr =>
    cases h with
    | call h c => exact owed_of_moved hi h (fun _ => id) hm rfl rfl nofun
    | notify h => exact owed_afterSend hi h hm (settles_send _)
    | tryNotify h => exact owed_afterSend hi h hm (settles_trySend _)
    | notifyWithin h => exact owed_afterSend hi h hm (settles_sendWithin _ _)
    | tryRecv h => exact owed_afterReceive hi h (fun _ => id) hm
    | recvWithin h => exact owed_afterReceive hi h (fun _ => id) hm
    | recvBlocking h hp => exact owed_afterReceive hi h (fun _ => id) hm
    | recv h hp => exact owed_afterReceive hi h (fun _ => id) hm
    | park h hp =>
      refine owed_of_moved hi h (fun _ => id) hm rfl rfl ?_
      rintro c ⟨⟩
      exact ne_receives_of_parks hp
    | register h => exact owed_of_moved hi h (fun _ => id) hm rfl rfl nofun
    | retry h hp => exact absurd rfl (hr _)
    | @unparkSent t h =>
      -- Only tasks sleep still, and these the sender wakes next.
      intro u c hu _
      have hc : c = .recv := (waits_of_unpark hu nofun nofun).1
      exact ⟨t, by simpa [State.move, Stage.owes] using hc⟩
    | @unparkTaken t h =>
      -- Only tasks sleep still, and who took a signal does not owe them anything.
      refine owed_of_kept hi rfl fun u c hu hp => ?_
      obtain ⟨rfl, hwaits⟩ := waits_of_unpark hu nofun nofun
      refine ⟨hwaits, fun v hv => ?_⟩
      have hvt : v ≠ t := by
        rintro rfl
        simp [h, Stage.owes, Call.receives] at hv
      simpa [State.move, hvt] using owes_unpark hv
    | @wake t h =>
      refine owed_of_kept hi rfl fun u c hu hp => ?_
      obtain ⟨hc, hwaits⟩ := waits_of_wake hu nofun nofun
      refine ⟨hwaits, fun v hv => ?_⟩
      have hvt : v ≠ t := by
        rintro rfl
        simp [h, Stage.owes, hc] at hv
      simpa [State.move, hvt] using owes_wake hv
    | stir h hc => exact owed_of_moved hi h (fun _ => id) hm rfl rfl nofun
    | cancel h =>
      rcases h with h | h
      · exact owed_of_moved hi h (fun _ => id) hm rfl rfl nofun
      · exact owed_of_moved hi h (fun _ => id) hm rfl rfl nofun
  | @miss t woken h hm hp =>
    refine owed_of_kept hi rfl fun u c hu hc => ⟨?_, fun v hv => hv⟩
    rcases hu with hu | ⟨rfl, -, hu⟩
    · exact .inl hu
    · simp [hp, Call.receives] at hc
  | @sleep t woken h hm =>
    refine owed_of_kept hi rfl fun u c hu hc => ⟨?_, fun v hv => ?_⟩
    · by_cases hut : u = t
      · -- A task that was not woken in between waited already, and is owed what it was.
        subst hut
        rcases hu with hu | ⟨-, hu, -⟩
        · cases woken
          · have hcall : c = .recv := by simpa [State.move, eq_comm] using hu
            exact .inr ⟨hcall, hm, h⟩
          · simp [State.move] at hu
        · simp at hu
      · simpa [Waits, State.move, hut] using hu
    · have hvt : v ≠ t := by
        rintro rfl
        simp [h, Stage.owes] at hv
      simpa [State.move, hvt] using hv

omit [DecidableEq ι] in
theorem owed_begin (c : Channel) : (begin c : Fine ι).Owed := by
  rintro t call (h | ⟨-, h, -⟩)
  · cases h
  · cases h

/-- What a step of one thread does to the stage of another. -/
theorem stage_of_step {a b : State ι} (h : Traffic.Step a e b) {u : ι} (hu : u ≠ e.thread) :
    b.stage u = a.stage u ∨ b.stage u = (a.stage u).unpark ∨ b.stage u = (a.stage u).wake := by
  cases h with
  | unparkSent => exact .inr (.inl (Function.update_of_ne hu _ _))
  | unparkTaken => exact .inr (.inl (Function.update_of_ne hu _ _))
  | wake => exact .inr (.inr (Function.update_of_ne hu _ _))
  | _ => exact .inl (Function.update_of_ne hu _ _)

/-- A task that has looked in vain is registered. -/
theorem Step.registered (h : Step s e s')
    (hs : ∀ u, s.missed u = true → ∃ woken, s.state.stage u = .registered woken) (u : ι)
    (hu : s'.missed u = true) : ∃ woken, s'.state.stage u = .registered woken := by
  cases h with
  | other h hm hr =>
    have hne : u ≠ e.thread := by
      rintro rfl
      rw [hm] at hu
      cases hu
    obtain ⟨woken, hstage⟩ := hs u hu
    rcases stage_of_step h hne with h | h | h
    · exact ⟨woken, h.trans hstage⟩
    · exact ⟨woken, by rw [h, hstage]; rfl⟩
    · exact ⟨true, by rw [h, hstage]; rfl⟩
  | @miss t woken h hm hp =>
    by_cases hut : u = t
    · exact ⟨woken, hut ▸ h⟩
    · exact hs u (by simpa [hut] using hu)
  | @sleep t woken h hm =>
    have hut : u ≠ t := by
      rintro rfl
      simp at hu
    simpa [State.move, hut] using hs u (by simpa [hut] using hu)

/-- A thread in a call goes on by itself, unless it sleeps. -/
theorem exists_step (hs : ∀ u, s.missed u = true → ∃ woken, s.state.stage u = .registered woken)
    {u : ι} (hidle : s.state.stage u ≠ .idle) (hparked : ∀ c, s.state.stage u ≠ .parked c) :
    ∃ e s', Step s e s' ∧ e.outer = false := by
  by_cases hm : s.missed u = true
  · obtain ⟨woken, hstage⟩ := hs u hm
    exact ⟨.park u, _, .sleep hstage hm, rfl⟩
  rw [Bool.not_eq_true] at hm
  cases hstage : s.state.stage u with
  | idle => exact absurd hstage hidle
  | parked c => exact absurd hstage (hparked c)
  | raised => exact ⟨.unpark u, _, .other (.unparkSent hstage) hm nofun, rfl⟩
  | waking => exact ⟨.wake u, _, .other (.wake hstage) hm nofun, rfl⟩
  | taken => exact ⟨.unpark u, _, .other (.unparkTaken hstage) hm nofun, rfl⟩
  | registered woken =>
    cases hp : s.state.channel.pending with
    | true => exact ⟨.received u _, _, .other (.recv hstage hp) hm nofun, rfl⟩
    | false => exact ⟨.retry u, _, .miss hstage hm hp, rfl⟩
  | ready c =>
    cases c with
    | notify => exact ⟨.notified u _, _, .other (.notify hstage) hm nofun, rfl⟩
    | tryNotify => exact ⟨.sent u _, _, .other (.tryNotify hstage) hm nofun, rfl⟩
    | notifyWithin ns => exact ⟨.sent u _, _, .other (.notifyWithin hstage) hm nofun, rfl⟩
    | tryRecv => exact ⟨.received u _, _, .other (.tryRecv hstage) hm nofun, rfl⟩
    | recvWithin ns => exact ⟨.received u _, _, .other (.recvWithin hstage) hm nofun, rfl⟩
    | recv => exact ⟨.register u, _, .other (.register hstage) hm nofun, rfl⟩
    | recvBlocking =>
      cases hp : s.state.channel.pending with
      | true => exact ⟨.received u _, _, .other (.recvBlocking hstage hp) hm nofun, rfl⟩
      | false =>
        have hparks : Call.recvBlocking.parks s.state.channel = true := by simp [Call.parks, hp]
        exact ⟨.park u, _, .other (.park hstage hparks) hm nofun, rfl⟩

/-- Every run of the system in which looking and going to sleep are one step is a run here. -/
theorem exists_run {c : Channel} {a : State ι} (h : Run Traffic.Step (.begin c) es a) :
    ∃ fs, Run Step (.begin c) fs ⟨a, fun _ => false⟩ := by
  induction h with
  | start => exact ⟨[], .start⟩
  | @step es e u v _ hstep ih =>
    obtain ⟨fs, hrun⟩ := ih
    by_cases hr : ∀ t, e ≠ .retry t
    · exact ⟨_, hrun.step (.other hstep rfl hr)⟩
    · -- It looks in vain, and sleeps right after that.
      obtain ⟨t, rfl⟩ := not_forall_not.1 hr
      cases hstep with
      | retry h hp =>
        have hasleep := (hrun.step (.miss h rfl hp)).step (.sleep h (Function.update_self ..))
        rw [Function.update_idem, Function.update_eq_self] at hasleep
        exact ⟨_, hasleep⟩

/-- While somebody sleeps over a signal that is there, a sender has still to wake them; while
somebody sleeps over an empty slot that they want to fill, a receiver has. So when no step is left
but those that need not come, all are at rest, or sleep over what the slot is not. -/
theorem wakeup_to_come {c : Channel} (h : Run Step (.begin c) es s) :
    (s.state.channel.pending = true → ∀ t call, s.state.stage t = .parked call →
      call.receives = true → ∃ u, s.state.stage u = .raised ∨
        (call = .recv ∧ s.state.stage u = .waking)) ∧
    (s.state.channel.pending = false → ∀ t call, s.state.stage t = .parked call →
      call.receives = false → ∃ u, s.state.stage u = .taken) ∧
    ((∀ e s', Step s e s' → e.outer = true) → ∀ t, s.state.stage t = .idle ∨
      ∃ call, s.state.stage t = .parked call ∧ s.state.channel.pending ≠ call.receives) := by
  have howed : s.Owed := h.keeps (fun _ _ _ hs hstep => hs.step hstep) (owed_begin c)
  have hregistered : ∀ u, s.missed u = true → ∃ woken, s.state.stage u = .registered woken :=
    h.keeps (P := fun s => ∀ u, s.missed u = true → ∃ woken, s.state.stage u = .registered woken)
      (fun _ _ _ hs hstep => hstep.registered hs) nofun
  refine ⟨?_, ?_, ?_⟩
  · intro hp t call ht hc
    obtain ⟨u, hu⟩ := howed t call (.inl ht) (hp.trans hc.symm)
    rcases owes_cases hu with ⟨hstage, -⟩ | ⟨hstage, hcall⟩ | ⟨-, hno⟩
    · exact ⟨u, .inl hstage⟩
    · exact ⟨u, .inr ⟨hcall, hstage⟩⟩
    · rw [hc] at hno
      cases hno
  · intro hp t call ht hc
    obtain ⟨u, hu⟩ := howed t call (.inl ht) (hp.trans hc.symm)
    rcases owes_cases hu with ⟨-, hno⟩ | ⟨-, rfl⟩ | ⟨hstage, -⟩
    · rw [hc] at hno
      cases hno
    · cases hc
    · exact ⟨u, hstage⟩
  · intro hstuck t
    -- Nobody can go on, so nobody has a wake-up to perform.
    have hrest : ∀ u, s.state.stage u = .idle ∨ ∃ call, s.state.stage u = .parked call := by
      intro u
      by_contra! hu
      obtain ⟨e, s', hstep, he⟩ := exists_step hregistered hu.1 hu.2
      rw [hstuck e s' hstep] at he
      cases he
    refine (hrest t).imp_right fun ⟨call, ht⟩ => ⟨call, ht, fun hp => ?_⟩
    obtain ⟨u, hu⟩ := howed t call (.inl ht) hp
    rcases hrest u with hstage | ⟨other, hstage⟩ <;> rw [hstage] at hu <;> exact hu

/-- A task finds the slot empty, the signal comes before it sleeps, and the sender has still to wake
it. -/
theorem wakeup_to_come_between : ∃ (es : List (Event ℕ)) (s : Fine ℕ),
    Run Step (.begin (.make "bootstrap_key" (.block 5))) es s ∧
      s.state.channel.pending = true ∧ s.state.stage 0 = .parked .recv ∧
      ∃ u, s.state.stage u = .raised ∨ s.state.stage u = .waking := by
  have hbegin : Run Step (.begin (.make "bootstrap_key" (.block 5)) : Fine ℕ) [] _ := .start
  have hmissed := ((hbegin.step (.other (.call (t := 0) rfl .recv) rfl nofun)).step
    (.other (.register (t := 0) rfl) rfl nofun)).step (.miss (t := 0) rfl rfl rfl)
  have hsent := ((hmissed.step (.other (.call (t := 1) rfl .tryNotify) rfl nofun)).step
    (.other (.tryNotify (t := 1) rfl) rfl nofun)).step (.other (.unparkSent (t := 1) rfl) rfl nofun)
  have hasleep := hsent.step (.sleep (t := 0) rfl rfl)
  obtain ⟨u, hu⟩ := (wakeup_to_come hasleep).1 rfl 0 .recv rfl rfl
  exact ⟨_, _, hasleep, rfl, rfl, u, hu.imp_right And.right⟩

end Fine

end Traffic

end NodeConfig
