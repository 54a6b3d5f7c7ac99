import Mathlib
import NodeConfig.Proofs.Session.Provenance

namespace NodeConfig

instance : Fintype LoadSource where
  elems := {.file, .empty, .default, .ephemeral}
  complete source := by cases source <;> decide

instance : Fintype SendResult where
  elems := {.delivered, .coalesced, .full, .timeout}
  complete result := by cases result <;> decide

/-! ### Channels of a store -/

namespace Channel

variable {c : Channel} {ns : ℕ}

theorem raise_of_pending (hp : c.pending = true) : c.raise = c := by
  obtain ⟨name, policy, pending⟩ := c
  cases hp
  rfl

/-- However a send ends, the slot is full after it. -/
theorem channel_send (c : Channel) : c.send.channel = c.raise := by
  cases hpolicy : c.policy <;> cases hp : c.pending <;>
    simp [send, sendWithin, coalesce, hpolicy, hp, raise_of_pending]

/-- A send that waits fails over a signal that nobody takes. -/
theorem result_send_of_block (hc : c.policy = .block ns) :
    c.send.result = if c.pending then .error (.timeout ns) else .ok .delivered := by
  cases hp : c.pending <;> simp [send, hc, sendWithin, hp, Except.map]

/-- A send that merges never fails. -/
theorem result_send_of_coalesce (hc : c.policy = .coalesce) :
    c.send.result = .ok (if c.pending then .coalesced else .delivered) := by
  cases hp : c.pending <;> simp [send, hc, coalesce, hp]

/-- A send past the counters fails over a pending signal. -/
theorem trySend_eq (c : Channel) :
    c.trySend = ⟨if c.pending then .error .full else .ok (), c.raise, .nothing⟩ := by
  cases hp : c.pending <;> simp [trySend, hp, raise_of_pending]

end Channel

/-- The channels have the names and policies that stores are made with. -/
structure Store.Wired (s : Store) : Prop where
  keyName : s.keyChanged.name = "bootstrap_key"
  keyPolicy : ∃ ns, s.keyChanged.policy = .block ns
  restartName : s.restart.name = "restart"
  restartPolicy : s.restart.policy = .coalesce

theorem Store.channels_load (s : Store) (w : World) (schema : Bytes) (host : String) (port : ℕ) :
    (s.load w schema host port).store.keyChanged = s.keyChanged ∧
      (s.load w schema host port).store.restart = s.restart := by
  obtain ⟨fault, -, hload⟩ | ⟨base, hbase, ⟨p, fault, -, -, hload⟩ | ⟨x, hx, -⟩⟩ :=
    s.load_cases w schema host port
  · simp [hload]
  · simp [hload]
  · have hloaded := Store.loaded_of_kept hbase hx host port
    exact ⟨hloaded.keyChanged, hloaded.restart⟩

theorem Store.wired_make (timeout : ℕ) : (Store.make timeout).Wired :=
  ⟨rfl, ⟨timeout, rfl⟩, rfl, rfl⟩

/-- Whether a change of the key fails is up to its announcement alone. -/
theorem Store.result_changeKey (s : Store) (w : World) (key : String) :
    (s.changeKey w key).result = s.keyChanged.send.result.map fun _ => () := by
  have hstore := (s.setKey key).store_save w
  simp only [changeKey, reloadKey, hstore]
  rfl

/-! ### Calls -/

/-- Whether a save ends well. Without a path there is none. -/
def Store.savedWell? (s : Store) (w : World) : Option Bool :=
  s.options.snapshotPath.map fun _ => (s.save w).result.isOk

structure Call where
  store : Store
  world : World
  action : Action
  answer : Answer

namespace Call

def loaded (c : Call) : Bool :=
  match c.action, c.answer with
  | .load _ _ _, .config (.ok _) => true
  | _, _ => false

/-- Whether the save of a call ended well. A change of the key stores the key before it saves;
without a path nothing is saved. -/
def saved? (c : Call) : Option Bool :=
  match c.action with
  | .save => c.store.savedWell? c.world
  | .changeKey key => (c.store.setKey key).savedWell? c.world
  | _ => none

def sent? (c : Call) : Option (String × SendResult) :=
  match c.action with
  | .changeKey _ => some (c.store.keyChanged.name, Channel.counted c.store.keyChanged.send.result)
  | .reloadKey => some (c.store.keyChanged.name, Channel.counted c.store.keyChanged.send.result)
  | .requestRestart => some (c.store.restart.name, Channel.counted c.store.restart.send.result)
  | _ => none

def restarts (c : Call) : Bool :=
  match c.action with
  | .requestRestart => true
  | _ => false

def announces (c : Call) : Bool :=
  match c.action with
  | .changeKey _ => true
  | .reloadKey => true
  | _ => false

def announcesInVain (c : Call) : Bool :=
  match c.answer with
  | .sent (.error _) => c.announces
  | _ => false

/-- An announcement past the counters that did not find the slot full. -/
def announcesUncounted (c : Call) : Bool :=
  match c.action, c.answer with
  | .tryAnnounce, .sent (.ok _) => true
  | _, _ => false

def takesKey (c : Call) : Bool :=
  match c.action, c.answer with
  | .receiveKey, .received b => b
  | _, _ => false

def takesRestart (c : Call) : Bool :=
  match c.action, c.answer with
  | .receiveRestart, .received b => b
  | _, _ => false

def leavesKey (c : Call) : Bool :=
  match c.action with
  | .changeKey _ => true
  | .reloadKey => true
  | .tryAnnounce => true
  | .receiveKey => false
  | _ => c.store.keyChanged.pending

def leavesRestart (c : Call) : Bool :=
  match c.action with
  | .requestRestart => true
  | .receiveRestart => false
  | _ => c.store.restart.pending

end Call

namespace Session

def call (t : Session) (s : Store) (a : Action) : Call := ⟨s, t.world, a, (t.act s a).result⟩

def callAt (t : Session) (i : ℕ) (a : Action) : List Call :=
  (t.stores[i]?.map (t.call · a)).toList

def calls (t : Session) : List (ℕ × Action) → List Call
  | [] => []
  | (i, a) :: rest => t.callAt i a ++ (t.perform i a).2.2.calls rest

variable {t : Session} {s : Store} {a : Action}

theorem keyChanged_act (t : Session) (s : Store) (a : Action) :
    (t.act s a).store.keyChanged = { s.keyChanged with pending := (t.call s a).leavesKey } := by
  cases a with
  | load schema host port => exact (s.channels_load t.world schema host port).1
  | save => exact congrArg Store.keyChanged (s.store_save t.world)
  | changeKey key =>
    have hstore := congrArg Store.keyChanged (s.changeKey_eq t.world key).1
    exact hstore.trans s.keyChanged.channel_send
  | reloadKey => exact s.keyChanged.channel_send
  | tryAnnounce => exact congrArg Sent.channel s.keyChanged.trySend_eq
  | _ => rfl

theorem restart_act (t : Session) (s : Store) (a : Action) :
    (t.act s a).store.restart = { s.restart with pending := (t.call s a).leavesRestart } := by
  cases a with
  | load schema host port => exact (s.channels_load t.world schema host port).2
  | save => exact congrArg Store.restart (s.store_save t.world)
  | changeKey key =>
    have hstore := congrArg Store.restart (s.changeKey_eq t.world key).1
    exact hstore
  | requestRestart => exact s.restart.channel_send
  | _ => rfl

theorem wired_act (t : Session) (hs : s.Wired) (a : Action) : (t.act s a).store.Wired := by
  constructor <;> simp only [keyChanged_act, restart_act]
  exacts [hs.keyName, hs.keyPolicy, hs.restartName, hs.restartPolicy]

/-- An announcement fails over one that is pending. -/
theorem answer_of_announces (hs : s.Wired) (ha : (t.call s a).announces = true) :
    ∃ ns, (t.call s a).answer =
      .sent (if s.keyChanged.pending then .error (.timeout ns) else .ok ()) := by
  obtain ⟨ns, hpolicy⟩ := hs.keyPolicy
  have hresult : (s.keyChanged.send.result.map fun _ => ()) =
      if s.keyChanged.pending then .error (.timeout ns) else .ok () := by
    rw [Channel.result_send_of_block hpolicy]
    split <;> rfl
  refine ⟨ns, ?_⟩
  cases a with
  | changeKey key => exact congrArg Answer.sent ((s.result_changeKey t.world key).trans hresult)
  | reloadKey => exact congrArg Answer.sent hresult
  | _ => cases ha

/-! ### What one call counts -/

def counters (sources : List LoadSource) (oks : List Bool) (sends : List (String × SendResult)) :
    Metrics :=
  sources.map .load ++ oks.map .save ++ sends.map (Function.uncurry .send)

section

variable (sources : List LoadSource) (oks : List Bool) (sends : List (String × SendResult))

theorem count_load_counters (source : LoadSource) :
    (counters sources oks sends).count (.load source) = sources.count source := by
  have hsave : (oks.map Counter.save).count (.load source) = 0 := List.count_eq_zero.2 (by simp)
  have hsend : (sends.map (Function.uncurry Counter.send)).count (.load source) = 0 :=
    List.count_eq_zero.2 (by simp)
  have hload : Function.Injective Counter.load := fun _ _ h => Counter.load.inj h
  rw [counters, List.count_append, List.count_append, hsave, hsend, add_zero, add_zero,
    List.count_map_of_injective _ _ hload]

theorem count_save_counters (ok : Bool) :
    (counters sources oks sends).count (.save ok) = oks.count ok := by
  have hload : (sources.map Counter.load).count (.save ok) = 0 := List.count_eq_zero.2 (by simp)
  have hsend : (sends.map (Function.uncurry Counter.send)).count (.save ok) = 0 :=
    List.count_eq_zero.2 (by simp)
  have hsave : Function.Injective Counter.save := fun _ _ h => Counter.save.inj h
  rw [counters, List.count_append, List.count_append, hload, hsend, zero_add, add_zero,
    List.count_map_of_injective _ _ hsave]

theorem count_send_counters (name : String) (result : SendResult) :
    (counters sources oks sends).count (.send name result) = sends.count (name, result) := by
  have hload : (sources.map Counter.load).count (.send name result) = 0 :=
    List.count_eq_zero.2 (by simp)
  have hsave : (oks.map Counter.save).count (.send name result) = 0 :=
    List.count_eq_zero.2 (by simp)
  have hsend : Function.Injective (Function.uncurry Counter.send) := by
    rintro ⟨n, r⟩ ⟨n', r'⟩ h
    cases h
    rfl
  rw [counters, List.count_append, List.count_append, hload, hsave, zero_add, zero_add,
    ← List.count_map_of_injective _ _ hsend]
  rfl

end

/-- A load counts once if it ends well, and otherwise not. -/
theorem counts_load (s : Store) (w : World) (schema : Bytes) (host : String) (port : ℕ) :
    ∃ sources : List LoadSource,
      sources.length = (s.load w schema host port).result.isOk.toNat ∧
        (s.load w schema host port).report.counts = sources.map .load := by
  obtain ⟨fault, -, hload⟩ | ⟨base, hbase, ⟨p, fault, -, -, hload⟩ | ⟨x, hx, -⟩⟩ :=
    s.load_cases w schema host port
  · exact ⟨[], by rw [hload]; rfl, by rw [hload]; rfl⟩
  · exact ⟨[], by rw [hload]; rfl, by rw [hload]; rfl⟩
  · obtain ⟨report, hload, ⟨source, hcounts⟩, -⟩ := Store.load_eq_of_kept hbase hx host port
    exact ⟨[source], by rw [hload]; rfl, by rw [hload]; exact hcounts⟩

/-- A save counts how it ended, if there is one. -/
theorem counts_save (s : Store) (w : World) :
    (s.save w).report.counts = (s.savedWell? w).toList.map .save := by
  obtain ⟨hp, hsave⟩ | ⟨p, hp, ⟨-, e, hsave⟩ | ⟨d, t, name, hr, event, -, hsave⟩⟩ :=
    s.save_cases w
  all_goals
    rw [Store.savedWell?, hp, hsave]
    rfl

/-- What a call counts: a load that ended well, a save with a path, and a send. -/
theorem counts_act (t : Session) (s : Store) (a : Action) :
    ∃ sources : List LoadSource, sources.length = (t.call s a).loaded.toNat ∧
      (t.act s a).report.counts =
        counters sources (t.call s a).saved?.toList (t.call s a).sent?.toList := by
  cases a with
  | load schema host port =>
    obtain ⟨sources, hlength, hcounts⟩ := counts_load s t.world schema host port
    refine ⟨sources, hlength.trans ?_, hcounts.trans ?_⟩
    · rw [Call.loaded, call, act, Step.map]
      cases (s.load t.world schema host port).result <;> rfl
    · simp [counters, Call.saved?, Call.sent?, call]
  | save =>
    refine ⟨[], rfl, (counts_save s t.world).trans ?_⟩
    simp [counters, Call.saved?, Call.sent?, call]
  | changeKey key =>
    refine ⟨[], rfl, (s.changeKey_eq t.world key).2.2.trans ?_⟩
    rw [counts_save, Channel.counts_send]
    rfl
  | applyDefaults => exact ⟨[], rfl, (s.identity.report_withDefaults t.world.names).1⟩
  | reloadKey => exact ⟨[], rfl, Channel.counts_send _⟩
  | requestRestart => exact ⟨[], rfl, Channel.counts_send _⟩
  | tryAnnounce => exact ⟨[], rfl, congrArg (·.report.counts) s.keyChanged.trySend_eq⟩
  | _ => exact ⟨[], rfl, rfl⟩

/-! ### Accounts -/

/-- An account that every call leaves balanced: what was counted, and given past the counters,
against what was taken and what the stores hold. -/
structure Balanced (measure : Metrics → ℕ) (given taken : Call → Bool) (held : Store → Bool) :
    Prop where
  append : ∀ m n, measure (m ++ n) = measure m + measure n
  act : ∀ (t : Session) (s : Store) (a : Action), s.Wired →
    measure (t.act s a).report.counts + [t.call s a].countP given + [s].countP held =
      [t.call s a].countP taken + [(t.act s a).store].countP held

variable {measure : Metrics → ℕ} {given taken : Call → Bool} {held : Store → Bool}

theorem Balanced.nil (h : Balanced measure given taken held) : measure [] = 0 := by
  have happend := h.append [] []
  rw [List.append_nil] at happend
  omega

theorem Balanced.perform (h : Balanced measure given taken held) (ht : ∀ s ∈ t.stores, s.Wired)
    (i : ℕ) (a : Action) :
    measure (t.perform i a).2.1.counts + (t.callAt i a).countP given + t.stores.countP held =
      (t.callAt i a).countP taken + (t.perform i a).2.2.stores.countP held := by
  cases hs : t.stores[i]? with
  | none => simp [callAt, hs, perform_of_none hs, h.nil]
  | some s =>
    obtain ⟨hi, rfl⟩ := List.getElem?_eq_some_iff.1 hs
    have hact := h.act t t.stores[i] a (ht _ (List.getElem_mem hi))
    have hheld := List.boole_getElem_le_countP (p := held) hi
    rw [List.countP_singleton, List.countP_singleton] at hact
    simp only [perform_of_some hs, callAt, hs, Option.map_some, Option.toList_some,
      List.countP_set hi, List.countP_singleton] at hact ⊢
    omega

theorem wired_perform (ht : ∀ s ∈ t.stores, s.Wired) (i : ℕ) (a : Action) :
    ∀ s ∈ (t.perform i a).2.2.stores, s.Wired := by
  cases hs : t.stores[i]? with
  | none => rwa [perform_of_none hs]
  | some s =>
    rw [perform_of_some hs]
    intro r hr
    rcases List.mem_or_eq_of_mem_set hr with hr | rfl
    · exact ht r hr
    · exact wired_act t (ht s (List.mem_of_getElem? hs)) a

/-- What every call leaves balanced, a run does. -/
theorem Balanced.run (h : Balanced measure given taken held) (ht : ∀ s ∈ t.stores, s.Wired)
    (acts : List (ℕ × Action)) :
    measure (t.run acts).2.1.counts + (t.calls acts).countP given + t.stores.countP held =
      (t.calls acts).countP taken + (t.run acts).2.2.stores.countP held := by
  induction acts generalizing t with
  | nil => simp [Session.run, calls, h.nil]
  | cons act rest ih =>
    obtain ⟨i, a⟩ := act
    have hfirst := h.perform ht i a
    have hrest := ih (wired_perform ht i a)
    have hcounts : (t.run ((i, a) :: rest)).2.1.counts =
        (t.perform i a).2.1.counts ++ ((t.perform i a).2.2.run rest).2.1.counts := rfl
    have hstores : (t.run ((i, a) :: rest)).2.2 = ((t.perform i a).2.2.run rest).2.2 := rfl
    simp only [hcounts, hstores, calls, h.append, List.countP_append]
    omega

theorem sum_count {κ : Type} [Fintype κ] [DecidableEq κ] (ks : List κ) :
    ∑ k, ks.count k = ks.length := by
  induction ks with
  | nil => simp
  | cons k ks ih => simp [List.count_cons, Finset.sum_add_distrib, ih]

theorem balanced_loads : Balanced (fun m => ∑ source, m.count (.load source)) (fun _ => false)
    Call.loaded (fun _ => false) where
  append m n := by simp [Finset.sum_add_distrib]
  act t s a _ := by
    obtain ⟨sources, hlength, hcounts⟩ := t.counts_act s a
    simp only [hcounts, count_load_counters, sum_count, hlength]
    cases h : (t.call s a).loaded <;> simp [h]

theorem balanced_saves (ok : Bool) : Balanced (fun m => m.count (.save ok)) (fun _ => false)
    (·.saved? = some ok) (fun _ => false) where
  append m n := by simp
  act t s a _ := by
    obtain ⟨sources, -, hcounts⟩ := t.counts_act s a
    simp only [hcounts, count_save_counters]
    cases h : (t.call s a).saved? <;> simp [h, List.count_singleton]

/-- A send is counted under one result. -/
theorem sum_count_sent (name : String) (sent : Option (String × SendResult)) :
    ∑ result, sent.toList.count (name, result) = if sent.any (·.1 = name) then 1 else 0 := by
  rcases sent with _ | ⟨other, result⟩
  · simp
  · by_cases h : other = name <;> simp [List.count_singleton, h]

theorem balanced_restarts : Balanced (fun m => ∑ result, m.count (.send "restart" result))
    (fun _ => false) Call.restarts (fun _ => false) where
  append m n := by simp [Finset.sum_add_distrib]
  act t s a hs := by
    obtain ⟨sources, -, hcounts⟩ := t.counts_act s a
    simp only [hcounts, count_send_counters, sum_count_sent]
    cases a <;> simp [call, Call.sent?, Call.restarts, hs.keyName, hs.restartName]

theorem balanced_announcements :
    Balanced (fun m => ∑ result, m.count (.send "bootstrap_key" result)) (fun _ => false)
      Call.announces (fun _ => false) where
  append m n := by simp [Finset.sum_add_distrib]
  act t s a hs := by
    obtain ⟨sources, -, hcounts⟩ := t.counts_act s a
    simp only [hcounts, count_send_counters, sum_count_sent]
    cases a <;> simp [call, Call.sent?, Call.announces, hs.keyName, hs.restartName]

theorem sent?_of_announces (hs : s.Wired) (ha : (t.call s a).announces = true) :
    (t.call s a).sent? = some ("bootstrap_key",
      if s.keyChanged.pending then .timeout else .delivered) := by
  obtain ⟨ns, hpolicy⟩ := hs.keyPolicy
  have hcounted : Channel.counted s.keyChanged.send.result =
      if s.keyChanged.pending then .timeout else .delivered := by
    rw [Channel.result_send_of_block hpolicy]
    split <;> rfl
  cases a with
  | changeKey key => simp [call, Call.sent?, hs.keyName, hcounted]
  | reloadKey => simp [call, Call.sent?, hs.keyName, hcounted]
  | _ => cases ha

/-- Only announcements are counted as sends of the key. -/
theorem announces_of_sent? (hs : s.Wired) {result : SendResult}
    (h : (t.call s a).sent? = some ("bootstrap_key", result)) : (t.call s a).announces = true := by
  cases a <;> simp_all [call, Call.sent?, Call.announces, hs.restartName]

theorem balanced_timeouts : Balanced (fun m => m.count (.send "bootstrap_key" .timeout))
    (fun _ => false) Call.announcesInVain (fun _ => false) where
  append m n := by simp
  act t s a hs := by
    obtain ⟨sources, -, hcounts⟩ := t.counts_act s a
    simp only [hcounts, count_send_counters]
    cases ha : (t.call s a).announces with
    | true =>
      obtain ⟨ns, hanswer⟩ := answer_of_announces hs ha
      cases hp : s.keyChanged.pending <;>
        simp [sent?_of_announces hs ha, Call.announcesInVain, ha, hanswer, hp]
    | false =>
      have hsent : ("bootstrap_key", SendResult.timeout) ∉ (t.call s a).sent?.toList := fun h => by
        simp [announces_of_sent? hs (Option.mem_toList.1 h)] at ha
      have hvain : (t.call s a).announcesInVain = false := by
        rw [Call.announcesInVain, ha]
        split <;> rfl
      simp [List.count_eq_zero.2 hsent, hvain]

theorem balanced_keySignals : Balanced (fun m => m.count (.send "bootstrap_key" .delivered))
    Call.announcesUncounted Call.takesKey (·.keyChanged.pending) where
  append m n := by simp
  act t s a hs := by
    obtain ⟨sources, -, hcounts⟩ := t.counts_act s a
    simp only [hcounts, count_send_counters, List.countP_singleton, keyChanged_act]
    cases a with
    | changeKey key =>
      rw [sent?_of_announces hs rfl]
      cases hp : s.keyChanged.pending <;> rfl
    | reloadKey =>
      rw [sent?_of_announces hs rfl]
      cases hp : s.keyChanged.pending <;> rfl
    | tryAnnounce =>
      have hanswer : (t.act s .tryAnnounce).result = .sent s.keyChanged.trySend.result := rfl
      rw [s.keyChanged.trySend_eq] at hanswer
      cases hp : s.keyChanged.pending <;>
        simp [call, Call.sent?, Call.announcesUncounted, Call.takesKey, Call.leavesKey, hanswer, hp]
    | receiveKey =>
      cases hp : s.keyChanged.pending <;>
        simp [call, Call.sent?, Call.announcesUncounted, Call.takesKey, Call.leavesKey, hp, act,
          Channel.receive]
    | _ =>
      cases hp : s.keyChanged.pending <;>
        simp [call, Call.sent?, Call.announcesUncounted, Call.takesKey, Call.leavesKey, hp,
          hs.restartName]

theorem balanced_restartSignals : Balanced (fun m => m.count (.send "restart" .delivered))
    (fun _ => false) Call.takesRestart (·.restart.pending) where
  append m n := by simp
  act t s a hs := by
    obtain ⟨sources, -, hcounts⟩ := t.counts_act s a
    have hresult := Channel.result_send_of_coalesce hs.restartPolicy
    simp only [hcounts, count_send_counters, List.countP_singleton, restart_act]
    cases a with
    | requestRestart =>
      cases hp : s.restart.pending <;>
        simp [call, Call.sent?, Call.takesRestart, Call.leavesRestart, hp, hs.restartName, hresult,
          Channel.counted]
    | receiveRestart =>
      cases hp : s.restart.pending <;>
        simp [call, Call.sent?, Call.takesRestart, Call.leavesRestart, hp, act, Channel.receive]
    | _ =>
      cases hp : s.restart.pending <;>
        simp [call, Call.sent?, Call.takesRestart, Call.leavesRestart, hp, hs.keyName]

/-- How counters agree with the calls of a run, and with the slots of the stores after it. -/
structure Accounted (m : Metrics) (calls : List Call) (stores : List Store) : Prop where
  loads : ∑ source, m.count (.load source) = calls.countP Call.loaded
  saves : ∀ ok, m.count (.save ok) = calls.countP (·.saved? = some ok)
  restarts : ∑ result, m.count (.send "restart" result) = calls.countP Call.restarts
  announcements : ∑ result, m.count (.send "bootstrap_key" result) = calls.countP Call.announces
  timeouts : m.count (.send "bootstrap_key" .timeout) = calls.countP Call.announcesInVain
  keySignals : m.count (.send "bootstrap_key" .delivered) + calls.countP Call.announcesUncounted =
    calls.countP Call.takesKey + stores.countP (·.keyChanged.pending)
  restartSignals : m.count (.send "restart" .delivered) =
    calls.countP Call.takesRestart + stores.countP (·.restart.pending)

def fresh (timeouts : List ℕ) (w : World) : Session := ⟨timeouts.map Store.make, w⟩

/-- The counters of a run from fresh stores agree with what was done, whatever that was and however
it ended. -/
theorem run_accounted (timeouts : List ℕ) (w : World) (acts : List (ℕ × Action)) :
    Accounted ((fresh timeouts w).run acts).2.1.counts ((fresh timeouts w).calls acts)
      ((fresh timeouts w).run acts).2.2.stores := by
  have hwired : ∀ s ∈ (fresh timeouts w).stores, s.Wired := by
    intro s hs
    obtain ⟨timeout, -, rfl⟩ := List.mem_map.1 hs
    exact Store.wired_make timeout
  have hkey : (fresh timeouts w).stores.countP (·.keyChanged.pending) = 0 := by
    simp [fresh, List.countP_eq_zero, Store.make, Channel.make]
  have hrestart : (fresh timeouts w).stores.countP (·.restart.pending) = 0 := by
    simp [fresh, List.countP_eq_zero, Store.make, Channel.make]
  constructor
  case loads => simpa using balanced_loads.run hwired acts
  case saves => exact fun ok => by simpa using (balanced_saves ok).run hwired acts
  case restarts => simpa using balanced_restarts.run hwired acts
  case announcements => simpa using balanced_announcements.run hwired acts
  case timeouts => simpa using balanced_timeouts.run hwired acts
  case keySignals => simpa [hkey] using balanced_keySignals.run hwired acts
  case restartSignals => simpa [hrestart] using balanced_restartSignals.run hwired acts

end Session

end NodeConfig
