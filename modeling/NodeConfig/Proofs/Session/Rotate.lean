import Mathlib
import NodeConfig.Proofs.Channel.Waiting
import NodeConfig.Proofs.Session.KeyChange

namespace NodeConfig

namespace Store

variable {s : Store} {w : World} {ns left : ℕ} {key : String} {keys : List String} {p : Path}
  {changed : Step (Except SendFault Unit)} {rest : Step (List (Except SendFault Unit) × ℕ)}

def received (s : Store) (left : ℕ) : Store :=
  { s with keyChanged := (s.keyChanged.receiveWaiting left).2 }

theorem rotate_cons (hchanged : (s.received left).changeKey w key = changed)
    (hrest : changed.store.rotate changed.world (s.keyChanged.receiveWaiting left).1 keys = rest) :
    s.rotate w left (key :: keys) =
      ⟨(changed.result :: rest.result.1, rest.result.2), rest.store, rest.world,
        changed.report ++ rest.report⟩ := by
  subst hchanged hrest
  rfl

theorem changeKey_eq_sendWithin (hs : s.keyChanged.policy = .block ns)
    (hchanged : s.changeKey w key = changed) :
    changed.result = (s.keyChanged.sendWithin ns).result ∧
      changed.store =
        { s.setKey key with keyChanged := (s.keyChanged.sendWithin ns).channel } := by
  rw [← hchanged, s.result_changeKey, (s.changeKey_eq w key).1, Channel.result_send_of_block hs,
    s.keyChanged.channel_send]
  cases hp : s.keyChanged.pending <;> simp [Channel.sendWithin, hp, Except.map,
    Channel.raise_of_pending]

/-- To the channel, changes of the key are sends that wait; of the keys only the last stays. -/
theorem rotate_eq_pump (hs : s.keyChanged.policy = .block ns) (w : World) (left : ℕ)
    (keys : List String) :
    (s.rotate w left keys).result = ((s.keyChanged.pump ns left keys.length).1,
      (s.keyChanged.pump ns left keys.length).2.1) ∧
    (s.rotate w left keys).store = { s with
      identity := { s.identity with bootstrapKey := keys.getLast?.getD s.identity.bootstrapKey }
      keyChanged := (s.keyChanged.pump ns left keys.length).2.2 } := by
  induction keys generalizing s w left with
  | nil => exact ⟨rfl, rfl⟩
  | cons key keys ih =>
    obtain ⟨changed, hchanged⟩ : ∃ changed, (s.received left).changeKey w key = changed := ⟨_, rfl⟩
    have hblock : (s.received left).keyChanged.policy = .block ns := by
      simpa [received, Channel.receiveWaiting_eq] using hs
    obtain ⟨hresult, hstore⟩ := changeKey_eq_sendWithin hblock hchanged
    have hpolicy : changed.store.keyChanged.policy = .block ns := by
      rw [hstore]
      cases hp : (s.received left).keyChanged.pending <;>
        simp [Channel.sendWithin, Channel.raise, hp, hblock]
    obtain ⟨hrest, hkept⟩ := ih hpolicy changed.world (s.keyChanged.receiveWaiting left).1
    rw [rotate_cons hchanged rfl, List.length_cons, Channel.pump]
    dsimp only
    rw [hkept, hrest, hresult, hstore]
    refine ⟨rfl, ?_⟩
    rw [List.getLast?_cons]
    cases keys.getLast? <;> rfl

/-- Where the receiver takes as many signals as there are, all changes are announced, none is left
over, and the last key is the one in memory. -/
theorem rotate_served (hs : s.keyChanged.policy = .block ns) (w : World)
    (h : keys.length + s.keyChanged.pending.toNat ≤ left) :
    (s.rotate w left keys).result = (List.replicate keys.length (.ok ()),
      left - (keys.length + s.keyChanged.pending.toNat)) ∧
    (s.rotate w left keys).store = { s with
      identity := { s.identity with bootstrapKey := keys.getLast?.getD s.identity.bootstrapKey }
      keyChanged := { s.keyChanged with pending := false } } := by
  obtain ⟨hresult, hstore⟩ := rotate_eq_pump hs w left keys
  rw [hresult, hstore, Channel.pump_served ns h]
  exact ⟨rfl, rfl⟩

theorem changeKey_saved (hp : s.options.snapshotPath = some p)
    (hr : ∃ d t name, w.files.Replaceable p d t name) (hchanged : s.changeKey w key = changed) :
    changed.store.options = s.options ∧
      (∃ d t name, changed.world.files.Replaceable p d t name) ∧
      changed.world.files.read p =
        .ok (Utf8.ofString (Snapshot.text p changed.store.identity)) := by
  obtain ⟨hstore, hworld, -⟩ := s.changeKey_eq w key
  rw [← hchanged, hstore, hworld]
  obtain ⟨hp', -⟩ | ⟨p', hp', ⟨hnot, -⟩ | ⟨d, t, name, hr', event, -, hsave⟩⟩ :=
    (s.setKey key).save_cases w
  · cases hp.symm.trans hp'
  · cases hp.symm.trans hp'
    exact absurd hr hnot
  · cases hp.symm.trans hp'
    rw [hsave]
    exact ⟨rfl, ⟨d, t, name, hr'.again⟩, hr'.read_replaced⟩

/-- After a rotation the file holds what is in memory, if it could be replaced before. -/
theorem read_rotate (hp : s.options.snapshotPath = some p)
    (hr : ∃ d t name, w.files.Replaceable p d t name) (left : ℕ) (hkeys : keys ≠ []) :
    (s.rotate w left keys).world.files.read p =
      .ok (Utf8.ofString (Snapshot.text p (s.rotate w left keys).store.identity)) := by
  induction keys generalizing s w left with
  | nil => exact absurd rfl hkeys
  | cons key keys ih =>
    obtain ⟨changed, hchanged⟩ : ∃ changed, (s.received left).changeKey w key = changed := ⟨_, rfl⟩
    obtain ⟨hoptions, hr', hread⟩ :=
      changeKey_saved (s := s.received left) (p := p) hp hr hchanged
    rw [rotate_cons hchanged rfl]
    cases keys with
    | nil => exact hread
    | cons next keys =>
      exact ih ((congrArg Options.snapshotPath hoptions).trans hp) hr' _
        (List.cons_ne_nil next keys)

end Store

namespace Session

/-- A receiver that waits takes a signal or none. -/
theorem run_received (s : Store) (w : World) (left : ℕ) :
    ∃ takes : List Action, takes.filterMap Action.key? = [] ∧ (∀ a ∈ takes, a = .receiveKey) ∧
      ∀ rest, ((⟨[s], w⟩ : Session).run (takes.map (Prod.mk 0) ++ rest)).2 =
        ((⟨[s.received left], w⟩ : Session).run rest).2 := by
  by_cases h : (s.keyChanged.pending && decide (0 < left)) = true
  · refine ⟨[.receiveKey], rfl, by simp, fun rest => ?_⟩
    rw [Store.received, Channel.receiveWaiting, if_pos h]
    rfl
  · refine ⟨[], rfl, by simp, fun rest => ?_⟩
    rw [Store.received, Channel.receiveWaiting, if_neg h]
    rfl

/-- A rotation is a run in which one store takes signals and changes its key, to each of the keys in
turn. -/
theorem exists_run_eq_rotate (s : Store) (w : World) (left : ℕ) (keys : List String) :
    ∃ acts : List Action, acts.filterMap Action.key? = keys ∧
      (∀ a ∈ acts, a = .receiveKey ∨ a.key?.isSome) ∧
      ((⟨[s], w⟩ : Session).run (acts.map (Prod.mk 0))).2 = ((s.rotate w left keys).report,
        ⟨[(s.rotate w left keys).store], (s.rotate w left keys).world⟩) := by
  induction keys generalizing s w left with
  | nil =>
    obtain ⟨takes, hnone, htakes, hrun⟩ := run_received s w left
    refine ⟨takes, hnone, fun a ha => .inl (htakes a ha), ?_⟩
    have hrest := hrun []
    rw [List.append_nil] at hrest
    exact hrest
  | cons key keys ih =>
    obtain ⟨takes, hnone, htakes, hrun⟩ := run_received s w left
    obtain ⟨changed, hchanged⟩ : ∃ changed, (s.received left).changeKey w key = changed := ⟨_, rfl⟩
    obtain ⟨acts, hkeys, hacts, hrest⟩ :=
      ih changed.store changed.world (s.keyChanged.receiveWaiting left).1
    have hperform : ((⟨[s.received left], w⟩ : Session).perform 0 (.changeKey key)).2 =
        (changed.report, ⟨[changed.store], changed.world⟩) := by
      rw [← hchanged]
      rfl
    refine ⟨takes ++ .changeKey key :: acts, ?_, ?_, ?_⟩
    · rw [List.filterMap_append, hnone, List.nil_append]
      exact congrArg (List.cons key) hkeys
    · rw [List.forall_mem_append, List.forall_mem_cons]
      exact ⟨fun a ha => .inl (htakes a ha), .inr rfl, hacts⟩
    · rw [List.map_append, hrun, List.map_cons, Store.rotate_cons hchanged rfl, run]
      simp only [hperform, hrest]

end Session

end NodeConfig
