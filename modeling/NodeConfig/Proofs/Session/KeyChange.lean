import Mathlib
import NodeConfig.Proofs.Session.Completeness
import NodeConfig.Proofs.Session.Counters

namespace NodeConfig

def Report.failures (r : Report) : List Event := r.events.filter (·.level = .error)

/-- A send warns at most. -/
theorem Channel.failures_send (c : Channel) : c.send.report.failures = [] := by
  cases hpolicy : c.policy <;> cases hp : c.pending <;>
    simp [Report.failures, send, sendWithin, coalesce, timeoutEvent, hpolicy, hp]

namespace Store

variable {s : Store} {w : World} {ns : ℕ} {key : String} {p : Path}

def notPersisted (e : ConfigFault) : Event :=
  ⟨.error, target, "Failed to persist bootstrap key",
    [("error", .shown e.message), ("fatal", .bool e.isFatal)]⟩

/-- All that a change of the key does. Whether it is announced is up to the slot alone, and whether
it is saved to path and files alone. -/
structure KeyChanged (s : Store) (w : World) (ns : ℕ) (key : String)
    (step : Step (Except SendFault Unit)) : Prop where
  text : ∀ f, step.store.identity.get f = if f = .bootstrapKey then key else s.identity.get f
  certFetched : step.store.identity.certFetched = s.identity.certFetched
  server : step.store.server = s.server
  options : step.store.options = s.options
  logging : step.store.logging = s.logging
  restart : step.store.restart = s.restart
  keyChanged : step.store.keyChanged = { s.keyChanged with pending := true }
  result : step.result = if s.keyChanged.pending then .error (.timeout ns) else .ok ()
  unsaved : s.options.snapshotPath = none → step.world = w ∧ step.report.failures = []
  saved : ∀ p d t name, s.options.snapshotPath = some p → w.files.Replaceable p d t name →
    step.world.files.read p = .ok (Utf8.ofString (Snapshot.text p step.store.identity)) ∧
      (∀ l, l ≠ t.location → step.world.files.get? l = w.files.get? l) ∧
      step.world.names = w.names ∧ step.report.failures = []
  notSaved : ∀ p, s.options.snapshotPath = some p →
    (¬ ∃ d t name, w.files.Replaceable p d t name) →
      step.world = w ∧ ∃ e, ((s.setKey key).save w).result = .error (.write p e) ∧
        step.report.failures = [notPersisted (.write p e)]

theorem failures_changeKey (s : Store) (w : World) (key : String) :
    (s.changeKey w key).report.failures =
      ((s.setKey key).save w).report.failures ++ saveFailed ((s.setKey key).save w).result := by
  have hsend := Channel.failures_send s.keyChanged
  have hstore := (s.setKey key).store_save w
  have hfailed : ∀ r, (saveFailed r).filter (·.level = .error) = saveFailed r := by
    rintro (e | _) <;> simp [saveFailed]
  simp only [Report.failures] at hsend ⊢
  simp only [changeKey, reloadKey, hstore, Report.events_append, List.filter_append]
  rw [hfailed]
  simpa [setKey] using hsend

theorem keyChanged_changeKey (hs : s.keyChanged.policy = .block ns) (w : World) (key : String) :
    KeyChanged s w ns key (s.changeKey w key) := by
  obtain ⟨hstore, hworld, -⟩ := s.changeKey_eq w key
  have hidentity : (s.changeKey w key).store.identity = s.identity.set .bootstrapKey key :=
    s.identity_changeKey w key
  have hfailures := s.failures_changeKey w key
  constructor
  case text =>
    intro f
    rw [hidentity, Identity.get_set]
    simp only [eq_comm]
  case certFetched => rw [hidentity, Identity.certFetched_set]
  case keyChanged => rw [hstore]; exact s.keyChanged.channel_send
  case result =>
    rw [s.result_changeKey, Channel.result_send_of_block hs]
    split <;> rfl
  case unsaved =>
    intro hp
    obtain ⟨-, hsave⟩ | ⟨p, hp', -⟩ := (s.setKey key).save_cases w
    · rw [hworld, hfailures, hsave]
      exact ⟨rfl, rfl⟩
    · cases hp.symm.trans hp'
  case saved =>
    intro p d t name hp hr
    obtain ⟨hp', -⟩ | ⟨p', hp', ⟨hnot, -⟩ | ⟨d', t', name', hr', event, hevent, hsave⟩⟩ :=
      (s.setKey key).save_cases w
    · cases hp.symm.trans hp'
    · cases hp.symm.trans hp'
      exact absurd ⟨d, t, name, hr⟩ hnot
    · cases hp.symm.trans hp'
      cases hr.target.symm.trans hr'.target
      rw [hworld, hfailures, hsave, hidentity]
      refine ⟨hr'.read_replaced, fun l hl => ?_, rfl, ?_⟩
      · rw [hr'.get?_replaced, if_neg hl]
      · simp [Report.failures, saveFailed, hevent]
  case notSaved =>
    intro p hp hnot
    obtain ⟨hp', -⟩ | ⟨p', hp', ⟨-, e, hsave⟩ | ⟨d, t, name, hr, -⟩⟩ := (s.setKey key).save_cases w
    · cases hp.symm.trans hp'
    · cases hp.symm.trans hp'
      rw [hworld, hfailures, hsave]
      exact ⟨rfl, e, rfl, rfl⟩
    · cases hp.symm.trans hp'
      exact absurd ⟨d, t, name, hr⟩ hnot
  all_goals
    rw [hstore]
    rfl

end Store

def Action.key? : Action → Option String
  | .changeKey key => some key
  | _ => none

namespace Session

variable {t : Session} {s : Store} {i : ℕ} {a : Action}

/-- Where the key of a store comes from. There is no default for it. -/
theorem bootstrapKey_act (t : Session) (s : Store) (ha : a.overwrites = false)
    (hl : a.loads = false) :
    (t.act s a).store.identity.bootstrapKey = a.key?.getD s.identity.bootstrapKey := by
  cases a with
  | setText f v => cases ha
  | replace x => cases ha
  | replaceFrom j => cases ha
  | load schema host port => cases hl
  | save => exact congrArg (·.identity.bootstrapKey) (s.store_save t.world)
  | applyDefaults =>
    exact s.identity.get_withDefaults_of_fallback t.world.names (f := .bootstrapKey) rfl
  | changeKey key => exact congrArg Identity.bootstrapKey (s.identity_changeKey t.world key)
  | _ => rfl

theorem policy_act (t : Session) (s : Store) (a : Action) :
    (t.act s a).store.keyChanged.policy = s.keyChanged.policy := by
  rw [keyChanged_act]

/-- A change of the key puts the new key into memory and a signal into the slot, whether the save or
the announcement fails, and leaves all else of the store alone. It fails exactly over a signal that
is pending. If it can be, the new identity is written, and otherwise no file is changed and the
error is logged. So after any calls that bring no key from elsewhere the key in memory is the last
one given, or the one from before; and the next change does all this again. -/
theorem key_rotation {s : Store} {ns : ℕ} (hs : s.keyChanged.policy = .block ns) :
    (∀ w key, s.KeyChanged w ns key (s.changeKey w key)) ∧
    ∀ (t : Session) (i : ℕ) (acts : List (ℕ × Action)), t.stores[i]? = some s →
      (∀ a, (i, a) ∈ acts → a.overwrites = false ∧ a.loads = false) →
      ∃ s', (t.run acts).2.2.stores[i]? = some s' ∧ s'.keyChanged.policy = .block ns ∧
        s'.identity.bootstrapKey =
          ((actionsOn i acts).filterMap Action.key?).getLast?.getD s.identity.bootstrapKey := by
  refine ⟨Store.keyChanged_changeKey hs, fun t i acts hi hacts => ?_⟩
  refine run_tracks_store (P := fun past s' => s'.keyChanged.policy = .block ns ∧
      s'.identity.bootstrapKey =
        (past.filterMap Action.key?).getLast?.getD s.identity.bootstrapKey)
    (fun t past s' a ha h => ?_) hacts hi [] ⟨hs, rfl⟩
  refine ⟨(t.policy_act s' a).trans h.1, ?_⟩
  rw [bootstrapKey_act t s' ha.1 ha.2, h.2, List.filterMap_append, List.getLast?_append]
  cases hkey : a.key? <;> simp [hkey]

def hastyChanges : List (ℕ × Action) :=
  [(0, .changeKey "a"), (0, .receiveKey), (0, .changeKey "b"), (0, .changeKey "c")]

theorem key_rotation_hasty :
    (Store.inUse.changeKey Store.handWritten "a").result = .error (.timeout 0) ∧
    (Store.inUse.changeKey Store.handWritten "a").world.files.read (Path.ofString "node.toml") =
      .ok (Utf8.ofString (Snapshot.text (Path.ofString "node.toml")
        (Store.inUse.changeKey Store.handWritten "a").store.identity)) ∧
    ∃ s, ((⟨[Store.inUse], Store.handWritten⟩ : Session).run hastyChanges).2.2.stores[0]? = some s ∧
      s.identity.bootstrapKey = "c" := by
  have hpath : Store.inUse.options.snapshotPath = some (Path.ofString "node.toml") := by
    change Store.keeping.options.snapshotPath = _
    decide
  have hpolicy : Store.inUse.keyChanged.policy = .block 0 := rfl
  obtain ⟨hchanged, hrun⟩ := key_rotation hpolicy
  have h := hchanged Store.handWritten "a"
  obtain ⟨s, hs, -, hkey⟩ := hrun ⟨[Store.inUse], Store.handWritten⟩ 0 hastyChanges rfl
    (by simp [hastyChanges, Action.overwrites, Action.loads])
  exact ⟨h.result, (h.saved _ _ _ _ hpath Store.replaceable_handWritten).1, s, hs, hkey⟩

end Session

end NodeConfig
