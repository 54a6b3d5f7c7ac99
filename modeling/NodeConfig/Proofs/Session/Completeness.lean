import Mathlib
import NodeConfig.Proofs.Session.Provenance

namespace NodeConfig

/-- The actions that put a text or an identity from outside into a store. -/
def Action.overwrites : Action → Bool
  | .setText _ _ => true
  | .replace _ => true
  | .replaceFrom _ => true
  | _ => false

def Action.loads : Action → Bool
  | .load _ _ _ => true
  | _ => false

/-- A field without a default is left alone. -/
theorem Identity.get_withDefaults_of_fallback (x : Identity) (names : NameSource) {f : TextField}
    (hf : f.fallback names.mint.1 = "") : (x.withDefaults names).identity.get f = x.get f := by
  rw [x.get_withDefaults, hf]
  split
  · next hempty => exact hempty.symm
  · rfl

/-- There is no default for the base path. -/
theorem Identity.apiBasePath_withDefaults (x : Identity) (names : NameSource) :
    (x.withDefaults names).identity.apiBasePath = x.apiBasePath :=
  x.get_withDefaults_of_fallback names (f := .apiBasePath) rfl

theorem Store.identity_changeKey (s : Store) (w : World) (key : String) :
    (s.changeKey w key).store.identity = { s.identity with bootstrapKey := key } := by
  rw [(s.changeKey_eq w key).1]
  rfl

namespace Session

variable {t : Session} {s : Store} {i : ℕ} {a : Action}

/-- A load that fails leaves the identity; any other has filled in the defaults of what it found. -/
theorem act_load_cases (t : Session) (s : Store) (schema : Bytes) (host : String) (port : ℕ) :
    (∃ f, (t.act s (.load schema host port)).result = .config (.error f) ∧
      (t.act s (.load schema host port)).store.identity = s.identity) ∨
    ∃ base x, basePath schema = .ok base ∧ Kept t.world.files s.options.snapshotPath x ∧
      (t.act s (.load schema host port)).store =
        { s with
          server := Store.served host port base
          identity := (x.withDefaults t.world.names).identity } := by
  obtain ⟨fault, -, hload⟩ | ⟨base, hbase, ⟨p, fault, -, -, hload⟩ | ⟨x, hx, -⟩⟩ :=
    s.load_cases t.world schema host port
  · exact .inl ⟨.schema fault, by simp [act, Step.map, hload]⟩
  · exact .inl ⟨.corrupt p fault, by simp [act, Step.map, hload]⟩
  · have hstore := (Store.load_of_kept hbase hx host port).2.1
    exact .inr ⟨base, x, hbase, hx, by simp [act, Step.map, hstore]⟩

/-- One action keeps an identity complete, whatever becomes of it, unless it brings something from
outside. -/
theorem complete_act (t : Session) (h : s.identity.Complete) (ha : a.overwrites = false) :
    (t.act s a).store.identity.Complete := by
  cases a with
  | setText f v => cases ha
  | replace x => cases ha
  | replaceFrom j => cases ha
  | load schema host port =>
    obtain ⟨_, -, hidentity⟩ | ⟨base, x, -, -, hstore⟩ := t.act_load_cases s schema host port
    · exact hidentity ▸ h
    · exact hstore ▸ x.complete_withDefaults t.world.names
  | save => simpa [act, Step.map, Store.store_save] using h
  | applyDefaults => exact s.identity.complete_withDefaults t.world.names
  | changeKey key =>
    have hidentity := s.identity_changeKey t.world key
    exact hidentity ▸ ⟨h.mode, h.certificatePath, h.certificateKeyPath, h.name⟩
  | setFetched b => exact ⟨h.mode, h.certificatePath, h.certificateKeyPath, h.name⟩
  | _ => exact h

/-- Where the base path of an identity is kept. -/
theorem apiBasePath_act (t : Session) (s : Store) (ha : a.overwrites = false)
    (hl : a.loads = false) :
    (t.act s a).store.identity.apiBasePath = s.identity.apiBasePath := by
  cases a with
  | setText f v => cases ha
  | replace x => cases ha
  | replaceFrom j => cases ha
  | load schema host port => cases hl
  | save => simp [act, Step.map, Store.store_save]
  | applyDefaults => exact s.identity.apiBasePath_withDefaults t.world.names
  | changeKey key =>
    have hidentity := s.identity_changeKey t.world key
    exact (congrArg Identity.apiBasePath hidentity).trans rfl
  | _ => rfl

theorem server_act (t : Session) (s : Store) (hl : a.loads = false) :
    (t.act s a).store.server = s.server := by
  cases a with
  | load schema host port => cases hl
  | save => simp [act, Step.map, Store.store_save]
  | changeKey key => simp [act, Step.map, (s.changeKey_eq t.world key).1, Store.setKey]
  | _ => rfl

def actionsOn (i : ℕ) (acts : List (ℕ × Action)) : List Action :=
  acts.filterMap fun act => if act.1 = i then some act.2 else none

/-- What holds of a store after the actions on it so far holds after a run, if each action keeps
it, whatever is done to other stores. -/
theorem run_tracks_store {P : List Action → Store → Prop} {A : Action → Prop}
    (hact : ∀ (t : Session) (past : List Action) (s : Store) (a : Action), A a → P past s →
      P (past ++ [a]) (t.act s a).store)
    {acts : List (ℕ × Action)} (hacts : ∀ a, (i, a) ∈ acts → A a) (hs : t.stores[i]? = some s)
    (past : List Action) (h : P past s) :
    ∃ s', (t.run acts).2.2.stores[i]? = some s' ∧ P (past ++ actionsOn i acts) s' := by
  induction acts generalizing t s past with
  | nil => exact ⟨s, hs, by simpa [actionsOn] using h⟩
  | cons act rest ih =>
    obtain ⟨j, a⟩ := act
    have hrest : ∀ a, (i, a) ∈ rest → A a :=
      fun a ha => hacts a (List.mem_cons_of_mem _ ha)
    have hstore := getElem?_perform hs j a
    by_cases hji : j = i
    · subst hji
      rw [if_pos rfl] at hstore
      have hon : actionsOn j ((j, a) :: rest) = a :: actionsOn j rest := by simp [actionsOn]
      rw [hon, List.append_cons]
      exact ih hrest hstore _ (hact t past s a (hacts a List.mem_cons_self) h)
    · rw [if_neg hji] at hstore
      have hon : actionsOn i ((j, a) :: rest) = actionsOn i rest := by simp [actionsOn, hji]
      rw [hon]
      exact ih hrest hstore _ h

/-- What every action on a store keeps of it, a run keeps. -/
theorem run_keeps_store {P : Store → Prop} {A : Action → Prop}
    (hact : ∀ (t : Session) (s : Store) (a : Action), A a → P s → P (t.act s a).store)
    {acts : List (ℕ × Action)} (hacts : ∀ a, (i, a) ∈ acts → A a)
    (hs : t.stores[i]? = some s) (h : P s) :
    ∃ s', (t.run acts).2.2.stores[i]? = some s' ∧ P s' :=
  run_tracks_store (P := fun _ s => P s) (fun t _ s a => hact t s a) hacts hs [] h

/-- After a load that ended well the identity has a mode, both certificate paths and a name, and
keeps them through whatever follows, on this store and on others, as long as nothing from outside is
put into it. Its base path is the one in the snapshot, and the base path of the schema is the one
where the API is served, until the next load. -/
theorem run_complete (t : Session) (i : ℕ) (schema : Bytes) (host : String) (port : ℕ)
    (acts : List (ℕ × Action)) {u : Session}
    (hload : (t.perform i (.load schema host port)).1 = .config (.ok ()))
    (hu : (t.perform i (.load schema host port)).2.2 = u)
    (hacts : ∀ a, (i, a) ∈ acts → a.overwrites = false) :
    ∃ s x, t.stores[i]? = some s ∧ Kept t.world.files s.options.snapshotPath x ∧
      ∃ s', (u.run acts).2.2.stores[i]? = some s' ∧ s'.identity.Complete ∧
        ((∀ a, (i, a) ∈ acts → a.loads = false) → s'.identity.apiBasePath = x.apiBasePath ∧
          ∃ base, basePath schema = .ok base ∧ s'.server = Store.served host port base) := by
  subst hu
  cases hs : t.stores[i]? with
  | none =>
    rw [perform_of_none hs] at hload
    cases hload
  | some s =>
    have hi : i < t.stores.length := (List.getElem?_eq_some_iff.1 hs).1
    have hloaded : (t.perform i (.load schema host port)).2.2.stores[i]? =
        some (t.act s (.load schema host port)).store := by
      rw [perform_of_some hs]
      exact List.getElem?_set_self hi
    rw [perform_of_some hs] at hload
    obtain ⟨f, hf, -⟩ | ⟨base, x, hbase, hx, hstore⟩ := t.act_load_cases s schema host port
    · cases hload.symm.trans hf
    rw [hstore] at hloaded
    obtain ⟨s', hs', hcomplete⟩ := run_keeps_store (P := fun s => s.identity.Complete)
      (fun t s a ha h => complete_act t h ha) hacts hloaded
      (x.complete_withDefaults t.world.names)
    refine ⟨s, x, rfl, hx, s', hs', hcomplete, fun hloads => ?_⟩
    obtain ⟨s'', hs'', hpath, hserver⟩ := run_keeps_store
      (P := fun s => s.identity.apiBasePath = x.apiBasePath ∧
        s.server = Store.served host port base)
      (A := fun a => a.overwrites = false ∧ a.loads = false)
      (fun t s a ha h => ⟨(apiBasePath_act t s ha.1 ha.2).trans h.1,
        (server_act t s ha.2).trans h.2⟩)
      (fun a ha => ⟨hacts a ha, hloads a ha⟩) hloaded ⟨x.apiBasePath_withDefaults _, rfl⟩
    cases hs'.symm.trans hs''
    exact ⟨hpath, base, hbase, hserver⟩

def firstDays : List (ℕ × Action) :=
  [(0, .changeKey "k"), (0, .receiveKey), (0, .save), (0, .requestRestart), (0, .applyDefaults)]

theorem run_complete_firstDays : ∃ s,
    ((((⟨[Store.keeping], Store.handWritten⟩ : Session).perform 0
      (.load Store.smallSchema "localhost" 80)).2.2.run firstDays).2.2.stores[0]? = some s) ∧
      s.identity.Complete ∧ s.identity.apiBasePath = "" ∧ s.server.apiBasePath = "/v2" := by
  have hbase : basePath Store.smallSchema = .ok "/v2" := by cbv
  have hread : Snapshot.read Store.handWritten.files (Path.ofString "node.toml") =
      .ok (.loaded { mode := "edge" }) := by cbv
  have hpath : Store.keeping.options.snapshotPath = some (Path.ofString "node.toml") := by decide
  have hkept : Kept Store.handWritten.files Store.keeping.options.snapshotPath
      { mode := "edge" } := hpath ▸ kept_of_read hread
  have hload : ((⟨[Store.keeping], Store.handWritten⟩ : Session).perform 0
      (.load Store.smallSchema "localhost" 80)).1 = .config (.ok ()) :=
    congrArg Answer.config (Store.load_of_kept hbase hkept "localhost" 80).1
  obtain ⟨s, x, hs, hx, s', hs', hcomplete, hpaths⟩ :=
    run_complete _ 0 _ _ _ firstDays hload rfl (by simp [firstDays, Action.overwrites])
  obtain ⟨hpath, base, hbase', hserver⟩ := hpaths (by simp [firstDays, Action.loads])
  cases hs
  cases hbase.symm.trans hbase'
  refine ⟨s', hs', hcomplete, hpath.trans ?_, by rw [hserver]; rfl⟩
  rw [hx.unique hkept]

/-- A load without a snapshot ends well and leaves the base path of the identity empty, though the
schema gives one. -/
theorem load_without_base_path :
    ((Store.make 0).load ⟨.empty, .fresh fun n => ⟨n, 0, 0⟩⟩ Store.smallSchema "localhost"
        5555).result = .ok () ∧
      ((Store.make 0).load ⟨.empty, .fresh fun n => ⟨n, 0, 0⟩⟩ Store.smallSchema "localhost"
        5555).store.identity.apiBasePath = "" := by
  have hbase : basePath Store.smallSchema = .ok "/v2" := by cbv
  have hload := Store.load_of_kept (s := Store.make 0)
    (w := ⟨.empty, .fresh fun n => ⟨n, 0, 0⟩⟩) hbase .noPath "localhost" 5555
  exact ⟨hload.1, hload.2.1 ▸ Identity.empty.apiBasePath_withDefaults _⟩

end Session

end NodeConfig
