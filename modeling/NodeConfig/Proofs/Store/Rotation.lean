import Mathlib
import NodeConfig.Proofs.Snapshot.Write
import NodeConfig.Proofs.Store.Calls

namespace NodeConfig

namespace Rotation

variable {ι : Type} [DecidableEq ι] {p : Path} {s s' : State ι} {t : ι}

/-! ### What every step keeps -/

/-- The copy of a reading thread has the fields it has read, but for the key, which may have
changed since. -/
def Copied (x : Identity) (left : List Field) (copied : Identity) : Prop :=
  (∀ f : TextField, f ≠ .bootstrapKey → .text f ∉ left → copied.get f = x.get f) ∧
    (.certFetched ∉ left → copied.certFetched = x.certFetched)

def Stage.Copies (x : Identity) : Stage → Prop
  | .reading left copied => Copied x left copied
  | _ => True

def State.Fresh (s : State ι) (t : ι) : Prop :=
  match s.stage t with
  | .stored => True
  | .reading left x =>
    .text .bootstrapKey ∈ left ∨ x.bootstrapKey = s.store.identity.bootstrapKey
  | _ => False

/-- The file holds the identity in memory, and nobody is about to write another. -/
def State.Settled (s : State ι) (p : Path) : Prop :=
  s.world.files.read p = .ok (Utf8.ofString (Snapshot.text p s.store.identity)) ∧
    ∀ t left x, s.stage t ≠ .reading left x

/-- What holds in every state of a run, after the keys `ks` were stored. -/
structure Inv (p : Path) (first : Identity) (ks : List String) (s : State ι) : Prop where
  path : s.store.options.snapshotPath = some p
  identity : s.store.identity = ks.getLast?.elim first (first.set .bootstrapKey)
  lock : ∀ t, (s.stage t).holds = true → s.lock = some t
  copies : ∀ t, (s.stage t).Copies s.store.identity
  fresh : ks ≠ [] → (∃ t, s.Fresh t) ∨ s.Settled p

variable {first x : Identity} {ks : List String}

theorem forall_at {P : ι → Stage → Prop} {stage : Stage} (ht : P t stage)
    (h : ∀ u, u ≠ t → P u (s.stage u)) (u : ι) : P u (Function.update s.stage t stage u) := by
  by_cases hu : u = t
  · subst hu
    simpa using ht
  · simpa [hu] using h u hu

theorem copied_all (x : Identity) : Copied x Field.all .empty :=
  ⟨fun f _ h => absurd (Field.mem_all (.text f)) h, fun h => absurd (Field.mem_all .certFetched) h⟩

theorem copied_read {left : List Field} {y : Identity} {f : Field}
    (h : Copied x (f :: left) y) : Copied x left (x.copy y f) := by
  constructor
  · intro g hg hleft
    rw [Identity.get_copy]
    split
    · rfl
    · next hne => exact h.1 g hg (by simp [hleft, Ne.symm hne])
  · intro hleft
    rw [Identity.certFetched_copy]
    split
    · rfl
    · next hne => exact h.2 (by simp [hleft, Ne.symm hne])

/-- Another key leaves copies as good as they were. -/
theorem copies_set {stage : Stage} (h : stage.Copies x) (key : String) :
    stage.Copies (x.set .bootstrapKey key) := by
  cases stage with
  | reading left y =>
    refine ⟨fun f hf hleft => ?_, h.2⟩
    rw [Identity.get_set, if_neg (Ne.symm hf)]
    exact h.1 f hf hleft
  | _ => trivial

/-- A copy with all fields read and the key that is stored now is the identity in memory. -/
theorem eq_of_copied {y : Identity} (h : Copied x [] y) (hkey : y.bootstrapKey = x.bootstrapKey) :
    y = x := by
  apply Identity.ext_get
  · intro f
    by_cases hf : f = .bootstrapKey
    · subst hf
      exact hkey
    · exact h.1 f hf (by simp)
  · exact h.2 (by simp)

omit [DecidableEq ι] in
theorem fresh_congr {s s' : State ι} {u : ι} (hstage : s'.stage u = s.stage u)
    (hid : s'.store.identity = s.store.identity) (h : s.Fresh u) : s'.Fresh u := by
  unfold State.Fresh at h ⊢
  rwa [hstage, hid]

/-- A thread that writes nothing more in its call may go on. -/
theorem fresh_or_settled_at {stage : Stage} (h : (∃ u, s.Fresh u) ∨ s.Settled p)
    (ht : ¬ s.Fresh t) (hstage : s'.stage = Function.update s.stage t stage)
    (hread : ∀ left x, stage ≠ .reading left x) (hid : s'.store.identity = s.store.identity)
    (hfiles : s'.world.files = s.world.files) : (∃ u, s'.Fresh u) ∨ s'.Settled p := by
  rcases h with ⟨u, hu⟩ | ⟨hfile, hnone⟩
  · have hne : u ≠ t := fun h => ht (h ▸ hu)
    exact .inl ⟨u, fresh_congr (by simp [hstage, hne]) hid hu⟩
  · refine .inr ⟨by rw [hfiles, hid, hfile], ?_⟩
    rw [hstage]
    exact forall_at (P := fun _ st => ∀ left x, st ≠ .reading left x) hread fun u _ => hnone u

omit [DecidableEq ι] in
/-- At most one thread has the lock. -/
theorem Inv.eq_of_holds (hi : Inv p first ks s) {u : ι} (ht : (s.stage t).holds = true)
    (hu : (s.stage u).holds = true) : u = t := by
  have hulock := hi.lock u hu
  rw [hi.lock t ht] at hulock
  exact (Option.some.inj hulock).symm

/-! ### One step -/

theorem Inv.store_step (hi : Inv p first ks s) (t : ι) (key : String) :
    Inv p first (ks ++ [key])
      { s with store := s.store.setKey key, stage := Function.update s.stage t .stored } where
  path := hi.path
  identity := by
    rw [List.getLast?_concat]
    change s.store.identity.set .bootstrapKey key = _
    rw [hi.identity]
    cases ks.getLast? <;> rfl
  lock := forall_at (P := fun u st => st.holds = true → s.lock = some u) (by simp [Stage.holds])
    fun u _ => hi.lock u
  copies := forall_at (P := fun _ st => st.Copies (s.store.identity.set .bootstrapKey key)) trivial
    fun u _ => copies_set (hi.copies u) key
  fresh _ := .inl ⟨t, by simp [State.Fresh]⟩

theorem Inv.lock_step (hi : Inv p first ks s) (t : ι) (hlock : s.lock = none) :
    Inv p first ks
      { s with
        lock := some t
        stage := Function.update s.stage t (.reading Field.all .empty) } where
  path := hi.path
  identity := hi.identity
  lock := by
    refine forall_at (P := fun u st => st.holds = true → some t = some u) (fun _ => rfl) ?_
    intro u _ hu
    have hnone := hi.lock u hu
    rw [hlock] at hnone
    cases hnone
  copies := forall_at (P := fun _ st => st.Copies s.store.identity) (copied_all _)
    fun u _ => hi.copies u
  fresh _ := .inl ⟨t, by simp [State.Fresh, Field.mem_all]⟩

theorem Inv.read_step (hi : Inv p first ks s) {f : Field} {left : List Field} {y : Identity}
    (h : s.stage t = .reading (f :: left) y) :
    Inv p first ks
      { s with
        stage := Function.update s.stage t (.reading left (s.store.identity.copy y f)) } where
  path := hi.path
  identity := hi.identity
  lock := forall_at (P := fun u st => st.holds = true → s.lock = some u)
    (fun _ => hi.lock t (by rw [h]; rfl)) fun u _ => hi.lock u
  copies := by
    have ht := hi.copies t
    rw [h] at ht
    exact forall_at (P := fun _ st => st.Copies s.store.identity) (copied_read ht)
      fun u _ => hi.copies u
  fresh hks := by
    rcases hi.fresh hks with ⟨u, hu⟩ | hsettled
    · by_cases hut : u = t
      · -- The key is read now, or it was read before or is still to be read.
        subst hut
        refine .inl ⟨u, ?_⟩
        simp only [State.Fresh, h, List.mem_cons] at hu
        simp only [State.Fresh, Function.update_self]
        by_cases hf : f = .text .bootstrapKey
        · exact .inr (by rw [hf]; rfl)
        · rcases hu with (hu | hu) | hu
          · exact absurd hu.symm hf
          · exact .inl hu
          · refine .inr ?_
            have hget := Identity.get_copy s.store.identity y f .bootstrapKey
            rw [if_neg hf] at hget
            exact hget.trans hu
      · exact .inl ⟨u, fresh_congr (s := s) (by simp [hut]) rfl hu⟩
    · exact absurd h (hsettled.2 t _ _)

theorem Inv.write_step (hi : Inv p first ks s) {y : Identity} (h : s.stage t = .reading [] y)
    {f : Files} (hw : Snapshot.write s.world.files p y = (f, .ok ())) :
    Inv p first ks
      { s with
        world := { s.world with files := f }
        stage := Function.update s.stage t .written } where
  path := hi.path
  identity := hi.identity
  lock := forall_at (P := fun u st => st.holds = true → s.lock = some u)
    (fun _ => hi.lock t (by rw [h]; rfl)) fun u _ => hi.lock u
  copies := forall_at (P := fun _ st => st.Copies s.store.identity) trivial fun u _ => hi.copies u
  fresh hks := by
    rcases hi.fresh hks with ⟨u, hu⟩ | hsettled
    · by_cases hut : u = t
      · -- The writer has the key that is stored now: the file holds the identity in memory.
        subst hut
        have hcopied := hi.copies u
        rw [h] at hcopied
        have hkey : y.bootstrapKey = s.store.identity.bootstrapKey := by
          simpa [State.Fresh, h] using hu
        have hy : y = s.store.identity := eq_of_copied hcopied hkey
        refine .inr ⟨by rw [← hy]; exact Snapshot.read_write hw, ?_⟩
        -- Nobody else reads, since the writer has the lock.
        refine forall_at (P := fun _ st => ∀ left x, st ≠ .reading left x) (by simp) ?_
        intro v hv left x hvr
        exact hv (hi.eq_of_holds (by rw [h]; rfl) (by rw [hvr]; rfl))
      · exact .inl ⟨u, fresh_congr (s := s) (by simp [hut]) rfl hu⟩
    · exact absurd h (hsettled.2 t _ _)

theorem Inv.unlock_step (hi : Inv p first ks s) (h : s.stage t = .written) :
    Inv p first ks { s with lock := none, stage := Function.update s.stage t .saved } where
  path := hi.path
  identity := hi.identity
  lock := by
    refine forall_at (P := fun u st => st.holds = true → none = some u) (by simp [Stage.holds]) ?_
    intro u hu hheld
    exact absurd (hi.eq_of_holds (by rw [h]; rfl) hheld) hu
  copies := forall_at (P := fun _ st => st.Copies s.store.identity) trivial fun u _ => hi.copies u
  fresh hks := fresh_or_settled_at (hi.fresh hks) (by simp [State.Fresh, h]) rfl (by simp) rfl rfl

theorem Inv.announce_step (hi : Inv p first ks s) (h : s.stage t = .saved) :
    Inv p first ks
      { s with
        store := (s.store.reloadKey s.world).store
        stage := Function.update s.stage t .idle } where
  path := hi.path
  identity := hi.identity
  lock := forall_at (P := fun u st => st.holds = true → s.lock = some u) (by simp [Stage.holds])
    fun u _ => hi.lock u
  copies := forall_at (P := fun _ st => st.Copies s.store.identity) trivial fun u _ => hi.copies u
  fresh hks := fresh_or_settled_at (hi.fresh hks) (by simp [State.Fresh, h]) rfl (by simp) rfl rfl

/-- Every step keeps the invariant, unless a save fails. -/
theorem Inv.step {e : Event ι} (hi : Inv p first ks s) (hs : Step s e s')
    (hok : ∀ u r, e = .write u r → r = .ok ()) : Inv p first (ks ++ e.key?.toList) s' := by
  cases hs with
  | store h key => exact hi.store_step _ key
  | skip h hp =>
    rw [hi.path] at hp
    cases hp
  | lock h hp hlock => exact (List.append_nil ks).symm ▸ hi.lock_step _ hlock
  | read h => exact (List.append_nil ks).symm ▸ hi.read_step h
  | write h hp hw =>
    rw [hi.path] at hp
    cases hp
    cases hok _ _ rfl
    exact (List.append_nil ks).symm ▸ hi.write_step h hw
  | unlock h => exact (List.append_nil ks).symm ▸ hi.unlock_step h
  | announce h => exact (List.append_nil ks).symm ▸ hi.announce_step h
  | receive =>
    refine (List.append_nil ks).symm ▸ ⟨hi.path, hi.identity, hi.lock, hi.copies, fun hks => ?_⟩
    exact (hi.fresh hks).imp (fun ⟨u, hu⟩ => ⟨u, fresh_congr rfl rfl hu⟩) id

/-! ### Runs -/

omit [DecidableEq ι] in
theorem inv_begin {store : Store} (world : World) (hp : store.options.snapshotPath = some p) :
    Inv p store.identity [] (State.begin store world : State ι) where
  path := hp
  identity := rfl
  lock _ h := by cases h
  copies _ := trivial
  fresh h := absurd rfl h

theorem Inv.run {es : List (Event ι)} (hi : Inv p first ks s) (hrun : Run Step s es s')
    (hok : AllSaved es) : Inv p first (ks ++ keys es) s' :=
  run_keeps (fun _ _ _ _ he hi hs => hi.step hs (hok.of_mem he)) hrun hi

/-- Whenever no call is under way, and one was made, the file is the text of the identity in memory,
and this is the identity at the start with the key that was stored last. -/
theorem file_eq_memory {store : Store} {world : World} (hp : store.options.snapshotPath = some p)
    {es : List (Event ι)} (hrun : Run Step (.begin store world) es s) (hok : AllSaved es)
    (hcall : keys es ≠ []) (hquiet : s.quiet) :
    s.world.files.read p = .ok (Utf8.ofString (Snapshot.text p s.store.identity)) ∧
      ∃ key, (keys es).getLast? = some key ∧
        s.store.identity = { store.identity with bootstrapKey := key } := by
  have hinv := (inv_begin world hp).run hrun hok
  rw [List.nil_append] at hinv
  refine ⟨?_, ?_⟩
  · rcases hinv.fresh hcall with ⟨t, ht⟩ | hsettled
    · simp [State.Fresh, hquiet t] at ht
    · exact hsettled.1
  · obtain ⟨init, key, hkeys⟩ := (keys es).eq_nil_or_concat'.resolve_left hcall
    have hlast : (keys es).getLast? = some key := by simp [hkeys]
    refine ⟨key, hlast, ?_⟩
    rw [hinv.identity, hlast]
    rfl

def savingStore : Store :=
  { Store.make 0 with options := { dataplaneConfig := some (Path.ofString "node.yml") } }

def emptyWorld : World := ⟨.empty, .fresh fun n => ⟨n, 0, 0⟩⟩

theorem replaceable_empty : Files.empty.Replaceable (Path.ofString "node.yml") Files.home
    ⟨Files.home, some (Path.ofString "node.yml")⟩ (Path.ofString "node.yml") := by
  constructor <;> decide +kernel

/-- Two threads store their keys one after the other and save in the same order; nobody receives the
first announcement, so the second is not taken. -/
theorem file_eq_memory_two : ∃ (es : List (Event Bool)) (s : State Bool),
    Run Step (.begin savingStore emptyWorld) es s ∧ AllSaved es ∧ keys es = ["a", "b"] ∧ s.quiet ∧
      s.world.files.read (Path.ofString "node.yml") =
        .ok (Utf8.ofString (Snapshot.text (Path.ofString "node.yml") s.store.identity)) ∧
      s.store.identity.bootstrapKey = "b" := by
  have hp : savingStore.options.snapshotPath = some (Path.ofString "node.yml") := by decide
  have hstores := (Run.one (s := State.begin savingStore emptyWorld)
    (Step.store (t := false) rfl "a")).step (Step.store (t := true) rfl "b")
  obtain ⟨f, hf, hagain⟩ := Snapshot.exists_write replaceable_empty
    ((savingStore.setKey "a").setKey "b").identity
  have hfirst := hstores.trans (run_saving (t := false) hp (by simp) rfl hf)
  obtain ⟨g, hg, -⟩ := Snapshot.exists_write hagain ((savingStore.setKey "a").setKey "b").identity
  have hsecond := hfirst.trans (run_saving (t := true) hp (by simp) rfl hg)
  have hok : AllSaved ([.store false "a"] ++ [.store true "b"] ++
      saving false (.ok ()) (.ok ()) ++ saving true (.ok ()) (.error (.timeout 0))) := by
    intro t r h
    have hr : t = false ∧ r = .ok () ∨ t = true ∧ r = .ok () := by simpa [saving] using h
    exact hr.elim And.right And.right
  have hquiet : ∀ t, Function.update (Function.update (Function.update (Function.update
      (fun _ => Stage.idle) false .stored) true .stored) false .idle) true .idle t = .idle := by
    intro t
    cases t <;> rfl
  obtain ⟨hfile, key, hlast, hid⟩ := file_eq_memory hp hsecond hok (by simp [keys, Event.key?])
    hquiet
  cases (show some "b" = some key from hlast)
  exact ⟨_, _, hsecond, hok, rfl, hquiet, hfile, by rw [hid]⟩

end Rotation

end NodeConfig
