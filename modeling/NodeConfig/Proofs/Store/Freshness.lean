import Mathlib
import NodeConfig.Proofs.Store.Rotation

namespace NodeConfig

namespace Rotation

variable {ι : Type} [DecidableEq ι] {p : Path} {s s' : State ι} {t u : ι} {e : Event ι}
  {es fs gs : List (Event ι)} {first : Identity} {ks ks' : List String}

/-- Of the keys only these will be written: the key is still to be read, or one of them was. -/
def Stage.Writes (ks : List String) : Stage → Prop
  | .reading left x => .text .bootstrapKey ∈ left ∨ x.bootstrapKey ∈ ks
  | _ => True

def Stage.unsaved : Stage → Bool
  | .stored => true
  | .reading _ _ => true
  | _ => false

/-- What holds after one of the keys was stored. -/
structure State.Since (s : State ι) (p : Path) (first : Identity) (ks : List String) : Prop where
  memory : s.store.identity.bootstrapKey ∈ ks
  inv : ∃ all, Inv p first all s

/-- A thread is still to write one of the keys. -/
structure State.Behind (s : State ι) (t : ι) (ks : List String) : Prop where
  unsaved : (s.stage t).unsaved = true
  writes : (s.stage t).Writes ks

/-- The file has one of the keys, and no other will be written. -/
structure State.Ahead (s : State ι) (p : Path) (ks : List String) : Prop where
  file : ∃ x, s.world.files.read p = .ok (Utf8.ofString (Snapshot.text p x)) ∧ x.bootstrapKey ∈ ks
  writes : ∀ t, (s.stage t).Writes ks

/-- The key in memory is the one that was stored last. -/
theorem Step.bootstrapKey (h : Step s e s') :
    s'.store.identity.bootstrapKey = e.key?.getD s.store.identity.bootstrapKey := by
  cases h <;> rfl

theorem Step.bootstrapKey_mem (h : Step s e s') (hs : s.store.identity.bootstrapKey ∈ ks) :
    s'.store.identity.bootstrapKey ∈ ks ++ e.key?.toList := by
  rw [h.bootstrapKey]
  cases e.key? with
  | none => simpa using hs
  | some key => simp

theorem Stage.Writes.mono {stage : Stage} (h : stage.Writes ks) (hks : ks ⊆ ks') :
    stage.Writes ks' := by
  cases stage with
  | reading left x => exact h.imp_right (@hks _)
  | _ => trivial

/-- A thread reads only what is in memory. -/
theorem Step.writes (h : Step s e s') (hs : s.store.identity.bootstrapKey ∈ ks)
    (hu : (s.stage u).Writes ks) : (s'.stage u).Writes ks := by
  cases h with
  | receive => exact hu
  | @read t f left x h =>
    by_cases hut : u = t
    · subst hut
      rw [h] at hu
      simp only [Function.update_self, Stage.Writes] at hu ⊢
      have hget : (s.store.identity.copy x f).bootstrapKey =
          if f = .text .bootstrapKey then s.store.identity.bootstrapKey else x.bootstrapKey :=
        Identity.get_copy s.store.identity x f .bootstrapKey
      -- The key is read now, from memory, or another field is.
      rw [hget]
      split
      · exact .inr hs
      · next hf => exact hu.imp_left fun hmem => (List.mem_cons.1 hmem).resolve_left (Ne.symm hf)
    · simpa [hut] using hu
  | @lock t h p hp hlock =>
    by_cases hut : u = t
    · simp [hut, Stage.Writes, Field.mem_all]
    · simpa [hut] using hu
  | @store t h | @skip t h | @write t h | @unlock t h | @announce t h =>
    by_cases hut : u = t
    · simp [hut, Stage.Writes]
    · simpa [hut] using hu

/-- The file changes when a thread writes what it has read, and not otherwise. -/
theorem Step.file (h : Step s e s') (hp : s.store.options.snapshotPath = some p)
    (hok : ∀ u r, e = .write u r → r = .ok ()) :
    s'.world.files = s.world.files ∨ ∃ u x, s.stage u = .reading [] x ∧
      s'.world.files.read p = .ok (Utf8.ofString (Snapshot.text p x)) := by
  cases h with
  | write h hp' hw =>
    cases hp.symm.trans hp'
    cases hok _ _ rfl
    exact .inr ⟨_, _, h, Snapshot.read_write hw⟩
  | _ => exact .inl rfl

/-- A thread has saved once it has written what it has read. -/
theorem Step.saves (h : Step s e s') (hp : s.store.options.snapshotPath = some p)
    (hok : ∀ u r, e = .write u r → r = .ok ()) (ht : (s.stage t).unsaved = true)
    (ht' : (s'.stage t).unsaved ≠ true) : ∃ x, s.stage t = .reading [] x ∧
      s'.world.files.read p = .ok (Utf8.ofString (Snapshot.text p x)) ∧
      s'.stage = Function.update s.stage t .written := by
  cases h with
  | receive => exact absurd ht ht'
  | @write u x h _ hp' _ _ hw =>
    by_cases hut : t = u
    · subst hut
      cases hp.symm.trans hp'
      cases hok _ _ rfl
      exact ⟨x, h, Snapshot.read_write hw, rfl⟩
    · simp [hut, ht] at ht'
  | @skip u h hp' => simp [hp] at hp'
  | @store u h | @lock u h | @read u _ _ _ h | @unlock u h | @announce u h =>
    by_cases hut : t = u
    · subst hut
      simp_all [Stage.unsaved]
    · simp [hut, ht] at ht'

theorem State.Since.step (hs : s.Since p first ks) (h : Step s e s')
    (hok : ∀ u r, e = .write u r → r = .ok ()) : s'.Since p first (ks ++ e.key?.toList) where
  memory := h.bootstrapKey_mem hs.memory
  inv := hs.inv.imp' _ fun _ hi => hi.step h hok

theorem State.Ahead.step (ha : s.Ahead p ks) (hs : s.Since p first ks) (h : Step s e s')
    (hok : ∀ u r, e = .write u r → r = .ok ()) : s'.Ahead p (ks ++ e.key?.toList) where
  file := by
    obtain ⟨all, hi⟩ := hs.inv
    rcases h.file hi.path hok with hfiles | ⟨u, x, hu, hfile⟩
    · obtain ⟨x, hx, hmem⟩ := ha.file
      exact ⟨x, hfiles ▸ hx, List.mem_append_left _ hmem⟩
    · -- Who writes has read one of the keys.
      have hwrites := ha.writes u
      rw [hu] at hwrites
      exact ⟨x, hfile, List.mem_append_left _ (hwrites.resolve_left (by simp))⟩
  writes u := (h.writes hs.memory (ha.writes u)).mono (List.subset_append_left ..)

theorem State.Behind.step (hb : s.Behind t ks) (hs : s.Since p first ks) (h : Step s e s')
    (hok : ∀ u r, e = .write u r → r = .ok ()) :
    s'.Behind t (ks ++ e.key?.toList) ∨ s'.Ahead p (ks ++ e.key?.toList) := by
  obtain ⟨all, hi⟩ := hs.inv
  by_cases ht' : (s'.stage t).unsaved = true
  · exact .inl ⟨ht', (h.writes hs.memory hb.writes).mono (List.subset_append_left ..)⟩
  · obtain ⟨x, ht, hfile, hstage⟩ := h.saves hi.path hok hb.unsaved ht'
    have hwrites := hb.writes
    rw [ht] at hwrites
    refine .inr ⟨⟨x, hfile, List.mem_append_left _ (hwrites.resolve_left (by simp))⟩, ?_⟩
    -- Nobody else reads, since the writer has the lock.
    rw [hstage]
    refine forall_at (P := fun _ st => st.Writes _) trivial fun u hu => ?_
    cases hur : s.stage u with
    | reading left y =>
      exact absurd (hi.eq_of_holds (by rw [ht]; rfl) (by rw [hur]; rfl)) hu
    | _ => trivial

theorem Step.stored {key : String} (h : Step s (.store t key) s') :
    s'.store.identity.bootstrapKey ∈ [key] ∧ s'.Behind t [key] := by
  cases h
  exact ⟨List.mem_singleton_self key, by simp [Stage.unsaved], by simp [Stage.Writes]⟩

theorem Step.announced {r : Except SendFault Unit} (h : Step s (.announce t r) s') :
    s.stage t = .saved := by
  cases h with
  | announce h => exact h

/-- Once the file is ahead, it stays so. -/
theorem State.Ahead.run (ha : s.Ahead p ks) (hs : s.Since p first ks) (h : Run Step s es s')
    (hok : AllSaved es) : s'.Ahead p (ks ++ keys es) := by
  have hboth := run_keeps (P := fun ks s => s.Since p first ks ∧ s.Ahead p ks)
    (fun ks s e s' he ⟨hs, ha⟩ hstep =>
      ⟨hs.step hstep (hok.of_mem he), ha.step hs hstep (hok.of_mem he)⟩) h ⟨hs, ha⟩
  exact hboth.2

/-- A thread is still to write, or it has written and the file is ahead. -/
theorem State.Behind.run (hb : s.Behind t ks) (hs : s.Since p first ks) (h : Run Step s es s')
    (hok : AllSaved es) : s'.Since p first (ks ++ keys es) ∧
      (s'.Behind t (ks ++ keys es) ∨ s'.Ahead p (ks ++ keys es)) := by
  refine run_keeps (P := fun ks s => s.Since p first ks ∧ (s.Behind t ks ∨ s.Ahead p ks))
    (fun ks s e s' he ⟨hs, hfile⟩ hstep => ?_) h ⟨hs, .inl hb⟩
  refine ⟨hs.step hstep (hok.of_mem he), ?_⟩
  rcases hfile with hb | ha
  · exact hb.step hs hstep (hok.of_mem he)
  · exact .inr (ha.step hs hstep (hok.of_mem he))

/-- From its store on, memory has the key of a call or a later one. -/
theorem bootstrapKey_of_stored {key : String} {s₀ : State ι}
    (h : Run Step s₀ (es ++ .store t key :: fs) s) :
    s.store.identity.bootstrapKey ∈ key :: keys fs := by
  obtain ⟨u, v, -, hstore, hrun⟩ := h.split_cons
  exact run_keeps (P := fun ks s => s.store.identity.bootstrapKey ∈ ks)
    (fun _ _ _ _ _ hs hstep => hstep.bootstrapKey_mem hs) hrun hstore.stored.1

/-- From its announcement on, the file has it too. -/
theorem file_of_announced {key : String} {store : Store} {world : World}
    (hp : store.options.snapshotPath = some p) {r : Except SendFault Unit}
    (h : Run Step (.begin store world) (es ++ .store t key :: (fs ++ .announce t r :: gs)) s)
    (hok : AllSaved (es ++ .store t key :: (fs ++ .announce t r :: gs))) :
    ∃ x, s.world.files.read p = .ok (Utf8.ofString (Snapshot.text p x)) ∧
      x.bootstrapKey ∈ key :: keys (fs ++ gs) := by
  obtain ⟨u, v, hu, hstore, hrest⟩ := h.split_cons
  obtain ⟨w, w', hw, hannounce, hlast⟩ := hrest.split_cons
  have hu := (inv_begin world hp).run hu (hok.mono (by simp))
  have hv : v.Since p store.identity [key] := ⟨hstore.stored.1, _, hu.step hstore (by simp)⟩
  obtain ⟨hsince, hfile⟩ := hstore.stored.2.run hv hw (hok.mono (by intro e he; simp [he]))
  -- Who announces has nothing to write.
  have hahead := hfile.resolve_left fun hbehind => by
    simpa [hannounce.announced, Stage.unsaved] using hbehind.unsaved
  have hend := hahead.run hsince ((Run.one hannounce).trans hlast)
    (hok.mono (by intro e he; simp only [List.mem_append, List.mem_cons] at he ⊢; tauto))
  simpa [keys, Event.key?] using hend.file

end Rotation

end NodeConfig
