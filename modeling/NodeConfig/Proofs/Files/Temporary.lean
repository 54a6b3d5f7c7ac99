import Mathlib
import NodeConfig.Files.Change
import NodeConfig.Proofs.Files.Tree

namespace NodeConfig

namespace Files

variable {f g : Files} {l k : Location} {e : Entry} {p : Path}

theorem le_foldl_max (ns : List ℕ) (acc : ℕ) {n : ℕ} (h : n ≤ acc ∨ n ∈ ns) :
    n ≤ ns.foldl max acc := by
  induction ns generalizing acc with
  | nil => simpa using h
  | cons m ns ih =>
    apply ih
    rcases h with h | h
    · exact .inl (h.trans (le_max_left acc m))
    · rcases List.mem_cons.1 h with rfl | h
      · exact .inl (le_max_right acc n)
      · exact .inr h

/-- No name in the tree or in the path is as long as an unused one. -/
theorem length_lt_unusedName {s : Segment}
    (h : s ∈ (f.entries.map (·.1)).flatten ++ p.segments) :
    s.length < (f.unusedName p).length := by
  have hle := le_foldl_max _ 0 (.inr (List.mem_map_of_mem h) : s.length ≤ 0 ∨ _ ∈ _)
  simp only [unusedName, List.length_cons, List.length_replicate]
  omega

theorem unusedName_notMem_segments (f : Files) (p : Path) : f.unusedName p ∉ p.segments :=
  fun h => (length_lt_unusedName (List.mem_append_right _ h)).ne rfl

/-- Paths do not begin under an unused name, which begins with a point. -/
theorem unusedName_notMem_origin (f : Files) (p : Path) : f.unusedName p ∉ origin p := by
  unfold origin
  split
  · exact List.not_mem_nil
  · intro h
    have hhead := congrArg List.head? (List.mem_singleton.1 h)
    simp [unusedName, Path.dot] at hhead

/-- Nothing is below an unused name. -/
theorem get?_of_unusedName_mem (h : f.unusedName p ∈ l) : f.get? l = none := by
  rw [get?, List.lookup_eq_none_iff]
  intro x hx
  refine bne_iff_ne.2 fun hl => ?_
  subst hl
  have hmem : f.unusedName p ∈ (f.entries.map (·.1)).flatten :=
    List.mem_flatten.2 ⟨x.1, List.mem_map_of_mem hx, h⟩
  exact (length_lt_unusedName (List.mem_append_left _ hmem)).ne rfl

theorem get?_temporary (f : Files) (p : Path) (d : Location) : f.get? (f.temporary p d) = none :=
  get?_of_unusedName_mem (p := p) (by simp [temporary])

/-- A path does not end at the temporary file, whose name is not in it. -/
theorem target_ne_temporary {t : Target} {name : Segment} (ht : g.target p = .ok t)
    (hname : t.name = some name) (d : Location) : t.location ≠ f.temporary p d := by
  intro he
  obtain ⟨init, hs, -⟩ := target_name ht hname
  have hlast : name = f.unusedName p := by
    simpa using (List.append_inj' (show t.directory ++ [name] = d ++ [f.unusedName p] by
      simpa [Target.location, hname, temporary] using he) rfl).2
  exact unusedName_notMem_segments f p (by simp [hs, hlast])

section Unseen

variable {n : Segment}

theorem get?_put_unseen (hk : n ∈ k) (hl : n ∉ l) : (f.put k e).get? l = f.get? l :=
  get?_put_of_ne fun h => hl (h ▸ hk)

theorem isDir_put_unseen (hk : n ∈ k) (hl : n ∉ l) : (f.put k e).isDir l = f.isDir l := by
  rw [isDir, isDir, get?_put_unseen hk hl]

theorem step_put_unseen (hk : n ∈ k) (hl : n ∉ l) {s : Segment} (hs : n ≠ s) :
    (f.put k e).step l s = f.step l s := by
  have hnext : n ∉ l ++ [s] := by simp [hl, hs]
  simp only [step, isDir_put_unseen hk hl, get?_put_unseen hk hnext]

theorem notMem_of_step {m : Location} {s : Segment} (h : f.step l s = .ok m) (hl : n ∉ l)
    (hs : n ≠ s) : n ∉ m := by
  obtain ⟨-, ⟨-, rfl⟩ | ⟨-, -, rfl⟩ | ⟨-, -, -, -, rfl⟩⟩ := step_eq_ok.1 h
  · exact hl
  · exact fun h => hl (List.dropLast_subset l h)
  · simp [hl, hs]

/-- A walk goes past an entry under a name that it does not use, and does not end below it. -/
theorem walk_put_unseen (hk : n ∈ k) {ss : List Segment} (hl : n ∉ l) (hs : n ∉ ss) :
    (f.put k e).walk l ss = f.walk l ss ∧ ∀ m, f.walk l ss = .ok m → n ∉ m := by
  induction ss generalizing l with
  | nil => exact ⟨rfl, fun m h => by cases h; exact hl⟩
  | cons s ss ih =>
    obtain ⟨hne, hs⟩ := not_or.1 (mt List.mem_cons.2 hs)
    have hstep : (f.put k e).step l s = f.step l s := step_put_unseen hk hl hne
    simp only [walk, List.foldlM_cons] at ih ⊢
    rw [hstep]
    cases h : f.step l s with
    | error => exact ⟨rfl, fun m hm => by cases hm⟩
    | ok m => exact ih (notMem_of_step h hl hne) hs

/-- So does a path. -/
theorem read_put_unseen (hk : n ∈ k) (ho : n ∉ origin p) (hs : n ∉ p.segments) :
    (f.put k e).read p = f.read p := by
  obtain ⟨hwalk, hend⟩ := walk_put_unseen (f := f) (e := e) hk ho hs
  have hlocate : (f.put k e).locate p = f.locate p := by
    unfold locate
    rw [hwalk]
    cases h : f.walk (origin p) p.segments with
    | error => rfl
    | ok m => simp only [isDir_put_unseen hk (hend m h)]
  unfold read
  rw [hlocate]
  cases h : f.locate p with
  | error => rfl
  | ok m =>
    have hm : n ∉ m := hend m (locate_eq_ok.1 h).2.2.1
    simp only [get?_put_unseen hk hm]

end Unseen

/-- Whatever is in the temporary file, the path leads where it did. -/
theorem read_withTemporary (f : Files) (p : Path) (d : Location) (part : Bytes) :
    (f.withTemporary p d part).read p = f.read p :=
  read_put_unseen (n := f.unusedName p) (by simp [temporary]) (f.unusedName_notMem_origin p)
    (f.unusedName_notMem_segments p)

end Files

end NodeConfig
