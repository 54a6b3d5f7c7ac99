import Mathlib
import NodeConfig.Proofs.Files.Log

namespace NodeConfig

namespace Files

variable {f g h s : Files} {l? k? : Option Location} {p : Path}

/-- A path leads to the same entry in both trees, or nowhere for the same reason. -/
structure SamePlace (f g : Files) (p : Path) : Prop where
  locate : g.locate p = f.locate p
  isDir : ∀ l, f.locate p = .ok l → g.isDir l = f.isDir l

/-- A file at a path, there or not, has the same place in both trees, and the same directory. -/
structure SameSlot (f g : Files) (p : Path) : Prop where
  entry : SamePlace f g p
  holder : SamePlace f g (holder p)
  target : g.target p = f.target p

theorem SamePlace.refl (f : Files) (p : Path) : SamePlace f f p := ⟨rfl, fun _ _ => rfl⟩

theorem SameSlot.refl (f : Files) (p : Path) : SameSlot f f p := ⟨.refl f p, .refl f _, rfl⟩

theorem SamePlace.symm (h : SamePlace f g p) : SamePlace g f p :=
  ⟨h.locate.symm, fun l hl => (h.isDir l (h.locate ▸ hl)).symm⟩

theorem SameSlot.symm (h : SameSlot f g p) : SameSlot g f p :=
  ⟨h.entry.symm, h.holder.symm, h.target.symm⟩

theorem SamePlace.trans (h₁ : SamePlace f g p) (h₂ : SamePlace g h p) : SamePlace f h p where
  locate := h₂.locate.trans h₁.locate
  isDir l hl := (h₂.isDir l (h₁.locate.trans hl)).trans (h₁.isDir l hl)

theorem SameSlot.trans (h₁ : SameSlot f g p) (h₂ : SameSlot g h p) : SameSlot f h p :=
  ⟨h₁.entry.trans h₂.entry, h₁.holder.trans h₂.holder, h₂.target.trans h₁.target⟩

theorem SameBut.samePlace (h : SameBut l? f g) (p : Path) : SamePlace f g p :=
  ⟨h.locate_eq p, fun l _ => h.isDir_eq l⟩

theorem SameBut.sameSlot (h : SameBut l? f g) (p : Path) : SameSlot f g p :=
  ⟨h.samePlace p, h.samePlace _, h.target_eq p⟩

/-- Two trees that each spared the files of a third one read alike where a path leads to the same
place, unless that is a file which was not spared. -/
theorem SamePlace.read_eq (h : SamePlace f g p) (hf : s.Spares f l?) (hg : s.Spares g k?)
    (hl : ∀ l, l? = some l → f.locate p ≠ .ok l) (hk : ∀ k, k? = some k → f.locate p ≠ .ok k) :
    g.read p = f.read p := by
  unfold read
  rw [h.locate]
  cases hlocate : f.locate p with
  | error e => rfl
  | ok m =>
    have hsame : ∀ content, g.get? m = some (.file content) ↔ f.get? m = some (.file content) :=
      fun content => (hg.file m content fun h => hk m h hlocate).trans
        (hf.file m content fun h => hl m h hlocate).symm
    dsimp only
    split
    · next content hm => rw [(hsame content).1 hm]
    · next hm =>
      split
      · next content hm' => exact absurd ((hsame content).2 hm') (hm content)
      · rfl

/-- Where the target of a path is the same, and is a directory in both trees or in neither, a
renaming to it fails alike. -/
theorem rename_error_congr {k l : Location} (ht : g.target p = f.target p)
    (hdir : ∀ t name, f.target p = .ok t → t.name = some name → p.hasNul = false →
      p.endsInSlash = false → name.length ≤ nameLimit →
      (g.get? t.location = some .dir ↔ f.get? t.location = some .dir)) (e : OsError) :
    g.rename k p = .error e ↔ f.rename l p = .error e := by
  unfold rename
  rw [ht]
  by_cases hnul : p.hasNul = true
  · simp [hnul]
  rcases htarget : f.target p with e | ⟨d, _ | name⟩
  · simp [hnul]
  · simp [hnul]
  by_cases hlen : nameLimit < name.length
  · simp [hnul, hlen]
  by_cases hslash : p.endsInSlash = true
  · simp [hnul, hlen, hslash]
  have hd := hdir _ name htarget rfl (by simpa using hnul) (by simpa using hslash) (by omega)
  by_cases hf : f.get? (Target.location ⟨d, some name⟩) = some .dir
  · simp [hnul, hlen, hslash, hf, hd.2 hf]
  · simp [hnul, hlen, hslash, hf, mt hd.1 hf]

/-- The temporary file is not on the way to the target. -/
theorem target_withTemporary (f : Files) (p : Path) (d : Location) (part : Bytes) :
    (f.withTemporary p d part).target p = f.target p := by
  have hk : f.unusedName p ∈ f.temporary p d := by simp [temporary]
  have hs : f.unusedName p ∉ p.segments.dropLast :=
    fun h => f.unusedName_notMem_segments p (List.dropLast_subset _ h)
  obtain ⟨hwalk, hend⟩ := walk_put_unseen (f := f) (e := .file part) hk
    (f.unusedName_notMem_origin p) hs
  rw [withTemporary, target, target, hwalk]
  split
  · rfl
  · split
    · rfl
    · cases h : f.walk (origin p) p.segments.dropLast with
      | error e => rfl
      | ok m => simp only [isDir_put_unseen hk (hend m h)]

theorem SameSlot.notDir (h : SameSlot f g p) {t : Target} {name : Segment} (ht : f.target p = .ok t)
    (hname : t.name = some name) (hnul : p.hasNul = false) (hslash : p.endsInSlash = false)
    (hlen : name.length ≤ nameLimit) (hf : f.get? t.location = some .dir) :
    g.get? t.location = some .dir := by
  have hlocate := locate_of_target ht hname hnul hslash hlen (by simp [hf])
  have hdir := h.entry.isDir _ hlocate
  rw [isDir_iff.2 (.inr hf)] at hdir
  refine (isDir_iff.1 hdir).resolve_left fun hnil => ?_
  simp [Target.location, hname] at hnil

/-- A file that has the same place in both trees can be replaced in both or in neither, -/
theorem SameSlot.replaceable {d : Location} {t : Target} {name : Segment} (h : SameSlot f g p)
    (hr : f.Replaceable p d t name) : g.Replaceable p d t name where
  holder := h.holder.locate.trans hr.holder
  isDir := (h.holder.isDir d hr.holder).trans hr.isDir
  target := h.target.trans hr.target
  named := hr.named
  short := hr.short
  noNul := hr.noNul
  noSlash := hr.noSlash
  notDir hdir := hr.notDir
    (h.symm.notDir (h.target.trans hr.target) hr.named hr.noNul hr.noSlash hr.short hdir)

theorem SameSlot.rename_error (h : SameSlot f g p) (d : Location) (a b : Bytes) (e : OsError) :
    (g.withTemporary p d b).rename (g.temporary p d) p = .error e ↔
      (f.withTemporary p d a).rename (f.temporary p d) p = .error e := by
  refine rename_error_congr ?_ ?_ e
  · rw [target_withTemporary, target_withTemporary, h.target]
  · intro t name ht hname hnul hslash hlen
    rw [target_withTemporary] at ht
    have ht' := h.target.trans ht
    rw [withTemporary, withTemporary, get?_put_of_ne (target_ne_temporary ht' hname d),
      get?_put_of_ne (target_ne_temporary ht hname d)]
    exact ⟨h.symm.notDir ht' hname hnul hslash hlen, h.notDir ht hname hnul hslash hlen⟩

theorem SameSlot.settle_error (h : SameSlot f g p) (disk : Disk) (d : Location) (part : Bytes)
    (e : OsError) :
    (g.withTemporary p d part).settle disk (g.temporary p d) p = .error e ↔
      (f.withTemporary p d part).settle disk (f.temporary p d) p = .error e := by
  unfold settle
  cases disk.sync with
  | some e => rfl
  | none =>
    cases disk.rename with
    | some e => rfl
    | none => exact h.rename_error d part part e

/-- and if it cannot be, then for the same reason. -/
theorem SameSlot.replace_error (h : SameSlot f g p) (disk : Disk) (content : Bytes) :
    (g.replace disk p content).error = (f.replace disk p content).error := by
  have hin : ∀ d, (g.replacingIn disk p content d).error =
      (f.replacingIn disk p content d).error := by
    intro d
    unfold replacingIn
    rcases writeAll [] disk.writes content with ⟨parts, _ | e⟩
    · have hsettle := h.settle_error disk d (parts.getLast?.getD [])
      dsimp only
      rcases hf : (f.withTemporary p d _).settle disk _ p with e | f'
      · rw [(hsettle e).2 hf]
      · rcases hg : (g.withTemporary p d _).settle disk _ p with e | g'
        · cases hf.symm.trans ((hsettle e).1 hg)
        · rfl
    · rfl
  unfold replace replacing
  rw [h.holder.locate]
  cases hd : f.locate (Files.holder p) with
  | error e => rfl
  | ok d =>
    dsimp only
    rw [h.holder.isDir d hd]
    split
    · rfl
    · split
      · rfl
      · exact hin d

end Files

end NodeConfig
