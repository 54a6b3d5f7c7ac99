import Mathlib
import NodeConfig.Files.Change
import NodeConfig.Proofs.Files.Temporary

namespace NodeConfig

namespace Files

variable {f g : Files} {p : Path}

/-- What a renaming checks, and does. -/
theorem rename_eq_ok_iff {source : Location} : f.rename source p = .ok g ↔
    ∃ t name, f.target p = .ok t ∧ t.name = some name ∧ p.hasNul = false ∧
      p.endsInSlash = false ∧ name.length ≤ nameLimit ∧ f.get? t.location ≠ some .dir ∧
      g = (f.put t.location (.file (f.contentAt source))).erase source := by
  constructor
  · intro h
    unfold rename at h
    split at h
    · cases h
    · next hnul =>
      split at h
      · cases h
      · next t ht =>
        split at h
        · cases h
        · next name hname =>
          split at h
          · cases h
          · next hlen =>
            split at h
            · cases h
            · next hslash =>
              split at h
              · cases h
              · next hdir =>
                cases h
                exact ⟨t, name, ht, hname, by simpa using hnul, by simpa using hslash, by omega,
                  hdir, rfl⟩
  · rintro ⟨t, name, ht, hname, hnul, hslash, hlen, hdir, rfl⟩
    have hlen' : ¬ nameLimit < name.length := by omega
    simp [rename, hnul, ht, hname, hlen', hslash, hdir]

/-- A file can be replaced: the directory that holds it is there, and the path ends in a name that
no directory has. -/
structure Replaceable (f : Files) (p : Path) (d : Location) (t : Target) (name : Segment) :
    Prop where
  holder : f.locate (holder p) = .ok d
  isDir : f.isDir d = true
  target : f.target p = .ok t
  named : t.name = some name
  short : name.length ≤ nameLimit
  noNul : p.hasNul = false
  noSlash : p.endsInSlash = false
  notDir : f.get? t.location ≠ some .dir

def replaced (f : Files) (p : Path) (content : Bytes) (d : Location) (t : Target) : Files :=
  ((f.withTemporary p d content).put t.location (.file content)).erase (f.temporary p d)

/-- The renaming succeeds exactly if the path ends in a name that no directory has. -/
theorem rename_temporary_iff {content : Bytes} {d : Location} (hd : f.locate (holder p) = .ok d)
    (hdir : f.isDir d = true) :
    (f.withTemporary p d content).rename (f.temporary p d) p = .ok g ↔
      ∃ t name, f.Replaceable p d t name ∧ g = f.replaced p content d t := by
  have hdirs : SameDirs f (f.withTemporary p d content) :=
    sameDirs_put (by simp [get?_temporary]) content
  have hcontent : (f.withTemporary p d content).contentAt (f.temporary p d) = content := by
    simp [contentAt, withTemporary]
  rw [rename_eq_ok_iff, hcontent]
  constructor
  · rintro ⟨t, name, ht, hname, hnul, hslash, hlen, hnot, rfl⟩
    rw [withTemporary, get?_put_of_ne (target_ne_temporary ht hname d)] at hnot
    exact ⟨t, name, ⟨hd, hdir, target_congr hdirs.symm ht, hname, hlen, hnul, hslash, hnot⟩, rfl⟩
  · rintro ⟨t, name, h, rfl⟩
    have hnot : (f.withTemporary p d content).get? t.location ≠ some .dir := by
      rw [withTemporary, get?_put_of_ne (target_ne_temporary h.target h.named d)]
      exact h.notDir
    exact ⟨t, name, target_congr hdirs h.target, h.named, h.noNul, h.noSlash, h.short, hnot, rfl⟩

/-! ### The disk -/

/-- Each call that writes leaves a beginning of the whole in the file, and the last one leaves the
whole if no error ended the calls. -/
theorem writeAll_spec {done left : Bytes} {answers : List WriteAnswer} {parts : List Bytes}
    {stopped : Option OsError} (h : writeAll done answers left = (parts, stopped)) :
    (∀ part ∈ parts, part <+: done ++ left) ∧
      (stopped = none → parts.getLast?.getD done = done ++ left) := by
  fun_induction writeAll done answers left generalizing parts with
  | case1 => cases h; simp
  | case2 => cases h; simp
  | case3 => cases h; simp
  | case4 done n answers left _ _ parts e hrec ih =>
    cases h
    obtain ⟨hparts, hlast⟩ := ih hrec
    rw [List.append_assoc, List.take_append_drop] at hparts hlast
    constructor
    · intro part hpart
      rcases List.mem_cons.1 hpart with rfl | hpart
      · exact List.prefix_append_right_inj _ |>.2 (List.take_prefix n left)
      · exact hparts part hpart
    · rw [List.getLast?_cons]
      exact hlast
  | case5 done answers left _ ih => exact ih h
  | case6 => cases h; simp

/-- The disk takes the whole of a content, and refuses nothing before or after. -/
structure Disk.Takes (disk : Disk) (content : Bytes) : Prop where
  create : disk.create = none
  writes : (writeAll [] disk.writes content).2 = none
  sync : disk.sync = none
  rename : disk.rename = none

theorem Disk.takes_sound (content : Bytes) : Disk.sound.Takes content := ⟨rfl, rfl, rfl, rfl⟩

theorem settle_eq_ok_iff {disk : Disk} {source : Location} : f.settle disk source p = .ok g ↔
    disk.sync = none ∧ disk.rename = none ∧ f.rename source p = .ok g := by
  unfold settle
  cases disk.sync <;> cases disk.rename <;> simp

/-! ### All that a replacement can do -/

variable {disk : Disk} {content : Bytes}

/-- A replacement is refused before there is a temporary file, or its temporary file is taken away
again, or takes the place of the file. The last happens exactly if tree and disk allow it. -/
inductive Outcome (f : Files) (disk : Disk) (p : Path) (content : Bytes) : Replacing → Prop
  | refused {e : OsError} (h : ¬ (disk.Takes content ∧ ∃ d t name, f.Replaceable p d t name)) :
      Outcome f disk p content ⟨[], some e⟩
  | undone {d : Location} {parts : List Bytes} {e : OsError}
      (h : ¬ (disk.Takes content ∧ ∃ d t name, f.Replaceable p d t name))
      (hparts : ∀ part ∈ parts, part <+: content) :
      Outcome f disk p content ⟨parts.map (f.withTemporary p d) ++ [f], some e⟩
  | done {d : Location} {t : Target} {name : Segment} {parts : List Bytes}
      (h : disk.Takes content) (hr : f.Replaceable p d t name)
      (hparts : ∀ part ∈ parts, part <+: content) :
      Outcome f disk p content
        ⟨parts.map (f.withTemporary p d) ++ [f.replaced p content d t], none⟩

theorem outcome_replacingIn {d : Location} (hd : f.locate (holder p) = .ok d)
    (hdir : f.isDir d = true) (hcreate : disk.create = none) :
    Outcome f disk p content (f.replacingIn disk p content d) := by
  obtain ⟨parts, stopped, hwrite⟩ : ∃ parts stopped,
      writeAll [] disk.writes content = (parts, stopped) := ⟨_, _, rfl⟩
  obtain ⟨hparts, hlast⟩ := writeAll_spec hwrite
  have hparts : ∀ part ∈ [] :: parts, part <+: content :=
    List.forall_mem_cons.2 ⟨List.nil_prefix, hparts⟩
  have herase : ∀ part, (f.withTemporary p d part).erase (f.temporary p d) = f :=
    fun _ => erase_put (f.get?_temporary p d) _
  simp only [replacingIn, hwrite, herase]
  cases stopped with
  | some e =>
    refine .undone ?_ hparts
    rintro ⟨htakes, -⟩
    cases (congrArg Prod.snd hwrite).symm.trans htakes.writes
  | none =>
    rw [hlast rfl, List.nil_append]
    cases hsettle : (f.withTemporary p d content).settle disk (f.temporary p d) p with
    | ok g =>
      obtain ⟨hsync, hrename, hg⟩ := settle_eq_ok_iff.1 hsettle
      obtain ⟨t, name, hr, rfl⟩ := (rename_temporary_iff hd hdir).1 hg
      exact .done ⟨hcreate, congrArg Prod.snd hwrite, hsync, hrename⟩ hr hparts
    | error e =>
      refine .undone ?_ hparts
      rintro ⟨htakes, d', t, name, hr⟩
      cases hd.symm.trans hr.holder
      have hg : (f.withTemporary p d content).rename (f.temporary p d) p =
          .ok (f.replaced p content d t) := (rename_temporary_iff hd hdir).2 ⟨t, name, hr, rfl⟩
      cases hsettle.symm.trans (settle_eq_ok_iff.2 ⟨htakes.sync, htakes.rename, hg⟩)

theorem outcome_replacing (f : Files) (disk : Disk) (p : Path) (content : Bytes) :
    Outcome f disk p content (f.replacing disk p content) := by
  unfold replacing
  cases hd : f.locate (holder p) with
  | error e =>
    refine .refused ?_
    rintro ⟨-, d, t, name, hr⟩
    cases hd.symm.trans hr.holder
  | ok d =>
    dsimp only
    by_cases hdir : f.isDir d = true
    · rw [hdir, Bool.not_true, if_neg Bool.false_ne_true]
      cases hcreate : disk.create with
      | none => exact outcome_replacingIn hd hdir hcreate
      | some e =>
        refine .refused ?_
        rintro ⟨htakes, -⟩
        cases hcreate.symm.trans htakes.create
    · rw [Bool.eq_false_iff.2 hdir, Bool.not_false, if_pos rfl]
      refine .refused ?_
      rintro ⟨-, d', t, name, hr⟩
      cases hd.symm.trans hr.holder
      exact hdir hr.isDir

/-- A replacement succeeds exactly if tree and disk allow it. -/
theorem replace_eq_ok_iff : f.replace disk p content = ⟨g, none⟩ ↔
    disk.Takes content ∧ ∃ d t name, f.Replaceable p d t name ∧ g = f.replaced p content d t := by
  have houtcome := outcome_replacing f disk p content
  unfold replace
  generalize f.replacing disk p content = r at houtcome
  have hnever : ∀ e, (¬ (disk.Takes content ∧ ∃ d t name, f.Replaceable p d t name)) →
      ∀ u, ((⟨u, some e⟩ : Attempt) = ⟨g, none⟩ ↔ disk.Takes content ∧
        ∃ d t name, f.Replaceable p d t name ∧ g = f.replaced p content d t) := by
    intro e h u
    refine iff_of_false (by simp) ?_
    rintro ⟨htakes, d, t, name, hr, -⟩
    exact h ⟨htakes, d, t, name, hr⟩
  cases houtcome with
  | refused h => exact hnever _ h _
  | undone h => exact hnever _ h _
  | @done d t name parts h hr =>
    simp only [List.getLast?_concat, Option.getD_some, Attempt.mk.injEq, and_true]
    constructor
    · rintro rfl
      exact ⟨h, d, t, name, hr, rfl⟩
    · rintro ⟨-, d', t', name', hr', rfl⟩
      cases hr.holder.symm.trans hr'.holder
      cases hr.target.symm.trans hr'.target
      rfl

/-- One that fails leaves the tree as it was. -/
theorem eq_of_replace_error {e : OsError} (h : f.replace disk p content = ⟨g, some e⟩) : g = f := by
  have houtcome := outcome_replacing f disk p content
  unfold replace at h
  generalize f.replacing disk p content = r at houtcome h
  cases houtcome with
  | refused =>
    cases h
    rfl
  | undone =>
    simp only [List.getLast?_concat, Option.getD_some] at h
    cases h
    rfl
  | done => simp at h

namespace Replaceable

variable {d : Location} {t : Target} {name : Segment}

/-- Only the entry where the path ends is another. -/
theorem get?_replaced (h : f.Replaceable p d t name) (k : Location) :
    (f.replaced p content d t).get? k =
      if k = t.location then some (.file content) else f.get? k := by
  have hne : t.location ≠ f.temporary p d := target_ne_temporary h.target h.named d
  by_cases hk : k = t.location
  · rw [if_pos hk, hk, replaced, get?_erase_of_ne hne, get?_put_self]
  · rw [if_neg hk, replaced, withTemporary]
    -- Where the temporary file was there is nothing, as there was nothing before.
    by_cases htemp : k = f.temporary p d
    · rw [htemp, get?_erase_self, get?_temporary]
    · rw [get?_erase_of_ne htemp, get?_put_of_ne hk, get?_put_of_ne htemp]

theorem sameDirs (h : f.Replaceable p d t name) : SameDirs f (f.replaced p content d t) := by
  intro k
  rw [Bool.eq_iff_iff, isDir_iff, isDir_iff, h.get?_replaced]
  by_cases hk : k = t.location
  · simp [hk, h.notDir]
  · rw [if_neg hk]

theorem locate_replaced (h : f.Replaceable p d t name) :
    (f.replaced p content d t).locate p = .ok t.location :=
  locate_of_target (target_congr h.sameDirs h.target) h.named h.noNul h.noSlash h.short
    (by rw [h.get?_replaced, if_pos rfl]; rfl)

theorem read_replaced (h : f.Replaceable p d t name) :
    (f.replaced p content d t).read p = .ok content := by
  have hget : (f.replaced p content d t).get? t.location = some (.file content) := by
    rw [h.get?_replaced, if_pos rfl]
  simp only [read, h.locate_replaced, hget]

/-- Whether a file can be replaced is up to the directories alone. -/
theorem congr (h : f.Replaceable p d t name) (hd : SameDirs f g) : g.Replaceable p d t name where
  holder := locate_congr hd h.holder h.isDir
  isDir := hd d ▸ h.isDir
  target := target_congr hd h.target
  named := h.named
  short := h.short
  noNul := h.noNul
  noSlash := h.noSlash
  notDir hdir := by
    have hf : f.isDir t.location = true := hd _ ▸ isDir_iff.2 (.inr hdir)
    refine (isDir_iff.1 hf).elim (fun hnil => ?_) h.notDir
    simp [Target.location, h.named] at hnil

theorem again (h : f.Replaceable p d t name) :
    (f.replaced p content d t).Replaceable p d t name := h.congr h.sameDirs

end Replaceable

/-- A file that was replaced has the new content. -/
theorem read_replace (h : f.replace disk p content = ⟨g, none⟩) : g.read p = .ok content := by
  obtain ⟨-, d, t, name, hr, rfl⟩ := replace_eq_ok_iff.1 h
  exact hr.read_replaced

/-- During a replacement the tree has a temporary file in it; at last it is as `replace` has it. -/
theorem mem_states (h : g ∈ (f.replacing disk p content).states) :
    (∃ d part, part <+: content ∧ g = f.withTemporary p d part) ∨
      g = (f.replace disk p content).files := by
  have houtcome := outcome_replacing f disk p content
  unfold replace
  generalize f.replacing disk p content = r at houtcome h
  have hstates : ∀ (parts : List Bytes) (d : Location) (last : Files),
      (∀ part ∈ parts, part <+: content) → g ∈ parts.map (f.withTemporary p d) ++ [last] →
        (∃ d part, part <+: content ∧ g = f.withTemporary p d part) ∨ g = last := by
    intro parts d last hparts hg
    rcases List.mem_append.1 hg with hg | hg
    · obtain ⟨part, hpart, rfl⟩ := List.mem_map.1 hg
      exact .inl ⟨d, part, hparts part hpart, rfl⟩
    · exact .inr (List.mem_singleton.1 hg)
  cases houtcome with
  | refused => cases h
  | undone _ hparts =>
    dsimp only
    rw [List.getLast?_concat, Option.getD_some]
    exact hstates _ _ _ hparts h
  | done _ _ hparts =>
    dsimp only
    rw [List.getLast?_concat, Option.getD_some]
    exact hstates _ _ _ hparts h

/-- The temporary file is there before anything is written to it. -/
theorem made_mem_states {d : Location} (hd : f.locate (holder p) = .ok d) (hdir : f.isDir d = true)
    (hcreate : disk.create = none) :
    f.withTemporary p d [] ∈ (f.replacing disk p content).states := by
  simp only [replacing, hd, hdir, hcreate, replacingIn, Bool.not_true, if_neg Bool.false_ne_true]
  generalize writeAll [] disk.writes content = written
  split <;> simp

end Files

end NodeConfig
