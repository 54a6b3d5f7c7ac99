import Mathlib
import NodeConfig.Proofs.Files.Replace

namespace NodeConfig

namespace Files

variable {f g h : Files} {l k : Location} {l? : Option Location} {p : Path}

/-- No file is made, changed or taken away, but one perhaps; and no directory is taken away. -/
structure Spares (f g : Files) (l? : Option Location) : Prop where
  file : ∀ k content, l? ≠ some k →
    (g.get? k = some (.file content) ↔ f.get? k = some (.file content))
  dir : ∀ k, f.get? k = some .dir → g.get? k = some .dir

namespace Spares

theorem refl (f : Files) (l? : Option Location) : f.Spares f l? := ⟨fun _ _ _ => .rfl, fun _ => id⟩

theorem trans (h₁ : f.Spares g l?) (h₂ : g.Spares h l?) : f.Spares h l? where
  file k content hk := (h₂.file k content hk).trans (h₁.file k content hk)
  dir k hk := h₂.dir k (h₁.dir k hk)

theorem of_none (h : f.Spares g none) (l? : Option Location) : f.Spares g l? :=
  ⟨fun k content _ => h.file k content nofun, h.dir⟩

/-- A file that is not spared was none before, or a file. -/
theorem put (hl : f.get? l ≠ some .dir) (content : Bytes) :
    f.Spares (f.put l (.file content)) (some l) where
  file k _ hk := by rw [get?_put_of_ne fun h => hk (by rw [h])]
  dir k hk := by
    rw [get?_put_of_ne]
    · exact hk
    · rintro rfl
      exact hl hk

theorem put_dir (hl : f.get? l = none) : f.Spares (f.put l .dir) none where
  file k content _ := by
    by_cases hk : k = l
    · simp [hk, hl]
    · rw [get?_put_of_ne hk]
  dir k hk := by
    rw [get?_put_of_ne]
    · exact hk
    · rintro rfl
      simp [hl] at hk

/-- The content of a file that is spared, which is nothing where there is no file. -/
theorem contentAt (h : f.Spares g l?) (hk : l? ≠ some k) : g.contentAt k = f.contentAt k := by
  have hfile := fun content => h.file k content hk
  unfold Files.contentAt
  split
  · next content hk => rw [(hfile content).1 hk]
  · next hk =>
    split
    · next content hk' => exact absurd ((hfile content).2 hk') (hk content)
    · rfl

end Spares

/-- What the making of a directory checks, and does. -/
theorem makeDir_eq_ok (hmake : f.makeDir p = .ok g) :
    ∃ t name, f.target p = .ok t ∧ t.name = some name ∧ name.length ≤ nameLimit ∧
      f.get? t.location = none ∧ g = f.put t.location .dir := by
  unfold makeDir at hmake
  split at hmake
  · cases hmake
  · split at hmake
    · cases hmake
    · next t ht =>
      split at hmake
      · cases hmake
      · next name hname =>
        split at hmake
        · cases hmake
        · next hlen =>
          split at hmake
          · cases hmake
          · next hnone =>
            cases hmake
            exact ⟨t, name, ht, hname, by omega, by simpa using hnone, rfl⟩

theorem spares_makeDir (hmake : f.makeDir p = .ok g) : f.Spares g none := by
  obtain ⟨t, -, -, -, -, hl, rfl⟩ := makeDir_eq_ok hmake
  exact .put_dir hl

/-- Directories that are made, or not all of them, spare all files. -/
theorem spares_makeDirsIn (f : Files) (ps : List Path) : f.Spares (f.makeDirsIn ps).files none := by
  induction ps generalizing f with
  | nil => exact .refl f none
  | cons p above ih =>
    unfold makeDirsIn
    split
    · next hmake => exact spares_makeDir hmake
    · have habove := ih f
      split
      · next hmade =>
        rw [hmade] at habove
        exact habove
      · next hmade =>
        rw [hmade] at habove
        split
        · next hmake => exact habove.trans (spares_makeDir hmake)
        · exact habove
    · exact .refl f none

/-- What a file is checked for before it is written to. -/
theorem writable_eq_ok (hw : f.writable p = .ok l) :
    ∃ t name, f.target p = .ok t ∧ t.name = some name ∧ p.hasNul = false ∧
      p.endsInSlash = false ∧ name.length ≤ nameLimit ∧ l = t.location ∧
        f.get? l ≠ some .dir := by
  unfold writable at hw
  split at hw
  · cases hw
  · next hnul =>
    split at hw
    · cases hw
    · next t ht =>
      split at hw
      · cases hw
      · next name hname =>
        split at hw
        · cases hw
        · next hslash =>
          split at hw
          · cases hw
          · next hlen =>
            split at hw
            · cases hw
            · next hdir =>
              cases hw
              exact ⟨t, name, ht, hname, by simpa using hnul, by simpa using hslash, by omega, rfl,
                hdir⟩

theorem not_dir_of_writable (hw : f.writable p = .ok l) : f.get? l ≠ some .dir := by
  obtain ⟨-, -, -, -, -, -, -, -, hdir⟩ := writable_eq_ok hw
  exact hdir

/-- Directories above the log are made, and then the log is, if it can be written to and is not
there. -/
theorem openLog_parts (f : Files) (p : Path) :
    ∃ above h, (∀ q ∈ above, ∃ d, p.parent? = some d ∧ q ∈ d.ancestors) ∧
      h = (f.makeDirsIn above).files ∧
        ((∃ e, f.openLog p = (h, .error e)) ∨ ∃ l, h.writable p = .ok l ∧
          f.openLog p = (if (h.get? l).isSome then h else h.put l (.file []), .ok l)) := by
  generalize hopen : f.openLog p = opened
  unfold openLog at hopen
  extract_lets made at hopen
  obtain ⟨above, hmem, hmade⟩ : ∃ above, (∀ q ∈ above, ∃ d, p.parent? = some d ∧ q ∈ d.ancestors) ∧
      made = f.makeDirsIn above := by
    unfold made
    split
    · next d hd =>
      split
      · exact ⟨[], nofun, rfl⟩
      · exact ⟨d.ancestors, fun q hq => ⟨d, hd, hq⟩, rfl⟩
    · exact ⟨[], nofun, rfl⟩
  refine ⟨above, made.files, hmem, by rw [hmade], ?_⟩
  clear_value made
  obtain ⟨h, _ | e⟩ := made
  · cases hw : h.writable p with
    | error e => exact .inl ⟨e, by simpa only [hw] using hopen.symm⟩
    | ok l => exact .inr ⟨l, rfl, by simpa only [hw] using hopen.symm⟩
  · exact .inl ⟨e, hopen.symm⟩

/-- Opening a log spares all other files, and what is in the log already. -/
theorem openLog_cases (f : Files) (p : Path) :
    (∃ g e, f.openLog p = (g, .error e) ∧ f.Spares g none) ∨
      ∃ g l, f.openLog p = (g, .ok l) ∧ f.Spares g (some l) ∧
        g.get? l = some (.file (f.contentAt l)) := by
  obtain ⟨above, h, -, rfl, ⟨e, herror⟩ | ⟨l, hw, hok⟩⟩ := f.openLog_parts p
  · exact .inl ⟨_, e, herror, f.spares_makeDirsIn above⟩
  · have hmade := f.spares_makeDirsIn above
    refine .inr ⟨_, l, hok, ?_⟩
    rw [← hmade.contentAt nofun]
    rcases hl : (f.makeDirsIn above).files.get? l with _ | content | _
    · refine ⟨(hmade.of_none _).trans (.put (not_dir_of_writable hw) []), ?_⟩
      simp [contentAt, hl]
    · exact ⟨hmade.of_none _, by simp [contentAt, hl]⟩
    · exact absurd hl (not_dir_of_writable hw)

theorem openLog_eq_ok (hopen : f.openLog p = (g, .ok l)) :
    f.Spares g (some l) ∧ g.get? l = some (.file (f.contentAt l)) := by
  obtain ⟨_, _, herror, -⟩ | ⟨_, _, hok, h⟩ := f.openLog_cases p
  · cases hopen.symm.trans herror
  · cases hopen.symm.trans hok
    exact h

theorem get?_appendAt (f : Files) (l k : Location) (text : Bytes) :
    (f.appendAt l text).get? k =
      if k = l then some (.file (f.contentAt l ++ text)) else f.get? k := by
  by_cases hk : k = l
  · rw [if_pos hk, hk, appendAt, get?_put_self]
  · rw [if_neg hk, appendAt, get?_put_of_ne hk]

/-- The trees are the same but for what is in one file, perhaps. -/
structure SameBut (l? : Option Location) (f g : Files) : Prop where
  get? : ∀ k, l? ≠ some k → g.get? k = f.get? k
  file : ∀ l, l? = some l → ∃ a b, f.get? l = some (.file a) ∧ g.get? l = some (.file b)

namespace SameBut

theorem symm (h : SameBut l? f g) : SameBut l? g f where
  get? k hk := (h.get? k hk).symm
  file l hl := by
    obtain ⟨a, b, ha, hb⟩ := h.file l hl
    exact ⟨b, a, hb, ha⟩

theorem trans (h₁ : SameBut l? f g) (h₂ : SameBut l? g h) : SameBut l? f h where
  get? k hk := (h₂.get? k hk).trans (h₁.get? k hk)
  file l hl := by
    obtain ⟨a, -, ha, -⟩ := h₁.file l hl
    obtain ⟨-, c, -, hc⟩ := h₂.file l hl
    exact ⟨a, c, ha, hc⟩

/-- The same files and directories are there. -/
theorem same_kind (h : SameBut l? f g) (k : Location) :
    (g.get? k).isSome = (f.get? k).isSome ∧ (g.get? k = some .dir ↔ f.get? k = some .dir) := by
  by_cases hk : l? = some k
  · obtain ⟨a, b, ha, hb⟩ := h.file k hk
    simp [ha, hb]
  · rw [h.get? k hk]
    exact ⟨rfl, .rfl⟩

theorem isDir_eq (h : SameBut l? f g) (k : Location) : g.isDir k = f.isDir k := by
  rw [Bool.eq_iff_iff, isDir_iff, isDir_iff, (h.same_kind k).2]

theorem step_eq (h : SameBut l? f g) (l : Location) (s : Segment) : g.step l s = f.step l s := by
  simp only [step, h.isDir_eq, (h.same_kind _).1]

theorem walk_eq (h : SameBut l? f g) (l : Location) (ss : List Segment) :
    g.walk l ss = f.walk l ss := by
  have hstep : g.step = f.step := funext₂ h.step_eq
  rw [walk, walk, hstep]

theorem locate_eq (h : SameBut l? f g) (p : Path) : g.locate p = f.locate p := by
  simp only [locate, h.walk_eq, h.isDir_eq]

theorem target_eq (h : SameBut l? f g) (p : Path) : g.target p = f.target p := by
  simp only [target, h.walk_eq, h.isDir_eq]

/-- A path that does not lead to the file reads alike. -/
theorem read_eq (h : SameBut l? f g) (hp : ∀ l, l? = some l → f.locate p ≠ .ok l) :
    g.read p = f.read p := by
  unfold read
  rw [h.locate_eq]
  cases hl : f.locate p with
  | error e => rfl
  | ok k => simp only [h.get? k fun hk => hp k hk hl]

theorem replaceable {d : Location} {t : Target} {name : Segment} (h : SameBut l? f g)
    (hr : f.Replaceable p d t name) : g.Replaceable p d t name where
  holder := (h.locate_eq _).trans hr.holder
  isDir := (h.isDir_eq d).trans hr.isDir
  target := (h.target_eq p).trans hr.target
  named := hr.named
  short := hr.short
  noNul := hr.noNul
  noSlash := hr.noSlash
  notDir := mt (h.same_kind t.location).2.1 hr.notDir

/-- A file is replaced in both trees alike. -/
theorem replaced {d : Location} {t : Target} {name : Segment} (h : SameBut l? f g)
    (hr : f.Replaceable p d t name) (content : Bytes) :
    SameBut l? (f.replaced p content d t) (g.replaced p content d t) where
  get? k hk := by rw [(h.replaceable hr).get?_replaced, hr.get?_replaced, h.get? k hk]
  file l hl := by
    obtain ⟨a, b, ha, hb⟩ := h.file l hl
    rw [(h.replaceable hr).get?_replaced, hr.get?_replaced]
    split
    · exact ⟨content, content, rfl, rfl⟩
    · exact ⟨a, b, ha, hb⟩

theorem spares (h : SameBut l? f g) : f.Spares g l? where
  file k content hk := by rw [h.get? k hk]
  dir k hk := (h.same_kind k).2.2 hk

end SameBut

end Files

end NodeConfig
