import Mathlib
import NodeConfig.Proofs.Files.Log
import NodeConfig.Proofs.Files.Segments

namespace NodeConfig

namespace Files

variable {f g h : Files} {k l : Location} {p q d : Path} {P Q : Location → Prop}

/-! ### Trees that grow -/

/-- Nothing is taken away, and files change at their ends only. -/
structure Grown (f g : Files) : Prop where
  dir : ∀ k, f.get? k = some .dir → g.get? k = some .dir
  file : ∀ k content, f.get? k = some (.file content) →
    ∃ more, g.get? k = some (.file (content ++ more))

namespace Grown

theorem refl (f : Files) : Grown f f := ⟨fun _ => id, fun _ _ h => ⟨[], by simpa using h⟩⟩

theorem trans (h₁ : Grown f g) (h₂ : Grown g h) : Grown f h where
  dir k hk := h₂.dir k (h₁.dir k hk)
  file k content hk := by
    obtain ⟨more, hg⟩ := h₁.file k content hk
    obtain ⟨more', hh⟩ := h₂.file k _ hg
    exact ⟨more ++ more', by rw [hh, List.append_assoc]⟩

theorem of_spares (hs : f.Spares g none) : Grown f g where
  dir := hs.dir
  file k content hk := ⟨[], by simpa using (hs.file k content nofun).2 hk⟩

/-- A file that is written to grows, and there may be none before. -/
theorem appendAt (hl : f.get? l ≠ some .dir) (text : Bytes) : Grown f (f.appendAt l text) where
  dir := (Spares.put hl _).dir
  file k content hk := by
    rw [get?_appendAt]
    split
    · next heq => exact ⟨text, by simp [contentAt, ← heq, hk]⟩
    · exact ⟨[], by simpa using hk⟩

theorem isSome (hg : Grown f g) (hk : (f.get? k).isSome = true) : (g.get? k).isSome = true := by
  rcases he : f.get? k with _ | content | _
  · simp [he] at hk
  · obtain ⟨more, hmore⟩ := hg.file k content he
    simp [hmore]
  · simp [hg.dir k he]

theorem isDir (hg : Grown f g) (hk : f.isDir k = true) : g.isDir k = true :=
  isDir_iff.2 ((isDir_iff.1 hk).imp_right (hg.dir k))

/-- Where a path leads, it still leads when the tree has grown. -/
theorem step (hg : Grown f g) {s : Segment} (hs : f.step l s = .ok k) : g.step l s = .ok k := by
  obtain ⟨hl, hs⟩ := step_eq_ok.1 hs
  refine step_eq_ok.2 ⟨hg.isDir hl, ?_⟩
  rcases hs with hs | hs | ⟨hh, ha, hn, hsome, rfl⟩
  · exact .inl hs
  · exact .inr (.inl hs)
  · exact .inr (.inr ⟨hh, ha, hn, hg.isSome hsome, rfl⟩)

theorem walk (hg : Grown f g) {ss : List Segment} (hw : f.walk l ss = .ok k) :
    g.walk l ss = .ok k := by
  induction ss generalizing l with
  | nil => exact hw
  | cons s ss ih =>
    obtain ⟨m, hs, hss⟩ := walk_cons.1 hw
    exact walk_cons.2 ⟨m, hg.step hs, ih hss⟩

theorem locate (hg : Grown f g) (hl : f.locate p = .ok l) : g.locate p = .ok l := by
  obtain ⟨hnul, hp, hw, hslash⟩ := locate_eq_ok.1 hl
  exact locate_eq_ok.2 ⟨hnul, hp, hg.walk hw, fun hs => hg.isDir (hslash hs)⟩

theorem target (hg : Grown f g) {t : Target} (ht : f.target p = .ok t) : g.target p = .ok t := by
  obtain ⟨hp, ht⟩ := target_eq_ok.1 ht
  refine target_eq_ok.2 ⟨hp, ht.imp_right ?_⟩
  rintro ⟨init, last, hs, hw, hdir, hname⟩
  exact ⟨init, last, hs, hg.walk hw, hg.isDir hdir, hname⟩

end Grown

def Makes (f g : Files) (P : Location → Prop) : Prop :=
  ∀ k, g.get? k = some .dir → f.get? k = some .dir ∨ f.get? k = none ∧ P k

namespace Makes

theorem refl (f : Files) (P : Location → Prop) : Makes f f P := fun _ => .inl

theorem imp (h : Makes f g P) (hPQ : ∀ k, P k → Q k) : Makes f g Q :=
  fun k hk => (h k hk).imp_right (.imp_right (hPQ k))

theorem trans (hg : Grown f g) (h₁ : Makes f g P) (h₂ : Makes g h P) : Makes f h P := by
  intro k hk
  obtain hdir | ⟨hnone, hP⟩ := h₂ k hk
  · exact h₁ k hdir
  · refine .inr ⟨?_, hP⟩
    -- What is missing later was missing before.
    rw [← Option.not_isSome_iff_eq_none]
    intro hsome
    simpa [hnone] using hg.isSome hsome

end Makes

/-! ### Directories above a log -/

/-- A directory that a path names on its way, above its end. -/
def Above (f : Files) (p : Path) (k : Location) : Prop :=
  ∃ init, init <+: p.segments ∧ init ≠ p.segments ∧ f.walk (origin p) init = .ok k

theorem Above.grown (hk : f.Above p k) (hg : Grown f g) : g.Above p k := by
  obtain ⟨init, hinit, hne, hw⟩ := hk
  exact ⟨init, hinit, hne, hg.walk hw⟩

/-- The parent of a path and those above it lead to directories that the path names. -/
theorem above_of_walk {d : Path} (hd : p.parent? = some d) (hq : q ∈ d.ancestors)
    (hw : f.walk (origin q) q.segments = .ok k) (hk : f.isDir k = true) : f.Above p k := by
  obtain ⟨n, hn, rfl⟩ := Path.eq_join_of_mem_ancestors hd hq
  have htidy := (Path.tidy_components p).take n
  rw [origin, Path.isAbsolute_join htidy, Path.segments_join htidy] at hw
  obtain ⟨init, hinit, hne, hfilter⟩ := Path.exists_prefix hn
  refine ⟨init, hinit, hne, ?_⟩
  rw [← walk_filter_here hk, hfilter, walk_filter_here hk]
  exact hw

/-- The path of a directory that is made leads to it. -/
theorem makes_makeDir (hmake : f.makeDir p = .ok g) :
    Makes f g fun k => g.walk (origin p) p.segments = .ok k := by
  have hg : Grown f g := .of_spares (spares_makeDir hmake)
  obtain ⟨t, name, ht, hname, hlen, hnone, rfl⟩ := makeDir_eq_ok hmake
  intro k hk
  by_cases heq : k = t.location
  · subst heq
    exact .inr ⟨hnone, walk_of_target (hg.target ht) hname hlen (by simp)⟩
  · rw [get?_put_of_ne heq] at hk
    exact .inl hk

theorem makes_makeDirsIn (f : Files) (ps : List Path) :
    Makes f (f.makeDirsIn ps).files fun k =>
      ∃ q ∈ ps, (f.makeDirsIn ps).files.walk (origin q) q.segments = .ok k := by
  induction ps generalizing f with
  | nil => exact .refl f _
  | cons p above ih =>
    unfold makeDirsIn
    split
    · next hmake =>
      exact (makes_makeDir hmake).imp fun k hw => ⟨p, List.mem_cons_self, hw⟩
    · have habove := ih f
      have hgrown : Grown f (f.makeDirsIn above).files := .of_spares (spares_makeDirsIn f above)
      have hcons : ∀ (P : Path → Prop), (∃ q ∈ above, P q) → ∃ q ∈ p :: above, P q := by
        rintro P ⟨q, hq, hP⟩
        exact ⟨q, List.mem_cons_of_mem p hq, hP⟩
      split
      · next hmade =>
        rw [hmade] at habove
        exact habove.imp fun k => hcons _
      · next hmade =>
        rw [hmade] at habove hgrown
        split
        · next hmake =>
          -- What was made above is still there when the directory itself has been made.
          have hlater := Grown.of_spares (spares_makeDir hmake)
          refine .trans hgrown (habove.imp ?_) ((makes_makeDir hmake).imp ?_)
          · rintro k ⟨q, hq, hw⟩
            exact ⟨q, List.mem_cons_of_mem p hq, hlater.walk hw⟩
          · exact fun k hw => ⟨p, List.mem_cons_self, hw⟩
        · exact habove.imp fun k => hcons _
    · exact .refl f _

/-! ### Logs that can be written to -/

/-- The parent of a path is there if the directory is there that the path ends in. -/
theorem locate_parent {t : Target} (ht : f.target p = .ok t) (hnul : p.hasNul = false)
    (hd : p.parent? = some d) (hne : d ≠ []) : ∃ k, f.locate d = .ok k ∧ f.isDir k = true := by
  have hnul' := Path.hasNul_parent hd hnul
  obtain ⟨n, hn, rfl⟩ := Path.parent?_eq_some hd
  have htidy := (Path.tidy_components p).take n
  obtain ⟨init, hinit, hinit', hfilter⟩ := Path.exists_prefix hn
  obtain ⟨-, ⟨hnil, -⟩ | ⟨init', last, hs, hw, hdir, -⟩⟩ := target_eq_ok.1 ht
  · exact absurd (List.prefix_nil.1 (hnil ▸ hinit)) (hnil ▸ hinit')
  · -- The walk to the end of the path comes by the parent.
    rw [hs] at hinit hinit'
    obtain ⟨rest, rfl⟩ := (List.prefix_concat_iff.1 hinit).resolve_left hinit'
    obtain ⟨k, hk, hrest⟩ := walk_append.1 hw
    have hkdir := isDir_of_walk hrest hdir
    refine ⟨k, locate_eq_ok.2 ⟨hnul', hne, ?_, fun _ => hkdir⟩, hkdir⟩
    rw [origin, Path.isAbsolute_join htidy, Path.segments_join htidy, ← walk_filter_here hkdir,
      ← hfilter, walk_filter_here hkdir]
    exact hk

/-- Where there is something, no directory is made. -/
theorem makeDir_of_located (hl : f.locate p = .ok k) : f.makeDir p = .error .exists := by
  obtain ⟨hnul, hp, hw, -⟩ := locate_eq_ok.1 hl
  obtain hs | ⟨init, last, hs⟩ := p.segments.eq_nil_or_concat'
  · have ht : f.target p = .ok ⟨[], none⟩ := target_eq_ok.2 ⟨hp, .inl ⟨hs, rfl⟩⟩
    simp [makeDir, hnul, ht]
  · rw [hs] at hw
    obtain ⟨m, hm, hstep⟩ := walk_concat.1 hw
    obtain ⟨hdir, hstep⟩ := step_eq_ok.1 hstep
    have ht := target_eq_ok (t := ⟨m, if last = Path.here || last = Path.above then none else
      some last⟩).2 ⟨hp, .inr ⟨init, last, hs, hm, hdir, rfl⟩⟩
    -- A path that ends in a step up or in place names nothing that could be made.
    rcases hstep with ⟨rfl, -⟩ | ⟨-, rfl, -⟩ | ⟨hh, ha, hlen, hsome, -⟩
    · simp [makeDir, hnul, ht]
    · simp [makeDir, hnul, ht]
    · simpa [makeDir, hnul, ht, hh, ha, hsome, Target.location] using hlen

theorem makeDirs_of_dir (hl : f.locate p = .ok k) (hk : f.isDir k = true) :
    f.makeDirs p = ⟨f, none⟩ := by
  have hpath : f.isDirPath p = true := by simp [isDirPath, hl, hk]
  unfold makeDirs Path.ancestors
  cases p.components with
  | nil => rfl
  | cons c cs =>
    simp [List.range_succ_eq_map, makeDirsIn, makeDir_of_located hl, hpath]

/-- A log that can be written to is opened, for no directories above it are missing. -/
theorem openLog_of_writable (hw : f.writable p = .ok l) :
    f.openLog p = (if (f.get? l).isSome then f else f.put l (.file []), .ok l) := by
  obtain ⟨t, -, ht, -, hnul, -⟩ := writable_eq_ok hw
  unfold openLog
  split
  · next d hd =>
    by_cases hne : d = []
    · simp [hne, hw]
    · obtain ⟨k, hk, hdir⟩ := locate_parent ht hnul hd hne
      simp [hne, makeDirs_of_dir hk hdir, hw]
  · simp [hw]

/-- A path that leads to a file is one of a log that can be written to. -/
theorem writable_of_file {content : Bytes} (hl : f.locate p = .ok l)
    (hfile : f.get? l = some (.file content)) (hne : l ≠ []) : f.writable p = .ok l := by
  obtain ⟨hnul, hp, hw, hslash⟩ := locate_eq_ok.1 hl
  have hdir : ¬ f.isDir l = true := by simp [isDir_iff, hne, hfile]
  obtain hs | ⟨init, last, hs⟩ := p.segments.eq_nil_or_concat'
  · rw [hs, origin, if_pos (Path.isAbsolute_of_segments_nil hs hp)] at hw
    cases hw
    exact absurd rfl hne
  · rw [hs] at hw
    obtain ⟨m, hm, hstep⟩ := walk_concat.1 hw
    obtain ⟨hmdir, hstep⟩ := step_eq_ok.1 hstep
    -- The last step is down to a name, for the others end in directories.
    rcases hstep with ⟨-, rfl⟩ | ⟨-, -, rfl⟩ | ⟨hh, ha, hlen, -, rfl⟩
    · exact absurd hmdir hdir
    · refine absurd (isDir_above_origin hm _ (List.dropLast_prefix m) fun heq => ?_) hdir
      exact hdir (by rwa [heq])
    · have ht := target_eq_ok (t := ⟨m, some last⟩).2
        ⟨hp, .inr ⟨init, last, hs, hm, hmdir, by simp [hh, ha]⟩⟩
      simp [writable, hnul, ht, mt hslash hdir, hlen, Target.location, hfile]

/-! ### One write -/

structure Wrote (f : Files) (p : Path) (text : Bytes) (g : Files) (r : Except OsError Location) :
    Prop where
  /-- If the log cannot be opened, no file changes, and none is made. -/
  failed : ∀ e, r = .error e → f.Spares g none
  /-- If it can, the text is at the end of the file that the path leads to, which is made if there
  was none. Other files do not change, and none of them is made. -/
  done : ∀ l, r = .ok l → g.locate p = .ok l ∧ f.get? l ≠ some .dir ∧
    g.get? l = some (.file (f.contentAt l ++ text)) ∧ f.Spares g (some l)
  /-- If the path leads to a file, that is the log. -/
  found : ∀ l content, f.locate p = .ok l → f.get? l = some (.file content) → l ≠ [] → r = .ok l
  /-- If the log can be written to without directories made above it, it is. -/
  opened : ∀ l, f.writable p = .ok l → r = .ok l
  grown : Grown f g
  /-- Directories that are made are named in the path, above its end. -/
  made : Makes f g (g.Above p)

/-- A write makes directories above the log, and adds the text if the log can be written to. -/
theorem writeLog_parts (f : Files) (p : Path) (text : Bytes) :
    ∃ h, f.Spares h none ∧ Makes f h (h.Above p) ∧ ((∃ e, f.writeLog p text = (h, .error e)) ∨
      ∃ l, h.writable p = .ok l ∧ f.writeLog p text = (h.appendAt l text, .ok l)) := by
  obtain ⟨above, h, habove, hh, hopen⟩ := f.openLog_parts p
  have hmakes : Makes f h (h.Above p) := by
    intro k hk
    obtain hdir | ⟨hnone, q, hq, hw⟩ := f.makes_makeDirsIn above k (hh ▸ hk)
    · exact .inl hdir
    · obtain ⟨d, hd, hq⟩ := habove q hq
      exact .inr ⟨hnone, above_of_walk hd hq (hh ▸ hw) (isDir_iff.2 (.inr hk))⟩
  refine ⟨h, hh ▸ f.spares_makeDirsIn above, hmakes, ?_⟩
  unfold writeLog
  obtain ⟨e, hopen⟩ | ⟨l, hw, hopen⟩ := hopen
  · rw [hopen]
    exact .inl ⟨e, rfl⟩
  · rw [hopen]
    refine .inr ⟨l, hw, ?_⟩
    -- An empty log that has just been made is no other beginning than none.
    by_cases hl : (h.get? l).isSome = true
    · simp [hl]
    · have hempty : (h.put l (.file [])).contentAt l = h.contentAt l := by
        simp_all [contentAt]
      simp [hl, appendAt, hempty, put_put]

theorem writeLog_of_writable (hw : f.writable p = .ok l) (text : Bytes) :
    (f.writeLog p text).2 = .ok l := by
  rw [writeLog, openLog_of_writable hw]

theorem wrote_writeLog (f : Files) (p : Path) (text : Bytes) :
    Wrote f p text (f.writeLog p text).1 (f.writeLog p text).2 := by
  have hopened : ∀ l, f.writable p = .ok l → (f.writeLog p text).2 = .ok l :=
    fun l hl => writeLog_of_writable hl text
  have hfound : ∀ l content, f.locate p = .ok l → f.get? l = some (.file content) → l ≠ [] →
      (f.writeLog p text).2 = .ok l :=
    fun l _ hl hfile hne => hopened l (writable_of_file hl hfile hne)
  obtain ⟨h, hspares, hmakes, ⟨e, hwrite⟩ | ⟨l, hw, hwrite⟩⟩ := f.writeLog_parts p text
  · rw [hwrite] at hopened hfound ⊢
    refine ⟨fun _ _ => hspares, ?_, hfound, hopened, .of_spares hspares, hmakes⟩
    intro l hl
    cases hl
  · rw [hwrite] at hopened hfound ⊢
    obtain ⟨t, name, ht, hname, hnul, hslash, hlen, rfl, hdir⟩ := writable_eq_ok hw
    have hgrown : Grown h (h.appendAt t.location text) := .appendAt hdir text
    refine ⟨?_, ?_, hfound, hopened, (Grown.of_spares hspares).trans hgrown, ?_⟩
    · intro e he
      cases he
    · intro l hl
      cases hl
      refine ⟨?_, mt (hspares.dir _) hdir, ?_, (hspares.of_none _).trans (.put hdir _)⟩
      · refine locate_of_target (hgrown.target ht) hname hnul hslash hlen ?_
        simp [appendAt]
      · rw [get?_appendAt, if_pos rfl, hspares.contentAt (Option.some_ne_none _).symm]
    · intro k hk
      -- What is written to is a file.
      rw [get?_appendAt] at hk
      split at hk
      · cases hk
      · exact (hmakes k hk).imp_right (.imp_right fun h => h.grown hgrown)

section Wrote

variable {text : Bytes} {r : Except OsError Location}

theorem Wrote.exists_file_iff (hw : Wrote f p text g r) (k : Location) :
    (∃ new, g.get? k = some (.file new)) ↔ (∃ old, f.get? k = some (.file old)) ∨ r = .ok k := by
  cases r with
  | error e => simp [(hw.failed e rfl).file k _ nofun]
  | ok l =>
    obtain ⟨-, -, hl, hspares⟩ := hw.done l rfl
    by_cases hk : k = l
    · subst hk
      simp [hl]
    · have hne : some l ≠ some k := by simpa using Ne.symm hk
      simp [hspares.file k _ hne, Ne.symm hk]

theorem Wrote.contentAt (hw : Wrote f p text g r) (k : Location) :
    g.contentAt k = f.contentAt k ++ if r = .ok k then text else [] := by
  cases r with
  | error e => simp [(hw.failed e rfl).contentAt (k := k) nofun]
  | ok l =>
    obtain ⟨-, -, hl, hspares⟩ := hw.done l rfl
    by_cases hk : k = l
    · subst hk
      simp [Files.contentAt, hl]
    · have hne : some l ≠ some k := by simpa using Ne.symm hk
      simp [hspares.contentAt hne, Ne.symm hk]

end Wrote

/-! ### All writes -/

/-- The texts of the writes that were done and whose paths lead to a file, in order. -/
def textsAt (g : Files) (k : Location)
    (answers : List ((Path × Bytes) × Except OsError Location)) : Bytes :=
  (answers.filter fun a => a.2.isOk && g.locate a.1.1 = .ok k).flatMap (·.1.2)

structure WroteAll (f : Files) (ws : List (Path × Bytes)) (g : Files)
    (rs : List (Except OsError Location)) : Prop where
  answered : rs.length = ws.length
  /-- Writes that are done are told where, which is where their paths lead in the end. -/
  leads : ∀ w l, (w, .ok l) ∈ ws.zip rs → g.locate w.1 = .ok l
  /-- The files are those there were and those that were written to. Each has what it had, and then
  the texts that were written to it. -/
  file : ∀ k content, g.get? k = some (.file content) ↔
    ((∃ old, f.get? k = some (.file old)) ∨ ∃ w, (w, .ok k) ∈ ws.zip rs) ∧
      content = f.contentAt k ++ g.textsAt k (ws.zip rs)
  grown : Grown f g
  made : Makes f g fun k => ∃ w ∈ ws, g.Above w.1 k

theorem eq_file_iff {content : Bytes} : f.get? k = some (.file content) ↔
    (∃ old, f.get? k = some (.file old)) ∧ content = f.contentAt k := by
  rcases hk : f.get? k with _ | old | _
  · simp
  · simp [contentAt, hk, eq_comm]
  · simp

theorem WroteAll.nil (f : Files) : WroteAll f [] f [] where
  answered := rfl
  leads := nofun
  file k content := by simpa [textsAt] using eq_file_iff
  grown := .refl f
  made := .refl f _

/-- One write before the others. -/
theorem WroteAll.cons {w : Path × Bytes} {ws : List (Path × Bytes)} {r : Except OsError Location}
    {rs : List (Except OsError Location)} (hw : Wrote f w.1 w.2 g r) (hws : WroteAll g ws h rs) :
    WroteAll f (w :: ws) h (r :: rs) where
  answered := by simp [hws.answered]
  leads v l hv := by
    rcases List.mem_cons.1 hv with hv | hv
    · cases hv
      exact hws.grown.locate (hw.done l rfl).1
    · exact hws.leads v l hv
  file k content := by
    -- The path of this write leads in the end where it led then.
    have hlocate : (r.isOk && h.locate w.1 = .ok k) = true ↔ r = .ok k := by
      cases r with
      | error e => simp [Except.isOk, Except.toBool]
      | ok l => simp [Except.isOk, Except.toBool, hws.grown.locate (hw.done l rfl).1]
    have htexts : h.textsAt k ((w, r) :: ws.zip rs) =
        (if r = .ok k then w.2 else []) ++ h.textsAt k (ws.zip rs) := by
      by_cases hr : r = .ok k
      · simp only [textsAt, List.filter_cons, if_pos (hlocate.2 hr), if_pos hr, List.flatMap_cons]
      · simp only [textsAt, List.filter_cons, if_neg (mt hlocate.1 hr), if_neg hr, List.nil_append]
    have hexists : (∃ v, (v, .ok k) ∈ (w, r) :: ws.zip rs) ↔
        r = .ok k ∨ ∃ v, (v, .ok k) ∈ ws.zip rs := by
      simp [exists_or, @eq_comm _ r]
    rw [hws.file, hw.exists_file_iff, hw.contentAt, List.zip_cons_cons, htexts, hexists, or_assoc,
      List.append_assoc]
  grown := hw.grown.trans hws.grown
  made := .trans hw.grown
    (hw.made.imp fun k hk => ⟨w, List.mem_cons_self, hk.grown hws.grown⟩)
    (hws.made.imp fun k ⟨v, hv, hk⟩ => ⟨v, List.mem_cons_of_mem w hv, hk⟩)

/-- Logs are only ever written to at their ends, from whatever tree, to whatever paths and however
often. A write that fails changes no file, and none takes anything away. -/
theorem logs_append_only (f : Files) :
    (∀ p text, Wrote f p text (f.writeLog p text).1 (f.writeLog p text).2) ∧
      ∀ ws, WroteAll f ws (f.writeLogs ws).1 (f.writeLogs ws).2 := by
  refine ⟨f.wrote_writeLog, fun ws => ?_⟩
  induction ws generalizing f with
  | nil => exact .nil f
  | cons w ws ih => exact .cons (f.wrote_writeLog w.1 w.2) (ih _)

/-- A log is made and then written to by other spellings of its path, and between these it is
written to in vain: below the log, and with a slash behind it. -/
theorem logs_append_only_spellings :
    let log := home ++ [Path.ofString "logs", Path.ofString "a.log"]
    let ws : List (Path × Bytes) := [(Path.ofString "logs/a.log", [1]),
      (Path.ofString "logs/a.log/x", [2]), (Path.ofString "./logs//../logs/a.log", [3]),
      (Path.ofString "logs/a.log/", [4]), (Path.ofString "b/../logs/./a.log", [5])]
    (empty.writeLogs ws).2 = [.ok log, .error .exists, .ok log, .error .isDirectory, .ok log] ∧
      (empty.writeLogs ws).1.get? log = some (.file [1, 3, 5]) := by
  intro log ws
  have hrs : (empty.writeLogs ws).2 =
      [.ok log, .error .exists, .ok log, .error .isDirectory, .ok log] := by decide +kernel
  have htexts : (empty.writeLogs ws).1.textsAt log (ws.zip (empty.writeLogs ws).2) = [1, 3, 5] := by
    decide +kernel
  refine ⟨hrs, (((logs_append_only empty).2 ws).file log _).2 ⟨.inr ⟨ws[0], ?_⟩, ?_⟩⟩
  · rw [hrs]
    exact List.mem_cons_self
  · rw [htexts]
    rfl

end Files

end NodeConfig
