import Mathlib
import NodeConfig.Files.Tree

namespace NodeConfig

namespace Files

variable {f g : Files} {l k : Location} {e : Entry}

theorem lookup_map_self {es : List (Location × Entry)} (h : (es.lookup l).isSome) :
    (es.map fun x => if x.1 = l then (l, e) else x).lookup l = some e := by
  induction es with
  | nil => cases h
  | cons x es ih =>
    by_cases hx : x.1 = l
    · simp [hx]
    · have hne : (l == x.1) = false := beq_false_of_ne (Ne.symm hx)
      rw [List.lookup_cons, hne] at h
      rw [List.map_cons, if_neg hx, List.lookup_cons, hne]
      exact ih h

theorem lookup_map_of_ne (h : k ≠ l) (es : List (Location × Entry)) :
    (es.map fun x => if x.1 = l then (l, e) else x).lookup k = es.lookup k := by
  induction es with
  | nil => rfl
  | cons x es ih =>
    rw [List.map_cons, List.lookup_cons, List.lookup_cons, ih]
    by_cases hx : x.1 = l
    · have hne : (k == l) = false := beq_false_of_ne h
      rw [if_pos hx, hx, hne]
    · rw [if_neg hx]

@[simp] theorem get?_put_self (f : Files) (l : Location) (e : Entry) :
    (f.put l e).get? l = some e := by
  unfold put get?
  split
  · next h => exact lookup_map_self h
  · next h =>
    rw [List.lookup_append, Option.not_isSome_iff_eq_none.1 h]
    simp

theorem get?_put_of_ne (h : k ≠ l) : (f.put l e).get? k = f.get? k := by
  unfold put get?
  split
  · exact lookup_map_of_ne h f.entries
  · have hne : (k == l) = false := beq_false_of_ne h
    rw [List.lookup_append, List.lookup_cons, hne]
    simp

/-- Of two entries at one place the later one is there. -/
theorem put_put (f : Files) (l : Location) (e₁ e₂ : Entry) :
    (f.put l e₁).put l e₂ = f.put l e₂ := by
  have hput : ((f.put l e₁).get? l).isSome = true := by rw [get?_put_self]; rfl
  rw [put, if_pos hput]
  unfold put
  split
  · congr 1
    rw [List.map_map]
    refine List.map_congr_left fun x _ => ?_
    by_cases hx : x.1 = l
    · simp [hx]
    · simp [hx]
  · next hnone =>
    have hne : ∀ x ∈ f.entries, x.1 ≠ l := fun x hx hl => hnone <| by
      simpa [get?, List.lookup_isSome_iff] using ⟨x.2, hl ▸ hx⟩
    have hself : f.entries.map (fun x => if x.1 = l then (l, e₂) else x) = f.entries :=
      (List.map_congr_left fun x hx => if_neg (hne x hx)).trans (List.map_id' f.entries)
    rw [List.map_append, hself]
    simp

@[simp] theorem get?_erase_self (f : Files) (l : Location) : (f.erase l).get? l = none := by
  rw [erase, get?, List.lookup_eq_none_iff]
  intro x hx
  have hne : x.1 ≠ l := by simpa using (List.mem_filter.1 hx).2
  exact bne_iff_ne.2 (Ne.symm hne)

theorem get?_erase_of_ne (h : k ≠ l) : (f.erase l).get? k = f.get? k := by
  unfold erase get?
  induction f.entries with
  | nil => rfl
  | cons x es ih =>
    by_cases hx : x.1 = l
    · have hne : (k == x.1) = false := beq_false_of_ne (hx ▸ h)
      rw [List.filter_cons_of_neg (by simpa using hx), ih, List.lookup_cons, hne]
    · rw [List.filter_cons_of_pos (by simpa using hx), List.lookup_cons, List.lookup_cons, ih]

/-- A new entry that is taken away again leaves the tree as it was. -/
theorem erase_put (h : f.get? l = none) (e : Entry) : (f.put l e).erase l = f := by
  have hnone : ∀ x ∈ f.entries, x.1 ≠ l := by
    intro x hx hl
    have hne := List.lookup_eq_none_iff.1 h x hx
    simp [hl] at hne
  rw [put, h]
  simp only [Option.isSome_none, Bool.false_eq_true, if_false, erase]
  rw [List.filter_append, List.filter_eq_self.2 (by simpa using hnone)]
  simp

/-! ### Directories on the way -/

theorem isDir_iff : f.isDir l = true ↔ l = [] ∨ f.get? l = some .dir := by
  simp [isDir]

def SameDirs (f g : Files) : Prop := ∀ l, f.isDir l = g.isDir l

theorem SameDirs.symm (h : SameDirs f g) : SameDirs g f := fun l => (h l).symm

theorem sameDirs_put (hl : f.get? l ≠ some .dir) (content : Bytes) :
    SameDirs f (f.put l (.file content)) := by
  intro k
  rw [Bool.eq_iff_iff, isDir_iff, isDir_iff]
  by_cases hk : k = l
  · subst hk
    simp [hl]
  · rw [get?_put_of_ne hk]

/-- All that a step can do: stay, go up, or go down to an entry. -/
theorem step_eq_ok {s : Segment} : f.step l s = .ok k ↔ f.isDir l = true ∧
    ((s = Path.here ∧ k = l) ∨ (s ≠ Path.here ∧ s = Path.above ∧ k = l.dropLast) ∨
      (s ≠ Path.here ∧ s ≠ Path.above ∧ s.length ≤ nameLimit ∧
        (f.get? (l ++ [s])).isSome = true ∧ k = l ++ [s])) := by
  unfold step
  by_cases hl : f.isDir l = true
  · rw [hl, Bool.not_true, if_neg Bool.false_ne_true]
    by_cases hh : s = Path.here
    · simp [hh, @eq_comm _ l k]
    · by_cases ha : s = Path.above
      · have hne : Path.above ≠ Path.here := by decide
        simp [ha, hne, @eq_comm _ l.dropLast k]
      · by_cases hn : nameLimit < s.length
        · have hn' : ¬ s.length ≤ nameLimit := by omega
          simp [hh, ha, hn, hn']
        · have hn' : s.length ≤ nameLimit := by omega
          by_cases hg : (f.get? (l ++ [s])).isSome = true
          · simp [hh, ha, hn, hn', hg, @eq_comm _ (l ++ [s]) k]
          · simp [hh, ha, hn, hn', hg]
  · simp [hl]

/-- A step to a directory is the same in a tree with the same directories. -/
theorem step_congr (hd : SameDirs f g) {s : Segment} (h : f.step l s = .ok k)
    (hk : f.isDir k = true) : g.step l s = .ok k := by
  obtain ⟨hl, hs⟩ := step_eq_ok.1 h
  refine step_eq_ok.2 ⟨hd l ▸ hl, ?_⟩
  rcases hs with hs | hs | ⟨hh, ha, hn, -, rfl⟩
  · exact .inl hs
  · exact .inr (.inl hs)
  · have hg : g.get? (l ++ [s]) = some .dir := by
      rcases isDir_iff.1 (hd _ ▸ hk : g.isDir (l ++ [s]) = true) with hnil | hg
      · simp at hnil
      · exact hg
    exact .inr (.inr ⟨hh, ha, hn, by rw [hg]; rfl, rfl⟩)

theorem walk_cons {s : Segment} {ss : List Segment} :
    f.walk l (s :: ss) = .ok k ↔ ∃ m, f.step l s = .ok m ∧ f.walk m ss = .ok k := by
  rw [walk, List.foldlM_cons]
  cases f.step l s with
  | error e => simp [bind, Except.bind]
  | ok m => simp [bind, Except.bind, walk]

theorem walk_append {ss ts : List Segment} :
    f.walk l (ss ++ ts) = .ok k ↔ ∃ m, f.walk l ss = .ok m ∧ f.walk m ts = .ok k := by
  rw [walk, List.foldlM_append, ← walk]
  cases f.walk l ss with
  | error e => simp [bind, Except.bind]
  | ok m => simp [bind, Except.bind, walk]

theorem walk_concat {ss : List Segment} {s : Segment} :
    f.walk l (ss ++ [s]) = .ok k ↔ ∃ m, f.walk l ss = .ok m ∧ f.step m s = .ok k := by
  rw [walk_append]
  refine exists_congr fun m => and_congr_right fun _ => walk_cons.trans ?_
  constructor
  · rintro ⟨j, hs, hj⟩
    cases hj
    exact hs
  · exact fun hs => ⟨k, hs, rfl⟩

/-- A walk that ends in a directory begins in one, and so goes through directories only. -/
theorem isDir_of_walk {ss : List Segment} (h : f.walk l ss = .ok k) (hk : f.isDir k = true) :
    f.isDir l = true := by
  cases ss with
  | nil =>
    cases h
    exact hk
  | cons s ss =>
    obtain ⟨m, hs, -⟩ := walk_cons.1 h
    exact (step_eq_ok.1 hs).1

theorem walk_congr (hd : SameDirs f g) {ss : List Segment} (h : f.walk l ss = .ok k)
    (hk : f.isDir k = true) : g.walk l ss = .ok k := by
  induction ss generalizing l with
  | nil => exact h
  | cons s ss ih =>
    obtain ⟨m, hs, hss⟩ := walk_cons.1 h
    exact walk_cons.2 ⟨m, step_congr hd hs (isDir_of_walk hss hk), ih hss⟩

/-- A walk goes through directories only, so those above its end are directories if those above its
beginning are. -/
theorem isDir_above_walk {ss : List Segment} (h : f.walk l ss = .ok k)
    (hl : ∀ m, m <+: l → m ≠ l → f.isDir m = true) : ∀ m, m <+: k → m ≠ k → f.isDir m = true := by
  induction ss generalizing l with
  | nil =>
    cases h
    exact hl
  | cons s ss ih =>
    obtain ⟨j, hs, hss⟩ := walk_cons.1 h
    obtain ⟨hdir, hs⟩ := step_eq_ok.1 hs
    refine ih hss fun m hm hne => ?_
    rcases hs with ⟨-, rfl⟩ | ⟨-, -, rfl⟩ | ⟨-, -, -, -, rfl⟩
    · exact hl m hm hne
    · refine hl m (hm.trans (List.dropLast_prefix l)) ?_
      rintro rfl
      exact hne (hm.eq_of_length_le (by simp))
    · obtain heq | hm := List.prefix_concat_iff.1 hm
      · exact absurd heq hne
      · by_cases heq : m = l
        · exact heq ▸ hdir
        · exact hl m hm heq

/-- Above what a path leads to there are directories. -/
theorem isDir_above_origin {p : Path} {ss : List Segment} (h : f.walk (origin p) ss = .ok k) :
    ∀ m, m <+: k → m ≠ k → f.isDir m = true := by
  refine isDir_above_walk h fun m hm hne => ?_
  have hstart : origin p = [] ∨ origin p = [] ++ [[0x77]] := by
    unfold origin
    split
    · exact .inl rfl
    · exact .inr rfl
  obtain hstart | hstart := hstart
  · rw [hstart] at hm hne
    exact absurd (List.prefix_nil.1 hm) hne
  · rw [hstart] at hm hne
    obtain rfl := List.prefix_nil.1 ((List.prefix_concat_iff.1 hm).resolve_left hne)
    rfl

/-- Steps that stay in place are no matter on the way to a directory. -/
theorem walk_filter_here {ss : List Segment} (hk : f.isDir k = true) :
    f.walk l (ss.filter (· ≠ Path.here)) = .ok k ↔ f.walk l ss = .ok k := by
  induction ss generalizing l with
  | nil => exact .rfl
  | cons s ss ih =>
    by_cases hs : s = Path.here
    · rw [List.filter_cons_of_neg (by simpa using hs), ih, walk_cons]
      constructor
      · intro hw
        exact ⟨l, step_eq_ok.2 ⟨isDir_of_walk hw hk, .inl ⟨hs, rfl⟩⟩, hw⟩
      · rintro ⟨m, hm, hw⟩
        rcases (step_eq_ok.1 hm).2 with ⟨-, rfl⟩ | ⟨hne, -⟩ | ⟨hne, -⟩
        · exact hw
        · exact absurd hs hne
        · exact absurd hs hne
    · rw [List.filter_cons_of_pos (by simpa using hs), walk_cons, walk_cons]
      simp only [ih]

/-! ### The end of a path -/

/-- What the target of a path says when there is one. -/
theorem target_eq_ok {p : Path} {t : Target} : f.target p = .ok t ↔ p ≠ [] ∧
    ((p.segments = [] ∧ t = ⟨[], none⟩) ∨ ∃ init last, p.segments = init ++ [last] ∧
      f.walk (origin p) init = .ok t.directory ∧ f.isDir t.directory = true ∧
        t.name = if last = Path.here || last = Path.above then none else some last) := by
  unfold target
  by_cases hp : p = []
  · simp [hp]
  · obtain hs | ⟨init, last, hs⟩ := p.segments.eq_nil_or_concat'
    · simp [hp, hs, @eq_comm _ _ t]
    · have hlast : p.segments.getLast? = some last := by simp [hs]
      have hinit : p.segments.dropLast = init := by simp [hs]
      have hparts : ∀ i a, p.segments = i ++ [a] → i = init ∧ a = last := by
        intro i a h
        simpa using List.append_inj' (h.symm.trans hs) rfl
      rw [if_neg hp, hlast, hinit]
      constructor
      · intro h
        refine ⟨hp, .inr ⟨init, last, hs, ?_⟩⟩
        cases hw : f.walk (origin p) init with
        | error e => simp [hw] at h
        | ok d =>
          by_cases hd : f.isDir d = true
          · simp only [hw, hd] at h
            cases h
            exact ⟨rfl, hd, rfl⟩
          · simp [hw, hd] at h
      · rintro ⟨-, ⟨hnil, -⟩ | ⟨i, a, hia, hw, hd, hname⟩⟩
        · simp [hs] at hnil
        · obtain ⟨rfl, rfl⟩ := hparts i a hia
          simp only [hw, hd]
          cases t
          simp_all

theorem target_congr (hd : SameDirs f g) {p : Path} {t : Target} (h : f.target p = .ok t) :
    g.target p = .ok t := by
  obtain ⟨hp, h⟩ := target_eq_ok.1 h
  refine target_eq_ok.2 ⟨hp, h.imp_right ?_⟩
  rintro ⟨init, last, hs, hw, hdir, hname⟩
  exact ⟨init, last, hs, walk_congr hd hw hdir, hd _ ▸ hdir, hname⟩

/-- The name of a target is the last segment of its path. -/
theorem target_name {p : Path} {t : Target} {name : Segment} (h : f.target p = .ok t)
    (hname : t.name = some name) : ∃ init, p.segments = init ++ [name] ∧ name ≠ Path.here ∧
      name ≠ Path.above ∧ f.walk (origin p) init = .ok t.directory := by
  obtain ⟨-, ⟨-, rfl⟩ | ⟨init, last, hs, hw, -, hlast⟩⟩ := target_eq_ok.1 h
  · cases hname
  · rw [hname] at hlast
    split at hlast
    · cases hlast
    · next hne =>
      cases hlast
      simp only [Bool.or_eq_true, decide_eq_true_eq, not_or] at hne
      exact ⟨init, hs, hne.1, hne.2, hw⟩

/-- What a path needs to lead to an entry. -/
theorem locate_eq_ok {p : Path} : f.locate p = .ok l ↔ p.hasNul = false ∧ p ≠ [] ∧
    f.walk (origin p) p.segments = .ok l ∧ (p.endsInSlash = true → f.isDir l = true) := by
  constructor
  · intro h
    unfold locate at h
    split at h
    · cases h
    · next hnul =>
      split at h
      · cases h
      · next hp =>
        split at h
        · cases h
        · next m hwalk =>
          split at h
          · cases h
          · next hslash =>
            cases h
            exact ⟨by simpa using hnul, hp, hwalk, by simpa using hslash⟩
  · rintro ⟨hnul, hp, hwalk, hslash⟩
    by_cases hs : p.endsInSlash = true
    · simp [locate, hnul, hp, hwalk, hs, hslash hs]
    · simp [locate, hnul, hp, hwalk, hs]

theorem locate_congr {p : Path} (hd : SameDirs f g) (h : f.locate p = .ok l)
    (hl : f.isDir l = true) : g.locate p = .ok l := by
  obtain ⟨hnul, hp, hwalk, -⟩ := locate_eq_ok.1 h
  exact locate_eq_ok.2 ⟨hnul, hp, walk_congr hd hwalk hl, fun _ => hd l ▸ hl⟩

theorem isDir_of_target {p : Path} {t : Target} {name : Segment} (h : f.target p = .ok t)
    (hname : t.name = some name) : f.isDir t.directory = true := by
  obtain ⟨-, ⟨-, rfl⟩ | ⟨-, -, -, -, hdir, -⟩⟩ := target_eq_ok.1 h
  · cases hname
  · exact hdir

/-- The steps of a path lead to its target, if there is an entry. -/
theorem walk_of_target {p : Path} {t : Target} {name : Segment} (h : f.target p = .ok t)
    (hname : t.name = some name) (hlen : name.length ≤ nameLimit)
    (hg : (f.get? t.location).isSome = true) :
    f.walk (origin p) p.segments = .ok t.location := by
  obtain ⟨init, hs, hh, ha, hw⟩ := target_name h hname
  have hloc : t.location = t.directory ++ [name] := by simp [Target.location, hname]
  have hstep : f.step t.directory name = .ok t.location := by
    rw [hloc] at hg ⊢
    exact step_eq_ok.2 ⟨isDir_of_target h hname, .inr (.inr ⟨hh, ha, hlen, hg, rfl⟩)⟩
  rw [hs]
  exact walk_concat.2 ⟨_, hw, hstep⟩

theorem locate_of_target {p : Path} {t : Target} {name : Segment} (h : f.target p = .ok t)
    (hname : t.name = some name) (hnul : p.hasNul = false) (hslash : p.endsInSlash = false)
    (hlen : name.length ≤ nameLimit) (hg : (f.get? t.location).isSome = true) :
    f.locate p = .ok t.location := by
  have hp : p ≠ [] := (target_eq_ok.1 h).1
  simp [locate, hnul, hp, walk_of_target h hname hlen hg, hslash]

end Files

end NodeConfig
