import Mathlib
import NodeConfig.Files.Path

namespace NodeConfig

namespace Path

variable {absolute : Bool} {cs : List Segment} {p q d : Path}

theorem split_eq_splitOn (p : Path) : split p = p.splitOn slash := by
  induction p with
  | nil => rfl
  | cons b p ih =>
    rw [split, ih]
    change _ = List.splitOnP (· == slash) (b :: p)
    rw [List.splitOnP_cons_eq_if_modifyHead]
    by_cases hb : b = slash
    · simp [hb, List.splitOn]
    · obtain ⟨s, ss, hs⟩ := List.exists_cons_of_ne_nil (List.splitOnP_ne_nil (· == slash) p)
      simp [hb, List.splitOn, hs]

theorem notMem_of_mem_split {s : Segment} (h : s ∈ split p) : slash ∉ s := by
  induction p generalizing s with
  | nil => simp_all [split]
  | cons b p ih =>
    rw [split] at h
    split at h
    · rcases List.mem_cons.1 h with rfl | h
      · exact List.not_mem_nil
      · exact ih h
    · next hb =>
      split at h
      · simp_all [@eq_comm _ slash b]
      · next t ts hts =>
        rcases List.mem_cons.1 h with rfl | h
        · have ht : slash ∉ t := ih (hts ▸ List.mem_cons_self)
          simpa [@eq_comm _ slash b, hb] using ht
        · exact ih (hts ▸ List.mem_cons_of_mem t h)

/-- What is put together holds nothing but its pieces and what is between them. -/
theorem mem_intercalate {b : UInt8} {ss : List Segment}
    (hb : b ∈ List.intercalate [slash] ss) : b = slash ∨ ∃ s ∈ ss, b ∈ s := by
  induction ss with
  | nil => cases hb
  | cons s ss ih =>
    cases ss with
    | nil => exact .inr ⟨s, List.mem_cons_self, by simpa [List.intercalate] using hb⟩
    | cons t ss =>
      simp only [List.intercalate, List.intersperse_cons_cons, List.flatten_cons, List.mem_append,
        List.mem_singleton] at hb ih
      rcases hb with hb | hb | hb
      · exact .inr ⟨s, List.mem_cons_self, hb⟩
      · exact .inl hb
      · exact (ih hb).imp_right fun ⟨u, hu, hb⟩ => ⟨u, List.mem_cons_of_mem s hu, hb⟩

theorem subset_of_mem_split {s : Segment} (h : s ∈ split p) : s ⊆ p := by
  induction p generalizing s with
  | nil => simp_all [split]
  | cons b p ih =>
    rw [split] at h
    split at h
    · rcases List.mem_cons.1 h with rfl | h
      · exact List.nil_subset _
      · exact List.subset_cons_of_subset b (ih h)
    · split at h
      · simp_all
      · next t ts hts =>
        rcases List.mem_cons.1 h with rfl | h
        · exact List.cons_subset_cons b (ih (hts ▸ List.mem_cons_self))
        · exact List.subset_cons_of_subset b (ih (hts ▸ List.mem_cons_of_mem t h))

/-- A path without steps is empty or the root. -/
theorem isAbsolute_of_segments_nil (hs : segments p = []) (hp : p ≠ []) : isAbsolute p = true := by
  obtain ⟨b, rest, rfl⟩ := List.exists_cons_of_ne_nil hp
  by_cases hb : b = slash
  · simp [isAbsolute, hb]
  · rw [segments, split, if_neg hb] at hs
    split at hs <;> simp at hs

/-- What the components of a path are: names and steps up, and at its start perhaps a step that
stays in place. -/
structure Tidy (absolute : Bool) (cs : List Segment) : Prop where
  ne_nil : ∀ c ∈ cs, c ≠ []
  noSlash : ∀ c ∈ cs, slash ∉ c
  moves : ∀ c ∈ cs.tail, c ≠ here
  rooted : absolute = true → ∀ c ∈ cs, c ≠ here

/-- Components are the segments without those that stay in place, but for the first. -/
theorem components_cases (p : Path) :
    components p = (segments p).filter (· ≠ here) ∨ isAbsolute p = false ∧
      ∃ ss, segments p = here :: ss ∧ components p = here :: ss.filter (· ≠ here) := by
  unfold components
  cases hs : segments p with
  | nil => exact .inl rfl
  | cons s ss =>
    by_cases hh : s = here
    · cases ha : isAbsolute p with
      | false => exact .inr ⟨rfl, ss, by rw [hh], by simp [hh]⟩
      | true => exact .inl (by simp [hh])
    · exact .inl (by simp [hh])

theorem components_subset (p : Path) : components p ⊆ segments p := by
  rcases components_cases p with h | ⟨-, ss, hs, h⟩
  · rw [h]
    exact List.filter_subset_self _
  · rw [h, hs]
    exact List.cons_subset_cons here (List.filter_subset_self ss)

theorem tidy_components (p : Path) : Tidy (isAbsolute p) (components p) where
  ne_nil c hc := by simpa using (List.mem_filter.1 (components_subset p hc)).2
  noSlash c hc := notMem_of_mem_split (List.mem_filter.1 (components_subset p hc)).1
  moves c hc := by
    rcases components_cases p with h | ⟨-, ss, -, h⟩
    · rw [h] at hc
      simpa using (List.mem_filter.1 (List.mem_of_mem_tail hc)).2
    · rw [h] at hc
      simpa using (List.mem_filter.1 hc).2
  rooted ha c hc := by
    rcases components_cases p with h | ⟨ha', -⟩
    · rw [h] at hc
      simpa using (List.mem_filter.1 hc).2
    · rw [ha] at ha'
      cases ha'

theorem Tidy.take (h : Tidy absolute cs) (n : Nat) : Tidy absolute (cs.take n) where
  ne_nil c hc := h.ne_nil c (List.mem_of_mem_take hc)
  noSlash c hc := h.noSlash c (List.mem_of_mem_take hc)
  moves c hc := by
    cases cs with
    | nil => simp at hc
    | cons s cs =>
      cases n with
      | zero => simp at hc
      | succ n => exact h.moves c (List.mem_of_mem_take hc)
  rooted ha c hc := h.rooted ha c (List.mem_of_mem_take hc)

theorem segments_join (h : Tidy absolute cs) : segments (join absolute cs) = cs := by
  have hjoined : (split (List.intercalate [slash] cs)).filter (· ≠ []) = cs := by
    by_cases hcs : cs = []
    · subst hcs
      rfl
    · rw [split_eq_splitOn, List.splitOn_intercalate slash h.noSlash hcs]
      exact List.filter_eq_self.2 fun c hc => by simpa using h.ne_nil c hc
  cases absolute with
  | false => simpa [segments, join] using hjoined
  | true => simpa [segments, join, split] using hjoined

theorem isAbsolute_join (h : Tidy absolute cs) : isAbsolute (join absolute cs) = absolute := by
  cases absolute with
  | true => simp [isAbsolute, join]
  | false =>
    -- A relative path begins with its first component, and that with no slash.
    have hhead : (List.intercalate [slash] cs).head? ≠ some slash := by
      cases cs with
      | nil => simp [List.intercalate]
      | cons c cs =>
        intro hslash
        obtain ⟨b, c', rfl⟩ := List.exists_cons_of_ne_nil (h.ne_nil c List.mem_cons_self)
        have hb : b ≠ slash := fun hb => h.noSlash _ List.mem_cons_self (by simp [hb])
        cases cs <;> simp_all [List.intercalate]
    simpa [isAbsolute, join] using hhead

theorem components_join (h : Tidy absolute cs) : components (join absolute cs) = cs := by
  have hmoves := h.moves
  rw [components, segments_join h, isAbsolute_join h]
  cases cs with
  | nil => rfl
  | cons c cs =>
    have hself : cs.filter (· ≠ here) = cs :=
      List.filter_eq_self.2 fun c hc => by simpa using hmoves c hc
    have hc : ¬(c = here && absolute) = true := by
      intro hc
      simp only [Bool.and_eq_true, decide_eq_true_eq] at hc
      exact h.rooted hc.2 c List.mem_cons_self hc.1
    simp only [hself, if_neg hc]

/-- The parent of a path is made of the first of its components, not of all. -/
theorem parent?_eq_some (hd : p.parent? = some d) :
    ∃ n < (components p).length, d = join (isAbsolute p) ((components p).take n) := by
  unfold parent? at hd
  split at hd
  · cases hd
  · next hne =>
    cases hd
    have hpos := List.length_pos_iff.2 hne
    exact ⟨(components p).length - 1, by omega, by rw [List.dropLast_eq_take]⟩

/-- And so are those above it. -/
theorem eq_join_of_mem_ancestors (hd : p.parent? = some d) (hq : q ∈ d.ancestors) :
    ∃ n < (components p).length, q = join (isAbsolute p) ((components p).take n) := by
  obtain ⟨n, hn, rfl⟩ := parent?_eq_some hd
  have htidy := (tidy_components p).take n
  simp only [ancestors, components_join htidy, isAbsolute_join htidy, List.take_take] at hq
  obtain ⟨k, -, rfl⟩ := List.mem_map.1 hq
  split
  · exact ⟨_, hn, rfl⟩
  · exact ⟨_, Nat.lt_of_le_of_lt (Nat.min_le_right _ _) hn, rfl⟩

theorem hasNul_parent (hd : p.parent? = some d) (hp : p.hasNul = false) : d.hasNul = false := by
  obtain ⟨n, -, rfl⟩ := parent?_eq_some hd
  have hp : 0 ∉ p := by simpa [hasNul] using hp
  have hd : 0 ∉ List.intercalate [slash] ((components p).take n) := by
    intro hmem
    obtain hslash | ⟨s, hs, hmem⟩ := mem_intercalate hmem
    · cases hslash
    · have hsplit : s ∈ split p :=
        (List.mem_filter.1 (components_subset p (List.mem_of_mem_take hs))).1
      exact hp (subset_of_mem_split hsplit hmem)
  have hslash : 0 ≠ slash := by decide
  cases isAbsolute p <;> simp [hasNul, join, hd, hslash]

/-- The first components of a path, but not all, are its first segments, but not all, without those
that stay in place. -/
theorem exists_prefix {n : Nat} (hn : n < (components p).length) :
    ∃ init, init <+: segments p ∧ init ≠ segments p ∧
      init.filter (· ≠ here) = ((components p).take n).filter (· ≠ here) := by
  have hne : segments p ≠ [] := by
    intro hs
    simp [components, hs] at hn
  cases n with
  | zero => exact ⟨[], List.nil_prefix, hne.symm, rfl⟩
  | succ n =>
    have hfilter : (components p).filter (· ≠ here) = (segments p).filter (· ≠ here) := by
      rcases components_cases p with h | ⟨-, ss, hs, h⟩
      · simp [h]
      · simp [h, hs]
    rw [← List.take_append_drop (n + 1) (components p), List.filter_append] at hfilter
    obtain ⟨init, rest, hs, hinit, hrest⟩ := List.filter_eq_append_iff.1 hfilter.symm
    refine ⟨init, ⟨rest, hs.symm⟩, ?_, hinit⟩
    -- A component that is left out is not the first, so it is no step that stays in place.
    rintro rfl
    have hnil : rest = [] := by simpa using hs
    have hpos : 0 < ((components p).drop (n + 1)).length := by
      rw [List.length_drop]
      omega
    obtain ⟨c, hc⟩ := List.exists_mem_of_length_pos hpos
    have hmoves : c ≠ here := by
      rw [← List.drop_tail] at hc
      exact (tidy_components p).moves c (List.mem_of_mem_drop hc)
    have hmem : c ∈ ((components p).drop (n + 1)).filter (· ≠ here) := by simpa [hc] using hmoves
    rw [← hrest, hnil] at hmem
    cases hmem

end Path

end NodeConfig
