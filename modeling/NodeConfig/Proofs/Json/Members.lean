import Mathlib
import NodeConfig.Proofs.Json.Grammar

namespace NodeConfig.Json

variable {name key : String} {ms ms' found : List (String × Json)}

theorem lookup_member_cons (v : Json) (ms : List (String × Json)) :
    ((name, v) :: ms).lookup key = if key = name then some v else ms.lookup key := by
  rw [List.lookup_cons]
  by_cases h : key = name
  · rw [if_pos h, h, beq_self_eq_true]
  · rw [if_neg h, beq_eq_false_iff_ne.2 h]

theorem lookup_insertMember (v : Json) (ms : List (String × Json)) :
    (insertMember name v ms).lookup key = if key = name then some v else ms.lookup key := by
  induction ms with
  | nil => rw [insertMember, lookup_member_cons]
  | cons m ms ih =>
    obtain ⟨n, v'⟩ := m
    rw [insertMember]
    by_cases hlt : name < n
    · rw [if_pos hlt, lookup_member_cons]
    · rw [if_neg hlt, lookup_member_cons v' ms]
      by_cases hname : name = n
      · rw [if_pos hname, lookup_member_cons, ← hname]
        split_ifs <;> rfl
      · rw [if_neg hname, lookup_member_cons, ih]
        -- The name is at most one of the two.
        split_ifs with hkey hkey'
        · exact absurd (hkey'.symm.trans hkey) hname
        · rfl
        · rfl
        · rfl

def lastNamed (name : String) (ms : List (String × Json)) : Option Json := ms.reverse.lookup name

theorem lastNamed_append (ms ms' : List (String × Json)) :
    lastNamed key (ms ++ ms') = (lastNamed key ms').or (lastNamed key ms) := by
  rw [lastNamed, List.reverse_append, List.lookup_append, lastNamed, lastNamed]

theorem lastNamed_cons (v : Json) (ms : List (String × Json)) :
    lastNamed key ((name, v) :: ms) =
      (lastNamed key ms).or (if key = name then some v else none) := by
  rw [← List.singleton_append, lastNamed_append]
  congr 1
  rw [lastNamed, List.reverse_singleton, lookup_member_cons, List.lookup_nil]

theorem lookup_insertMembers (found ms : List (String × Json)) :
    (insertMembers found ms).lookup key = (lastNamed key ms).or (found.lookup key) := by
  induction ms generalizing found with
  | nil => rfl
  | cons m ms ih =>
    obtain ⟨name, v⟩ := m
    have hstep : insertMembers found ((name, v) :: ms) =
        insertMembers (insertMember name v found) ms := rfl
    rw [hstep, ih, lookup_insertMember, lastNamed_cons, Option.or_assoc]
    split_ifs <;> simp

theorem lastNamed_eq_none_iff : lastNamed name ms = none ↔ name ∉ ms.map Prod.fst := by
  simp only [lastNamed, List.lookup_eq_none_iff, List.mem_reverse, List.mem_map, bne_iff_ne]
  constructor
  · rintro h ⟨m, hm, hname⟩
    exact h m hm hname.symm
  · intro h m hm hname
    exact h ⟨m, hm, hname.symm⟩

theorem mem_of_lastNamed {v : Json} (h : lastNamed name ms = some v) : (name, v) ∈ ms := by
  obtain ⟨before, after, hms, -⟩ := List.lookup_eq_some_iff.1 h
  rw [← List.mem_reverse, hms]
  exact List.mem_append_right before List.mem_cons_self

theorem lastNamed_map (f : Json → Json) (ms : List (String × Json)) :
    lastNamed key (ms.map (Prod.map id f)) = (lastNamed key ms).map f := by
  have hlookup : ∀ ms : List (String × Json),
      (ms.map (Prod.map id f)).lookup key = (ms.lookup key).map f := by
    intro ms
    induction ms with
    | nil => rfl
    | cons m ms ih =>
      obtain ⟨n, v⟩ := m
      rw [List.map_cons, Prod.map_apply, id, lookup_member_cons, lookup_member_cons, ih]
      split_ifs <;> rfl
  rw [lastNamed, ← List.map_reverse, hlookup, lastNamed]

def Ascending (ms : List (String × Json)) : Prop := ms.Pairwise fun m m' => m.1 < m'.1

theorem mem_insertMember {v : Json} {m : String × Json} (h : m ∈ insertMember name v ms) :
    m = (name, v) ∨ m ∈ ms := by
  induction ms with
  | nil => exact .inl (List.mem_singleton.1 h)
  | cons n ms ih =>
    rw [insertMember] at h
    split_ifs at h
    · exact List.mem_cons.1 h
    · exact (List.mem_cons.1 h).imp_right (List.mem_cons_of_mem n)
    · rcases List.mem_cons.1 h with rfl | h
      · exact .inr List.mem_cons_self
      · exact (ih h).imp_right (List.mem_cons_of_mem n)

theorem ascending_insertMember (v : Json) (h : Ascending ms) :
    Ascending (insertMember name v ms) := by
  induction ms with
  | nil => exact List.pairwise_singleton _ _
  | cons n ms ih =>
    obtain ⟨hfirst, hrest⟩ := List.pairwise_cons.1 h
    rw [insertMember]
    split_ifs with hlt heq
    · refine List.pairwise_cons.2 ⟨fun m hm => ?_, h⟩
      rcases List.mem_cons.1 hm with rfl | hm
      · exact hlt
      · exact hlt.trans (hfirst m hm)
    · exact List.pairwise_cons.2 ⟨fun m hm => heq ▸ hfirst m hm, hrest⟩
    · refine List.pairwise_cons.2 ⟨fun m hm => ?_, ih hrest⟩
      rcases mem_insertMember hm with rfl | hm
      · exact lt_of_le_of_ne (not_lt.1 hlt) (Ne.symm heq)
      · exact hfirst m hm

theorem ascending_insertMembers (ms : List (String × Json)) (h : Ascending found) :
    Ascending (insertMembers found ms) := by
  induction ms generalizing found with
  | nil => exact h
  | cons m ms ih => exact ih (ascending_insertMember m.2 h)

theorem mem_insertMembers {m : String × Json} (h : m ∈ insertMembers found ms) :
    m ∈ found ∨ m ∈ ms := by
  induction ms generalizing found with
  | nil => exact .inl h
  | cons n ms ih =>
    rcases ih h with h | h
    · rcases mem_insertMember h with rfl | h
      · exact .inr List.mem_cons_self
      · exact .inl h
    · exact .inr (List.mem_cons_of_mem n h)

theorem lookup_of_lt (h : ∀ m ∈ ms, key < m.1) : ms.lookup key = none := by
  rw [List.lookup_eq_none_iff]
  intro m hm
  rw [bne_iff_ne]
  exact (h m hm).ne

/-- What the names lead to is the whole of an ascending list. -/
theorem Ascending.ext (h : Ascending ms) (h' : Ascending ms')
    (heq : ∀ key, ms.lookup key = ms'.lookup key) : ms = ms' := by
  induction ms generalizing ms' with
  | nil =>
    cases ms' with
    | nil => rfl
    | cons m ms' =>
      have hm := heq m.1
      rw [List.lookup_nil, lookup_member_cons, if_pos rfl] at hm
      cases hm
  | cons m ms ih =>
    obtain ⟨n, v⟩ := m
    obtain ⟨hfirst, hrest⟩ := List.pairwise_cons.1 h
    have hn := heq n
    rw [lookup_member_cons, if_pos rfl] at hn
    cases ms' with
    | nil => cases hn
    | cons m' ms' =>
      obtain ⟨n', v'⟩ := m'
      obtain ⟨hfirst', hrest'⟩ := List.pairwise_cons.1 h'
      -- The first names are equal, since neither list has a name before its first one.
      have hname : n = n' := by
        rcases lt_trichotomy n n' with hlt | heq' | hlt
        · rw [lookup_of_lt] at hn
          · cases hn
          · intro m hm
            rcases List.mem_cons.1 hm with rfl | hm
            · exact hlt
            · exact hlt.trans (hfirst' m hm)
        · exact heq'
        · have hn' := heq n'
          rw [lookup_member_cons v', if_pos rfl, lookup_of_lt] at hn'
          · cases hn'
          · intro m hm
            rcases List.mem_cons.1 hm with rfl | hm
            · exact hlt
            · exact hlt.trans (hfirst m hm)
      subst hname
      rw [lookup_member_cons, if_pos rfl, Option.some.injEq] at hn
      rw [hn, ih hrest hrest']
      intro key
      by_cases hkey : key = n
      · rw [hkey, lookup_of_lt hfirst, lookup_of_lt hfirst']
      · have hrestkey := heq key
        rwa [lookup_member_cons, lookup_member_cons, if_neg hkey, if_neg hkey] at hrestkey

/-- The last value of every name decides what the members of an object come to. -/
theorem insertMembers_eq_iff : insertMembers [] ms = insertMembers [] ms' ↔
    ∀ key, lastNamed key ms = lastNamed key ms' := by
  have hlookup : ∀ key (ms : List (String × Json)),
      (insertMembers [] ms).lookup key = lastNamed key ms := by
    intro key ms
    rw [lookup_insertMembers, List.lookup_nil, Option.or_none]
  constructor
  · intro h key
    rw [← hlookup, h, hlookup]
  · intro h
    apply (ascending_insertMembers ms .nil).ext (ascending_insertMembers ms' .nil)
    intro key
    rw [hlookup, hlookup, h]

end NodeConfig.Json
