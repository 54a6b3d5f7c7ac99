import Mathlib
import NodeConfig.Proofs.Json.Members
import NodeConfig.Proofs.Json.Read

namespace NodeConfig.Json

variable {name key : String} {ms ms' found : List (String × Json)}

/-! ### Meaning -/

mutual

def meaning : Json → Json
  | .array js => .array (meaningItems js)
  | .object ms => .object (insertMembers [] (meaningMembers ms))
  | j => j

def meaningItems : List Json → List Json
  | [] => []
  | j :: js => j.meaning :: meaningItems js

def meaningMembers : List (String × Json) → List (String × Json)
  | [] => []
  | (name, j) :: ms => (name, j.meaning) :: meaningMembers ms

end

theorem meaningItems_eq (js : List Json) : meaningItems js = js.map meaning := by
  induction js with
  | nil => rw [meaningItems]; rfl
  | cons j js ih => rw [meaningItems, ih, List.map_cons]

theorem meaningMembers_eq (ms : List (String × Json)) :
    meaningMembers ms = ms.map (Prod.map id meaning) := by
  induction ms with
  | nil => rw [meaningMembers]; rfl
  | cons m ms ih => rw [meaningMembers, ih, List.map_cons]; rfl

theorem meaning_array (js : List Json) : (array js).meaning = .array (js.map meaning) := by
  rw [meaning, meaningItems_eq]

theorem meaning_object (ms : List (String × Json)) :
    (object ms).meaning = .object (insertMembers [] (ms.map (Prod.map id meaning))) := by
  rw [meaning, meaningMembers_eq]

theorem meaning_eq_string_iff {j : Json} {s : String} : j.meaning = .string s ↔ j = .string s := by
  cases j with
  | array js => rw [meaning_array]; exact iff_of_false nofun nofun
  | object ms => rw [meaning_object]; exact iff_of_false nofun nofun
  | _ => rw [meaning] <;> nofun

/-- Two values are written as the same one: members of different names may change places, a member
may be left out if another of its name comes later, and so on in every array and object inside. -/
inductive Same : Json → Json → Prop
  | refl (j : Json) : Same j j
  | symm {j k : Json} (h : Same j k) : Same k j
  | trans {i j k : Json} (h : Same i j) (h' : Same j k) : Same i k
  | item {j k : Json} (before after : List Json) (h : Same j k) :
      Same (.array (before ++ j :: after)) (.array (before ++ k :: after))
  | member {j k : Json} (before after : List (String × Json)) (name : String) (h : Same j k) :
      Same (.object (before ++ (name, j) :: after)) (.object (before ++ (name, k) :: after))
  | swap (before after : List (String × Json)) {m m' : String × Json} (h : m.1 ≠ m'.1) :
      Same (.object (before ++ m :: m' :: after)) (.object (before ++ m' :: m :: after))
  | overridden (before after : List (String × Json)) {m : String × Json}
      (h : m.1 ∈ after.map Prod.fst) :
      Same (.object (before ++ m :: after)) (.object (before ++ after))

theorem meaning_object_eq_iff : (object ms).meaning = (object ms').meaning ↔
    ∀ key, (lastNamed key ms).map meaning = (lastNamed key ms').map meaning := by
  rw [meaning_object, meaning_object, object.injEq, insertMembers_eq_iff]
  simp only [lastNamed_map]

/-- What is written as the same means the same. -/
theorem Same.meaning_eq {j k : Json} (h : Same j k) : j.meaning = k.meaning := by
  induction h with
  | refl => rfl
  | symm _ ih => exact ih.symm
  | trans _ _ ih ih' => exact ih.trans ih'
  | item before after _ ih => simp only [meaning_array, List.map_append, List.map_cons, ih]
  | member before after name _ ih =>
    simp only [meaning_object, List.map_append, List.map_cons, Prod.map_apply, ih]
  | @swap before after m m' h =>
    obtain ⟨n, v⟩ := m
    obtain ⟨n', v'⟩ := m'
    rw [meaning_object_eq_iff]
    intro key
    simp only [lastNamed_append, lastNamed_cons, Option.or_assoc]
    -- A key is at most one of the two names.
    by_cases hn : key = n
    · have hn' : key ≠ n' := fun hn' => h (hn.symm.trans hn')
      simp [hn, if_neg h]
    · simp [hn]
  | @overridden before after m h =>
    obtain ⟨n, v⟩ := m
    rw [meaning_object_eq_iff]
    intro key
    simp only [lastNamed_append, lastNamed_cons, Option.or_assoc]
    by_cases hn : key = n
    · obtain ⟨w, hw⟩ := Option.ne_none_iff_exists'.1 (mt lastNamed_eq_none_iff.1 (not_not.2 h))
      rw [hn, hw]
      rfl
    · simp [hn]

/-- Members that may stand for one another in any object. -/
def Exchange (ms ms' : List (String × Json)) : Prop :=
  ∀ before after, Same (.object (before ++ (ms ++ after))) (.object (before ++ (ms' ++ after)))

theorem Exchange.refl (ms : List (String × Json)) : Exchange ms ms := fun _ _ => .refl _

theorem Exchange.trans {ms'' : List (String × Json)} (h : Exchange ms ms')
    (h' : Exchange ms' ms'') : Exchange ms ms'' :=
  fun before after => (h before after).trans (h' before after)

theorem Exchange.cons (h : Exchange ms ms') (m : String × Json) :
    Exchange (m :: ms) (m :: ms') := by
  intro before after
  have hm := h (before ++ [m]) after
  simpa using hm

theorem Exchange.append (h : Exchange ms ms') (rest : List (String × Json)) :
    Exchange (ms ++ rest) (ms' ++ rest) := by
  intro before after
  have hm := h before (rest ++ after)
  simpa using hm

/-- A member goes before members of other names. -/
theorem exchange_first {m : String × Json} (h : ∀ m' ∈ ms, m'.1 ≠ m.1) :
    Exchange (ms ++ [m]) (m :: ms) := by
  induction ms with
  | nil => exact .refl _
  | cons n ms ih =>
    have hrest : Exchange (n :: (ms ++ [m])) (n :: m :: ms) :=
      (ih fun m' hm' => h m' (List.mem_cons_of_mem n hm')).cons n
    exact hrest.trans fun before after => .swap before (ms ++ after) (h n List.mem_cons_self)

theorem exchange_insertMember (v : Json) (h : Ascending ms) :
    Exchange (ms ++ [(name, v)]) (insertMember name v ms) := by
  induction ms with
  | nil => exact .refl _
  | cons m ms ih =>
    obtain ⟨hfirst, hrest⟩ := List.pairwise_cons.1 h
    rw [insertMember]
    split_ifs with hlt heq
    · apply exchange_first
      intro m' hm'
      rcases List.mem_cons.1 hm' with rfl | hm'
      · exact hlt.ne'
      · exact (hlt.trans (hfirst m' hm')).ne'
    · -- The earlier member is overridden, and the new one takes its place.
      have hdrop : Exchange (m :: (ms ++ [(name, v)])) (ms ++ [(name, v)]) :=
        fun before after => .overridden before (ms ++ [(name, v)] ++ after) (by simp [heq])
      exact hdrop.trans (exchange_first fun m' hm' => heq ▸ (hfirst m' hm').ne')
    · exact (ih hrest).cons m

theorem exchange_insertMembers (ms : List (String × Json)) (h : Ascending found) :
    Exchange (found ++ ms) (insertMembers found ms) := by
  induction ms generalizing found with
  | nil =>
    rw [List.append_nil]
    exact .refl _
  | cons m ms ih =>
    have hfirst : Exchange (found ++ ([m] ++ ms)) (insertMember m.1 m.2 found ++ ms) := by
      rw [← List.append_assoc]
      exact (exchange_insertMember m.2 h).append ms
    exact hfirst.trans (ih (ascending_insertMember m.2 h))

mutual

theorem same_meaning : ∀ j : Json, Same j j.meaning
  | .null => .refl _
  | .bool _ => .refl _
  | .number _ => .refl _
  | .string _ => .refl _
  | .array js => by
    rw [meaning]
    exact same_meaningItems js []
  | .object ms => by
    rw [meaning]
    have hsorted := exchange_insertMembers (meaningMembers ms) .nil [] []
    rw [List.append_nil, List.append_nil] at hsorted
    exact (same_meaningMembers ms []).trans hsorted

theorem same_meaningItems : ∀ js before : List Json,
    Same (.array (before ++ js)) (.array (before ++ meaningItems js))
  | [], _ => .refl _
  | j :: js, before => by
    rw [meaningItems]
    have hrest := same_meaningItems js (before ++ [j.meaning])
    rw [List.append_assoc, List.append_assoc] at hrest
    exact (Same.item before js (same_meaning j)).trans hrest

theorem same_meaningMembers : ∀ ms before : List (String × Json),
    Same (.object (before ++ ms)) (.object (before ++ meaningMembers ms))
  | [], _ => .refl _
  | (name, j) :: ms, before => by
    rw [meaningMembers]
    have hrest := same_meaningMembers ms (before ++ [(name, j.meaning)])
    rw [List.append_assoc, List.append_assoc] at hrest
    exact (Same.member before ms name (same_meaning j)).trans hrest

end

theorem meaning_meaning (j : Json) : j.meaning.meaning = j.meaning :=
  (same_meaning j).meaning_eq.symm

/-! ### Texts -/

section
variable {α β : Type} {E : Bytes → α → Prop} {V : Bytes → Json → Prop} {f : α → β}

/-- What has an element of `E`, seen through `f`. -/
def Image (E : Bytes → α → Prop) (f : α → β) (bs : Bytes) (b : β) : Prop := ∃ a, E bs a ∧ f a = b

theorem padded_image : Padded (Image E f) = Image (Padded E) f := by
  funext bs b
  apply propext
  constructor
  · rintro ⟨hb, ⟨a, h, rfl⟩, ha⟩
    exact ⟨a, .blanks hb h ha, rfl⟩
  · rintro ⟨a, ⟨hb, h, ha⟩, rfl⟩
    exact .blanks hb ⟨a, h, rfl⟩ ha

theorem separated_image : Separated (Image E f) = Image (Separated E) (List.map f) := by
  funext bs as
  apply propext
  constructor
  · intro h
    induction h with
    | one h =>
      rw [padded_image] at h
      obtain ⟨a, h, rfl⟩ := h
      exact ⟨[a], .one h, rfl⟩
    | more h _ ih =>
      rw [padded_image] at h
      obtain ⟨a, h, rfl⟩ := h
      obtain ⟨as, hs, rfl⟩ := ih
      exact ⟨a :: as, .more h hs, rfl⟩
  · rintro ⟨as, h, rfl⟩
    induction h with
    | one h => exact .one (padded_image ▸ ⟨_, h, rfl⟩)
    | more h _ ih => exact .more (padded_image ▸ ⟨_, h, rfl⟩) ih

theorem listed_image : Listed (Image E f) = Image (Listed E) (List.map f) := by
  funext bs as
  apply propext
  constructor
  · intro h
    cases h with
    | none h => exact ⟨[], .none h, rfl⟩
    | some h =>
      rw [separated_image] at h
      obtain ⟨as, h, rfl⟩ := h
      exact ⟨as, .some h, rfl⟩
  · rintro ⟨as, h, rfl⟩
    cases h with
    | none h => exact .none h
    | some h => exact .some (separated_image ▸ ⟨_, h, rfl⟩)

variable {g : Json → Json}

theorem member_image : Member (Image V g) = Image (Member V) (Prod.map id g) := by
  funext bs m
  apply propext
  constructor
  · rintro ⟨hn, hb, ha, j, hj, rfl⟩
    exact ⟨(_, j), .pair hn hb ha hj, rfl⟩
  · rintro ⟨_, ⟨hn, hb, ha, hj⟩, rfl⟩
    exact .pair hn hb ha ⟨_, hj, rfl⟩

theorem arrayText_image : ArrayText (Image V g) = Image (ArrayText V) (List.map g) := by
  funext bs js
  apply propext
  constructor
  · rintro ⟨h⟩
    rw [listed_image] at h
    obtain ⟨js, h, rfl⟩ := h
    exact ⟨js, .brackets h, rfl⟩
  · rintro ⟨js, ⟨h⟩, rfl⟩
    exact .brackets (listed_image ▸ ⟨_, h, rfl⟩)

theorem objectText_image :
    ObjectText (Image V g) = Image (ObjectText V) (List.map (Prod.map id g)) := by
  funext bs ms
  apply propext
  constructor
  · rintro ⟨h⟩
    rw [member_image, listed_image] at h
    obtain ⟨ms, h, rfl⟩ := h
    exact ⟨ms, .braces h, rfl⟩
  · rintro ⟨ms, ⟨h⟩, rfl⟩
    refine .braces ?_
    rw [member_image, listed_image]
    exact ⟨_, h, rfl⟩

end

/-- A value as a text has it, with brackets nested at most so deep: each object has its members in
the order of the text, each as often as it stands there. -/
def Written : ℕ → Bytes → Json → Prop
  | 0, bs, j => Scalar bs j
  | depth + 1, bs, j =>
    Scalar bs j ∨ (∃ js, ArrayText (Written depth) bs js ∧ j = .array js) ∨
      ∃ ms, ObjectText (Written depth) bs ms ∧ j = .object ms

theorem Scalar.meaning_eq {bs : Bytes} {j : Json} (h : Scalar bs j) : j.meaning = j := by
  cases h <;> rw [meaning] <;> nofun

/-- The value of a text is the meaning of what is written. -/
theorem value_eq_image (depth : ℕ) : Value depth = Image (Written depth) meaning := by
  have hscalar : ∀ bs j, Scalar bs j ↔ Image Scalar meaning bs j := by
    intro bs j
    constructor
    · intro h
      exact ⟨j, h, h.meaning_eq⟩
    · rintro ⟨j, h, rfl⟩
      rwa [h.meaning_eq]
  induction depth with
  | zero =>
    funext bs j
    exact propext (hscalar bs j)
  | succ depth ih =>
    funext bs j
    apply propext
    rw [Value, ih, arrayText_image, objectText_image, hscalar]
    constructor
    · rintro (⟨j, h, rfl⟩ | ⟨_, ⟨js, h, rfl⟩, rfl⟩ | ⟨_, ⟨ms, h, rfl⟩, rfl⟩)
      · exact ⟨j, .inl h, rfl⟩
      · exact ⟨.array js, .inr (.inl ⟨js, h, rfl⟩), meaning_array js⟩
      · exact ⟨.object ms, .inr (.inr ⟨ms, h, rfl⟩), meaning_object ms⟩
    · rintro ⟨_, h | ⟨js, h, rfl⟩ | ⟨ms, h, rfl⟩, rfl⟩
      · exact .inl ⟨_, h, rfl⟩
      · exact .inr (.inl ⟨_, ⟨js, h, rfl⟩, meaning_array js⟩)
      · exact .inr (.inr ⟨_, ⟨ms, h, rfl⟩, meaning_object ms⟩)

/-- A document, nested at most 127 deep and with blanks around it, of a value as it is written. -/
def IsDocument (doc : Bytes) (j : Json) : Prop := Padded (Written 127) doc j

theorem parse_eq_ok_iff_document {doc : Bytes} {j : Json} :
    parse doc = .ok j ↔ ∃ raw, IsDocument doc raw ∧ raw.meaning = j := by
  rw [parse_eq_ok_iff, value_eq_image, padded_image]
  rfl

end NodeConfig.Json
