import Mathlib
import NodeConfig.Proofs.Json.Literal
import NodeConfig.Proofs.Json.Number

namespace NodeConfig.Json

variable {fuel depth : ℕ} {bs gap text r : Bytes} {j : Json}

/-! ### Blanks and words -/

theorem skipBlanks_append (h : Blanks gap) (bs : Bytes) : skipBlanks (gap ++ bs) = skipBlanks bs :=
  List.dropWhile_append_of_pos h

theorem skipBlanks_cons {b : UInt8} (h : isBlank b = false) (bs : Bytes) :
    skipBlanks (b :: bs) = b :: bs := by
  rw [skipBlanks, List.dropWhile_cons, if_neg (by simp [h])]

theorem skipBlanks_split (bs : Bytes) : ∃ gap, Blanks gap ∧ bs = gap ++ skipBlanks bs :=
  ⟨bs.takeWhile isBlank, fun _ hb => List.mem_takeWhile_imp hb,
    List.takeWhile_append_dropWhile.symm⟩

theorem skipBlanks_head {b : UInt8} {t : Bytes} (h : skipBlanks bs = b :: t) :
    isBlank b = false := by
  have hhead := List.head?_dropWhile_not isBlank bs
  rw [← skipBlanks, h] at hhead
  simpa using hhead

theorem word_eq_ok_iff {w : Bytes} : word w bs = .ok r ↔ bs = w ++ r := by
  induction w generalizing bs with
  | nil => simp [word]
  | cons a w ih =>
    cases bs with
    | nil => simp [word, failBefore]
    | cons b t =>
      rw [word]
      split_ifs with hab
      · rw [ih, hab, List.cons_append, List.cons.injEq]
        simp
      · simp [failBefore, Ne.symm hab]

/-! ### Lists in reading order -/

/-- What stands before an element, the first one or another. -/
inductive Lead : Bool → Bytes → Prop
  | first {gap : Bytes} (h : Blanks gap) : Lead true gap
  | comma {gap gap' : Bytes} (h : Blanks gap) (h' : Blanks gap') : Lead false (gap ++ 0x2C :: gap')

/-- What is left before the bracket, where the first element is still to come or not. -/
inductive Elements {α : Type} (E : Bytes → α → Prop) : Bool → Bytes → List α → Prop
  | done {first : Bool} {gap : Bytes} (h : Blanks gap) : Elements E first gap []
  | next {first : Bool} {lead core tail : Bytes} {a : α} {as : List α} (hl : Lead first lead)
      (h : E core a) (ht : Elements E false tail as) :
      Elements E first (lead ++ (core ++ tail)) (a :: as)

section
variable {α : Type} {E : Bytes → α → Prop}

theorem Elements.separated {core tail : Bytes} {a : α} {as : List α}
    (ht : Elements E false tail as) (h : E core a) (hgap : Blanks gap) :
    Separated E (gap ++ (core ++ tail)) (a :: as) := by
  generalize hfirst : false = first at ht
  induction ht generalizing gap core a with
  | done hafter => exact .one (.blanks hgap h hafter)
  | @next first lead core' tail a' as hl h' _ ih =>
    cases hl with
    | first => cases hfirst
    | @comma before before' hb hb' =>
      have hmore := Separated.more (.blanks hgap h hb) (ih h' hb' rfl)
      simpa using hmore

theorem Separated.elements {as : List α} (h : Separated E bs as) :
    Elements E true bs as ∧ ∀ gap, Blanks gap → Elements E false (gap ++ 0x2C :: bs) as := by
  induction h with
  | one h =>
    obtain ⟨hb, h, ha⟩ := h
    refine ⟨.next (.first hb) h (.done ha), fun gap hgap => ?_⟩
    have hnext := Elements.next (.comma hgap hb) h (.done ha)
    simpa using hnext
  | more h _ ih =>
    obtain ⟨hb, h, ha⟩ := h
    have htail := ih.2 _ ha
    refine ⟨?_, fun gap hgap => ?_⟩
    · have hnext := Elements.next (.first hb) h htail
      simpa using hnext
    · have hnext := Elements.next (.comma hgap hb) h htail
      simpa using hnext

theorem elements_true_iff {as : List α} : Elements E true bs as ↔ Listed E bs as := by
  constructor
  · intro h
    cases h with
    | done h => exact .none h
    | next hl h ht =>
      cases hl with
      | first hb => exact .some (ht.separated h hb)
  · intro h
    cases h with
    | none h => exact .done h
    | some h => exact h.elements.1

end

/-! ### Steps of the reader -/

theorem value_blanks (h : Blanks gap) (bs : Bytes) :
    value (fuel + 1) depth (gap ++ bs) = value (fuel + 1) depth bs := by
  rw [value, value, skipBlanks_append h]

theorem items_done {first : Bool} (h : Blanks gap) (r : Bytes) :
    items (fuel + 1) depth first (gap ++ 0x5D :: r) = .ok ([], r) := by
  rw [items, skipBlanks_append h, skipBlanks_cons (by decide)]
  simp

theorem items_next {first : Bool} {lead t : Bytes} {b : UInt8} (hl : Lead first lead)
    (hb : isBlank b = false) (hclose : b ≠ 0x5D) :
    items (fuel + 1) depth first (lead ++ b :: t) = (do
      let (j, r) ← value fuel depth (b :: t)
      let (js, r) ← items fuel depth false r
      pure (j :: js, r)) := by
  cases hl with
  | first h =>
    rw [items, skipBlanks_append h, skipBlanks_cons hb]
    simp [hclose]
  | comma h h' =>
    rw [List.append_assoc, List.cons_append, items, skipBlanks_append h,
      skipBlanks_cons (by decide)]
    simp [skipBlanks_append h', skipBlanks_cons hb, hclose]

theorem lead_of_first (h : skipBlanks bs = text) :
    ∃ lead, Lead true lead ∧ bs = lead ++ text := by
  obtain ⟨gap, hgap, hbs⟩ := skipBlanks_split bs
  exact ⟨gap, .first hgap, h ▸ hbs⟩

theorem lead_of_comma {t : Bytes} (h : skipBlanks bs = 0x2C :: t) (h' : skipBlanks t = text) :
    ∃ lead, Lead false lead ∧ bs = lead ++ text := by
  obtain ⟨gap, hgap, hbs⟩ := skipBlanks_split bs
  obtain ⟨gap', hgap', ht⟩ := skipBlanks_split t
  exact ⟨_, .comma hgap hgap', by rw [hbs, h, ht, h']; simp⟩

theorem items_begin {first : Bool} {js : List Json} (h : items fuel depth first bs = .ok (js, r)) :
    ∃ fuel', fuel = fuel' + 1 ∧ ((∃ gap r', Blanks gap ∧ bs = gap ++ 0x5D :: r') ∨
      ∃ lead b t, Lead first lead ∧ isBlank b = false ∧ b ≠ 0x5D ∧ bs = lead ++ b :: t) := by
  cases fuel with
  | zero => rw [items] at h; cases h
  | succ fuel =>
  refine ⟨fuel, rfl, ?_⟩
  rw [items] at h
  cases hskip : skipBlanks bs with
  | nil => simp [hskip, failHere] at h
  | cons b t =>
  rw [hskip] at h
  by_cases hclose : b = 0x5D
  · obtain ⟨gap, hgap, hbs⟩ := skipBlanks_split bs
    exact .inl ⟨gap, t, hgap, by rw [hbs, hskip, hclose]⟩
  refine .inr ?_
  cases first with
  | true =>
    obtain ⟨lead, hlead, hbs⟩ := lead_of_first hskip
    exact ⟨lead, b, t, hlead, skipBlanks_head hskip, hclose, hbs⟩
  | false =>
    by_cases hcomma : b = 0x2C
    · subst hcomma
      cases hskip' : skipBlanks t with
      | nil => simp [hskip', failHere] at h
      | cons b' t' =>
        obtain ⟨lead, hlead, hbs⟩ := lead_of_comma hskip hskip'
        have hclose' : b' ≠ 0x5D := by
          rintro rfl
          simp [hskip', failHere] at h
        exact ⟨lead, b', t', hlead, skipBlanks_head hskip', hclose', hbs⟩
    · simp [hclose, hcomma, failHere] at h

theorem members_done {first : Bool} (h : Blanks gap) (found : List (String × Json)) (r : Bytes) :
    members (fuel + 1) depth first found (gap ++ 0x7D :: r) = .ok (found, r) := by
  rw [members, skipBlanks_append h, skipBlanks_cons (by decide)]
  simp

theorem members_next {first : Bool} {lead t : Bytes} (hl : Lead first lead)
    (found : List (String × Json)) :
    members (fuel + 1) depth first found (lead ++ 0x22 :: t) = (do
      let (name, j, r) ← pair fuel depth t
      members fuel depth false (insertMember name j found) r) := by
  cases hl with
  | first h =>
    rw [members, skipBlanks_append h, skipBlanks_cons (by decide)]
    simp
  | comma h h' =>
    rw [List.append_assoc, List.cons_append, members, skipBlanks_append h,
      skipBlanks_cons (by decide)]
    simp [skipBlanks_append h', skipBlanks_cons (show isBlank 0x22 = false by decide)]

theorem members_begin {first : Bool} {found ms : List (String × Json)}
    (h : members fuel depth first found bs = .ok (ms, r)) :
    ∃ fuel', fuel = fuel' + 1 ∧ ((∃ gap r', Blanks gap ∧ bs = gap ++ 0x7D :: r') ∨
      ∃ lead t, Lead first lead ∧ bs = lead ++ 0x22 :: t) := by
  cases fuel with
  | zero => rw [members] at h; cases h
  | succ fuel =>
  refine ⟨fuel, rfl, ?_⟩
  rw [members] at h
  cases hskip : skipBlanks bs with
  | nil => simp [hskip, failHere] at h
  | cons b t =>
  rw [hskip] at h
  by_cases hclose : b = 0x7D
  · obtain ⟨gap, hgap, hbs⟩ := skipBlanks_split bs
    exact .inl ⟨gap, t, hgap, by rw [hbs, hskip, hclose]⟩
  refine .inr ?_
  cases first with
  | true =>
    by_cases hquote : b = 0x22
    · obtain ⟨lead, hlead, hbs⟩ := lead_of_first hskip
      exact ⟨lead, t, hlead, hquote ▸ hbs⟩
    · simp [hclose, hquote, failHere] at h
  | false =>
    by_cases hcomma : b = 0x2C
    · subst hcomma
      cases hskip' : skipBlanks t with
      | nil => simp [hskip', failHere] at h
      | cons b' t' =>
        by_cases hquote : b' = 0x22
        · obtain ⟨lead, hlead, hbs⟩ := lead_of_comma hskip hskip'
          exact ⟨lead, t', hlead, hquote ▸ hbs⟩
        · by_cases hclose' : b' = 0x7D <;> simp [hskip', hquote, hclose', failHere] at h
    · simp [hclose, hcomma, failHere] at h

theorem pair_next {n before t : Bytes} {name : String} (hn : StringText n name)
    (hb : Blanks before) (h : 0x22 :: bs = n ++ (before ++ 0x3A :: t)) :
    pair (fuel + 1) depth bs = (do
      let (j, r) ← value fuel depth t
      pure (name, j, r)) := by
  have hread := readString_eq_ok_iff.2 ⟨n, hn, h⟩
  rw [pair, hread]
  simp [bind, Except.bind, skipBlanks_append hb,
    skipBlanks_cons (show isBlank 0x3A = false by decide)]

theorem pair_begin {x : String × Json × Bytes} (h : pair fuel depth bs = .ok x) :
    ∃ fuel' n name before t, fuel = fuel' + 1 ∧ StringText n name ∧ Blanks before ∧
      0x22 :: bs = n ++ (before ++ 0x3A :: t) := by
  cases fuel with
  | zero => rw [pair] at h; cases h
  | succ fuel =>
  rw [pair, Except.bind_eq_ok_iff] at h
  obtain ⟨⟨name, r'⟩, hread, h⟩ := h
  obtain ⟨n, hn, hbs⟩ := readString_eq_ok_iff.1 hread
  obtain ⟨before, hbefore, hr'⟩ := skipBlanks_split r'
  cases hskip : skipBlanks r' with
  | nil => simp [hskip, failHere] at h
  | cons b t =>
    by_cases hcolon : b = 0x3A
    · exact ⟨fuel, n, name, before, t, rfl, hn, hbefore, by rw [hbs, hr', hskip, hcolon]⟩
    · simp [hskip, hcolon, failHere] at h

/-! ### What is read is in the grammar -/

/-- What is read as a value at this depth is one, after blanks. -/
def Sound (depth : ℕ) (V : Bytes → Json → Prop) : Prop :=
  ∀ {fuel : ℕ} {bs r : Bytes} {j : Json}, value fuel depth bs = .ok (j, r) →
    ∃ gap text, Blanks gap ∧ V text j ∧ bs = gap ++ (text ++ r)

section
variable {V : Bytes → Json → Prop}

theorem Sound.items (hv : Sound depth V) {first : Bool} {js : List Json}
    (h : items fuel depth first bs = .ok (js, r)) :
    ∃ text, Elements V first text js ∧ bs = text ++ 0x5D :: r := by
  induction fuel generalizing first bs js with
  | zero => rw [Json.items] at h; cases h
  | succ fuel ih =>
    obtain ⟨_, ⟨⟩, ⟨gap, r', hgap, rfl⟩ | ⟨lead, b, t, hlead, hb, hclose, rfl⟩⟩ := items_begin h
    · rw [items_done hgap] at h
      cases h
      exact ⟨gap, .done hgap, rfl⟩
    · rw [items_next hlead hb hclose, Except.bind_eq_ok_iff] at h
      obtain ⟨⟨j, r'⟩, hj, h⟩ := h
      obtain ⟨⟨js', r''⟩, hjs, h⟩ := Except.bind_eq_ok_iff.1 h
      cases h
      obtain ⟨gap, core, hgap, hcore, hbt⟩ := hv hj
      obtain rfl : gap = [] := by
        cases gap with
        | nil => rfl
        | cons b' gap =>
          obtain rfl : b = b' := (List.cons.inj hbt).1
          rw [hgap b List.mem_cons_self] at hb
          cases hb
      obtain ⟨tail, htail, rfl⟩ := ih hjs
      exact ⟨_, .next hlead hcore htail, by rw [hbt]; simp⟩

theorem Sound.pair (hv : Sound depth V) {name : String}
    (h : pair fuel depth bs = .ok (name, j, r)) :
    ∃ text, Member V text (name, j) ∧ 0x22 :: bs = text ++ r := by
  obtain ⟨fuel, n, name, before, t, rfl, hn, hbefore, hbs⟩ := pair_begin h
  rw [pair_next hn hbefore hbs, Except.bind_eq_ok_iff] at h
  obtain ⟨⟨j, r⟩, hj, h⟩ := h
  cases h
  obtain ⟨after, core, hafter, hcore, rfl⟩ := hv hj
  exact ⟨_, .pair hn hbefore hafter hcore, by rw [hbs]; simp⟩

theorem Sound.members (hv : Sound depth V) {first : Bool} {found ms : List (String × Json)}
    (h : members fuel depth first found bs = .ok (ms, r)) :
    ∃ text new, Elements (Member V) first text new ∧ bs = text ++ 0x7D :: r ∧
      ms = insertMembers found new := by
  induction fuel generalizing first found bs with
  | zero => rw [Json.members] at h; cases h
  | succ fuel ih =>
    obtain ⟨_, ⟨⟩, ⟨gap, r', hgap, rfl⟩ | ⟨lead, t, hlead, rfl⟩⟩ := members_begin h
    · rw [members_done hgap] at h
      cases h
      exact ⟨gap, [], .done hgap, rfl, rfl⟩
    · rw [members_next hlead, Except.bind_eq_ok_iff] at h
      obtain ⟨⟨name, j, r'⟩, hpair, h⟩ := h
      obtain ⟨core, hcore, ht⟩ := hv.pair hpair
      obtain ⟨tail, new, htail, rfl, rfl⟩ := ih h
      exact ⟨_, (name, j) :: new, .next hlead hcore htail, by rw [ht]; simp, rfl⟩

end

/-- What a value begins with decides between a value without brackets and the two kinds of
brackets. -/
theorem value_begin (h : value fuel depth bs = .ok (j, r)) :
    ∃ fuel' gap, fuel = fuel' + 1 ∧ Blanks gap ∧
      ((∃ text, Scalar text j ∧ bs = gap ++ (text ++ r)) ∨
        (∃ depth' t js, depth = depth' + 2 ∧ bs = gap ++ 0x5B :: t ∧
          items fuel' (depth' + 1) true t = .ok (js, r) ∧ j = .array js) ∨
        ∃ depth' t ms, depth = depth' + 2 ∧ bs = gap ++ 0x7B :: t ∧
          members fuel' (depth' + 1) true [] t = .ok (ms, r) ∧ j = .object ms) := by
  cases fuel with
  | zero => rw [value] at h; cases h
  | succ fuel =>
  obtain ⟨gap, hgap, hbs⟩ := skipBlanks_split bs
  refine ⟨fuel, gap, rfl, hgap, ?_⟩
  rw [value] at h
  cases hskip : skipBlanks bs with
  | nil => simp [hskip, failHere] at h
  | cons b t =>
  rw [hskip] at h hbs
  dsimp only at h
  split at h
  · obtain ⟨r', hw, h⟩ := Except.bind_eq_ok_iff.1 h
    cases h
    exact .inl ⟨_, .nullWord, by rw [hbs, word_eq_ok_iff.1 hw]; rfl⟩
  · obtain ⟨r', hw, h⟩ := Except.bind_eq_ok_iff.1 h
    cases h
    exact .inl ⟨_, .trueWord, by rw [hbs, word_eq_ok_iff.1 hw]; rfl⟩
  · obtain ⟨r', hw, h⟩ := Except.bind_eq_ok_iff.1 h
    cases h
    exact .inl ⟨_, .falseWord, by rw [hbs, word_eq_ok_iff.1 hw]; rfl⟩
  · obtain ⟨⟨v, r'⟩, hnum, h⟩ := Except.bind_eq_ok_iff.1 h
    cases h
    obtain ⟨n, hneg, hv, rfl⟩ := readNumber_sound hnum
    exact .inl ⟨_, .number hv, by rw [hbs, Numeral.text, hneg]; rfl⟩
  · obtain ⟨⟨s, r'⟩, hstr, h⟩ := Except.bind_eq_ok_iff.1 h
    cases h
    obtain ⟨text, htext, ht⟩ := readString_eq_ok_iff.1 hstr
    exact .inl ⟨text, .string htext, by rw [hbs, ht]; rfl⟩
  · rcases depth with _ | _ | depth
    · cases h
    · cases h
    · obtain ⟨⟨js, r'⟩, hjs, h⟩ := Except.bind_eq_ok_iff.1 h
      cases h
      exact .inr (.inl ⟨depth, t, js, rfl, hbs, hjs, rfl⟩)
  · rcases depth with _ | _ | depth
    · cases h
    · cases h
    · obtain ⟨⟨ms, r'⟩, hms, h⟩ := Except.bind_eq_ok_iff.1 h
      cases h
      exact .inr (.inr ⟨depth, t, ms, rfl, hbs, hms, rfl⟩)
  · split at h
    · obtain ⟨⟨v, r'⟩, hnum, h⟩ := Except.bind_eq_ok_iff.1 h
      cases h
      obtain ⟨n, hneg, hv, ht⟩ := readNumber_sound hnum
      exact .inl ⟨_, .number hv, by rw [hbs, ht, Numeral.text, hneg]; rfl⟩
    · cases h

/-- What is read at a depth has fewer brackets around one another than that. -/
theorem value_sound (depth : ℕ) : Sound (depth + 1) (Value depth) := by
  induction depth with
  | zero =>
    intro fuel bs r j h
    obtain ⟨fuel, gap, rfl, hgap, ⟨text, htext, rfl⟩ | ⟨_, _, _, hd, _⟩ | ⟨_, _, _, hd, _⟩⟩ :=
      value_begin h
    · exact ⟨gap, text, hgap, htext, rfl⟩
    · omega
    · omega
  | succ depth ih =>
    intro fuel bs r j h
    obtain ⟨fuel, gap, rfl, hgap, ⟨text, htext, rfl⟩ | ⟨d, t, js, hd, rfl, hjs, rfl⟩ |
      ⟨d, t, ms, hd, rfl, hms, rfl⟩⟩ := value_begin h
    · exact ⟨gap, text, hgap, .inl htext, rfl⟩
    · obtain rfl : depth = d := by omega
      obtain ⟨inner, helements, rfl⟩ := ih.items hjs
      have htext := ArrayText.brackets (elements_true_iff.1 helements)
      exact ⟨gap, _, hgap, .inr (.inl ⟨js, htext, rfl⟩), by simp⟩
    · obtain rfl : depth = d := by omega
      obtain ⟨inner, new, helements, rfl, rfl⟩ := ih.members hms
      have htext := ObjectText.braces (elements_true_iff.1 helements)
      exact ⟨gap, _, hgap, .inr (.inr ⟨new, htext, rfl⟩), by simp⟩

/-! ### What is in the grammar is read -/

theorem stops_cons {b : UInt8} (h : isDigit b = false ∧ b ≠ 0x2E ∧ b ≠ 0x65 ∧ b ≠ 0x45)
    (bs : Bytes) : Stops (b :: bs) := by
  rintro _ ⟨⟩
  exact h

theorem stops_blanks (h : Blanks gap) (hr : Stops r) : Stops (gap ++ r) := by
  cases gap with
  | nil => exact hr
  | cons b t =>
    have hb := h b List.mem_cons_self
    simp only [isBlank, Bool.or_eq_true, decide_eq_true_eq, or_assoc] at hb
    rcases hb with rfl | rfl | rfl | rfl <;> exact stops_cons (by decide) _

theorem Elements.stops {α : Type} {E : Bytes → α → Prop} {as : List α}
    (h : Elements E false text as) (hr : Stops r) : Stops (text ++ r) := by
  generalize hfirst : false = first at h
  cases h with
  | done h => exact stops_blanks h hr
  | next hl =>
    cases hl with
    | first => cases hfirst
    | comma h _ =>
      rw [List.append_assoc, List.append_assoc, List.cons_append]
      exact stops_blanks h (stops_cons (by decide) _)

theorem isDigit_iff {b : UInt8} : isDigit b = true ↔ 0x30 ≤ b.toNat ∧ b.toNat ≤ 0x39 := by
  simp [isDigit, UInt8.le_iff_toNat_le]

theorem isBlank_of_isDigit {b : UInt8} (h : isDigit b = true) : isBlank b = false := by
  rw [isDigit_iff] at h
  simp only [isBlank, ← UInt8.toNat_inj]
  simp
  omega

theorem value_digit {b : UInt8} {t : Bytes} (hb : isDigit b = true) :
    value (fuel + 1) depth (b :: t) = (do
      let (n, r) ← readNumber true (b :: t)
      pure (.number n, r)) := by
  rw [value, skipBlanks_cons (isBlank_of_isDigit hb)]
  dsimp only
  split
  case h_8 =>
    rw [if_pos hb]
    rfl
  all_goals exact absurd hb (by decide)

theorem value_minus {t : Bytes} :
    value (fuel + 1) depth (0x2D :: t) = (do
      let (n, r) ← readNumber false t
      pure (.number n, r)) := by
  rw [value, skipBlanks_cons (by decide)]
  rfl

theorem value_quote {t : Bytes} :
    value (fuel + 1) depth (0x22 :: t) = (do
      let (s, r) ← readString t
      pure (.string s, r)) := by
  rw [value, skipBlanks_cons (by decide)]
  rfl

theorem Scalar.value (h : Scalar text j) (hr : Stops r) :
    value (fuel + 1) depth (text ++ r) = .ok (j, r) := by
  cases h with
  | nullWord | trueWord | falseWord => simp [Json.value, skipBlanks, isBlank, word]
  | @number n v hv =>
    have hread := readNumber_complete hv hr
    cases hneg : n.negative with
    | true =>
      rw [hneg, Bool.not_true] at hread
      rw [Numeral.text, if_pos hneg, List.cons_append, value_minus, hread]
      rfl
    | false =>
      rw [hneg, Bool.not_false] at hread
      obtain ⟨d, t, hunsigned, hd⟩ := n.unsigned_head
      rw [Numeral.text, hneg, if_neg Bool.false_ne_true]
      rw [hunsigned, List.cons_append] at hread ⊢
      rw [value_digit hd, hread]
      rfl
  | @string _ s h =>
    obtain ⟨t, rfl⟩ : ∃ t, text = 0x22 :: t := by
      cases h
      exact ⟨_, rfl⟩
    have hread : readString (t ++ r) = .ok (s, r) := readString_eq_ok_iff.2 ⟨_, h, rfl⟩
    rw [List.cons_append, value_quote, hread]
    rfl

theorem value_array {t : Bytes} :
    value (fuel + 1) (depth + 2) (0x5B :: t) = (do
      let (js, r) ← items fuel (depth + 1) true t
      pure (.array js, r)) := by
  rw [value, skipBlanks_cons (by decide)]
  rfl

theorem value_object {t : Bytes} :
    value (fuel + 1) (depth + 2) (0x7B :: t) = (do
      let (ms, r) ← members fuel (depth + 1) true [] t
      pure (.object ms, r)) := by
  rw [value, skipBlanks_cons (by decide)]
  rfl

/-- What each value at this depth begins with, and that it is read whatever follows. -/
structure Complete (depth : ℕ) (V : Bytes → Json → Prop) : Prop where
  begins {text : Bytes} {j : Json} (h : V text j) :
    ∃ b t, text = b :: t ∧ isBlank b = false ∧ b ≠ 0x5D
  value {fuel : ℕ} {text r : Bytes} {j : Json} (h : V text j) (hf : 2 * text.length ≤ fuel)
    (hr : Stops r) : value fuel depth (text ++ r) = .ok (j, r)

section
variable {V : Bytes → Json → Prop}

theorem Complete.items (hv : Complete depth V) {first : Bool} {js : List Json}
    (h : Elements V first text js) (hf : 2 * text.length + 1 ≤ fuel) :
    items fuel depth first (text ++ 0x5D :: r) = .ok (js, r) := by
  induction h generalizing fuel with
  | done hgap =>
    obtain ⟨fuel, rfl⟩ : ∃ f, fuel = f + 1 := ⟨fuel - 1, by omega⟩
    exact items_done hgap r
  | @next first lead core tail j js hlead hcore htail ih =>
    obtain ⟨fuel, rfl⟩ : ∃ f, fuel = f + 1 := ⟨fuel - 1, by omega⟩
    obtain ⟨b, t, hbt, hb, hclose⟩ := hv.begins hcore
    have hlen : 1 ≤ core.length := by rw [hbt]; exact Nat.le_add_left _ _
    simp only [List.length_append] at hf
    have hstops : Stops (tail ++ 0x5D :: r) := htail.stops (stops_cons (by decide) r)
    have hj : Json.value fuel depth (core ++ (tail ++ 0x5D :: r)) = .ok (j, tail ++ 0x5D :: r) :=
      hv.value hcore (by omega) hstops
    have hjs : Json.items fuel depth false (tail ++ 0x5D :: r) = .ok (js, r) := ih (by omega)
    rw [hbt, List.cons_append] at hj
    rw [List.append_assoc, List.append_assoc, hbt, List.cons_append, items_next hlead hb hclose, hj]
    simp only [bind, Except.bind, hjs]
    rfl

theorem Complete.pair (hv : Complete depth V) {m : String × Json} (h : Member V (0x22 :: text) m)
    (hf : 2 * text.length ≤ fuel) (hr : Stops r) :
    pair fuel depth (text ++ r) = .ok (m.1, m.2, r) := by
  generalize hcore : 0x22 :: text = core at h
  obtain ⟨hn, hbefore, hafter, hvalue⟩ := h
  rename_i n before after core name j
  have hlen : 2 ≤ n.length := by
    cases hn
    simp
  have hcorelen := congrArg List.length hcore
  simp only [List.length_append, List.length_cons] at hcorelen
  obtain ⟨fuel, rfl⟩ : ∃ f, fuel = f + 2 := ⟨fuel - 2, by omega⟩
  have hbs : 0x22 :: (text ++ r) = n ++ (before ++ 0x3A :: (after ++ (core ++ r))) := by
    rw [← List.cons_append, hcore]
    simp
  have hj : Json.value (fuel + 1) depth (core ++ r) = .ok (j, r) :=
    hv.value hvalue (by omega) hr
  rw [pair_next hn hbefore hbs, value_blanks hafter, hj]
  rfl

theorem Complete.members (hv : Complete depth V) {first : Bool} {new : List (String × Json)}
    (h : Elements (Member V) first text new) (found : List (String × Json))
    (hf : 2 * text.length + 1 ≤ fuel) :
    members fuel depth first found (text ++ 0x7D :: r) = .ok (insertMembers found new, r) := by
  induction h generalizing fuel found with
  | done hgap =>
    obtain ⟨fuel, rfl⟩ : ∃ f, fuel = f + 1 := ⟨fuel - 1, by omega⟩
    exact members_done hgap found r
  | @next first lead core tail m ms hlead hcore htail ih =>
    obtain ⟨fuel, rfl⟩ : ∃ f, fuel = f + 1 := ⟨fuel - 1, by omega⟩
    obtain ⟨t, rfl⟩ : ∃ t, core = 0x22 :: t := by
      obtain ⟨⟨_⟩, _, _, _⟩ := hcore
      exact ⟨_, rfl⟩
    simp only [List.length_append, List.length_cons] at hf
    have hstops : Stops (tail ++ 0x7D :: r) := htail.stops (stops_cons (by decide) r)
    have hpair : Json.pair fuel depth (t ++ (tail ++ 0x7D :: r)) =
        .ok (m.1, m.2, tail ++ 0x7D :: r) := hv.pair hcore (by omega) hstops
    have hms := ih (insertMember m.1 m.2 found) (show 2 * tail.length + 1 ≤ fuel by omega)
    rw [List.append_assoc, List.append_assoc, List.cons_append, members_next hlead, hpair]
    exact hms

end

theorem Scalar.begins (h : Scalar text j) :
    ∃ b t, text = b :: t ∧ isBlank b = false ∧ b ≠ 0x5D := by
  cases h with
  | nullWord | trueWord | falseWord => exact ⟨_, _, rfl, by decide, by decide⟩
  | @number n v _ =>
    cases hneg : n.negative with
    | true => exact ⟨0x2D, n.unsigned, by rw [Numeral.text, if_pos hneg], by decide, by decide⟩
    | false =>
      obtain ⟨d, t, hunsigned, hd⟩ := n.unsigned_head
      refine ⟨d, t, by rw [Numeral.text, hneg, hunsigned]; rfl, isBlank_of_isDigit hd, ?_⟩
      rintro rfl
      cases hd
  | string h =>
    cases h
    exact ⟨_, _, rfl, by decide, by decide⟩

theorem Scalar.value_of_le (h : Scalar text j) (hf : 2 * text.length ≤ fuel) (hr : Stops r) :
    Json.value fuel depth (text ++ r) = .ok (j, r) := by
  obtain ⟨b, t, rfl, -⟩ := h.begins
  rw [List.length_cons] at hf
  obtain ⟨fuel, rfl⟩ : ∃ f, fuel = f + 1 := ⟨fuel - 1, by omega⟩
  exact h.value hr

/-- A value nested less than the depth is read. -/
theorem value_complete (depth : ℕ) : Complete (depth + 1) (Value depth) := by
  induction depth with
  | zero => exact ⟨fun h => Scalar.begins h, fun h hf hr => Scalar.value_of_le h hf hr⟩
  | succ depth ih =>
    constructor
    · rintro text j (h | ⟨js, ⟨_⟩, rfl⟩ | ⟨ms, ⟨_⟩, rfl⟩)
      · exact h.begins
      · exact ⟨_, _, rfl, by decide, by decide⟩
      · exact ⟨_, _, rfl, by decide, by decide⟩
    · rintro fuel text r j (h | ⟨js, ⟨h⟩, rfl⟩ | ⟨ms, ⟨h⟩, rfl⟩) hf hr
      · exact h.value_of_le hf hr
      · rename_i inner
        simp only [List.length_cons, List.length_append, List.length_nil] at hf
        obtain ⟨fuel, rfl⟩ : ∃ f, fuel = f + 1 := ⟨fuel - 1, by omega⟩
        have hjs : items fuel (depth + 1) true (inner ++ 0x5D :: r) = .ok (js, r) :=
          ih.items (elements_true_iff.2 h) (by omega)
        rw [List.cons_append, List.append_assoc, List.singleton_append, value_array, hjs]
        rfl
      · rename_i inner
        simp only [List.length_cons, List.length_append, List.length_nil] at hf
        obtain ⟨fuel, rfl⟩ : ∃ f, fuel = f + 1 := ⟨fuel - 1, by omega⟩
        have hms : members fuel (depth + 1) true [] (inner ++ 0x7D :: r) =
            .ok (insertMembers [] ms, r) := ih.members (elements_true_iff.2 h) [] (by omega)
        rw [List.cons_append, List.append_assoc, List.singleton_append, value_object, hms]
        rfl

/-! ### Texts -/

theorem finished_eq_ok_iff : finished bs = .ok () ↔ Blanks bs := by
  obtain ⟨gap, hgap, hbs⟩ := skipBlanks_split bs
  constructor
  · intro h
    rw [finished] at h
    split at h
    · next hskip =>
      rw [hbs, hskip, List.append_nil]
      exact hgap
    · cases h
  · intro h
    have hskip := skipBlanks_append h []
    rw [List.append_nil] at hskip
    rw [finished, hskip]
    rfl

/-- A text is accepted if it is a value nested at most 127 deep, with blanks around it, and as that
value only. -/
theorem parse_eq_ok_iff {doc : Bytes} : parse doc = .ok j ↔ Padded (Value 127) doc j := by
  have hdepth : maxDepth = 127 + 1 := rfl
  rw [parse, Except.bind_eq_ok_iff, hdepth]
  constructor
  · rintro ⟨⟨j', r⟩, hvalue, h⟩
    obtain ⟨⟨⟩, hr, h⟩ := Except.bind_eq_ok_iff.1 h
    cases h
    obtain ⟨gap, text, hgap, htext, rfl⟩ := value_sound 127 hvalue
    exact .blanks hgap htext (finished_eq_ok_iff.1 hr)
  · rintro ⟨hbefore, htext, hafter⟩
    rename_i before text after
    have hstops : Stops after := by simpa using stops_blanks hafter (r := []) nofun
    refine ⟨(j, after), ?_, ?_⟩
    · rw [value_blanks hbefore]
      exact (value_complete 127).value htext (by simp; omega) hstops
    · simp only [finished_eq_ok_iff.2 hafter, bind, Except.bind]
      rfl

end NodeConfig.Json
