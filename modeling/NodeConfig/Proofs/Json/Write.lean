import Mathlib
import NodeConfig.Proofs.Json.Literal
import NodeConfig.Proofs.Json.Meaning
import NodeConfig.Proofs.Json.Number

namespace NodeConfig.Json

/-! ### Strings -/

theorem hexUnit_hex4 {n : ℕ} (hn : n < 0x20) : HexUnit (Utf8.ofString (hex4 n)) n := by
  have hread : ∀ n < 0x20, hexUnit (Utf8.ofString (hex4 n)) = .ok (n, []) := by decide
  obtain ⟨u, hu, htext⟩ := hexUnit_sound (hread n hn)
  rw [htext, List.append_nil]
  exact hu

theorem characters_escape {c : Char} {bs : Bytes} {cs : List Char} (h : Characters bs cs) :
    Characters (Utf8.ofString (escape c) ++ bs) (c :: cs) := by
  unfold escape
  split
  case h_8 hquote hslash _ _ _ _ _ =>
    split
    · next hcontrol =>
      rw [Utf8.ofString_append]
      have hunit := Escape.unit (hexUnit_hex4 hcontrol) (.inl (by omega))
      rw [Char.ofNat_toNat] at hunit
      exact .escape hunit h
    · next hcontrol =>
      have hc : Utf8.ofString (String.singleton c) = Utf8.encodeChar c := by
        simp [Utf8.ofString, Utf8.encode]
      rw [hc]
      exact .plain ⟨by omega, hquote, hslash⟩ h
  all_goals exact .escape (.short (by decide)) h

theorem stringText_quote (s : String) : StringText (Utf8.ofString (quote s)) s := by
  have hchars : ∀ cs : List Char, Characters ((cs.map escape).flatMap Utf8.ofString) cs := by
    intro cs
    induction cs with
    | nil => exact .nil
    | cons c cs ih => exact characters_escape ih
  have htext : Utf8.ofString (quote s) =
      0x22 :: ((s.toList.map escape).flatMap Utf8.ofString ++ [0x22]) := by
    rw [quote, Utf8.ofString_append, Utf8.ofString_append, Utf8.ofString_join, List.append_assoc]
    rfl
  have hs := StringText.quotes (hchars s.toList)
  rwa [String.ofList_toList, ← htext] at hs

/-! ### Whole numbers -/

theorem decimal_append (ds : Bytes) (d : UInt8) :
    decimal (ds ++ [d]) = decimal ds * 10 + digit d := by
  rw [decimal, List.foldl_append]
  rfl

/-- The digits of a number have no zero before them. -/
theorem repr_digits (n : ℕ) :
    IsDigits (Utf8.ofString (Nat.repr n)) ∧
      ((Utf8.ofString (Nat.repr n)).head? = some 0x30 → Utf8.ofString (Nat.repr n) = [0x30]) ∧
      decimal (Utf8.ofString (Nat.repr n)) = n := by
  have hbytes : ∀ n, Utf8.ofString (Nat.repr n) = Utf8.encode (Nat.toDigits 10 n) :=
    fun n => by rw [Utf8.ofString, Nat.toList_repr]
  have hdigit : ∀ d < 10, isDigit (Utf8.octet (0x30 + d)) = true ∧
      digit (Utf8.octet (0x30 + d)) = d ∧ Utf8.encode [Nat.digitChar d] = [Utf8.octet (0x30 + d)] ∧
      (Utf8.octet (0x30 + d) = 0x30 → d = 0) := by decide
  induction n using Nat.strongRecOn with
  | ind n ih =>
    by_cases hn : n < 10
    · obtain ⟨his, hval, htext, -⟩ := hdigit n hn
      rw [hbytes, Nat.toDigits_of_lt_base hn, htext]
      refine ⟨⟨by simp, by simpa using his⟩, ?_, ?_⟩
      · simp
      · rw [← List.nil_append [_], decimal_append, hval]
        simp [decimal]
    · obtain ⟨⟨hne, hall⟩, hhead, hdec⟩ := ih (n / 10) (by omega)
      obtain ⟨his, hval, htext, -⟩ := hdigit (n % 10) (by omega)
      have hsplit : Utf8.ofString (Nat.repr n) =
          Utf8.ofString (Nat.repr (n / 10)) ++ [Utf8.octet (0x30 + n % 10)] := by
        rw [hbytes, Nat.toDigits_of_base_le (by decide) (by omega), Utf8.encode,
          List.flatMap_append, ← Utf8.encode, ← Utf8.encode, htext, hbytes]
      rw [hsplit]
      refine ⟨⟨by simp, ?_⟩, ?_, ?_⟩
      · intro d hd
        rcases List.mem_append.1 hd with hd | hd
        · exact hall d hd
        · rw [List.mem_singleton.1 hd]
          exact his
      · intro h
        rw [List.head?_append_of_ne_nil _ hne] at h
        have hzero := hhead h
        rw [hzero] at hdec
        have hten : n / 10 = 0 := hdec.symm
        omega
      · rw [decimal_append, hdec, hval]
        omega

theorem absorb_eq {s : ℕ} {ds : Bytes}
    (h : ds.foldl (fun n d => n * 10 + digit d) s < pow2 64) :
    absorb s ds = (ds.foldl (fun n d => n * 10 + digit d) s, ds.length) := by
  induction ds generalizing s with
  | nil => rfl
  | cons d ds ih =>
    rw [List.foldl_cons] at h
    have hnext := lt_of_le_of_lt (le_foldl_digit (s * 10 + digit d) ds) h
    rw [absorb, if_pos hnext, ih h]
    rfl

theorem absorb_decimal {ds : Bytes} (h : decimal ds < pow2 64) :
    absorb 0 ds = (decimal ds, ds.length) := absorb_eq h

theorem absorb_lt {s : ℕ} (hs : s < pow2 64) (ds : Bytes) : (absorb s ds).1 < pow2 64 := by
  induction ds generalizing s with
  | nil => exact hs
  | cons d ds ih =>
    rw [absorb]
    split_ifs with h
    · exact ih h
    · exact hs

theorem scaled?_ne_int {positive : Bool} {s : ℕ} {start k : ℤ} {e : Option Exponent} :
    scaled? positive s start e ≠ some (.int k) := by
  have hreal : ∀ start, (real? positive s start).map JsonNumber.real ≠ some (.int k) := by
    intro start h
    obtain ⟨x, -, hx⟩ := Option.map_eq_some_iff.1 h
    cases hx
  cases e with
  | none => exact hreal _
  | some e =>
    rw [scaled?]
    split_ifs
    · exact hreal _
    · exact hreal _
    · simp
    · simp

/-- A whole number is read only in the range of 64 bits. -/
theorem Numeral.range_of_value? {n : Numeral} {k : ℤ} (h : n.value? = some (.int k)) :
    -(2 ^ 63 : ℤ) ≤ k ∧ k < 2 ^ 64 := by
  have hlt : (absorb 0 n.whole).1 < 2 ^ 64 := absorb_lt (by decide) n.whole
  rw [value?] at h
  dsimp only at h
  split at h
  · split_ifs at h
    · rw [Option.some.injEq, Json.whole] at h
      split_ifs at h with hpos hbound
      · cases h
        omega
      · cases h
        have hle : (absorb 0 n.whole).1 ≤ 2 ^ 63 := hbound.2
        omega
    · exact absurd h scaled?_ne_int
  · exact absurd h scaled?_ne_int
  · exact absurd h scaled?_ne_int

/-- A numeral of digits alone, and with a sign or none. -/
theorem exists_numeral {m : ℕ} (hm : m < 2 ^ 64) (negative : Bool) :
    ∃ n : Numeral, n.negative = negative ∧ n.value? = some (whole (!negative) m) ∧
      n.unsigned = Utf8.ofString (Nat.repr m) := by
  obtain ⟨hdigits, hlead, hdec⟩ := repr_digits m
  refine ⟨⟨negative, _, none, none, hdigits, hlead, nofun⟩, rfl, ?_, ?_⟩
  · have habsorb := absorb_decimal (hdec ▸ hm)
    rw [hdec] at habsorb
    simp only [Numeral.value?, habsorb, Nat.sub_self, if_true]
  · simp [Numeral.unsigned, fractionText, exponentText]

/-- The text of a whole number is the numeral of it, if it is in the range of 64 bits. -/
theorem scalar_int {k : ℤ} (hlow : -(2 ^ 63 : ℤ) ≤ k) (hhigh : k < 2 ^ 64) :
    Scalar (Utf8.ofString (JsonNumber.int k).text) (.number (.int k)) := by
  cases k with
  | ofNat m =>
    have hm : m < 2 ^ 64 := by
      rw [Int.ofNat_eq_natCast] at hhigh
      omega
    obtain ⟨n, hneg, hv, htext⟩ := exists_numeral hm false
    have hscalar := Scalar.number hv
    rw [Numeral.text, hneg, if_neg Bool.false_ne_true, htext] at hscalar
    exact hscalar
  | negSucc m =>
    have hwhole : whole false (m + 1) = .int (Int.negSucc m) := by
      have hle : m + 1 ≤ pow2 63 := by
        have h63 : pow2 63 = 2 ^ 63 := rfl
        omega
      rw [whole, if_neg Bool.false_ne_true, if_pos ⟨by omega, hle⟩]
      rfl
    obtain ⟨n, hneg, hv, htext⟩ := exists_numeral (m := m + 1) (by omega) true
    rw [Bool.not_true, hwhole] at hv
    have hscalar := Scalar.number hv
    rw [Numeral.text, if_pos hneg, htext] at hscalar
    have hminus : Utf8.ofString (JsonNumber.int (Int.negSucc m)).text =
        0x2D :: Utf8.ofString (Nat.repr (m + 1)) :=
      Utf8.ofString_append "-" (Nat.repr (m + 1))
    rw [hminus]
    exact hscalar

/-! ### Values -/

/-- The first value is the second one or stands somewhere inside it. -/
inductive Within (j : Json) : Json → Prop
  | self : Within j j
  | item {k : Json} {js : List Json} (hk : k ∈ js) (h : Within j k) : Within j (.array js)
  | member {m : String × Json} {ms : List (String × Json)} (hm : m ∈ ms) (h : Within j m.2) :
      Within j (.object ms)

def commaSeparated : List String → String
  | [] => ""
  | [t] => t
  | t :: ts => t ++ "," ++ commaSeparated ts

def memberText (m : String × Json) : String := quote m.1 ++ ":" ++ m.2.compact

theorem compactItems_eq (js : List Json) : compactItems js = commaSeparated (js.map compact) := by
  induction js with
  | nil => rw [compactItems]; rfl
  | cons j js ih =>
    cases js with
    | nil => rw [compactItems]; rfl
    | cons k js =>
      rw [compactItems, ih]
      · rfl
      · nofun

theorem compactMembers_eq (ms : List (String × Json)) :
    compactMembers ms = commaSeparated (ms.map memberText) := by
  induction ms with
  | nil => rw [compactMembers]; rfl
  | cons m ms ih =>
    cases ms with
    | nil => rw [compactMembers]; rfl
    | cons m' ms =>
      rw [compactMembers, ih]
      · rfl
      · nofun

theorem padded_self {α : Type} {E : Bytes → α → Prop} {bs : Bytes} {a : α} (h : E bs a) :
    Padded E bs a := by
  have hpadded : Padded E ([] ++ (bs ++ [])) a := .blanks nofun h nofun
  rwa [List.nil_append, List.append_nil] at hpadded

theorem listed_commaSeparated {α : Type} {E : Bytes → α → Prop} {f : α → String} {as : List α}
    (h : ∀ a ∈ as, E (Utf8.ofString (f a)) a) :
    Listed E (Utf8.ofString (commaSeparated (as.map f))) as := by
  cases as with
  | nil => exact .none nofun
  | cons a as =>
    apply Listed.some
    induction as generalizing a with
    | nil => exact .one (padded_self (h a List.mem_cons_self))
    | cons b as ih =>
      have hrest := ih b fun x hx => h x (List.mem_cons_of_mem a hx)
      have hall := Separated.more (padded_self (h a List.mem_cons_self)) hrest
      have hcomma : Utf8.ofString "," = [0x2C] := rfl
      simpa [commaSeparated, Utf8.ofString_append, hcomma] using hall

theorem member_memberText {V : Bytes → Json → Prop} {m : String × Json}
    (h : V (Utf8.ofString m.2.compact) m.2) : Member V (Utf8.ofString (memberText m)) m := by
  have hm : Member V (Utf8.ofString (quote m.1) ++ ([] ++ 0x3A :: ([] ++
      Utf8.ofString m.2.compact))) m := .pair (stringText_quote m.1) nofun nofun h
  have hcolon : Utf8.ofString ":" = [0x3A] := rfl
  simpa [memberText, Utf8.ofString_append, hcolon] using hm

theorem written_scalar {depth : ℕ} {bs : Bytes} {j : Json} (h : Scalar bs j) :
    Written depth bs j := by
  cases depth with
  | zero => exact h
  | succ depth => exact .inl h

theorem written_array {depth : ℕ} {js : List Json}
    (h : ∀ j ∈ js, Written depth (Utf8.ofString j.compact) j) :
    Written (depth + 1) (Utf8.ofString (array js).compact) (.array js) := by
  refine .inr (.inl ⟨js, ?_, rfl⟩)
  rw [compact, compactItems_eq, Utf8.ofString_append, Utf8.ofString_append, List.append_assoc]
  exact .brackets (listed_commaSeparated h)

theorem written_object {depth : ℕ} {ms : List (String × Json)}
    (h : ∀ m ∈ ms, Written depth (Utf8.ofString m.2.compact) m.2) :
    Written (depth + 1) (Utf8.ofString (object ms).compact) (.object ms) := by
  refine .inr (.inr ⟨ms, ?_, rfl⟩)
  rw [compact, compactMembers_eq, Utf8.ofString_append, Utf8.ofString_append, List.append_assoc]
  exact .braces (listed_commaSeparated fun m hm => member_memberText (h m hm))

/-! ### Whole values -/

theorem Listed.exists_of_mem {α : Type} {E : Bytes → α → Prop} {bs : Bytes} {as : List α} {a : α}
    (h : Listed E bs as) (ha : a ∈ as) : ∃ core, E core a := by
  have hpadded : ∀ {bs : Bytes} {b : α}, Padded E bs b → ∃ core, E core b := by
    rintro bs b ⟨-, hcore, -⟩
    exact ⟨_, hcore⟩
  cases h with
  | none => cases ha
  | some h =>
    induction h with
    | one h =>
      rw [List.mem_singleton] at ha
      exact ha ▸ hpadded h
    | more h _ ih =>
      rcases List.mem_cons.1 ha with rfl | ha
      · exact hpadded h
      · exact ih ha

section
variable {depth : ℕ} {bs : Bytes} {j : Json}

/-- What a value is made of was read as a value too. -/
theorem Value.cases (h : Value (depth + 1) bs j) :
    Scalar bs j ∨ (∃ js, j = .array js ∧ ∀ k ∈ js, ∃ bs, Value depth bs k) ∨
      ∃ ms, j = .object ms ∧ Ascending ms ∧ ∀ m ∈ ms, ∃ bs, Value depth bs m.2 := by
  rcases h with h | ⟨js, ⟨h⟩, rfl⟩ | ⟨ms, ⟨h⟩, rfl⟩
  · exact .inl h
  · exact .inr (.inl ⟨js, rfl, fun k hk => h.exists_of_mem hk⟩)
  · refine .inr (.inr ⟨_, rfl, ascending_insertMembers ms .nil, fun m hm => ?_⟩)
    obtain ⟨core, hcore⟩ := h.exists_of_mem ((mem_insertMembers hm).resolve_left nofun)
    obtain ⟨-, -, -, hv⟩ := hcore
    exact ⟨_, hv⟩

theorem Scalar.not_within_object {ms : List (String × Json)} (h : Scalar bs j) :
    ¬Within (.object ms) j := by
  rintro (_ | _ | _) <;> cases h

/-- Every object of a value has its members in ascending order. -/
theorem Value.ascending {ms : List (String × Json)} (h : Value depth bs j)
    (hms : Within (.object ms) j) : Ascending ms := by
  induction depth generalizing bs j with
  | zero => exact absurd hms (Scalar.not_within_object h)
  | succ depth ih =>
    rcases h.cases with h | ⟨js, rfl, hjs⟩ | ⟨members, rfl, hsorted, hmembers⟩
    · exact absurd hms h.not_within_object
    · cases hms with
      | item hk hms =>
        obtain ⟨bs, hv⟩ := hjs _ hk
        exact ih hv hms
    · cases hms with
      | self => exact hsorted
      | member hm hms =>
        obtain ⟨bs, hv⟩ := hmembers _ hm
        exact ih hv hms

theorem scalar_compact (h : Scalar bs j)
    (hint : ∀ n, Within (.number n) j → ∃ k : ℤ, n = .int k) :
    Scalar (Utf8.ofString j.compact) j := by
  cases h with
  | nullWord => exact .nullWord
  | trueWord => exact .trueWord
  | falseWord => exact .falseWord
  | string => exact .string (stringText_quote _)
  | number hv =>
    obtain ⟨k, rfl⟩ := hint _ .self
    obtain ⟨hlow, hhigh⟩ := Numeral.range_of_value? hv
    exact scalar_int hlow hhigh

/-- The compact text of a value that was read, if all its numbers are whole, is a text of it. -/
theorem written_compact {depth' : ℕ} (h : Value depth bs j) (hd : depth ≤ depth')
    (hint : ∀ n, Within (.number n) j → ∃ k : ℤ, n = .int k) :
    Written depth' (Utf8.ofString j.compact) j := by
  induction depth generalizing bs j depth' with
  | zero => exact written_scalar (scalar_compact h hint)
  | succ depth ih =>
    obtain ⟨depth', rfl⟩ : ∃ d, depth' = d + 1 := ⟨depth' - 1, by omega⟩
    have hd' : depth ≤ depth' := by omega
    rcases h.cases with h | ⟨js, rfl, hjs⟩ | ⟨ms, rfl, -, hms⟩
    · exact written_scalar (scalar_compact h hint)
    · apply written_array
      intro j hj
      obtain ⟨bs, hv⟩ := hjs j hj
      exact ih hv hd' fun n hn => hint n (.item hj hn)
    · apply written_object
      intro m hm
      obtain ⟨bs, hv⟩ := hms m hm
      exact ih hv hd' fun n hn => hint n (.member hm hn)

end

end NodeConfig.Json
