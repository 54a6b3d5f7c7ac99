import Mathlib
import NodeConfig.CommandLine.Value
import NodeConfig.Proofs.Except
import NodeConfig.Proofs.Text.Utf8

namespace NodeConfig.CommandLine

inductive DigitsOf : List Char → ℕ → Prop
  | digits {ds : List Char} (hne : ds ≠ []) (hd : ∀ d ∈ ds, d.isDigit = true) :
      DigitsOf ds (Nat.ofDigitChars 10 ds 0)

/-- A plus sign may stand before the digits. -/
inductive Unsigned : List Char → ℕ → Prop
  | bare {ds : List Char} {n : ℕ} (h : DigitsOf ds n) : Unsigned ds n
  | plus {ds : List Char} {n : ℕ} (h : DigitsOf ds n) : Unsigned ('+' :: ds) n

/-- A minus sign may stand before a zero. -/
inductive Signed : List Char → ℕ → Prop
  | unsigned {ds : List Char} {n : ℕ} (h : Unsigned ds n) : Signed ds n
  | minus {ds : List Char} (h : DigitsOf ds 0) : Signed ('-' :: ds) 0

def IsPath (v : Bytes) (p : Path) : Prop := v ≠ [] ∧ v = p

def IsText (v : Bytes) (s : String) : Prop := v = Utf8.ofString s

def IsLong (v : Bytes) (n : ℕ) : Prop :=
  ∃ s : String, v = Utf8.ofString s ∧ Unsigned s.toList n ∧ n < 2 ^ 64

def IsShort (bits : ℕ) (v : Bytes) (n : ℕ) : Prop :=
  ∃ s : String, v = Utf8.ofString s ∧ Signed s.toList n ∧ n < 2 ^ bits

def IsChoice {α : Type} (choices : List (String × α)) (v : Bytes) (a : α) : Prop :=
  ∃ s, v = Utf8.ofString s ∧ (s, a) ∈ choices

variable {v : Bytes} {n bits : ℕ} {cs : List Char}

theorem textValue_eq_ok_iff {s : String} : textValue v = .ok s ↔ IsText v s := by
  rw [IsText, ← Utf8.toString?_eq_some_iff, textValue]
  cases Utf8.toString? v <;> simp

theorem pathValue_eq_ok_iff {p : Path} : pathValue v = .ok p ↔ IsPath v p := by
  rw [pathValue, IsPath]
  split_ifs with h <;> simp [h]

theorem ofDigitChars_cons (c : Char) (cs : List Char) (n : ℕ) :
    Nat.ofDigitChars 10 (c :: cs) n = Nat.ofDigitChars 10 cs (n * 10 + (c.toNat - 0x30)) := by
  rw [Nat.ofDigitChars_cons, Nat.mul_comm]
  rfl

/-- More digits make a number no smaller, -/
theorem le_ofDigitChars (cs : List Char) (n : ℕ) : n ≤ Nat.ofDigitChars 10 cs n := by
  induction cs generalizing n with
  | nil => exact Nat.le_refl n
  | cons c cs ih =>
    rw [ofDigitChars_cons]
    exact Nat.le_trans (by omega) (ih _)

/-- so a number that is above the bound after some digits is above it after all of them. -/
theorem digits?_eq_some_iff {most m : ℕ} (hm : m ≤ most) : digits? most m cs = some n ↔
    (∀ c ∈ cs, c.isDigit = true) ∧ n = Nat.ofDigitChars 10 cs m ∧ n ≤ most := by
  induction cs generalizing m with
  | nil =>
    rw [digits?, Option.some.injEq]
    constructor
    · rintro rfl
      exact ⟨nofun, rfl, hm⟩
    · rintro ⟨-, rfl, -⟩
      rfl
  | cons c cs ih =>
    have hle := le_ofDigitChars cs (m * 10 + (c.toNat - 0x30))
    rw [digits?, ofDigitChars_cons, List.forall_mem_cons]
    by_cases hc : c.isDigit = true
    · simp only [hc, if_true, true_and]
      by_cases hnext : m * 10 + (c.toNat - 0x30) ≤ most
      · rw [if_pos hnext, ih hnext]
      · rw [if_neg hnext]
        refine ⟨nofun, fun h => absurd ?_ hnext⟩
        omega
    · simp [hc]

theorem decimal?_eq_some_iff {most : ℕ} :
    decimal? most cs = some n ↔ DigitsOf cs n ∧ n ≤ most := by
  rw [decimal?]
  constructor
  · intro h
    split_ifs at h with hne
    obtain ⟨hd, rfl, hle⟩ := (digits?_eq_some_iff (Nat.zero_le most)).1 h
    exact ⟨.digits hne hd, hle⟩
  · rintro ⟨⟨hne, hd⟩, hle⟩
    rw [if_neg hne, digits?_eq_some_iff (Nat.zero_le most)]
    exact ⟨hd, rfl, hle⟩

theorem DigitsOf.head (h : DigitsOf cs n) {c : Char} (hc : c.isDigit = false) :
    cs.head? ≠ some c := by
  obtain ⟨-, hd⟩ := h
  intro hhead
  rw [hd c (List.mem_of_mem_head? hhead)] at hc
  cases hc

theorem Unsigned.head (h : Unsigned cs n) {c : Char} (hc : c.isDigit = false) (hplus : c ≠ '+') :
    cs.head? ≠ some c := by
  cases h with
  | bare h => exact h.head hc
  | plus h => simpa using hplus.symm

theorem natural?_eq_some_iff {most : ℕ} :
    natural? most cs = some n ↔ Unsigned cs n ∧ n ≤ most := by
  unfold natural?
  split
  · next rest =>
    rw [decimal?_eq_some_iff]
    refine and_congr_left fun _ => ⟨.plus, ?_⟩
    rintro (h | h)
    · exact absurd rfl (h.head (by decide))
    · exact h
  · next hplus =>
    rw [decimal?_eq_some_iff]
    refine and_congr_left fun _ => ⟨.bare, ?_⟩
    rintro (h | h)
    · exact h
    · exact absurd rfl (hplus _)

theorem unsigned?_eq_some_iff : unsigned? cs = some n ↔ Unsigned cs n ∧ n < 2 ^ 64 := by
  have hmost : n ≤ pow2 64 - 1 ↔ n < 2 ^ 64 := Nat.le_sub_one_iff_lt (Nat.two_pow_pos 64)
  rw [unsigned?, natural?_eq_some_iff, hmost]

theorem longValue_eq_ok_iff : longValue v = .ok n ↔ IsLong v n := by
  rw [longValue, Except.bind_eq_ok_iff]
  refine exists_congr fun s => and_congr textValue_eq_ok_iff ?_
  rw [← unsigned?_eq_some_iff]
  cases unsigned? s.toList <;> simp

theorem signed?_minus (cs : List Char) :
    signed? ('-' :: cs) = (decimal? (pow2 63) cs).map fun n : ℕ => -(n : ℤ) := by
  rw [signed?]
  cases decimal? (pow2 63) cs <;> rfl

theorem signed?_unsigned (h : cs.head? ≠ some '-') :
    signed? cs = (natural? (pow2 63 - 1) cs).map fun n : ℕ => (n : ℤ) := by
  unfold signed?
  split
  · exact absurd rfl h
  · cases natural? (pow2 63 - 1) cs <;> rfl

/-- What is read with a sign and is not below zero. -/
theorem signed?_eq_some_iff : signed? cs = some (n : ℤ) ↔ Signed cs n ∧ n < 2 ^ 63 := by
  have hmost : n ≤ pow2 63 - 1 ↔ n < 2 ^ 63 := Nat.le_sub_one_iff_lt (Nat.two_pow_pos 63)
  by_cases hminus : cs.head? = some '-'
  · obtain ⟨ds, rfl⟩ := List.head?_eq_some_iff.1 hminus
    rw [signed?_minus, Option.map_eq_some_iff]
    constructor
    · rintro ⟨m, hm, hmn⟩
      obtain ⟨rfl, rfl⟩ : m = 0 ∧ n = 0 := by omega
      exact ⟨.minus (decimal?_eq_some_iff.1 hm).1, Nat.two_pow_pos 63⟩
    · rintro ⟨h | h, -⟩
      · exact absurd rfl (h.head (by decide) (by decide))
      · exact ⟨0, decimal?_eq_some_iff.2 ⟨h, Nat.zero_le _⟩, rfl⟩
  · rw [signed?_unsigned hminus, Option.map_eq_some_iff]
    constructor
    · rintro ⟨m, hm, hmn⟩
      obtain rfl : m = n := by omega
      obtain ⟨hm, hle⟩ := natural?_eq_some_iff.1 hm
      exact ⟨.unsigned hm, hmost.1 hle⟩
    · rintro ⟨h | h, hlt⟩
      · exact ⟨n, natural?_eq_some_iff.2 ⟨h, hmost.2 hlt⟩, rfl⟩
      · exact absurd rfl hminus

/-- The range is one of fewer bits, so nothing in it was refused before it was looked at. -/
theorem shortValue_eq_ok_iff (hbits : bits ≤ 63) :
    shortValue bits v = .ok n ↔ IsShort bits v n := by
  rw [shortValue, Except.bind_eq_ok_iff]
  refine exists_congr fun s => and_congr textValue_eq_ok_iff ?_
  have hpow : (pow2 bits : ℤ) = ((2 ^ bits : ℕ) : ℤ) := rfl
  have hwide : n < 2 ^ bits → n < 2 ^ 63 := fun h =>
    Nat.lt_of_lt_of_le h (Nat.pow_le_pow_right (by decide) hbits)
  have hread : signed? s.toList = some (n : ℤ) ∧ n < 2 ^ bits ↔
      Signed s.toList n ∧ n < 2 ^ bits := by
    rw [signed?_eq_some_iff]
    exact ⟨fun h => ⟨h.1.1, h.2⟩, fun h => ⟨⟨h.1, hwide h.2⟩, h.2⟩⟩
  rw [← hread]
  cases signed? s.toList with
  | none => simp
  | some z =>
    simp only [Bool.and_eq_true, decide_eq_true_eq, hpow, Option.some.injEq]
    split_ifs with hz
    · rw [Except.ok.injEq]
      omega
    · refine ⟨nofun, fun h => absurd ?_ hz⟩
      omega

theorem choiceValue_eq_ok_iff {α : Type} {choices : List (String × α)} {a : α}
    (hnodup : (choices.map Prod.fst).Nodup) :
    choiceValue choices v = .ok a ↔ IsChoice choices v a := by
  simp only [IsChoice, ← Utf8.toString?_eq_some_iff]
  rw [choiceValue]
  cases Utf8.toString? v with
  | none => simp
  | some s =>
    have hlookup : choices.lookup s = some a ↔ (s, a) ∈ choices := by
      rw [List.lookup_eq_some_iff]
      constructor
      · rintro ⟨before, after, rfl, -⟩
        exact List.mem_append_right _ List.mem_cons_self
      · intro hmem
        obtain ⟨before, after, rfl⟩ := List.append_of_mem hmem
        refine ⟨before, after, rfl, fun p hp => bne_iff_ne.2 fun hs => ?_⟩
        rw [List.map_append, List.nodup_append] at hnodup
        exact hnodup.2.2 p.1 (List.mem_map_of_mem hp) s (by simp) hs.symm
    simp only [Option.some.injEq, exists_eq_left', ← hlookup]
    cases choices.lookup s <;> simp

end NodeConfig.CommandLine
