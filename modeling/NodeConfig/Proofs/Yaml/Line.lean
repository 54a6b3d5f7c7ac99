import Mathlib
import NodeConfig.Yaml.Scan

namespace NodeConfig.Yaml

/-- Begins a word that is no comment. -/
structure BeginsWord (c : Char) : Prop where
  word : isWord c = true
  comment : c ≠ '#'
  mark : c ≠ byteOrderMark

instance (c : Char) : Decidable (BeginsWord c) :=
  decidable_of_iff (isWord c = true ∧ c ≠ '#' ∧ c ≠ byteOrderMark)
    ⟨fun ⟨a, b, d⟩ => ⟨a, b, d⟩, fun ⟨a, b, d⟩ => ⟨a, b, d⟩⟩

/-- What may follow an entry at column `n`: nothing, or a line that is indented no further. -/
inductive NextLine (n : ℕ) : List Char → Prop
  | done : NextLine n []
  | line {m : ℕ} {c : Char} {cs : List Char} (hm : m ≤ n) (hc : BeginsWord c) :
      NextLine n (List.replicate m ' ' ++ c :: cs)

/-- The scanner will find its next token where it would from the start of these lines. -/
structure AtLine (next : List Char) (keyAllowed : Bool) (p : Place) (cs : List Char) : Prop where
  gap : ∃ i l, skipGap false keyAllowed false p cs = skipGap false true false ⟨i, l, 0⟩ next
  length : cs.length ≤ next.length + 1

theorem isBlank_of_isWord {c : Char} (h : isWord c = true) : isBlank c = false := by
  simpa [isWord] using (Bool.and_eq_true_iff.1 h).1

theorem isBreak_of_isWord {c : Char} (h : isWord c = true) : isBreak c = false := by
  simpa [isWord] using (Bool.and_eq_true_iff.1 h).2

theorem ne_of_isWord {c d : Char} (hc : isWord c = true) (hd : isWord d = false) : c ≠ d := by
  rintro rfl
  rw [hc] at hd
  cases hd

/-- What is no break does not begin the pair of a return and a line feed. -/
theorem ne_return {c : Char} (h : isBreak c = false) : c ≠ '\r' := by
  rintro rfl
  simp [isBreak] at h

theorem skipGap_space (flow k : Bool) (p : Place) (cs : List Char) :
    skipGap flow k false p (' ' :: cs) = skipGap flow k false p.right cs := by
  rw [skipGap]
  · simp [isBreak, nel, lineSeparator, paragraphSeparator]
  · simp

theorem skipGap_spaces (flow k : Bool) (p : Place) (m : ℕ) (cs : List Char) :
    skipGap flow k false p (List.replicate m ' ' ++ cs) = skipGap flow k false (p.right m) cs := by
  induction m generalizing p with
  | zero => rfl
  | succ m ih =>
    rw [List.replicate_succ, List.cons_append, skipGap_space, ih]
    simp [Place.right, Nat.add_comm, Nat.add_left_comm]

theorem skipGap_newline (k : Bool) (p : Place) (cs : List Char) :
    skipGap false k false p ('\n' :: cs) = skipGap false true false p.nextLine cs := by
  rw [skipGap]
  · simp [isBreak]
  · simp

/-- No gap is left before a word. -/
theorem skipGap_word (flow k : Bool) (p : Place) {c : Char} (hc : BeginsWord c) (cs : List Char) :
    skipGap flow k false p (c :: cs) = (k, p, c :: cs) := by
  have hbreak := isBreak_of_isWord hc.word
  have hs : c ≠ ' ' := ne_of_isWord hc.word (by decide)
  have ht : c ≠ '\t' := ne_of_isWord hc.word (by decide)
  rw [skipGap]
  · simp [hbreak, hs, ht, hc.comment, hc.mark]
  · exact fun _ h => absurd h (ne_return hbreak)

theorem atLine_newline (next : List Char) (k : Bool) (p : Place) : AtLine next k p ('\n' :: next) :=
  ⟨⟨_, _, skipGap_newline k p next⟩, by simp⟩

/-- The spaces of the line may have been read already. -/
theorem atLine_spaces (i l m : ℕ) (cs : List Char) :
    AtLine (List.replicate m ' ' ++ cs) true ⟨i + m, l, m⟩ cs := by
  refine ⟨⟨i, l, ?_⟩, by simp; omega⟩
  rw [skipGap_spaces]
  simp [Place.right]

theorem atLine_start (i l : ℕ) (next : List Char) : AtLine next true ⟨i, l, 0⟩ next :=
  ⟨⟨i, l, rfl⟩, Nat.le_succ _⟩

theorem length_skipGap_le (flow k comment : Bool) (p : Place) (cs : List Char) :
    (skipGap flow k comment p cs).2.2.length ≤ cs.length := by
  fun_induction skipGap flow k comment p cs <;> simp <;> omega

end NodeConfig.Yaml
