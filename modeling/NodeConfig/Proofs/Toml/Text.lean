import Mathlib
import NodeConfig.Toml.Text
import NodeConfig.Toml.Write

namespace NodeConfig.Toml

theorem isTextChar_of_not_control {c : Char} (h : isControl c = false) (hn : c ≠ '\n') :
    isTextChar c = true := by
  simp only [isControl, isTextChar, Bool.or_eq_false_iff, Bool.and_eq_false_iff,
    decide_eq_false_iff_not, Bool.or_eq_true, Bool.and_eq_true, decide_eq_true_eq] at *
  by_cases ht : c = '\t'
  · exact .inl ht
  · refine .inr ⟨?_, h.2⟩
    rcases h.1 with (h | h) | h
    · omega
    · exact absurd ht h
    · exact absurd hn h

def codeDigits (c : Char) : List Char :=
  let ds := (Nat.toDigits 16 c.toNat).map Char.toUpper
  List.replicate (4 - ds.length) '0' ++ ds

theorem codeChar?_codeDigits {c : Char} (h : isControl c = true) (rest : List Char) :
    (codeDigits c).length = 4 ∧ codeChar? 4 (codeDigits c ++ rest) = some c := by
  -- Controls are ASCII, so they can be looked at one by one.
  have hall : ∀ n < 0x80, isControl (Char.ofNat n) = true →
      (codeDigits (Char.ofNat n)).length = 4 ∧
        codeChar? 4 (codeDigits (Char.ofNat n)) = some (Char.ofNat n) := by decide +kernel
  have hc : c.toNat < 0x80 := by
    simp only [isControl, Bool.or_eq_true, Bool.and_eq_true, decide_eq_true_eq] at h
    omega
  obtain ⟨hl, hr⟩ := hall c.toNat hc (by rwa [Char.ofNat_toNat])
  rw [Char.ofNat_toNat] at hl hr
  refine ⟨hl, ?_⟩
  rw [← hr]
  simp only [codeChar?]
  rw [List.take_append_of_le_length hl.ge]

def IsEscape (c : Char) (e : List Char) : Prop :=
  ∃ d t, e = '\\' :: d :: t ∧ (isBlank d = false ∧ d ≠ '\n' ∧ d ≠ '\r') ∧
    ∀ rest, escape? (d :: (t ++ rest)) = some (c, t.length + 1)

theorem isEscape_quote : IsEscape '"' ['\\', '"'] := ⟨'"', [], rfl, by decide, fun _ => rfl⟩

theorem isEscape_code {c : Char} (h : isControl c = true) :
    IsEscape c ('\\' :: 'u' :: codeDigits c) := by
  refine ⟨'u', codeDigits c, rfl, by decide, fun rest => ?_⟩
  obtain ⟨hl, hr⟩ := codeChar?_codeDigits h rest
  simp [escape?, hl, hr]

theorem isEscape_of_escapeOf? {lines : Bool} {c : Char} {e : List Char}
    (h : escapeOf? lines c = some e) : IsEscape c e := by
  unfold escapeOf? at h
  split_ifs at h with _ _ _ _ _ _ _ hc
  all_goals cases h
  all_goals first
    | exact isEscape_code hc
    | subst c
      exact ⟨_, _, rfl, by decide, fun _ => rfl⟩

/-- What needs no escape is a line feed, or a character that texts may hold. -/
theorem isTextChar_of_escapeOf?_none {lines : Bool} {c : Char} (h : escapeOf? lines c = none) :
    c ≠ '\\' ∧ (c = '\n' ∧ lines = true ∨ c ≠ '\n' ∧ c ≠ '\r' ∧ isTextChar c = true) := by
  unfold escapeOf? at h
  split_ifs at h with h1 h2 h3 h4 h5 h6 h7 h8
  · exact ⟨h1, .inl ⟨h3, h4⟩⟩
  · exact ⟨h1, .inr ⟨h3, h7, isTextChar_of_not_control (by simpa using h8) h3⟩⟩

/-! ### Texts on one line -/

theorem basicBody_escape {c : Char} {e : List Char} (h : IsEscape c e) (rest : List Char) :
    basicBody (e ++ rest) = TextRead.cons c (basicBody rest) := by
  obtain ⟨d, t, rfl, -, he⟩ := h
  rw [List.cons_append, basicBody, if_neg (by decide), if_pos rfl, List.cons_append, he rest]
  simp

theorem basicBody_char {c : Char} (hq : c ≠ '"') (hb : c ≠ '\\') (ht : isTextChar c = true)
    (rest : List Char) : basicBody (c :: rest) = TextRead.cons c (basicBody rest) := by
  rw [basicBody, if_neg hq, if_neg hb, if_pos ht]

theorem basicBody_basicText (cs : List Char) (run : ℕ) (rest : List Char) :
    basicBody (basicText false run cs ++ '"' :: rest) = some (cs, rest) := by
  induction cs generalizing run with
  | nil => simp [basicText, basicBody]
  | cons c cs ih =>
    by_cases hq : c = '"'
    · subst c
      have hw : basicText false run ('"' :: cs) = ['\\', '"'] ++ basicText false 0 cs := rfl
      rw [hw, List.append_assoc, basicBody_escape isEscape_quote, ih]
      rfl
    · rw [basicText, if_neg hq]
      cases he : escapeOf? false c with
      | some e =>
        rw [List.append_assoc, basicBody_escape (isEscape_of_escapeOf? he), ih]
        rfl
      | none =>
        obtain ⟨hb, ⟨-, hf⟩ | ⟨-, -, ht⟩⟩ := isTextChar_of_escapeOf?_none he
        · cases hf
        · rw [List.cons_append, basicBody_char hq hb ht, ih]
          rfl

theorem literalBody_append {cs : List Char} (h : ∀ c ∈ cs, c ≠ '\'' ∧ isTextChar c = true)
    (rest : List Char) : literalBody (cs ++ '\'' :: rest) = some (cs, rest) := by
  induction cs with
  | nil => simp [literalBody]
  | cons c cs ih =>
    obtain ⟨hq, ht⟩ := h c List.mem_cons_self
    rw [List.cons_append, literalBody, if_neg hq, if_pos ht,
      ih fun d hd => h d (List.mem_cons_of_mem c hd)]
    rfl

/-! ### Texts over lines -/

/-- The end of a text over lines, with the quotes that may stand before it. -/
theorem linesBody_close {q : Char} {k : ℕ} (hk : k ≤ 2) {rest : List Char}
    (hr : rest.head? ≠ some q) :
    linesBody q (List.replicate k q ++ q :: q :: q :: rest) = some (List.replicate k q, rest) := by
  have ht : rest.takeWhile (· = q) = [] := by
    cases rest with
    | nil => rfl
    | cons c rest => simpa using hr
  match k, hk with
  | 0, _ => simp [linesBody, isTriple, ht]
  | 1, _ => simp [linesBody, isTriple, ht]
  | 2, _ => simp [linesBody, isTriple, ht]

theorem isTriple_first {q a : Char} (h : a ≠ q) (cs : List Char) :
    isTriple q (a :: cs) = false := by
  match cs with
  | [] => rfl
  | [_] => rfl
  | b :: c :: cs => simp [isTriple, h]

theorem isTriple_second {q a : Char} {cs : List Char} (h : cs.head? ≠ some q) :
    isTriple q (a :: cs) = false := by
  match cs with
  | [] => rfl
  | [_] => rfl
  | b :: c :: cs => simp_all [isTriple]

theorem isTriple_third {q a b : Char} {cs : List Char} (h : cs.head? ≠ some q) :
    isTriple q (a :: b :: cs) = false := by
  match cs with
  | [] => rfl
  | c :: cs => simp_all [isTriple]

theorem linesBody_escape {c : Char} {e : List Char} (h : IsEscape c e) (rest : List Char) :
    linesBody '"' (e ++ rest) = TextRead.cons c (linesBody '"' rest) := by
  obtain ⟨d, t, rfl, ⟨hb, hn, hr⟩, he⟩ := h
  have hend : escapedEnd? (d :: (t ++ rest)) = none := by
    rw [escapedEnd?, List.dropWhile_cons_of_neg (by simp [hb])]
    unfold newline?
    split <;> simp_all
  rw [List.cons_append, List.cons_append, linesBody,
    if_neg (by rw [isTriple_first (by decide)]; decide), if_pos (by simp), hend, he rest]
  simp

theorem linesBody_char {q c : Char} {rest : List Char} (h3 : isTriple q (c :: rest) = false)
    (hb : ¬ (c = '\\' ∧ q = '"')) (hn : c ≠ '\n') (hr : c ≠ '\r') (ht : isTextChar c = true) :
    linesBody q (c :: rest) = TextRead.cons c (linesBody q rest) := by
  rw [linesBody, if_neg (by simp [h3]), if_neg (by simpa using hb), if_neg hn,
    if_neg (by simp [hr]), if_pos ht]

theorem linesBody_newline {q : Char} (hq : q ≠ '\n') (rest : List Char) :
    linesBody q ('\n' :: rest) = TextRead.cons '\n' (linesBody q rest) := by
  rw [linesBody, if_neg (by simp [isTriple_first hq.symm]), if_neg (by simp), if_pos rfl]

/-- A quote is written by itself only after less than two of them. -/
theorem head?_basicText_ne {lines : Bool} {d : Char} {run : ℕ}
    (h : d = '"' → (lines && run < 2) = false) (cs rest : List Char) :
    (basicText lines run (d :: cs) ++ rest).head? ≠ some '"' := by
  by_cases hd : d = '"'
  · simp only [basicText, hd, h hd]
    simp
  · rw [basicText, if_neg hd]
    cases he : escapeOf? lines d with
    | some e =>
      obtain ⟨a, t, rfl, -⟩ := isEscape_of_escapeOf? he
      simp
    | none => simpa using hd

theorem basicText_quote {run : ℕ} (h : run < 2) (cs : List Char) :
    basicText true run ('"' :: cs) = '"' :: basicText true (run + 1) cs := by
  simp [basicText, h]

/-- A quote written by itself closes nothing, unless it belongs to the end of the text. -/
theorem isTriple_basicText {run : ℕ} {cs : List Char} (hne : cs ≠ [])
    (hone : cs = ['"'] → run ≠ 0) (rest : List Char) :
    isTriple '"' ('"' :: (basicText true (run + 1) cs ++ rest)) = false := by
  obtain ⟨d, cs, rfl⟩ := List.exists_cons_of_ne_nil hne
  by_cases hd : d = '"' → (true && run + 1 < 2) = false
  · exact isTriple_second (head?_basicText_ne hd cs rest)
  · obtain ⟨rfl, hrun⟩ : d = '"' ∧ run + 1 < 2 := by simpa using hd
    have hcs : cs ≠ [] := fun h => hone (by rw [h]) (by omega)
    obtain ⟨e, cs, rfl⟩ := List.exists_cons_of_ne_nil hcs
    rw [basicText_quote hrun, List.cons_append]
    exact isTriple_third (head?_basicText_ne (fun _ => by simp) cs rest)

theorem linesBody_basicText (cs : List Char) (run : ℕ) {rest : List Char}
    (hr : rest.head? ≠ some '"') :
    linesBody '"' (basicText true run cs ++ '"' :: '"' :: '"' :: rest) = some (cs, rest) := by
  induction cs generalizing run with
  | nil => exact linesBody_close (k := 0) (by omega) hr
  | cons c cs ih =>
    by_cases hq : c = '"'
    · subst c
      by_cases hrun : run < 2
      · rw [basicText_quote hrun]
        by_cases hnil : cs = []
        · subst cs
          exact linesBody_close (k := 1) (by omega) hr
        by_cases hone : cs = ['"'] ∧ run = 0
        · obtain ⟨rfl, rfl⟩ := hone
          exact linesBody_close (k := 2) (by omega) hr
        have h3 := isTriple_basicText hnil (fun h h0 => hone ⟨h, h0⟩) ('"' :: '"' :: '"' :: rest)
        rw [List.cons_append, linesBody_char h3 (by decide) (by decide) (by decide) (by decide), ih]
        rfl
      · have hw : basicText true run ('"' :: cs) = ['\\', '"'] ++ basicText true 0 cs := by
          simp [basicText, hrun]
        rw [hw, List.append_assoc, linesBody_escape isEscape_quote, ih]
        rfl
    · rw [basicText, if_neg hq]
      cases he : escapeOf? true c with
      | some e =>
        rw [List.append_assoc, linesBody_escape (isEscape_of_escapeOf? he), ih]
        rfl
      | none =>
        obtain ⟨hb, ⟨rfl, -⟩ | ⟨hn, hcr, ht⟩⟩ := isTextChar_of_escapeOf?_none he
        · rw [List.cons_append, linesBody_newline (by decide), ih]
          rfl
        · rw [List.cons_append, linesBody_char (isTriple_first hq _) (by simp [hb]) hn hcr ht, ih]
          rfl

/-! ### Literal texts over lines -/

theorem le_longestRun (q : Char) (run : ℕ) (cs : List Char) : run ≤ longestRun q run cs := by
  induction cs generalizing run with
  | nil => exact le_refl run
  | cons c cs ih =>
    rw [longestRun]
    split_ifs
    · exact (Nat.le_succ run).trans (ih (run + 1))
    · exact le_max_left _ _

theorem isTriple_of_longestRun {q : Char} {run : ℕ} {cs : List Char}
    (hl : longestRun q (run + 1) cs ≤ 2) (hne : cs ≠ []) (hone : cs ≠ [q]) (rest : List Char) :
    isTriple q (q :: (cs ++ rest)) = false := by
  obtain ⟨d, cs, rfl⟩ := List.exists_cons_of_ne_nil hne
  by_cases hd : d = q
  · subst d
    have hcs : cs ≠ [] := fun h => hone (by rw [h])
    obtain ⟨e, cs, rfl⟩ := List.exists_cons_of_ne_nil hcs
    have he : e ≠ q := by
      rintro rfl
      have hrun := le_longestRun e (run + 1 + 1 + 1) cs
      simp only [longestRun, if_true] at hl
      omega
    exact isTriple_third (by simpa using he)
  · exact isTriple_second (by simpa using hd)

/-- A text without controls is read as it stands if no three quotes stand together. -/
theorem linesBody_append {q : Char} (hq : q ≠ '\n' ∧ q ≠ '\r' ∧ q ≠ '"' ∧ isTextChar q = true)
    {cs : List Char} (hc : ∀ c ∈ cs, isControl c = false) {run : ℕ}
    (hl : longestRun q run cs ≤ 2) {rest : List Char} (hr : rest.head? ≠ some q) :
    linesBody q (cs ++ q :: q :: q :: rest) = some (cs, rest) := by
  obtain ⟨hqn, hqr, hqb, hqt⟩ := hq
  induction cs generalizing run with
  | nil => exact linesBody_close (k := 0) (by omega) hr
  | cons c cs ih =>
    have hcs : ∀ d ∈ cs, isControl d = false := fun d hd => hc d (List.mem_cons_of_mem c hd)
    rw [longestRun] at hl
    by_cases hcq : c = q
    · subst c
      rw [if_pos rfl] at hl
      by_cases hnil : cs = []
      · subst cs
        exact linesBody_close (k := 1) (by omega) hr
      by_cases hone : cs = [q]
      · subst cs
        exact linesBody_close (k := 2) (by omega) hr
      have h3 := isTriple_of_longestRun hl hnil hone (q :: q :: q :: rest)
      rw [List.cons_append, linesBody_char h3 (fun h => hqb h.2) hqn hqr hqt, ih hcs hl]
      rfl
    · rw [if_neg hcq] at hl
      have hih := ih hcs (le_trans (le_max_right _ _) hl)
      by_cases hn : c = '\n'
      · subst c
        rw [List.cons_append, linesBody_newline hqn, hih]
        rfl
      · have hctl : isControl c = false := hc c List.mem_cons_self
        have hcr : c ≠ '\r' := by
          rintro rfl
          exact absurd hctl (by decide)
        rw [List.cons_append, linesBody_char (isTriple_first hcq _) (fun h => hqb h.2) hn hcr
          (isTextChar_of_not_control hctl hn), hih]
        rfl

/-! ### The four forms -/

theorem readText_triple {q : Char} (cs : List Char) :
    readText (q :: q :: q :: cs) = linesBody q (dropNewline cs) := by
  simp [readText, isTriple]

theorem isTriple_short {q : Char} {cs : List Char}
    (h : cs.head? ≠ some q ∨ cs.tail.head? ≠ some q) : isTriple q (q :: cs) = false := by
  rcases h with h | h
  · exact isTriple_second h
  · match cs, h with
    | [], _ => rfl
    | _ :: _, h => exact isTriple_third h

/-- The break after the opening quotes is dropped; without it nothing is. -/
theorem dropNewline_opening {lines : Bool} {cs : List Char}
    (h : lines = false → cs.head? ≠ some '\n' ∧ cs.head? ≠ some '\r') :
    dropNewline ((if lines then ['\n'] else []) ++ cs) = cs := by
  cases lines with
  | true => rfl
  | false =>
    obtain ⟨hn, hr⟩ := h rfl
    unfold dropNewline newline?
    simp only [Bool.false_eq_true, if_false, List.nil_append]
    split <;> simp_all

theorem head?_basicText_opening {cs : List Char} (h : '\n' ∉ cs) (rest : List Char) :
    (basicText true 0 cs ++ '"' :: rest).head? ≠ some '\n' ∧
      (basicText true 0 cs ++ '"' :: rest).head? ≠ some '\r' := by
  cases cs with
  | nil => simp [basicText]
  | cons c cs =>
    by_cases hq : c = '"'
    · simp [basicText, hq]
    · rw [basicText, if_neg hq]
      cases he : escapeOf? true c with
      | some e =>
        obtain ⟨a, t, rfl, -⟩ := isEscape_of_escapeOf? he
        simp
      | none =>
        obtain ⟨-, ⟨rfl, -⟩ | ⟨hn, hr, -⟩⟩ := isTextChar_of_escapeOf?_none he
        · exact absurd List.mem_cons_self h
        · simp [hn, hr]

theorem of_formFor_literal {cs : List Char} (h : formFor cs = .literal) :
    ∀ c ∈ cs, c ≠ '\'' ∧ isTextChar c = true := by
  simp only [formFor] at h
  split_ifs at h with h1 h2
  intro c hc
  simp only [Bool.and_eq_true, Bool.not_eq_true', List.any_eq_false, List.contains_eq_mem,
    decide_eq_false_iff_not] at h2
  refine ⟨?_, isTextChar_of_not_control (by simpa using h2.1.1 c hc) ?_⟩
  · rintro rfl
    exact h2.1.2 hc
  · rintro rfl
    exact h2.2 hc

theorem of_formFor_literalLines {cs : List Char} (h : formFor cs = .literalLines) :
    (∀ c ∈ cs, isControl c = false) ∧ longestRun '\'' 0 cs ≤ 2 := by
  simp only [formFor] at h
  split_ifs at h with h1 h2 h3 h4
  simp only [Bool.and_eq_true, Bool.not_eq_true', List.any_eq_false, decide_eq_true_eq] at h4
  exact ⟨fun c hc => by simpa using h4.1 c hc, h4.2⟩

/-- What is written for a text is read as that text, up to where it ends. -/
theorem readText_writeText (cs rest : List Char)
    (hb : rest.head? ≠ some '"') (hl : rest.head? ≠ some '\'') :
    readText (writeText cs ++ rest) = some (cs, rest) := by
  unfold writeText
  cases hf : formFor cs with
  | basic =>
    have h3 : isTriple '"' ('"' :: (basicText false 0 cs ++ '"' :: rest)) = false := by
      apply isTriple_short
      cases cs with
      | nil => exact .inr hb
      | cons c cs => exact .inl (head?_basicText_ne (fun _ => rfl) cs _)
    simp only [List.cons_append, List.append_assoc, List.nil_append]
    simp [readText, h3, basicBody_basicText]
  | literal =>
    have hcs := of_formFor_literal hf
    have h3 : isTriple '\'' ('\'' :: (cs ++ '\'' :: rest)) = false := by
      apply isTriple_short
      cases cs with
      | nil => exact .inr hl
      | cons c cs => exact .inl (by simpa using (hcs c List.mem_cons_self).1)
    simp only [List.cons_append, List.append_assoc, List.nil_append]
    simp [readText, h3, literalBody_append hcs]
  | basicLines =>
    simp only [List.cons_append, List.append_assoc, List.nil_append, readText_triple]
    -- Without breaks in it the text begins on the line of its quotes, and not with a break.
    rw [dropNewline_opening fun h => head?_basicText_opening (by simpa using h) _]
    exact linesBody_basicText cs 0 hb
  | literalLines =>
    obtain ⟨hc, hrun⟩ := of_formFor_literalLines hf
    simp only [List.cons_append, List.append_assoc, List.nil_append, readText_triple]
    rw [dropNewline_opening]
    · exact linesBody_append (by decide) hc hrun hl
    · intro hlines
      cases cs with
      | nil => simp
      | cons c cs =>
        have hn : '\n' ∉ c :: cs := by simpa using hlines
        have hr : c ≠ '\r' := by
          rintro rfl
          exact absurd (hc '\r' List.mem_cons_self) (by decide)
        exact ⟨by simpa using fun h : c = '\n' => hn (h ▸ List.mem_cons_self), by simpa using hr⟩

end NodeConfig.Toml
