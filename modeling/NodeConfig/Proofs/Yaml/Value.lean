import Mathlib
import NodeConfig.Proofs.Yaml.Literal

namespace NodeConfig.Yaml

def Scan.inBlock (p : Place) (cs : List Char) (ts : List Token) (is : List ℕ) (keyAllowed : Bool) :
    Scan := ⟨p, cs, ts, none, [], is, keyAllowed⟩

/-- The text `cs`, up to the end of its line, is scanned as the token `t` after a key at column
`n`. -/
structure IsValue (n : ℕ) (cs : List Char) (t : Token) : Prop where
  begins : ∃ c tail, cs = c :: tail ∧ BeginsWord c
  fetch : ∀ {p : Place} (ts : List Token) (is : List ℕ) {next : List Char}, n < p.column →
    NextLine n next → ∃ q rest keyAllowed,
      (Scan.inBlock p (cs ++ next) ts (n :: is) false).fetch =
        some (.inBlock q rest (t :: ts) (n :: is) keyAllowed) ∧ AtLine next keyAllowed q rest

theorem isIndicator_iff (c : Char) :
    isIndicator c = true ↔ c ∈ [',', '[', ']', '{', '}', '#', '&', '*', '!', '|', '>', '\'', '"',
      '%', '@', '`'] := by
  simp [isIndicator]

theorem startOf_plain {p : Place} (hp : p.column ≠ 0) {c : Char} (hc : isWord c = true)
    {rest : List Char} (hs : beginsLikeStructure (c :: rest) = false) (tail : List Char) :
    startOf false p.column (c :: (rest ++ tail)) = .plain := by
  simp only [beginsLikeStructure, Bool.or_eq_false_iff, Bool.and_eq_false_iff,
    decide_eq_false_iff_not] at hs
  obtain ⟨hi, hs⟩ := hs
  have hends : endsWord rest = false → endsWord (rest ++ tail) = false := by
    cases rest with
    | nil => simp [endsWord]
    | cons d rest => exact id
  have hpercent : c ≠ '%' := by
    rintro rfl
    rw [(isIndicator_iff _).2 (by simp)] at hi
    cases hi
  simp only [startOf, hp]
  grind

theorem isValue_plain {cs : List Char} (h : IsPlain cs) (hhead : cs.head? ≠ some byteOrderMark)
    (n : ℕ) : IsValue n (cs ++ ['\n']) (.scalar (String.ofList cs) .plain) := by
  obtain ⟨c, tail, rfl⟩ := List.exists_cons_of_ne_nil h.ne_nil
  have hc : isWord c = true := by
    rcases h.chars c List.mem_cons_self with hc | rfl
    · exact hc
    · exact absurd rfl h.first
  have hi : isIndicator c = false := (Bool.or_eq_false_iff.1 h.begins).1
  refine ⟨⟨c, tail ++ ['\n'], rfl, hc, ?_, by simpa using hhead⟩, ?_⟩
  · rintro rfl
    rw [(isIndicator_iff _).2 (by simp)] at hi
    cases hi
  · intro p ts is next hp hnext
    obtain ⟨q, rest, hq, hat⟩ := plain_line h hp hnext
    refine ⟨q, rest, true, ?_, hat⟩
    have hstart := startOf_plain (p := p) (by omega) hc h.begins ('\n' :: next)
    simp only [Scan.fetch, Scan.inBlock, Scan.inFlow, List.isEmpty_nil, Bool.not_true,
      List.cons_append, List.append_assoc, List.nil_append] at hstart hq ⊢
    simp [hstart, Scan.startKey, Scan.textIndent, hq]

theorem isValue_single {cs : List Char} (h : IsSingle cs) (n : ℕ) :
    IsValue n (writeSingle (n + 2) cs ++ ['\n']) (.scalar (String.ofList cs) .single) := by
  refine ⟨⟨'\'', _, rfl, by decide⟩, ?_⟩
  intro p ts is next hp hnext
  obtain ⟨q, hq⟩ := quotedScalar_single (Nat.succ_pos (n + 1)) h (p := p.right)
    (Nat.succ_pos _) ('\n' :: next) (by simp)
  refine ⟨q, '\n' :: next, false, ?_, atLine_newline next false q⟩
  have h0 : p.column ≠ 0 := by omega
  have hstart : startOf false p.column
      ('\'' :: (singleBody (n + 2) false cs ++ '\'' :: '\n' :: next)) = .quoted false := by
    simp [startOf, h0, (isIndicator_iff '\'').2]
  simp only [Scan.fetch, Scan.inBlock, Scan.inFlow, writeSingle, List.isEmpty_nil, Bool.not_true,
      List.cons_append, List.append_assoc, List.nil_append]
  simp [hstart, Scan.startKey, Scan.allowKey, Scan.takePiece, hq]

theorem isValue_double (cs : List Char) (n : ℕ) :
    IsValue n (writeDouble cs ++ ['\n']) (.scalar (String.ofList cs) .double) := by
  refine ⟨⟨'"', _, rfl, by decide⟩, ?_⟩
  intro p ts is next hp hnext
  obtain ⟨q, hq⟩ := quotedScalar_double cs (p := p.right) (Nat.succ_pos _) ('\n' :: next)
  refine ⟨q, '\n' :: next, false, ?_, atLine_newline next false q⟩
  have h0 : p.column ≠ 0 := by omega
  have hstart : startOf false p.column ('"' :: (cs.flatMap escapeDouble ++ '"' :: '\n' :: next))
      = .quoted true := by
    simp [startOf, h0, (isIndicator_iff '"').2]
  simp only [Scan.fetch, Scan.inBlock, Scan.inFlow, writeDouble, List.isEmpty_nil, Bool.not_true,
      List.cons_append, List.append_assoc, List.nil_append]
  simp [hstart, Scan.startKey, Scan.allowKey, Scan.takePiece, hq]

theorem isValue_literal {cs : List Char} (hall : ∀ c ∈ cs, isPlainly c = true) (hn : '\n' ∈ cs)
    (n : ℕ) :
    IsValue n (endLine (writeLiteral (n + 2) cs)) (.scalar (String.ofList cs) .literal) := by
  obtain ⟨tail, htail⟩ : ∃ tail, endLine (writeLiteral (n + 2) cs) = '|' :: tail := by
    rw [endLine]
    split <;> exact ⟨_, rfl⟩
  refine ⟨⟨'|', tail, htail, by decide⟩, ?_⟩
  intro p ts is next hp hnext
  obtain ⟨q, rest, hq, hat⟩ := blockScalar_literal hall hn hnext p.right
  refine ⟨q, rest, true, ?_, hat⟩
  have h0 : p.column ≠ 0 := by omega
  have hstart : startOf false p.column ('|' :: (tail ++ next)) = .block false := by
    simp [startOf, h0, (isIndicator_iff '|').2]
  rw [htail, List.drop_one, List.tail_cons] at hq
  simp only [Scan.fetch, Scan.inBlock, Scan.inFlow, htail, List.isEmpty_nil, Bool.not_true,
    List.cons_append]
  simp [hstart, Scan.dropKey, Scan.allowKey, Scan.takePiece, hq]

/-- Each style is chosen only for texts that it can hold. -/
theorem writeScalar_cases (n : ℕ) (cs : List Char) :
    (styleFor cs = .plain ∧ writeScalar n cs = cs ∧ IsPlain cs ∧ ∀ c ∈ cs, isPlainly c = true) ∨
    (styleFor cs = .single ∧ writeScalar n cs = writeSingle n cs ∧ IsSingle cs) ∨
    (styleFor cs = .literal ∧ writeScalar n cs = writeLiteral n cs ∧ '\n' ∈ cs ∧
      ∀ c ∈ cs, isPlainly c = true) ∨
    (styleFor cs = .double ∧ writeScalar n cs = writeDouble cs) := by
  by_cases hn : '\n' ∈ cs
  · by_cases hl : fitsLiteral cs = true
    · have hs : styleFor cs = .literal := by simp [styleFor, hn, hl]
      have hall : ∀ c ∈ cs, isPlainly c = true := by
        simp only [fitsLiteral, Bool.and_eq_true, List.all_eq_true] at hl
        exact hl.1.1
      exact .inr (.inr (.inl ⟨hs, by simp [writeScalar, hs], hn, hall⟩))
    · have hs : styleFor cs = .double := by simp [styleFor, hn, hl]
      exact .inr (.inr (.inr ⟨hs, by simp [writeScalar, hs]⟩))
  · by_cases hp : needsQuotes cs = false ∧ fitsPlain cs = true
    · have hs : styleFor cs = .plain := by simp [styleFor, hn, hp]
      have hne : cs ≠ [] := by
        rintro rfl
        simp [needsQuotes, resolvePlain] at hp
      have hall : ∀ c ∈ cs, isPlainly c = true := by
        have h := hp.2
        simp only [fitsPlain, Bool.and_eq_true, List.all_eq_true] at h
        exact fun c hc => (h.1.1.1.1.1 c hc).1
      exact .inl ⟨hs, by simp [writeScalar, hs], isPlain_of_fitsPlain hne hp.2, hall⟩
    · have hp' : (!needsQuotes cs && fitsPlain cs) = false := by simpa using hp
      by_cases hq : fitsSingle cs = true
      · have hs : styleFor cs = .single := by simp [styleFor, hn, hp', hq]
        exact .inr (.inl ⟨hs, by simp [writeScalar, hs], isSingle_of_fitsSingle hq hn⟩)
      · have hs : styleFor cs = .double := by simp [styleFor, hn, hp', hq]
        exact .inr (.inr (.inr ⟨hs, by simp [writeScalar, hs]⟩))

theorem endLine_of_getLast? {cs : List Char} {c : Char} (h : cs.getLast? = some c)
    (hc : isBreak c = false) : endLine cs = cs ++ ['\n'] := by
  simp [endLine, h, hc]

/-- A text as it is written is scanned as the text, on its line or lines. -/
theorem isValue_writeScalar (n : ℕ) (cs : List Char) :
    IsValue n (endLine (writeScalar (n + 2) cs))
      (.scalar (String.ofList cs) (styleFor cs)) := by
  rcases writeScalar_cases (n + 2) cs with ⟨hs, hw, hcs, hall⟩ | ⟨hs, hw, hcs⟩ |
    ⟨hs, hw, hn, hall⟩ | ⟨hs, hw⟩
  · obtain ⟨init, c, rfl⟩ := cs.eq_nil_or_concat'.resolve_left hcs.ne_nil
    have hc : isBreak c = false := by
      rcases hcs.chars c (by simp) with h | rfl
      · exact isBreak_of_isWord h
      · decide
    have hhead : (init ++ [c]).head? ≠ some byteOrderMark := by
      intro h
      exact absurd (hall _ (List.mem_of_head? h)) (by decide)
    rw [hw, hs, endLine_of_getLast? (by simp) hc]
    exact isValue_plain hcs hhead n
  · have hlast : (writeSingle (n + 2) cs).getLast? = some '\'' := by
      simp [writeSingle, List.getLast?_cons]
    rw [hw, hs, endLine_of_getLast? hlast (by decide)]
    exact isValue_single hcs n
  · rw [hw, hs]
    exact isValue_literal hall hn n
  · have hlast : (writeDouble cs).getLast? = some '"' := by
      simp [writeDouble, List.getLast?_cons]
    rw [hw, hs, endLine_of_getLast? hlast (by decide)]
    exact isValue_double cs n

theorem isAllowed_of_isPlainly {c : Char} (h : isPlainly c = true) : isAllowed c = true := by
  have hv : c.toNat < 0xD800 ∨ (0xDFFF < c.toNat ∧ c.toNat < 0x110000) := c.valid
  simp only [isPlainly, isAllowed, Bool.or_eq_true, Bool.and_eq_true, decide_eq_true_eq] at h ⊢
  rcases h with (rfl | h) | ⟨⟨⟨h, -⟩, hfffe⟩, hffff⟩
  · decide
  · simp [h]
  · have : c.toNat ≤ 0xD7FF ∨ (0xE000 ≤ c.toNat ∧ c.toNat ≤ 0xFFFD) ∨ 0x10000 ≤ c.toNat := by omega
    grind

theorem isPlainly_singleBody {cs : List Char} (h : ∀ c ∈ cs, isPlainly c = true) (n : ℕ)
    (broken : Bool) : ∀ c ∈ singleBody n broken cs, isPlainly c = true := by
  have hspace : isPlainly ' ' = true := by decide
  have hquote : isPlainly '\'' = true := by decide
  induction cs generalizing broken with
  | nil => cases broken <;> simp +contextual [singleBody, hspace]
  | cons c cs ih =>
    have hih := ih fun d hd => h d (List.mem_cons_of_mem c hd)
    have hc := h c List.mem_cons_self
    rw [singleBody]
    split
    · simpa [hc] using hih true
    · intro d hd
      simp only [List.mem_append] at hd
      rcases hd with (hd | hd) | hd
      · cases broken <;> simp_all
      · split at hd <;> simp_all
      · exact hih false d hd

theorem isPlainly_literalBody {cs : List Char} (h : ∀ c ∈ cs, isPlainly c = true) (n : ℕ)
    (broken : Bool) : ∀ c ∈ literalBody n broken cs, isPlainly c = true := by
  have hspace : isPlainly ' ' = true := by decide
  induction cs generalizing broken with
  | nil => simp [literalBody]
  | cons c cs ih =>
    have hih := ih fun d hd => h d (List.mem_cons_of_mem c hd)
    have hc := h c List.mem_cons_self
    rw [literalBody]
    split
    · simpa [hc] using hih true
    · intro d hd
      rcases List.mem_append.1 hd with hd | hd
      · cases broken <;> simp_all
      · rcases List.mem_cons.1 hd with rfl | hd
        · exact hc
        · exact hih false d hd

theorem isPlainly_chompMark (cs : List Char) : ∀ c ∈ chompMark cs, isPlainly c = true := by
  have hmarks : isPlainly '-' = true ∧ isPlainly '+' = true := by decide
  unfold chompMark
  split
  · simp [hmarks]
  · simp [hmarks]
  · split
    · simp [hmarks]
    · split <;> simp [hmarks]

theorem isPlainly_escapeDouble (c : Char) : ∀ d ∈ escapeDouble c, isPlainly d = true := by
  rcases escapeDouble_cases c with ⟨h, -, -, hc, -⟩ | h
  · simpa [h] using hc
  · exact isPlainly_of_isEscape h

/-- What is written has none of the characters that it would have to escape. -/
theorem isPlainly_writeScalar (n : ℕ) (cs : List Char) :
    ∀ c ∈ endLine (writeScalar n cs), isPlainly c = true := by
  have hend : ∀ ds : List Char, (∀ c ∈ ds, isPlainly c = true) →
      ∀ c ∈ endLine ds, isPlainly c = true := by
    intro ds hds
    have hn : isPlainly '\n' = true := by decide
    rw [endLine]
    split
    · exact hds
    · simpa [or_imp, forall_and, hn] using hds
  apply hend
  rcases writeScalar_cases n cs with ⟨-, hw, -, hall⟩ | ⟨-, hw, hcs⟩ | ⟨-, hw, -, hall⟩ | ⟨-, hw⟩
  · rwa [hw]
  · have hq : isPlainly '\'' = true := by decide
    have h := isPlainly_singleBody (fun c hc => (hcs.chars c hc).1) n false
    rw [hw, writeSingle]
    simpa [or_imp, forall_and, hq] using h
  · have hmarks : isPlainly '|' = true ∧ isPlainly '2' = true ∧ isPlainly '\n' = true := by decide
    have h := isPlainly_literalBody hall n true
    have hk := isPlainly_chompMark cs
    rw [hw, writeLiteral]
    split <;> simpa [or_imp, forall_and, hmarks] using ⟨hk, h⟩
  · have hq : isPlainly '"' = true := by decide
    rw [hw, writeDouble]
    simpa [or_imp, forall_and, hq] using fun d c (_ : c ∈ cs) => isPlainly_escapeDouble c d

end NodeConfig.Yaml
