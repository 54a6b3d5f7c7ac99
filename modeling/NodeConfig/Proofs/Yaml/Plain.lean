import Mathlib
import NodeConfig.Yaml.Write
import NodeConfig.Proofs.Yaml.Line

namespace NodeConfig.Yaml

/-- A text of one line that may stand in the block as it is. -/
structure IsPlain (cs : List Char) : Prop where
  ne_nil : cs ≠ []
  chars : ∀ c ∈ cs, isWord c = true ∨ c = ' '
  first : cs.head? ≠ some ' '
  last : cs.getLast? ≠ some ' '
  begins : beginsLikeStructure cs = false
  holds : holdsStructure cs = false

theorem isWord_or_space_of_isPlainly {c : Char} (h : isPlainly c = true) (hb : isBreak c = false) :
    isWord c = true ∨ c = ' ' := by
  by_cases hs : c = ' '
  · exact .inr hs
  · left
    have ht : c ≠ '\t' := by
      rintro rfl
      exact absurd h (by decide)
    simp [isWord, isBlank, hs, ht, hb]

theorem isPlain_of_fitsPlain {cs : List Char} (hne : cs ≠ []) (h : fitsPlain cs = true) :
    IsPlain cs := by
  simp only [fitsPlain, Bool.and_eq_true, Bool.not_eq_true', List.all_eq_true] at h
  obtain ⟨⟨⟨⟨⟨hall, hfirst⟩, hlast⟩, -⟩, hbegins⟩, hholds⟩ := h
  refine ⟨hne, fun c hc => ?_, ?_, ?_, hbegins, hholds⟩
  · exact isWord_or_space_of_isPlainly (hall c hc).1 (by simpa using (hall c hc).2)
  · intro hf
    simp [hf, isSpaceOrBreak] at hfirst
  · intro hl
    simp [hl, isSpaceOrBreak] at hlast

theorem holdsStructure_cons {c d : Char} {cs : List Char}
    (h : holdsStructure (c :: d :: cs) = false) :
    (c = ':' → isWord d = true) ∧ (isWord c = false → d ≠ '#') ∧
      holdsStructure (d :: cs) = false := by
  simp only [holdsStructure, hasNeighbours, Bool.or_eq_false_iff] at h
  obtain ⟨⟨hl, hcolon, hcs⟩, hhash, hcs'⟩ := h
  refine ⟨by simpa using hcolon, by simpa using hhash, ?_⟩
  simp only [holdsStructure, Bool.or_eq_false_iff]
  exact ⟨⟨by simpa using hl, hcs⟩, hcs'⟩

def Gap.ofBlanks (bl : List Char) : Gap := ⟨bl, false, .none, []⟩

@[simp] theorem Gap.ofBlanks_nil : Gap.ofBlanks [] = .none := rfl

@[simp] theorem Gap.fold_ofBlanks (bl : List Char) : (Gap.ofBlanks bl).fold = bl := rfl

@[simp] theorem Gap.addBlank_ofBlanks (bl : List Char) (c : Char) :
    (Gap.ofBlanks bl).addBlank c = .ofBlanks (bl ++ [c]) := rfl

def addPlain (cs : List Char) (t : Piece PlainText) : Piece PlainText :=
  { t with value := { t.value with text := cs ++ t.value.text } }

@[simp] theorem addPlain_comp (as bs : List Char) :
    addPlain as ∘ addPlain bs = addPlain (as ++ bs) := by
  funext t
  simp [addPlain]

theorem plainBody_space {indent : ℕ} (bl : List Char) (p : Place) (cs : List Char) :
    plainBody false indent (.ofBlanks bl) p (' ' :: cs) =
      plainBody false indent (.ofBlanks (bl ++ [' '])) p.right cs := by
  rw [plainBody]
  · have hb : (Gap.ofBlanks bl).broken = false := rfl
    simp [isBlank, hb]
  · simp

/-- A character of a word that neither ends the scalar nor begins a comment. -/
theorem plainBody_word (indent : ℕ) (bl cs : List Char) {p : Place} {c : Char}
    (hc : isWord c = true) (hcolon : c = ':' → endsWord cs = false)
    (hmark : p.column = 0 → isDocumentMark (c :: cs) = false)
    (hgap : bl ≠ [] → indent ≤ p.column ∧ c ≠ '#') :
    plainBody false indent (.ofBlanks bl) p (c :: cs) =
      (plainBody false indent .none p.right cs).map (addPlain (bl ++ [c])) := by
  have hblank := isBlank_of_isWord hc
  have hbreak := isBreak_of_isWord hc
  have hstop : stopsAt false indent (.ofBlanks bl) p (c :: cs) = false := by
    have hfirst : (p.column = 0 && isDocumentMark (c :: cs)) = false := by simpa using hmark
    by_cases hbl : bl = []
    · simp [stopsAt, hfirst, hbl, Gap.isNone, Gap.none]
    · simp [stopsAt, hfirst, hgap hbl]
  have hbad : isBadColon false (c :: cs) = false := by cases cs <;> rfl
  have hend : endsPlain false c cs = false := by
    by_cases h : c = ':'
    · simp [endsPlain, hcolon h]
    · simp [endsPlain, h]
  rw [plainBody]
  · simp only [hblank, hbreak, hstop, hbad, hend, Gap.fold_ofBlanks, Bool.false_eq_true, if_false]
    congr 1
    funext t
    simp [addPlain]
  · exact fun _ h => absurd h (ne_return hbreak)

/-- The text of a plain scalar is read in full, after the blanks before it. -/
theorem plainBody_append {indent : ℕ} {cs : List Char} (hne : cs ≠ [])
    (hchars : ∀ c ∈ cs, isWord c = true ∨ c = ' ') (hlast : cs.getLast? ≠ some ' ')
    (hholds : holdsStructure cs = false) (bl : List Char) (hhash : bl ≠ [] → cs.head? ≠ some '#')
    {p : Place} (hp : indent ≤ p.column) (hp0 : 0 < p.column) (rest : List Char) :
    plainBody false indent (.ofBlanks bl) p (cs ++ rest) =
      (plainBody false indent .none (p.right cs.length) rest).map (addPlain (bl ++ cs)) := by
  induction cs generalizing bl p with
  | nil => exact absurd rfl hne
  | cons c cs ih =>
    have hlen : p.right.right cs.length = p.right (c :: cs).length := by
      simp [Place.right, Nat.add_comm, Nat.add_left_comm]
    have hright : indent ≤ p.right.column := Nat.le_succ_of_le hp
    have hchars' : ∀ d ∈ cs, isWord d = true ∨ d = ' ' :=
      fun d hd => hchars d (List.mem_cons_of_mem c hd)
    cases cs with
    | nil =>
      have hc : isWord c = true := by
        rcases hchars c List.mem_cons_self with h | rfl
        · exact h
        · exact absurd rfl hlast
      have hcolon : c ≠ ':' := by
        rintro rfl
        simp [holdsStructure] at hholds
      exact plainBody_word _ _ _ hc (fun h => absurd h hcolon) (by omega)
        (fun h => ⟨hp, by simpa using hhash h⟩)
    | cons d cs =>
      -- What may follow a colon or a blank is a fact about neighbours.
      obtain ⟨hcolon, hhash', hholds'⟩ := holdsStructure_cons hholds
      have hlast' : (d :: cs).getLast? ≠ some ' ' := by simpa using hlast
      rcases hchars c List.mem_cons_self with hc | rfl
      · have hih := ih (by simp) hchars' hlast' hholds' [] (by simp) hright
          (Nat.succ_pos _)
        rw [List.cons_append, plainBody_word _ _ _ hc (fun h => by simp [endsWord, hcolon h])
          (by omega) (fun h => ⟨hp, by simpa using hhash h⟩)]
        rw [Gap.ofBlanks_nil] at hih
        rw [hih, hlen, Option.map_map, addPlain_comp]
        simp
      · have hih := ih (by simp) hchars' hlast' hholds' (bl ++ [' '])
          (fun _ => by simpa using hhash' (by decide)) hright (Nat.succ_pos _)
        rw [List.cons_append, plainBody_space, hih, hlen]
        simp

/-- In the gap after a break the spaces of the next line are passed over. -/
theorem plainBody_spaces {indent : ℕ} {g : Gap} (hg : g.broken = true) (p : Place) (m : ℕ)
    (cs : List Char) :
    plainBody false indent g p (List.replicate m ' ' ++ cs) =
      plainBody false indent g (p.right m) cs := by
  induction m generalizing p with
  | zero => rfl
  | succ m ih =>
    have hadd : g.addBlank ' ' = g := by simp [Gap.addBlank, hg]
    rw [List.replicate_succ, List.cons_append, plainBody]
    · simp only [isBlank, hadd]
      simp [ih, Place.right, Nat.add_comm, Nat.add_left_comm]
    · simp

/-- At the end of its line the scalar ends, if the line after it is indented too little. -/
theorem plainBody_newline {n : ℕ} {next : List Char} (hn : NextLine n next) (p : Place) :
    ∃ q cs, plainBody false (n + 1) .none p ('\n' :: next) = some ⟨⟨[], true⟩, q, cs⟩ ∧
      AtLine next true q cs := by
  have hstep : plainBody false (n + 1) .none p ('\n' :: next) =
      plainBody false (n + 1) (Gap.none.addBreak '\n') p.nextLine next := by
    rw [plainBody]
    · simp [isBlank, isBreak]
    · simp
  rw [hstep]
  cases hn with
  | done => exact ⟨_, _, rfl, atLine_start _ _ _⟩
  | @line m c cs hm hc =>
    refine ⟨_, _, ?_, atLine_spaces (p.index + 1) (p.line + 1) m _⟩
    have hblank := isBlank_of_isWord hc.word
    have hbreak := isBreak_of_isWord hc.word
    rw [plainBody_spaces rfl, plainBody]
    · have hstop : stopsAt false (n + 1) (Gap.none.addBreak '\n') (p.nextLine.right m) (c :: cs) =
          true := by
        have hlt : m < n + 1 := by omega
        simp [stopsAt, Gap.isNone, Gap.addBreak, Gap.none, Place.right, Place.nextLine, hlt]
      simp only [hblank, hbreak, hstop]
      simp [Gap.addBreak, Gap.none, Place.right, Place.nextLine]
    · exact fun _ h => absurd h (ne_return hbreak)

/-- A plain scalar at the end of a line. -/
theorem plain_line {n : ℕ} {cs : List Char} (hcs : IsPlain cs) {p : Place} (hp : n < p.column)
    {next : List Char} (hn : NextLine n next) :
    ∃ q rest, plain false (n + 1) p (cs ++ '\n' :: next) = some ⟨⟨cs, true⟩, q, rest⟩ ∧
      AtLine next true q rest := by
  obtain ⟨q, rest, hq, hl⟩ := plainBody_newline hn (p.right cs.length)
  refine ⟨q, rest, ?_, hl⟩
  have h := plainBody_append hcs.ne_nil hcs.chars hcs.last hcs.holds [] (by simp) hp
    (by omega) ('\n' :: next)
  rw [Gap.ofBlanks_nil, hq] at h
  rw [plain, h]
  simp [addPlain]

/-- A key that needs no quotes: a name that does not begin with a hyphen. -/
def IsName (key : List Char) : Prop :=
  key ≠ [] ∧ key.head? ≠ some '-' ∧ ∀ c ∈ key, isNameChar c = true

theorem isWord_of_isNameChar {c : Char} (h : isNameChar c = true) : isWord c = true := by
  by_contra hw
  -- There are seven blanks and breaks, and none is in a name.
  have hc : c = ' ' ∨ c = '\t' ∨ c = '\n' ∨ c = '\r' ∨ c = nel ∨ c = lineSeparator ∨
      c = paragraphSeparator := by
    simp only [isWord, isBlank, isBreak] at hw
    grind
  rcases hc with rfl | rfl | rfl | rfl | rfl | rfl | rfl <;> exact absurd h (by decide)

theorem ne_of_isNameChar {c d : Char} (hc : isNameChar c = true) (hd : isNameChar d = false) :
    c ≠ d := by
  rintro rfl
  rw [hc] at hd
  cases hd

/-- A name begins a word. -/
theorem IsName.exists_cons {key : List Char} (hkey : IsName key) :
    ∃ c cs, key = c :: cs ∧ BeginsWord c := by
  obtain ⟨hne, -, hall⟩ := hkey
  obtain ⟨c, cs, rfl⟩ := List.exists_cons_of_ne_nil hne
  have hc := hall c List.mem_cons_self
  have hmark : c ≠ byteOrderMark := ne_of_isNameChar hc (by decide)
  exact ⟨c, cs, rfl, isWord_of_isNameChar hc, ne_of_isNameChar hc (by decide), hmark⟩

theorem plainBody_colon {indent : ℕ} {p : Place} {rest : List Char} (hr : endsWord rest = true) :
    plainBody false indent .none p (':' :: rest) = some ⟨⟨[], false⟩, p, ':' :: rest⟩ := by
  have hbad : isBadColon false (':' :: rest) = false := by cases rest <;> rfl
  rw [plainBody]
  · simp [isBlank, isBreak, nel, lineSeparator, paragraphSeparator, hbad, endsPlain, hr, Gap.none]
  · simp

theorem isDocumentMark_of_head {c : Char} (h1 : c ≠ '-') (h2 : c ≠ '.') (cs : List Char) :
    isDocumentMark (c :: cs) = false := by
  unfold isDocumentMark isMark
  split <;> simp_all

theorem plainBody_nameChars {indent : ℕ} {key : List Char} (hall : ∀ c ∈ key, isNameChar c = true)
    {p : Place} (hp : 0 < p.column) {rest : List Char} (hr : endsWord rest = true) :
    plainBody false indent .none p (key ++ ':' :: rest) =
      some ⟨⟨key, false⟩, p.right key.length, ':' :: rest⟩ := by
  induction key generalizing p with
  | nil => exact plainBody_colon hr
  | cons c key ih =>
    have hc := hall c List.mem_cons_self
    have hw := plainBody_word indent [] (key ++ ':' :: rest) (p := p)
      (isWord_of_isNameChar hc) (fun h => absurd h (ne_of_isNameChar hc (by decide)))
      (by omega) (fun h => absurd rfl h)
    rw [List.cons_append, ← Gap.ofBlanks_nil, hw,
      ih (fun d hd => hall d (List.mem_cons_of_mem c hd)) (Nat.succ_pos _)]
    simp [addPlain, Place.right, Nat.add_comm, Nat.add_left_comm]

/-- A key is read up to its colon, also at the start of a line. -/
theorem plain_name (indent : ℕ) {key : List Char} (hkey : IsName key) (p : Place)
    {rest : List Char} (hr : endsWord rest = true) :
    plain false indent p (key ++ ':' :: rest) =
      some ⟨⟨key, false⟩, p.right key.length, ':' :: rest⟩ := by
  obtain ⟨hne, hhead, hall⟩ := hkey
  obtain ⟨c, key, rfl⟩ := List.exists_cons_of_ne_nil hne
  have hc := hall c List.mem_cons_self
  have hw := plainBody_word indent [] (key ++ ':' :: rest) (p := p)
    (isWord_of_isNameChar hc) (fun h => absurd h (ne_of_isNameChar hc (by decide)))
    (fun _ => isDocumentMark_of_head (by simpa using hhead) (ne_of_isNameChar hc (by decide)) _)
    (fun h => absurd rfl h)
  rw [plain, List.cons_append, ← Gap.ofBlanks_nil, hw,
    plainBody_nameChars (fun d hd => hall d (List.mem_cons_of_mem c hd)) (Nat.succ_pos _) hr]
  simp [addPlain, Place.right, Nat.add_comm, Nat.add_left_comm]

end NodeConfig.Yaml
