import Mathlib
import NodeConfig.Proofs.Yaml.Quoted

namespace NodeConfig.Yaml

section Lines

variable {k : Chomp} {n : ℕ}

def BlockGap.inLine (indented : Bool) : BlockGap := ⟨none, [], indented⟩

def BlockGap.breaks (g : BlockGap) : List Char := g.first.toList ++ g.more

theorem blockBody_char {c : Char} (hc : isBreak c = false) (g : BlockGap) (p : Place)
    (rest : List Char) :
    blockBody false k n true g p (c :: rest) =
      (blockBody false k n true g p.right rest).map (addText [c]) := by
  rw [blockBody]
  · simp only [hc, Bool.false_eq_true, if_false, if_true]
    rfl
  · exact fun _ h => absurd h (ne_return hc)

theorem blockBody_lineBreak {b : Char} (hp : isPlainly b = true) (hb : isBreak b = true)
    (indented : Bool) (p : Place) (rest : List Char) :
    blockBody false k n true (.inLine indented) p (b :: rest) =
      blockBody false k n false ⟨some b, [], indented⟩ p.nextLine rest := by
  obtain ⟨hv, hr⟩ := of_isPlainly_isBreak hp hb
  rw [blockBody]
  · simp [hb, hv, BlockGap.inLine]
  · exact fun r h => absurd h hr

theorem blockBody_emptyLine {b : Char} (hp : isPlainly b = true) (hb : isBreak b = true)
    (g : BlockGap) (p : Place) (rest : List Char) :
    blockBody false k n false g p (b :: rest) =
      blockBody false k n false { g with more := g.more ++ [b] } p.nextLine rest := by
  obtain ⟨hv, hr⟩ := of_isPlainly_isBreak hp hb
  rw [blockBody]
  · simp [hb, hv]
  · exact fun r h => absurd h hr

theorem blockBody_spaces (g : BlockGap) (i l : ℕ) {m col : ℕ} (hm : col + m ≤ n)
    (rest : List Char) :
    blockBody false k n false g ⟨i, l, col⟩ (List.replicate m ' ' ++ rest) =
      blockBody false k n false g ⟨i + m, l, col + m⟩ rest := by
  induction m generalizing i col with
  | zero => rfl
  | succ m ih =>
    have hlt : col < n := by omega
    rw [List.replicate_succ, List.cons_append, blockBody]
    · have hb : isBreak ' ' = false := by decide
      simp only [hb, hlt, Bool.false_eq_true, if_false, decide_true, Bool.and_self, if_true]
      rw [show Place.right ⟨i, l, col⟩ = ⟨i + 1, l, col + 1⟩ from rfl, ih (i + 1) (by omega)]
      simp only [Nat.add_comm, Nat.add_left_comm]
    · simp

/-- The first character of a line, right after its indentation. -/
theorem blockBody_first {c : Char} (hc : isBreak c = false) (g : BlockGap) (i l : ℕ)
    (rest : List Char) :
    blockBody false k n false g ⟨i, l, n⟩ (c :: rest) =
      (blockBody false k n true (.inLine (isBlank c)) ⟨i + 1, l, n + 1⟩ rest).map
        (addText (g.breaks ++ [c])) := by
  rw [blockBody]
  · simp [hc, BlockGap.join, BlockGap.inLine, BlockGap.breaks, Place.right]
    congr 1
    funext t
    simp [addText]
  · exact fun _ h => absurd h (ne_return hc)

theorem blockBody_breaks {bs : List Char} (hbs : ∀ b ∈ bs, isPlainly b = true ∧ isBreak b = true)
    (g : BlockGap) (i l : ℕ) (rest : List Char) :
    ∃ i' l', blockBody false k n false g ⟨i, l, 0⟩ (bs ++ rest) =
      blockBody false k n false { g with more := g.more ++ bs } ⟨i', l', 0⟩ rest := by
  induction bs generalizing g i l with
  | nil => exact ⟨i, l, by simp⟩
  | cons b bs ih =>
    obtain ⟨hp, hb⟩ := hbs b List.mem_cons_self
    obtain ⟨i', l', h⟩ := ih (fun d hd => hbs d (List.mem_cons_of_mem b hd))
      { g with more := g.more ++ [b] } (i + 1) (l + 1)
    refine ⟨i', l', ?_⟩
    rw [List.cons_append, blockBody_emptyLine hp hb, Place.nextLine, h]
    simp

/-- The block ends before lines that are indented less. -/
theorem blockBody_end {m : ℕ} (hm : m < n) {next : List Char} (hnext : NextLine m next)
    (g : BlockGap) (i l : ℕ) :
    ∃ q rest, blockBody false k n false g ⟨i, l, 0⟩ next = some ⟨g.chomp k, q, rest⟩ ∧
      AtLine next true q rest := by
  cases hnext with
  | done => exact ⟨_, _, by rw [blockBody], atLine_start i l []⟩
  | @line m' c cs hm' hc =>
    refine ⟨_, _, ?_, atLine_spaces i l m' (c :: cs)⟩
    have hbreak := isBreak_of_isWord hc.word
    have hs : c ≠ ' ' := ne_of_isWord hc.word (by decide)
    have ht : c ≠ '\t' := ne_of_isWord hc.word (by decide)
    have hne : m' ≠ n := by omega
    rw [blockBody_spaces g i l (by omega), Nat.zero_add, blockBody]
    · simp [hbreak, hs, ht, hne]
    · exact fun _ h => absurd h (ne_return hbreak)

end Lines

/-! ### The text of a block -/

/-- The text goes up to a character that is no break. -/
def EndsInLine (body : List Char) : Prop := ∀ c, body.getLast? = some c → isBreak c = false

theorem EndsInLine.tail {c : Char} {body : List Char} (h : EndsInLine (c :: body)) :
    EndsInLine body := by
  intro d hd
  exact h d (by simp [List.getLast?_cons, hd])

/-- Every text is one that ends in a line, and breaks. -/
theorem exists_endsInLine (cs : List Char) :
    ∃ body bs, cs = body ++ bs ∧ EndsInLine body ∧ ∀ b ∈ bs, isBreak b = true := by
  induction cs using List.reverseRecOn with
  | nil => exact ⟨[], [], rfl, by simp [EndsInLine], by simp⟩
  | append_singleton cs c ih =>
    by_cases hc : isBreak c = true
    · obtain ⟨body, bs, rfl, hbody, hbs⟩ := ih
      refine ⟨body, bs ++ [c], by simp, hbody, ?_⟩
      intro b hb
      rcases List.mem_append.1 hb with h | h
      · exact hbs b h
      · rwa [List.mem_singleton.1 h]
    · refine ⟨cs ++ [c], [], by simp, ?_, by simp⟩
      intro d hd
      have hd : d = c := by simpa using hd.symm
      simpa [hd] using hc

theorem literalBody_breaks {bs : List Char} (hbs : ∀ b ∈ bs, isBreak b = true) (n : ℕ)
    (broken : Bool) : literalBody n broken bs = bs := by
  induction bs generalizing broken with
  | nil => rfl
  | cons b bs ih =>
    rw [literalBody, if_pos (hbs b List.mem_cons_self),
      ih fun d hd => hbs d (List.mem_cons_of_mem b hd)]

theorem literalBody_append {bs : List Char} (hbs : ∀ b ∈ bs, isBreak b = true) (n : ℕ)
    (broken : Bool) (body : List Char) :
    literalBody n broken (body ++ bs) = literalBody n broken body ++ bs := by
  induction body generalizing broken with
  | nil => exact literalBody_breaks hbs n broken
  | cons c body ih =>
    rw [List.cons_append, literalBody, literalBody]
    split <;> simp [ih]

theorem getLast?_literalBody (n : ℕ) (broken : Bool) (cs : List Char) :
    (literalBody n broken cs).getLast? = cs.getLast? := by
  induction cs generalizing broken with
  | nil => rfl
  | cons c cs ih =>
    rw [literalBody]
    split <;> simp [List.getLast?_cons, List.getLast?_append, ih]

/-- The lines of a block are read in full, from inside a line or from the start of one. -/
theorem blockBody_literalBody {k : Chomp} {n : ℕ} {body : List Char}
    (hall : ∀ c ∈ body, isPlainly c = true) (hlast : EndsInLine body) (t : List Char) :
    (∀ indented p, ∃ indented' q,
      blockBody false k n true (.inLine indented) p (literalBody n false body ++ t) =
        (blockBody false k n true (.inLine indented') q t).map (addText body)) ∧
    (body ≠ [] → ∀ g i l, ∃ indented' q,
      blockBody false k n false g ⟨i, l, 0⟩ (literalBody n true body ++ t) =
        (blockBody false k n true (.inLine indented') q t).map (addText (g.breaks ++ body))) := by
  induction body with
  | nil => exact ⟨fun indented p => ⟨indented, p, by simp [literalBody]⟩, by simp⟩
  | cons c body ih =>
    have hc := hall c List.mem_cons_self
    obtain ⟨inLine, inIndent⟩ := ih (fun d hd => hall d (List.mem_cons_of_mem c hd)) hlast.tail
    by_cases hb : isBreak c = true
    · -- More text follows a break, so the next line is indented.
      have hne : body ≠ [] := by
        rintro rfl
        simp [hlast c rfl] at hb
      constructor
      · intro indented p
        obtain ⟨indented', q, h⟩ := inIndent hne ⟨some c, [], indented⟩ (p.index + 1) (p.line + 1)
        refine ⟨indented', q, ?_⟩
        rw [literalBody, if_pos hb, List.cons_append, blockBody_lineBreak hc hb, Place.nextLine, h]
        simp [BlockGap.breaks]
      · intro _ g i l
        obtain ⟨indented', q, h⟩ := inIndent hne { g with more := g.more ++ [c] } (i + 1) (l + 1)
        refine ⟨indented', q, ?_⟩
        rw [literalBody, if_pos hb, List.cons_append, blockBody_emptyLine hc hb, Place.nextLine, h]
        simp [BlockGap.breaks]
    · constructor
      · intro indented p
        obtain ⟨indented', q, h⟩ := inLine indented p.right
        refine ⟨indented', q, ?_⟩
        rw [literalBody, if_neg hb]
        simp only [Bool.false_eq_true, if_false, List.nil_append, List.cons_append]
        rw [blockBody_char (by simpa using hb), h]
        simp
      · intro _ g i l
        obtain ⟨indented', q, h⟩ := inLine (isBlank c) ⟨i + n + 1, l, n + 1⟩
        refine ⟨indented', q, ?_⟩
        rw [literalBody, if_neg hb]
        simp only [if_true, List.append_assoc, List.cons_append]
        rw [blockBody_spaces g i l (by omega), Nat.zero_add, blockBody_first (by simpa using hb), h]
        simp

/-- What the breaks at the end must be, for a block with this header. -/
def ChompFits (body bs : List Char) : Chomp → Prop
  | .strip => bs = []
  | .clip => body ≠ [] ∧ ∃ b, bs = [b]
  | .keep => bs ≠ []

/-- A block that ends before lines indented less. A line feed ends its last line if the text does
not. -/
theorem blockBody_literal {k : Chomp} {n m : ℕ} {body bs next : List Char}
    (hall : ∀ c ∈ body ++ bs, isPlainly c = true) (hlast : EndsInLine body)
    (hbs : ∀ b ∈ bs, isBreak b = true) (hk : ChompFits body bs k) (hm : m < n)
    (hnext : NextLine m next) (hne : body ++ bs ≠ []) (i l : ℕ) :
    ∃ q rest, blockBody false k n false ⟨none, [], false⟩ ⟨i, l, 0⟩
        (literalBody n true (body ++ bs) ++ ((if bs = [] then ['\n'] else []) ++ next)) =
          some ⟨body ++ bs, q, rest⟩ ∧ AtLine next true q rest := by
  have hbs' : ∀ b ∈ bs, isPlainly b = true ∧ isBreak b = true :=
    fun b hb => ⟨hall b (List.mem_append_right body hb), hbs b hb⟩
  rw [literalBody_append hbs, List.append_assoc]
  by_cases hbody : body = []
  · -- Only breaks: they are all kept.
    subst hbody
    have hbne : bs ≠ [] := by simpa using hne
    have hkeep : k = .keep := by
      cases k with
      | strip => exact absurd hk hbne
      | clip => exact absurd rfl hk.1
      | keep => rfl
    obtain ⟨i', l', h⟩ := blockBody_breaks hbs' (k := k) (n := n) ⟨none, [], false⟩ i l next
    obtain ⟨q, rest, hq, hat⟩ := blockBody_end (k := k) hm hnext ⟨none, [] ++ bs, false⟩ i' l'
    refine ⟨q, rest, ?_, hat⟩
    rw [literalBody, if_neg hbne, List.nil_append, List.nil_append, h, hq, hkeep]
    simp [BlockGap.chomp]
  · -- The break that ends the last line, and the ones after it.
    obtain ⟨b, more, hmore, hb, hmb, hchomp⟩ : ∃ b more,
        bs ++ ((if bs = [] then ['\n'] else []) ++ next) = b :: (more ++ next) ∧
        (isPlainly b = true ∧ isBreak b = true) ∧
        (∀ d ∈ more, isPlainly d = true ∧ isBreak d = true) ∧
        ∀ indented, BlockGap.chomp ⟨some b, more, indented⟩ k = bs := by
      cases bs with
      | nil =>
        have hstrip : k = .strip := by
          cases k with
          | strip => rfl
          | clip => simp [ChompFits] at hk
          | keep => exact absurd rfl hk
        exact ⟨'\n', [], by simp, by decide, by simp, by simp [hstrip, BlockGap.chomp]⟩
      | cons b more =>
        refine ⟨b, more, by simp, hbs' b List.mem_cons_self,
          fun d hd => hbs' d (List.mem_cons_of_mem b hd), fun indented => ?_⟩
        cases k with
        | strip => cases hk
        | clip =>
          obtain ⟨-, d, hd⟩ := hk
          simp_all [BlockGap.chomp]
        | keep => simp [BlockGap.chomp]
    rw [hmore]
    obtain ⟨indented, p, h⟩ :=
      (blockBody_literalBody (k := k) (n := n)
        (fun c hc => hall c (List.mem_append_left bs hc)) hlast (b :: (more ++ next))).2 hbody
        ⟨none, [], false⟩ i l
    obtain ⟨i', l', hbreaks⟩ := blockBody_breaks hmb (k := k) (n := n) ⟨some b, [], indented⟩
      (p.index + 1) (p.line + 1) next
    obtain ⟨q, rest, hq, hat⟩ :=
      blockBody_end (k := k) hm hnext ⟨some b, [] ++ more, indented⟩ i' l'
    refine ⟨q, rest, ?_, hat⟩
    rw [h, blockBody_lineBreak hb.1 hb.2, Place.nextLine, hbreaks, hq]
    simp [addText, BlockGap.breaks, hchomp]

/-! ### The header -/

def Chomp.mark : Chomp → List Char
  | .clip => []
  | .strip => ['-']
  | .keep => ['+']

/-- The header that is written says what the breaks at the end need. -/
theorem chompMark_fits {body bs : List Char} (hlast : EndsInLine body)
    (hbs : ∀ b ∈ bs, isBreak b = true) (hn : '\n' ∈ body ++ bs) :
    ∃ k : Chomp, chompMark (body ++ bs) = k.mark ∧ ChompFits body bs k := by
  obtain rfl | ⟨init, c, rfl⟩ := body.eq_nil_or_concat' <;>
    obtain rfl | ⟨more, b, rfl⟩ := bs.eq_nil_or_concat'
  · simp at hn
  · refine ⟨.keep, ?_, by simp [ChompFits]⟩
    obtain rfl | ⟨more, d, rfl⟩ := more.eq_nil_or_concat'
    · rfl
    · simp [chompMark, Chomp.mark, hbs]
  · have hc : isBreak c = false := hlast c (by simp)
    refine ⟨.strip, ?_, rfl⟩
    obtain rfl | ⟨init, d, rfl⟩ := init.eq_nil_or_concat'
    · have hcn : c = '\n' := by simpa [eq_comm] using hn
      simp [hcn, isBreak] at hc
    · simp [chompMark, Chomp.mark, hc]
  · have hc : isBreak c = false := hlast c (by simp)
    obtain rfl | ⟨more, d, rfl⟩ := more.eq_nil_or_concat'
    · exact ⟨.clip, by simp [chompMark, Chomp.mark, hbs, hc], by simp, b, rfl⟩
    · exact ⟨.keep, by simp [chompMark, Chomp.mark, hbs], by simp [ChompFits]⟩

/-- The header of a block, with a digit of indentation or without. -/
theorem blockHeader_mark (k : Chomp) (p : Place) (rest : List Char) :
    (∃ i l, blockHeader p (k.mark ++ '\n' :: rest) = some ⟨⟨k, none⟩, ⟨i, l, 0⟩, rest⟩) ∧
      ∃ i l, blockHeader p ('2' :: k.mark ++ '\n' :: rest) =
        some ⟨⟨k, some 2⟩, ⟨i, l, 0⟩, rest⟩ := by
  cases k <;> exact ⟨⟨_, _, rfl⟩, _, _, rfl⟩

theorem firstIndent_spaces {c : Char} (hs : c ≠ ' ') (ht : c ≠ '\t') (hb : isBreak c = false)
    (n column : ℕ) (rest : List Char) :
    firstIndent 0 column (List.replicate n ' ' ++ c :: rest) = some (column + n) := by
  induction n generalizing column with
  | zero => simp [firstIndent, hs, ht, hb]
  | succ n ih =>
    rw [List.replicate_succ, List.cons_append, firstIndent, if_pos rfl, ih]
    simp only [Nat.add_comm, Nat.add_left_comm]

theorem endLine_writeLiteral {body bs : List Char} (hlast : EndsInLine body)
    (hbs : ∀ b ∈ bs, isBreak b = true) (hne : body ++ bs ≠ []) (n : ℕ) :
    endLine (writeLiteral n (body ++ bs)) =
      writeLiteral n (body ++ bs) ++ (if bs = [] then ['\n'] else []) := by
  have hl : (writeLiteral n (body ++ bs)).getLast? = (body ++ bs).getLast? := by
    obtain ⟨init, c, hc⟩ := (body ++ bs).eq_nil_or_concat'.resolve_left hne
    rw [writeLiteral, List.getLast?_append, List.getLast?_cons, getLast?_literalBody, hc]
    simp
  rw [endLine, hl]
  obtain rfl | ⟨more, b, rfl⟩ := bs.eq_nil_or_concat'
  · obtain rfl | ⟨init, c, rfl⟩ := body.eq_nil_or_concat'
    · exact absurd rfl hne
    · simp [hlast c (by simp)]
  · simp [hbs]

/-- A text with lines, written as a block two columns inside its parent, is read back. -/
theorem blockScalar_literal {n : ℕ} {cs next : List Char} (hall : ∀ c ∈ cs, isPlainly c = true)
    (hn : '\n' ∈ cs) (hnext : NextLine n next) (p : Place) :
    ∃ q rest, blockScalar false (some n) p
        ((endLine (writeLiteral (n + 2) cs)).drop 1 ++ next) = some ⟨cs, q, rest⟩ ∧
      AtLine next true q rest := by
  obtain ⟨body, bs, rfl, hlast, hbs⟩ := exists_endsInLine cs
  have hne : body ++ bs ≠ [] := List.ne_nil_of_mem hn
  obtain ⟨k, hmark, hk⟩ := chompMark_fits hlast hbs hn
  have hbody := blockBody_literal hall hlast hbs hk (show n < n + 2 by omega) hnext hne
  obtain ⟨hwithout, hwith⟩ := blockHeader_mark k p
    (literalBody (n + 2) true (body ++ bs) ++ ((if bs = [] then ['\n'] else []) ++ next))
  rw [endLine_writeLiteral hlast hbs hne, writeLiteral, hmark]
  by_cases hhead : (body ++ bs).head?.any isSpaceOrBreak = true
  · obtain ⟨i, l, hheader⟩ := hwith
    obtain ⟨q, rest, hq, hat⟩ := hbody i l
    refine ⟨q, rest, ?_, hat⟩
    simp only [hhead, if_true, List.drop_succ_cons, List.drop_zero, List.cons_append,
      List.append_assoc, List.nil_append] at hheader ⊢
    simp only [blockScalar, hheader, Option.getD_some, hq]
  · obtain ⟨i, l, hheader⟩ := hwithout
    obtain ⟨q, rest, hq, hat⟩ := hbody i l
    refine ⟨q, rest, ?_, hat⟩
    -- Without a digit the columns of the first line count, which begins with a word.
    have hindent : firstIndent 0 0 (literalBody (n + 2) true (body ++ bs) ++
        ((if bs = [] then ['\n'] else []) ++ next)) = some (n + 2) := by
      obtain ⟨c, cs, hcs⟩ := List.exists_cons_of_ne_nil hne
      have hc : isSpaceOrBreak c = false := by simpa [hcs] using hhead
      simp only [isSpaceOrBreak, Bool.or_eq_false_iff, decide_eq_false_iff_not] at hc
      have ht : c ≠ '\t' := by
        rintro rfl
        exact absurd (hall '\t' (by simp [hcs])) (by decide)
      rw [hcs, literalBody, if_neg (by simp [hc.2]), if_pos rfl, List.append_assoc,
        List.cons_append, firstIndent_spaces hc.1 ht hc.2, Nat.zero_add]
    simp only [hhead, if_false, Bool.false_eq_true, List.drop_succ_cons, List.drop_zero,
      List.cons_append, List.append_assoc, List.nil_append] at hheader ⊢
    have hmax : max (n + 1) (n + 2) = n + 2 := by omega
    simp only [blockScalar, hheader, hindent, Option.map_some, hmax, hq]

end NodeConfig.Yaml
