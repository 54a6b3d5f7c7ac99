import Mathlib
import NodeConfig.Proofs.Yaml.Plain

namespace NodeConfig.Yaml

/-! ### Escapes -/

theorem hexNumber?_append (acc : ℕ) (ds rest : List Char) :
    hexNumber? acc ds.length (ds ++ rest) = hexNumber? acc ds.length ds := by
  induction ds generalizing acc with
  | nil => cases rest <;> rfl
  | cons d ds ih =>
    simp only [List.length_cons, List.cons_append, hexNumber?]
    cases hexValue? d with
    | none => rfl
    | some n => exact ih _

/-- An escape that uses up all its letters is read in the same way before other text. -/
theorem escape?_append {c d : Char} {t : List Char} (h : escape? (d :: t) = some (c, t.length + 1))
    (rest : List Char) : escape? (d :: (t ++ rest)) = some (c, t.length + 1) := by
  unfold escape? at h ⊢
  cases hs : shortEscape? d with
  | some e => simpa [hs] using h
  | none =>
    simp only [hs] at h ⊢
    cases hw : codeDigits d with
    | zero => simp [hw] at h
    | succ n =>
      simp only [hw] at h ⊢
      have hl : n + 1 = t.length := by
        cases hv : (hexNumber? 0 (n + 1) t).bind charOf? with
        | none => simp [hv] at h
        | some v => simpa [hv] using congrArg (fun x => x.map Prod.snd) h
      rw [hl] at h ⊢
      rwa [hexNumber?_append]

def isEscape (c : Char) : List Char → Bool
  | '\\' :: d :: t =>
    (d :: t).all (fun e => isPlainly e && !isBreak e) && escape? (d :: t) = some (c, t.length + 1)
  | _ => false

theorem isPlainly_of_isEscape {c : Char} {e : List Char} (h : isEscape c e = true) :
    ∀ d ∈ e, isPlainly d = true := by
  unfold isEscape at h
  split at h
  · next d t =>
    simp only [Bool.and_eq_true, List.all_eq_true] at h
    refine List.forall_mem_cons.2 ⟨by decide, fun e he => (h.1 e he).1⟩
  · cases h

/-- What is not written plainly: controls but for the line feed, and three codes. -/
theorem of_not_isPlainly {c : Char} (h : isPlainly c = false) :
    c.toNat < 0xA0 ∨ c = '\ufeff' ∨ c = '\ufffe' ∨ c = '\uffff' := by
  have hc : ∀ d : Char, c.toNat = d.toNat → c = d := fun d hd => Char.ext (UInt32.toNat_inj.1 hd)
  by_cases hn : c.toNat < 0xA0
  · exact .inl hn
  · have hp : c.toNat = 0xFEFF ∨ c.toNat = 0xFFFE ∨ c.toNat = 0xFFFF := by
      simp only [isPlainly, Bool.or_eq_false_iff, Bool.and_eq_false_iff, decide_eq_false_iff_not]
        at h
      omega
    exact .inr (hp.imp (hc _) (Or.imp (hc _) (hc _)))

/-- Between double quotes a character stands by itself or has an escape. -/
theorem escapeDouble_cases (c : Char) :
    (escapeDouble c = [c] ∧ c ≠ '"' ∧ c ≠ '\\' ∧ isPlainly c = true ∧ isBreak c = false) ∨
      isEscape c (escapeDouble c) = true := by
  by_cases hq : c = '"'
  · exact .inr (by subst c; rfl)
  by_cases hb : c = '\\'
  · exact .inr (by subst c; rfl)
  by_cases hp : isPlainly c = true ∧ isBreak c = false
  · exact .inl ⟨by simp [escapeDouble, hq, hb, hp], hq, hb, hp⟩
  · right
    -- Below 0xA0 they are looked at one by one; above there are five.
    have hall : ∀ n < 0xA0, isPlainly (Char.ofNat n) = false ∨ isBreak (Char.ofNat n) = true →
        isEscape (Char.ofNat n) (escapeDouble (Char.ofNat n)) = true := by decide +kernel
    have hrest : ∀ d ∈ ['\ufeff', '\ufffe', '\uffff', lineSeparator, paragraphSeparator],
        isEscape d (escapeDouble d) = true := by
      simp only [List.forall_mem_cons, List.not_mem_nil, false_imp_iff, implies_true, and_true]
      exact ⟨by cbv, by cbv, by cbv, by cbv, by cbv⟩
    by_cases hn : c.toNat < 0xA0
    · have h := hall c.toNat hn
      rw [Char.ofNat_toNat] at h
      exact h (by grind)
    · apply hrest
      by_cases hc : isPlainly c = false
      · rcases of_not_isPlainly hc with h | rfl | rfl | rfl
        · exact absurd h hn
        all_goals decide
      · have hbreak : isBreak c = true := by grind
        have h : c = '\n' ∨ c = '\r' ∨ c = nel ∨ c = lineSeparator ∨ c = paragraphSeparator := by
          simpa [isBreak, or_assoc] using hbreak
        rcases h with rfl | rfl | rfl | rfl | rfl
        · exact absurd (by decide) hn
        · exact absurd (by decide) hn
        · exact absurd (by decide) hn
        all_goals decide

@[simp] theorem addText_nil : addText [] = id := rfl

@[simp] theorem addText_comp (as bs : List Char) :
    addText as ∘ addText bs = addText (as ++ bs) := by
  funext t
  simp [addText]

/-! ### One line between quotes -/

section

variable {double : Bool} {g : Gap} {p : Place} {c : Char}

theorem quotedBody_blank (hc : isBlank c = true) (rest : List Char) :
    quotedBody double g p (c :: rest) = quotedBody double (g.addBlank c) p.right rest := by
  have hr : c ≠ '\r' := by
    rintro rfl
    exact absurd hc (by decide)
  rw [quotedBody.eq_def]
  simp [hr, hc]

theorem quotedBody_spaces (hg : g.broken = true) (m : ℕ) (rest : List Char) :
    quotedBody double g p (List.replicate m ' ' ++ rest) =
      quotedBody double g (p.right m) rest := by
  induction m generalizing p with
  | zero => rfl
  | succ m ih =>
    have hadd : g.addBlank ' ' = g := by simp [Gap.addBlank, hg]
    rw [List.replicate_succ, List.cons_append, quotedBody_blank rfl, hadd, ih]
    simp [Place.right, Nat.add_comm, Nat.add_left_comm]

/-- A character that stands for itself. -/
theorem quotedBody_word (hc : isWord c = true) (hp : 0 < p.column)
    (hq : c ≠ if double then '"' else '\'') (hb : double = true → c ≠ '\\') (rest : List Char) :
    quotedBody double g p (c :: rest) =
      (quotedBody double .none p.right rest).map (addText (g.fold ++ [c])) := by
  have hblank := isBlank_of_isWord hc
  have hbreak := isBreak_of_isWord hc
  have hr : c ≠ '\r' := ne_return hbreak
  have h0 : p.column ≠ 0 := by omega
  rw [quotedBody.eq_def]
  cases double <;> simp_all

theorem quotedBody_close (hp : 0 < p.column) (rest : List Char) :
    quotedBody true g p ('"' :: rest) = some ⟨g.fold, p.right, rest⟩ := by
  have h0 : p.column ≠ 0 := by omega
  rw [quotedBody.eq_def]
  simp [h0, isBlank, isBreak, nel, lineSeparator, paragraphSeparator]

theorem quotedBody_escape {e : List Char} (he : isEscape c e = true) (hp : 0 < p.column)
    (rest : List Char) :
    quotedBody true g p (e ++ rest) =
      (quotedBody true .none (p.right e.length) rest).map (addText (g.fold ++ [c])) := by
  unfold isEscape at he
  split at he
  · next d t =>
    simp only [Bool.and_eq_true, List.all_cons, Bool.not_eq_true', decide_eq_true_eq] at he
    obtain ⟨⟨⟨-, hbreak⟩, -⟩, hesc⟩ := he
    have h0 : p.column ≠ 0 := by omega
    have hdr : d ≠ '\r' := ne_return hbreak
    have hesc' := escape?_append hesc rest
    have hdrop : (d :: (t ++ rest)).drop (t.length + 1) = rest := by simp
    rw [List.cons_append, List.cons_append, quotedBody]
    · have hbs : isBreak '\\' = false ∧ isBlank '\\' = false := by decide
      simp only [hbs, hbreak, hesc', hdrop, h0]
      simp
    · exact fun r h => absurd h hdr
  · cases he

end

/-- Text between double quotes, after the blanks before it. -/
theorem quotedBody_escapeDouble (cs bl : List Char) {p : Place} (hp : 0 < p.column)
    (rest : List Char) :
    ∃ q, quotedBody true (.ofBlanks bl) p (cs.flatMap escapeDouble ++ '"' :: rest) =
      some ⟨bl ++ cs, q, rest⟩ := by
  induction cs generalizing bl p with
  | nil =>
    refine ⟨p.right, ?_⟩
    rw [List.flatMap_nil, List.nil_append, quotedBody_close hp]
    simp
  | cons c cs ih =>
    rw [List.flatMap_cons, List.append_assoc]
    rcases escapeDouble_cases c with ⟨he, hq, hb, hp', hbreak⟩ | he
    · rw [he, List.singleton_append]
      -- A word brings the gap before it into the text; a space makes the gap longer.
      rcases isWord_or_space_of_isPlainly hp' hbreak with hw | rfl
      · obtain ⟨q, hih⟩ := ih [] (p := p.right) (Nat.succ_pos _)
        refine ⟨q, ?_⟩
        rw [Gap.ofBlanks_nil] at hih
        rw [quotedBody_word hw hp (by simpa using hq) (fun _ => hb), hih]
        simp [addText]
      · obtain ⟨q, hih⟩ := ih (bl ++ [' ']) (p := p.right) (Nat.succ_pos _)
        refine ⟨q, ?_⟩
        rw [quotedBody_blank rfl, Gap.addBlank_ofBlanks, hih]
        simp
    · obtain ⟨q, hih⟩ := ih [] (p := p.right (escapeDouble c).length)
        (Nat.lt_add_right _ hp)
      refine ⟨q, ?_⟩
      rw [Gap.ofBlanks_nil] at hih
      rw [quotedBody_escape he hp, hih]
      simp [addText]

/-- A text in double quotes is read back. -/
theorem quotedScalar_double (cs : List Char) {p : Place} (hp : 0 < p.column) (rest : List Char) :
    ∃ q, quotedScalar true p (cs.flatMap escapeDouble ++ '"' :: rest) = some ⟨cs, q, rest⟩ :=
  quotedBody_escapeDouble cs [] hp rest

/-! ### Single quotes -/

/-- A text that goes between single quotes: breaks keep their value, and no space is next to one. -/
structure IsSingle (cs : List Char) : Prop where
  chars : ∀ c ∈ cs, isPlainly c = true ∧ c ≠ '\n'
  after : hasNeighbours (fun c d => isBreak c && d = ' ') cs = false
  before : hasNeighbours (fun c d => c = ' ' && isBreak d) cs = false

theorem IsSingle.tail {c : Char} {cs : List Char} (h : IsSingle (c :: cs)) : IsSingle cs where
  chars d hd := h.chars d (List.mem_cons_of_mem c hd)
  after := by
    cases cs with
    | nil => rfl
    | cons d cs => exact (Bool.or_eq_false_iff.1 h.after).2
  before := by
    cases cs with
    | nil => rfl
    | cons d cs => exact (Bool.or_eq_false_iff.1 h.before).2

def Gap.ofBreaks (b : Char) (more : List Char) : Gap := ⟨[], true, some b, more⟩

theorem Gap.fold_ofBreaks {b : Char} (hb : b ≠ '\n') (more : List Char) :
    (Gap.ofBreaks b more).fold = b :: more := by
  simp [Gap.fold, Gap.ofBreaks, hb]

/-- A break that is written plainly keeps its value and begins no pair. -/
theorem of_isPlainly_isBreak {c : Char} (hp : isPlainly c = true) (hb : isBreak c = true) :
    breakValue c = c ∧ c ≠ '\r' := by
  have h : c = '\n' ∨ c = '\r' ∨ c = nel ∨ c = lineSeparator ∨ c = paragraphSeparator := by
    simpa [isBreak, or_assoc] using hb
  rcases h with rfl | rfl | rfl | rfl | rfl
  · decide
  · exact absurd hp (by decide)
  · exact absurd hp (by decide)
  · decide
  · decide

section

variable {double : Bool} {g : Gap} {p : Place} {c : Char}

theorem quotedBody_break (hb : isBreak c = true) (hr : c ≠ '\r') (rest : List Char) :
    quotedBody double g p (c :: rest) = quotedBody double (g.addBreak c) p.nextLine rest := by
  have hblank : isBlank c = false := by
    by_contra h
    have hc : c = ' ' ∨ c = '\t' := by grind [isBlank]
    rcases hc with rfl | rfl <;> exact absurd hb (by decide)
  rw [quotedBody.eq_def]
  simp [hr, hblank, hb]

theorem quotedBody_endSingle (hp : 0 < p.column) {rest : List Char}
    (hr : rest.head? ≠ some '\'') :
    quotedBody false g p ('\'' :: rest) = some ⟨g.fold, p.right, rest⟩ := by
  have h0 : p.column ≠ 0 := by omega
  rw [quotedBody.eq_def]
  simp [h0, hr, isBlank, isBreak, nel, lineSeparator, paragraphSeparator]

theorem quotedBody_doubled (hp : 0 < p.column) (rest : List Char) :
    quotedBody false g p ('\'' :: '\'' :: rest) =
      (quotedBody false .none (p.right 2) rest).map (addText (g.fold ++ ['\''])) := by
  have h0 : p.column ≠ 0 := by omega
  rw [quotedBody.eq_def]
  simp [h0, isBlank, isBreak, nel, lineSeparator, paragraphSeparator]

/-- A character between single quotes, after whatever gap. -/
theorem quotedBody_single (hc : isWord c = true) (hp : 0 < p.column) (rest : List Char) :
    ∃ k, quotedBody false g p ((if c = '\'' then ['\'', '\''] else [c]) ++ rest) =
      (quotedBody false .none (p.right (k + 1)) rest).map (addText (g.fold ++ [c])) := by
  by_cases hq : c = '\''
  · subst c
    exact ⟨1, by simpa using quotedBody_doubled hp rest⟩
  · refine ⟨0, ?_⟩
    rw [if_neg hq, List.singleton_append]
    exact quotedBody_word hc hp (by simpa using hq) (fun h => by cases h) rest

end

section SingleBody

variable {n : ℕ} {c : Char} {cs rest : List Char}

/-- Text between single quotes is read to its end, after blanks on its line. -/
def ReadsInLine (n : ℕ) (cs rest : List Char) : Prop :=
  ∀ (bl : List Char) (p : Place), 0 < p.column → (bl ≠ [] → cs.head?.any isBreak = false) →
    ∃ q, quotedBody false (.ofBlanks bl) p (singleBody n false cs ++ '\'' :: rest) =
      some ⟨bl ++ cs, q, rest⟩

def ReadsAfterBreaks (n : ℕ) (cs rest : List Char) : Prop :=
  ∀ (b : Char) (more : List Char) (p : Place), b ≠ '\n' → cs.head? ≠ some ' ' →
    ∃ q, quotedBody false (.ofBreaks b more) p (singleBody n true cs ++ '\'' :: rest) =
      some ⟨b :: more ++ cs, q, rest⟩

theorem readsInLine_nil (hr : rest.head? ≠ some '\'') : ReadsInLine n [] rest := by
  intro bl p hp _
  exact ⟨p.right, by simpa [singleBody] using quotedBody_endSingle (g := .ofBlanks bl) hp hr⟩

theorem readsAfterBreaks_nil (hn : 0 < n) (hr : rest.head? ≠ some '\'') :
    ReadsAfterBreaks n [] rest := by
  intro b more p hb _
  have hp : 0 < (p.right n).column := Nat.lt_add_left _ hn
  refine ⟨(p.right n).right, ?_⟩
  rw [singleBody, if_pos rfl, quotedBody_spaces rfl, quotedBody_endSingle hp hr,
    Gap.fold_ofBreaks hb]
  simp

/-- No blanks stand before a break: they would be lost. -/
theorem readsInLine_break (hplain : isPlainly c = true) (hbreak : isBreak c = true) (hc : c ≠ '\n')
    (hhead : cs.head? ≠ some ' ') (h : ReadsAfterBreaks n cs rest) :
    ReadsInLine n (c :: cs) rest := by
  intro bl p hp hbl
  obtain ⟨hv, hcr⟩ := of_isPlainly_isBreak hplain hbreak
  have hnil : bl = [] := by
    by_contra hne
    simp [hbreak] at hbl
    exact hne hbl
  subst bl
  obtain ⟨q, hq⟩ := h c [] p.nextLine hc hhead
  refine ⟨q, ?_⟩
  rw [singleBody, if_pos hbreak, List.cons_append, quotedBody_break hbreak hcr]
  simpa [Gap.addBreak, Gap.none, Gap.ofBreaks, hv] using hq

theorem readsAfterBreaks_break (hplain : isPlainly c = true) (hbreak : isBreak c = true)
    (hhead : cs.head? ≠ some ' ') (h : ReadsAfterBreaks n cs rest) :
    ReadsAfterBreaks n (c :: cs) rest := by
  intro b more p hb _
  obtain ⟨hv, hcr⟩ := of_isPlainly_isBreak hplain hbreak
  obtain ⟨q, hq⟩ := h b (more ++ [c]) p.nextLine hb hhead
  refine ⟨q, ?_⟩
  rw [singleBody, if_pos hbreak, List.cons_append, quotedBody_break hbreak hcr]
  simpa [Gap.addBreak, Gap.ofBreaks, hv] using hq

theorem readsInLine_word (hc : isWord c = true) (h : ReadsInLine n cs rest) :
    ReadsInLine n (c :: cs) rest := by
  intro bl p hp _
  have hbreak : ¬ isBreak c = true := by simp [isBreak_of_isWord hc]
  obtain ⟨k, hk⟩ := quotedBody_single (g := .ofBlanks bl) hc hp
    (singleBody n false cs ++ '\'' :: rest)
  obtain ⟨q, hq⟩ := h [] (p.right (k + 1)) (Nat.succ_pos _) (fun hne => absurd rfl hne)
  rw [Gap.ofBlanks_nil] at hq
  refine ⟨q, ?_⟩
  rw [singleBody, if_neg hbreak, if_neg (by simp), List.nil_append, List.append_assoc, hk, hq]
  simp [addText]

theorem readsInLine_space (hhead : cs.head?.any isBreak = false) (h : ReadsInLine n cs rest) :
    ReadsInLine n (' ' :: cs) rest := by
  intro bl p _ _
  obtain ⟨q, hq⟩ := h (bl ++ [' ']) p.right (Nat.succ_pos _) (fun _ => hhead)
  refine ⟨q, ?_⟩
  rw [singleBody, if_neg (by decide), if_neg (by simp), List.nil_append, List.append_assoc,
    if_neg (by decide), List.singleton_append, quotedBody_blank rfl, Gap.addBlank_ofBlanks, hq]
  simp

theorem readsAfterBreaks_word (hn : 0 < n) (hc : isWord c = true) (h : ReadsInLine n cs rest) :
    ReadsAfterBreaks n (c :: cs) rest := by
  intro b more p hb _
  have hbreak : ¬ isBreak c = true := by simp [isBreak_of_isWord hc]
  have hp : 0 < (p.right n).column := Nat.lt_add_left _ hn
  obtain ⟨k, hk⟩ := quotedBody_single (g := .ofBreaks b more) hc hp
    (singleBody n false cs ++ '\'' :: rest)
  obtain ⟨q, hq⟩ := h [] ((p.right n).right (k + 1)) (Nat.succ_pos _) (fun hne => absurd rfl hne)
  rw [Gap.ofBlanks_nil] at hq
  refine ⟨q, ?_⟩
  rw [singleBody, if_neg hbreak, if_pos rfl, List.append_assoc, List.append_assoc,
    quotedBody_spaces rfl, hk, hq, Gap.fold_ofBreaks hb]
  simp [addText]

theorem quotedBody_singleBody (hn : 0 < n) (hcs : IsSingle cs) (hr : rest.head? ≠ some '\'') :
    ReadsInLine n cs rest ∧ ReadsAfterBreaks n cs rest := by
  induction cs with
  | nil => exact ⟨readsInLine_nil hr, readsAfterBreaks_nil hn hr⟩
  | cons c cs ih =>
    obtain ⟨ihLine, ihBreak⟩ := ih hcs.tail
    obtain ⟨hplain, hcn⟩ := hcs.chars c List.mem_cons_self
    by_cases hbreak : isBreak c = true
    · have hhead : cs.head? ≠ some ' ' := by
        have ha := hcs.after
        cases cs <;> simp_all [hasNeighbours]
      exact ⟨readsInLine_break hplain hbreak hcn hhead ihBreak,
        readsAfterBreaks_break hplain hbreak hhead ihBreak⟩
    · rcases isWord_or_space_of_isPlainly hplain (by simpa using hbreak) with hc | rfl
      · exact ⟨readsInLine_word hc ihLine, readsAfterBreaks_word hn hc ihLine⟩
      · have hhead : cs.head?.any isBreak = false := by
          have hbefore := hcs.before
          cases cs <;> simp_all [hasNeighbours]
        exact ⟨readsInLine_space hhead ihLine, fun _ _ _ _ hne => absurd rfl hne⟩

end SingleBody

/-- A text in single quotes is read back. -/
theorem quotedScalar_single {n : ℕ} (hn : 0 < n) {cs : List Char} (hcs : IsSingle cs) {p : Place}
    (hp : 0 < p.column) (rest : List Char) (hr : rest.head? ≠ some '\'') :
    ∃ q, quotedScalar false p (singleBody n false cs ++ '\'' :: rest) = some ⟨cs, q, rest⟩ :=
  (quotedBody_singleBody hn hcs hr).1 [] p hp (fun h => absurd rfl h)

theorem isSingle_of_fitsSingle {cs : List Char} (h : fitsSingle cs = true) (hn : '\n' ∉ cs) :
    IsSingle cs := by
  simp only [fitsSingle, Bool.and_eq_true, Bool.not_eq_true', List.all_eq_true] at h
  obtain ⟨⟨hall, hafter⟩, hbefore⟩ := h
  refine ⟨fun c hc => ⟨hall c hc, ?_⟩, hafter, hbefore⟩
  rintro rfl
  exact hn hc

end NodeConfig.Yaml
