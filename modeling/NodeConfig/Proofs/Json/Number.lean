import Mathlib
import NodeConfig.Proofs.Json.Grammar

namespace NodeConfig.Json

def NoDigit (rest : Bytes) : Prop := ∀ b ∈ rest.head?, isDigit b = false

def Stops (rest : Bytes) : Prop :=
  ∀ b ∈ rest.head?, isDigit b = false ∧ b ≠ 0x2E ∧ b ≠ 0x65 ∧ b ≠ 0x45

theorem Stops.noDigit {rest : Bytes} (h : Stops rest) : NoDigit rest := fun b hb => (h b hb).1

theorem noDigit_cons {b : UInt8} {rest : Bytes} (h : isDigit b = false) : NoDigit (b :: rest) := by
  rintro _ ⟨⟩
  exact h

/-! ### Digits -/

theorem digits_append {ds rest : Bytes} (hd : ∀ d ∈ ds, isDigit d = true) (hr : NoDigit rest) :
    digits (ds ++ rest) = (ds, rest) := by
  have hrest : rest.takeWhile isDigit = [] ∧ rest.dropWhile isDigit = rest := by
    cases rest with
    | nil => exact ⟨rfl, rfl⟩
    | cons b r =>
      have hb : isDigit b = false := hr b rfl
      exact ⟨by rw [List.takeWhile_cons, if_neg (by simp [hb])],
        by rw [List.dropWhile_cons, if_neg (by simp [hb])]⟩
  rw [digits, List.takeWhile_append_of_pos hd, List.dropWhile_append_of_pos hd, hrest.1, hrest.2,
    List.append_nil]

theorem digits_split (bs : Bytes) :
    ∃ ds rest, bs = ds ++ rest ∧ (∀ d ∈ ds, isDigit d = true) ∧ NoDigit rest := by
  refine ⟨bs.takeWhile isDigit, bs.dropWhile isDigit, List.takeWhile_append_dropWhile.symm,
    fun d hd => List.mem_takeWhile_imp hd, ?_⟩
  intro b hb
  have hhead := List.head?_dropWhile_not isDigit bs
  rw [Option.mem_def.1 hb] at hhead
  simpa using hhead

theorem isDigits_begin {d : UInt8} (hd : isDigit d = true) (t : Bytes) :
    ∃ ds rest, d :: t = ds ++ rest ∧ IsDigits ds ∧ NoDigit rest := by
  obtain ⟨ds, rest, hsplit, hds, hrest⟩ := digits_split (d :: t)
  refine ⟨ds, rest, hsplit, ⟨?_, hds⟩, hrest⟩
  rintro rfl
  have hb : isDigit d = false := hrest d (by rw [← List.nil_append rest, ← hsplit]; rfl)
  rw [hd] at hb
  cases hb

theorem le_foldl_digit (n : ℕ) (ds : Bytes) : n ≤ ds.foldl (fun n d => n * 10 + digit d) n := by
  induction ds generalizing n with
  | nil => exact Nat.le_refl n
  | cons d ds ih =>
    have hn := ih (n * 10 + digit d)
    rw [List.foldl_cons]
    omega

/-- An exponent is read as its value, and given up as soon as that is out of 31 bits. -/
theorem exponentDigits_eq {n : ℕ} (ds : Bytes) :
    (ds.foldl (fun n d => n * 10 + digit d) n < pow2 31 →
      exponentDigits n ds = .ok (ds.foldl (fun n d => n * 10 + digit d) n)) ∧
    (n < pow2 31 → ¬ds.foldl (fun n d => n * 10 + digit d) n < pow2 31 →
      ∃ more, exponentDigits n ds = .error more) := by
  induction ds generalizing n with
  | nil => exact ⟨fun _ => rfl, fun hn h => absurd hn h⟩
  | cons d ds ih =>
    have hmono := le_foldl_digit (n * 10 + digit d) ds
    rw [List.foldl_cons, exponentDigits]
    refine ⟨fun h => ?_, fun _ h => ?_⟩
    · rw [if_pos (lt_of_le_of_lt hmono h)]
      exact ih.1 h
    · by_cases hnext : n * 10 + digit d < pow2 31
      · rw [if_pos hnext]
        exact ih.2 hnext h
      · exact ⟨ds, if_neg hnext⟩

/-! ### The parts of a numeral -/

variable {positive : Bool} {s : ℕ} {start : ℤ} {bs rest r : Bytes} {v : JsonNumber}

theorem finish_eq_ok_iff : finish positive s start rest = .ok (v, r) ↔
    scaled? positive s start none = some v ∧ r = rest := by
  rw [finish, scaled?]
  cases real? positive s start with
  | none => simp [failBefore]
  | some x => simp [eq_comm]

theorem IsDigits.head {ds : Bytes} (h : IsDigits ds) : ∃ d t, ds = d :: t ∧ isDigit d = true := by
  cases ds with
  | nil => exact absurd rfl h.1
  | cons d t => exact ⟨d, t, rfl, h.2 d List.mem_cons_self⟩

theorem exponentPart_eq (e : Exponent) (hr : NoDigit rest) :
    (∀ k, exponentDigits 0 e.digits = .ok k →
      exponentPart positive s start (Sign.text e.sign ++ (e.digits ++ rest)) =
        finish positive s (if e.up then start + k else start - k) rest) ∧
    ∀ more, exponentDigits 0 e.digits = .error more →
      exponentPart positive s start (Sign.text e.sign ++ (e.digits ++ rest)) =
        if s ≠ 0 ∧ e.up then .error ⟨.outOfRange, more.length + rest.length⟩
        else .ok (.real ⟨!positive, 0, Binary64.minExponent⟩, rest) := by
  obtain ⟨capital, sign, ds, hds⟩ := e
  obtain ⟨d, t, rfl, hd⟩ := hds.head
  have hdigits := digits_append hds.2 hr
  rw [List.cons_append] at hdigits
  rcases sign with _ | _ | _
  · have hplus : d ≠ 0x2B := by rintro rfl; cases hd
    have hminus : d ≠ 0x2D := by rintro rfl; cases hd
    constructor <;> intro x hx <;>
      simp [exponentPart, Sign.text, Exponent.up, hplus, hminus, hd, hdigits, hx]
  · constructor <;> intro x hx <;>
      simp [exponentPart, Sign.text, Exponent.up, hd, hdigits, hx]
  · constructor <;> intro x hx <;>
      simp [exponentPart, Sign.text, Exponent.up, hd, hdigits, hx]

theorem exponentPart_eq_ok_iff (e : Exponent) (hr : NoDigit rest) :
    exponentPart positive s start (Sign.text e.sign ++ (e.digits ++ rest)) = .ok (v, r) ↔
      scaled? positive s start (some e) = some v ∧ r = rest := by
  obtain ⟨hfits, hlarge⟩ := exponentDigits_eq (n := 0) e.digits
  obtain ⟨hok, herror⟩ := @exponentPart_eq positive s start rest e hr
  rw [scaled?]
  by_cases hk : decimal e.digits < pow2 31
  · rw [hok _ (hfits hk), if_pos hk]
    exact finish_eq_ok_iff
  · obtain ⟨more, hmore⟩ := hlarge (by decide) hk
    rw [herror _ hmore, if_neg hk]
    split_ifs <;> simp [eq_comm]

theorem exponentPart_begin (h : exponentPart positive s start bs = .ok (v, r)) (capital : Bool) :
    ∃ (e : Exponent) (rest : Bytes), NoDigit rest ∧ e.capital = capital ∧
      bs = Sign.text e.sign ++ (e.digits ++ rest) := by
  have hsign : ∃ sign ds, bs = Sign.text sign ++ ds ∧ ∃ d t, ds = d :: t ∧ isDigit d = true := by
    unfold exponentPart at h
    split at h
    next up ds heq =>
      have hd : ∃ d t, ds = d :: t ∧ isDigit d = true := by
        split at h
        · cases h
        · next d t =>
          split at h
          · cases h
          · next hd => exact ⟨d, t, rfl, by simpa using hd⟩
      split at heq
      · exact ⟨some .plus, ds, by cases heq; rfl, hd⟩
      · exact ⟨some .minus, ds, by cases heq; rfl, hd⟩
      · exact ⟨none, ds, by cases heq; rfl, hd⟩
  obtain ⟨sign, ds, rfl, d, t, rfl, hd⟩ := hsign
  obtain ⟨ds, rest, hsplit, hds, hrest⟩ := isDigits_begin hd t
  exact ⟨⟨capital, sign, ds, hds⟩, rest, hrest, rfl, by rw [hsplit]⟩

/-- The text after the digits and the point cannot go on with an exponent. -/
def NoLetter (rest : Bytes) : Prop := ∀ b ∈ rest.head?, b ≠ 0x65 ∧ b ≠ 0x45

theorem afterFraction_noLetter (hr : NoLetter rest) :
    afterFraction positive s start rest = finish positive s start rest := by
  unfold afterFraction
  split
  · exact absurd rfl (hr 0x65 rfl).1
  · exact absurd rfl (hr 0x45 rfl).2
  · rfl

theorem afterFraction_eq_ok_iff (e : Option Exponent) (hr : NoDigit rest)
    (hletter : e = none → NoLetter rest) :
    afterFraction positive s start (exponentText e ++ rest) = .ok (v, r) ↔
      scaled? positive s start e = some v ∧ r = rest := by
  cases e with
  | none =>
    rw [exponentText, List.nil_append, afterFraction_noLetter (hletter rfl)]
    exact finish_eq_ok_iff
  | some e =>
    rw [← exponentPart_eq_ok_iff e hr, exponentText, Exponent.text]
    cases e.capital <;> simp [afterFraction]

theorem afterFraction_begin (h : afterFraction positive s start bs = .ok (v, r))
    (hd : NoDigit bs) :
    ∃ e rest, NoDigit rest ∧ (e = none → NoLetter rest) ∧ bs = exponentText e ++ rest := by
  unfold afterFraction at h
  split at h
  · obtain ⟨e, rest, hrest, hcapital, rfl⟩ := exponentPart_begin h false
    exact ⟨some e, rest, hrest, nofun, by simp [exponentText, Exponent.text, hcapital]⟩
  · obtain ⟨e, rest, hrest, hcapital, rfl⟩ := exponentPart_begin h true
    exact ⟨some e, rest, hrest, nofun, by simp [exponentText, Exponent.text, hcapital]⟩
  · next hsmall hlarge =>
    refine ⟨none, bs, hd, fun _ b hb => ?_, rfl⟩
    obtain ⟨t, rfl⟩ := List.head?_eq_some_iff.1 hb
    exact ⟨fun hb => hsmall t (by rw [hb]), fun hb => hlarge t (by rw [hb])⟩

theorem fractionPart_eq {ds : Bytes} (hds : IsDigits ds) (hr : NoDigit rest) :
    fractionPart positive s start (ds ++ rest) =
      afterFraction positive (absorb s ds).1 (start - (absorb s ds).2) rest := by
  obtain ⟨d, t, rfl, hd⟩ := hds.head
  simp only [fractionPart, digits_append hds.2 hr]

theorem fractionPart_begin (h : fractionPart positive s start bs = .ok (v, r)) :
    ∃ ds rest, bs = ds ++ rest ∧ IsDigits ds ∧ NoDigit rest := by
  obtain ⟨ds, rest, rfl, hds, hrest⟩ := digits_split bs
  refine ⟨ds, rest, rfl, ⟨?_, hds⟩, hrest⟩
  rintro rfl
  have hdigits := digits_append hds hrest
  rw [fractionPart, hdigits] at h
  cases h

def afterWhole (positive : Bool) (s dropped : ℕ) (bs : Bytes) :
    Except Fault (JsonNumber × Bytes) :=
  match bs with
  | 0x2E :: r => fractionPart positive s dropped r
  | 0x65 :: r | 0x45 :: r => exponentPart positive s dropped r
  | _ => if dropped = 0 then .ok (whole positive s, bs) else finish positive s dropped bs

theorem readNumber_eq {ds : Bytes} (hds : IsDigits ds) (hlead : ds.head? = some 0x30 → ds = [0x30])
    (hr : NoDigit rest) :
    readNumber positive (ds ++ rest) =
      afterWhole positive (absorb 0 ds).1 (ds.length - (absorb 0 ds).2) rest := by
  obtain ⟨d, t, rfl, hd⟩ := hds.head
  by_cases hzero : d = 0x30
  · obtain rfl : t = [] := by simpa [hzero] using hlead
    have hnone : rest.head?.any isDigit = false := by
      cases hb : rest.head? with
      | none => rfl
      | some b => exact hr b hb
    subst hzero
    simp only [readNumber, List.singleton_append, hd, hnone]
    rfl
  · have hdigits := digits_append hds.2 hr
    rw [List.cons_append] at hdigits
    simp only [readNumber, List.cons_append, hd, hzero, hdigits]
    rfl

theorem readNumber_begin (h : readNumber positive bs = .ok (v, r)) :
    ∃ ds rest, bs = ds ++ rest ∧ IsDigits ds ∧ (ds.head? = some 0x30 → ds = [0x30]) ∧
      NoDigit rest := by
  unfold readNumber at h
  split at h
  · cases h
  next b t =>
  split at h
  · cases h
  next hb =>
  have hb : isDigit b = true := by simpa using hb
  by_cases hzero : b = 0x30
  · refine ⟨[b], t, rfl, ⟨List.cons_ne_nil _ _, by simpa using hb⟩, fun _ => by rw [hzero], ?_⟩
    intro d hd
    by_contra hdigit
    have hany : t.head?.any isDigit = true := by
      rw [Option.mem_def.1 hd]
      simpa using hdigit
    simp [hzero, hany, failHere] at h
  · obtain ⟨ds, rest, hsplit, hds, hrest⟩ := isDigits_begin hb t
    refine ⟨ds, rest, hsplit, hds, fun hhead => ?_, hrest⟩
    obtain ⟨t', rfl⟩ := List.head?_eq_some_iff.1 hhead
    exact absurd (List.cons.inj hsplit).1 hzero

/-! ### Whole numerals -/

/-- No part of the numeral goes on with what follows it. -/
structure Numeral.EndsBefore (n : Numeral) (rest : Bytes) : Prop where
  noDigit : NoDigit rest
  noLetter : n.exponent = none → NoLetter rest
  noPoint : n.fraction = none → n.exponent = none → rest.head? ≠ some 0x2E

theorem Stops.endsBefore (h : Stops rest) (n : Numeral) : n.EndsBefore rest where
  noDigit := h.noDigit
  noLetter _ b hb := ⟨(h b hb).2.2.1, (h b hb).2.2.2⟩
  noPoint _ _ hb := (h _ hb).2.1 rfl

theorem noDigit_exponentText (e : Option Exponent) (hr : NoDigit rest) :
    NoDigit (exponentText e ++ rest) := by
  cases e with
  | none => exact hr
  | some e =>
    apply noDigit_cons
    cases e.capital <;> rfl

theorem noDigit_fractionText (f : Option Bytes) (hr : NoDigit rest) :
    NoDigit (fractionText f ++ rest) := by
  cases f with
  | none => exact hr
  | some ds => exact noDigit_cons rfl

theorem afterWhole_plain {dropped : ℕ} (hletter : NoLetter rest) (hpoint : rest.head? ≠ some 0x2E) :
    afterWhole positive s dropped rest =
      if dropped = 0 then .ok (whole positive s, rest) else finish positive s dropped rest := by
  unfold afterWhole
  split
  · exact absurd rfl hpoint
  · exact absurd rfl (hletter 0x65 rfl).1
  · exact absurd rfl (hletter 0x45 rfl).2
  · rfl

theorem readNumber_eq_ok_iff (n : Numeral) (h : n.EndsBefore rest) :
    readNumber (!n.negative) (n.unsigned ++ rest) = .ok (v, r) ↔
      n.value? = some v ∧ r = rest := by
  have hd := noDigit_fractionText n.fraction (noDigit_exponentText n.exponent h.noDigit)
  rw [Numeral.unsigned, List.append_assoc, List.append_assoc,
    readNumber_eq n.isDigits_whole n.leading hd, Numeral.value?]
  obtain ⟨negative, ds, fraction, exponent, hds, hlead, hfraction⟩ := n
  cases fraction with
  | some places =>
    change fractionPart _ _ _ (places ++ (exponentText exponent ++ rest)) = _ ↔ _
    rw [fractionPart_eq (hfraction places rfl) (noDigit_exponentText exponent h.noDigit)]
    exact afterFraction_eq_ok_iff exponent h.noDigit h.noLetter
  | none =>
    cases exponent with
    | some e =>
      rw [← exponentPart_eq_ok_iff e h.noDigit]
      cases hc : e.capital <;> simp [afterWhole, fractionText, exponentText, Exponent.text, hc]
    | none =>
      simp only [fractionText, exponentText, List.nil_append]
      rw [afterWhole_plain (h.noLetter rfl) (h.noPoint rfl rfl)]
      split_ifs
      · simp [eq_comm]
      · exact finish_eq_ok_iff

theorem afterWhole_begin {dropped : ℕ} (h : afterWhole positive s dropped bs = .ok (v, r))
    (hd : NoDigit bs) :
    ∃ fraction exponent rest, (∀ ds ∈ fraction, IsDigits ds) ∧
      bs = fractionText fraction ++ (exponentText exponent ++ rest) ∧ NoDigit rest ∧
      (exponent = none → NoLetter rest) ∧
      (fraction = none → exponent = none → rest.head? ≠ some 0x2E) := by
  unfold afterWhole at h
  split at h
  · obtain ⟨ds, rest, rfl, hds, hrest⟩ := fractionPart_begin h
    rw [fractionPart_eq hds hrest] at h
    obtain ⟨e, rest, hdigit, hletter, rfl⟩ := afterFraction_begin h hrest
    exact ⟨some ds, e, rest, by rintro _ ⟨⟩; exact hds, rfl, hdigit, hletter, nofun⟩
  · obtain ⟨e, rest, hrest, hcapital, rfl⟩ := exponentPart_begin h false
    exact ⟨none, some e, rest, nofun, by simp [fractionText, exponentText, Exponent.text, hcapital],
      hrest, nofun, nofun⟩
  · obtain ⟨e, rest, hrest, hcapital, rfl⟩ := exponentPart_begin h true
    exact ⟨none, some e, rest, nofun, by simp [fractionText, exponentText, Exponent.text, hcapital],
      hrest, nofun, nofun⟩
  · next hpoint hsmall hlarge =>
    refine ⟨none, none, bs, nofun, rfl, hd, fun _ b hb => ?_, fun _ _ hb => ?_⟩
    · obtain ⟨t, rfl⟩ := List.head?_eq_some_iff.1 hb
      exact ⟨fun hb => hsmall t (by rw [hb]), fun hb => hlarge t (by rw [hb])⟩
    · obtain ⟨t, rfl⟩ := List.head?_eq_some_iff.1 hb
      exact hpoint t rfl

/-- What is read is a numeral that is not infinite, as long as it goes. -/
theorem readNumber_sound (h : readNumber positive bs = .ok (v, r)) :
    ∃ n : Numeral, n.negative = !positive ∧ n.value? = some v ∧ bs = n.unsigned ++ r := by
  obtain ⟨ds, rest, rfl, hds, hlead, hrest⟩ := readNumber_begin h
  have hafter := h
  rw [readNumber_eq hds hlead hrest] at hafter
  obtain ⟨f, e, rest, hf, rfl, hdigit, hletter, hpoint⟩ := afterWhole_begin hafter hrest
  let n : Numeral := ⟨!positive, ds, f, e, hds, hlead, hf⟩
  have hbs : ds ++ (fractionText f ++ (exponentText e ++ rest)) = n.unsigned ++ rest := by
    simp [n, Numeral.unsigned]
  have hpos : positive = !n.negative := (Bool.not_not positive).symm
  rw [hbs, hpos, readNumber_eq_ok_iff n ⟨hdigit, hletter, hpoint⟩] at h
  obtain ⟨hv, rfl⟩ := h
  exact ⟨n, rfl, hv, hbs⟩

theorem readNumber_complete {n : Numeral} (hv : n.value? = some v) (hr : Stops r) :
    readNumber (!n.negative) (n.unsigned ++ r) = .ok (v, r) :=
  (readNumber_eq_ok_iff n (hr.endsBefore n)).2 ⟨hv, rfl⟩

theorem Numeral.unsigned_head (n : Numeral) : ∃ d t, n.unsigned = d :: t ∧ isDigit d = true := by
  obtain ⟨d, t, hwhole, hd⟩ := n.isDigits_whole.head
  exact ⟨d, _, by rw [Numeral.unsigned, hwhole, List.cons_append], hd⟩

end NodeConfig.Json
