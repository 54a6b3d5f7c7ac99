import Mathlib
import NodeConfig.Proofs.Except
import NodeConfig.Proofs.Json.Grammar
import NodeConfig.Proofs.Text.Utf8

namespace NodeConfig.Json

theorem hexValue?_eq_some_iff {b : UInt8} {n : ℕ} : hexValue? b = some n ↔ HexDigit b n := by
  simp only [hexValue?, HexDigit, Bool.and_eq_true, decide_eq_true_eq, UInt8.le_iff_toNat_le]
  split_ifs with h1 h2 h3 <;> simp at * <;> omega

theorem hexUnit_sound {bs r : Bytes} {n : ℕ} (h : hexUnit bs = .ok (n, r)) :
    ∃ u, HexUnit u n ∧ bs = u ++ r := by
  unfold hexUnit at h
  split at h
  · next a b c d rest =>
    split at h
    · next w x y z hw hx hy hz =>
      cases h
      rw [hexValue?_eq_some_iff] at hw hx hy hz
      have hn : unit w x y z = 0x1000 * w + 0x100 * x + 0x10 * y + z := by
        rw [unit]
        omega
      exact ⟨[a, b, c, d], hn ▸ .digits hw hx hy hz, rfl⟩
    · cases h
  · cases h

theorem hexUnit_complete {u : Bytes} {n : ℕ} (h : HexUnit u n) (r : Bytes) :
    hexUnit (u ++ r) = .ok (n, r) := by
  cases h with
  | @digits a b c d w x y z ha hb hc hd =>
    rw [← hexValue?_eq_some_iff] at ha hb hc hd
    simp only [List.cons_append, List.nil_append, hexUnit, ha, hb, hc, hd, unit,
      Except.ok.injEq, Prod.mk.injEq, and_true]
    omega

theorem isHigh_iff {n : ℕ} : isHigh n = true ↔ 0xD800 ≤ n ∧ n < 0xDC00 := by
  simp [isHigh]

theorem isLow_iff {n : ℕ} : isLow n = true ↔ 0xDC00 ≤ n ∧ n < 0xE000 := by
  simp [isLow]

theorem lowUnit_sound {high : ℕ} {bs r : Bytes} {c : Char} (h : lowUnit high bs = .ok (c, r)) :
    ∃ u low, HexUnit u low ∧ (0xDC00 ≤ low ∧ low < 0xE000) ∧ pairChar high low = c ∧
      bs = 0x5C :: 0x75 :: (u ++ r) := by
  unfold lowUnit at h
  split at h
  · cases h
  split at h
  · cases h
  next a _ ha =>
  split at h
  · cases h
  split at h
  · cases h
  next b _ hb =>
  split at h
  · cases h
  next low _ hn =>
  split at h
  · next hlow =>
    rw [Except.ok.injEq, Prod.mk.injEq] at h
    obtain ⟨hc, rfl⟩ := h
    obtain ⟨u, hu, rfl⟩ := hexUnit_sound hn
    have ha : a = 0x5C := by simpa using ha
    have hb : b = 0x75 := by simpa using hb
    exact ⟨u, low, hu, isLow_iff.1 hlow, hc, by rw [ha, hb]⟩
  · cases h

theorem unicodeEscape_sound {bs r : Bytes} {c : Char} (h : unicodeEscape bs = .ok (c, r)) :
    ∃ u, Escape (0x75 :: u) c ∧ bs = u ++ r := by
  unfold unicodeEscape at h
  split at h
  · cases h
  next n rest hn =>
  obtain ⟨u, hu, rfl⟩ := hexUnit_sound hn
  split at h
  · cases h
  next hlow =>
  split at h
  · next hhigh =>
    obtain ⟨u', low, hu', hlow', hc, rfl⟩ := lowUnit_sound h
    have he := Escape.pair hu hu' (isHigh_iff.1 hhigh) hlow'
    rw [← pairChar, hc] at he
    exact ⟨_, he, by simp⟩
  · next hhigh =>
    rw [Except.ok.injEq, Prod.mk.injEq] at h
    obtain ⟨rfl, rfl⟩ := h
    rw [isLow_iff] at hlow
    rw [isHigh_iff] at hhigh
    exact ⟨u, .unit hu (by omega), rfl⟩

theorem escaped_sound {bs r : Bytes} {c : Char} (h : escaped bs = .ok (c, r)) :
    ∃ e, Escape e c ∧ bs = e ++ r := by
  unfold escaped at h
  split at h
  · cases h
  next b rest =>
  split at h
  case h_9 =>
    obtain ⟨u, hu, rfl⟩ := unicodeEscape_sound h
    exact ⟨_, hu, rfl⟩
  case h_10 => cases h
  all_goals
    cases h
    exact ⟨[_], .short (by decide), rfl⟩

theorem unicodeEscape_unit {u : Bytes} {n : ℕ} (h : HexUnit u n) (hn : n < 0xD800 ∨ 0xE000 ≤ n)
    (r : Bytes) : unicodeEscape (u ++ r) = .ok (Char.ofNat n, r) := by
  have hlow : ¬isLow n = true := by rw [isLow_iff]; omega
  have hhigh : ¬isHigh n = true := by rw [isHigh_iff]; omega
  rw [unicodeEscape, hexUnit_complete h]
  simp only [if_neg hlow, if_neg hhigh]

theorem unicodeEscape_pair {u u' : Bytes} {high low : ℕ} (h : HexUnit u high) (h' : HexUnit u' low)
    (hhigh : 0xD800 ≤ high ∧ high < 0xDC00) (hlow : 0xDC00 ≤ low ∧ low < 0xE000) (r : Bytes) :
    unicodeEscape (u ++ 0x5C :: 0x75 :: (u' ++ r)) = .ok (pairChar high low, r) := by
  have hl : ¬isLow high = true := by rw [isLow_iff]; omega
  rw [unicodeEscape, hexUnit_complete h]
  simp only [if_neg hl, if_pos (isHigh_iff.2 hhigh)]
  simp [lowUnit, hexUnit_complete h', isLow_iff.2 hlow]

theorem escaped_complete {e : Bytes} {c : Char} (h : Escape e c) (r : Bytes) :
    escaped (e ++ r) = .ok (c, r) := by
  cases h with
  | @short b c h =>
    simp only [shortEscapes, List.mem_cons, Prod.mk.injEq, List.not_mem_nil, or_false] at h
    rcases h with ⟨rfl, rfl⟩ | ⟨rfl, rfl⟩ | ⟨rfl, rfl⟩ | ⟨rfl, rfl⟩ | ⟨rfl, rfl⟩ | ⟨rfl, rfl⟩ |
      ⟨rfl, rfl⟩ | ⟨rfl, rfl⟩ <;> rfl
  | unit h hn => exact unicodeEscape_unit h hn r
  | pair h h' hhigh hlow =>
    have hp := unicodeEscape_pair h h' hhigh hlow r
    simpa [escaped, pairChar] using hp

theorem plain_iff {a : UInt8} {c : Char} {tail : Bytes} (h : Utf8.encodeChar c = a :: tail) :
    (a ≠ 0x22 ∧ a ≠ 0x5C ∧ ¬a < 0x20) ↔ 0x20 ≤ c.toNat ∧ c ≠ '"' ∧ c ≠ '\\' := by
  obtain ⟨a', tail', h', ha⟩ := Utf8.encodeChar_begin c
  obtain ⟨rfl, -⟩ := List.cons.inj (h.symm.trans h')
  have hquote : c = '"' ↔ c.toNat = 0x22 := by rw [← Char.toNat_inj]; rfl
  have hslash : c = '\\' ↔ c.toNat = 0x5C := by rw [← Char.toNat_inj]; rfl
  rw [Ne, Ne, Ne, Ne, hquote, hslash, ← UInt8.toNat_inj, ← UInt8.toNat_inj, UInt8.lt_iff_toNat_lt]
  simp
  omega

theorem stringBody_sound {bad : Option ℕ} {bs r : Bytes} {cs : List Char}
    (h : stringBody bad bs = .ok (cs, r)) :
    bad = none ∧ ∃ text, Characters text cs ∧ bs = text ++ 0x22 :: r := by
  fun_induction stringBody bad bs generalizing cs with
  | case1 => cases h
  | case2 => cases h; exact ⟨rfl, [], .nil, rfl⟩
  | case3 => cases h
  | case4 => cases h
  | case5 bad rest c r' hesc _ ih =>
    obtain ⟨⟨ds, t⟩, hbody, heq⟩ := Except.map_eq_ok_iff.1 h
    rw [Prod.mk.injEq] at heq
    obtain ⟨rfl, rfl⟩ := heq
    obtain ⟨hbad, text, htext, rfl⟩ := ih hbody
    obtain ⟨e, he, rfl⟩ := escaped_sound hesc
    exact ⟨hbad, _, .escape he htext, by simp⟩
  | case6 => cases h
  | case7 bad a rest hquote hslash hcontrol c r' hhead ih =>
    obtain ⟨⟨ds, t⟩, hbody, heq⟩ := Except.map_eq_ok_iff.1 h
    rw [Prod.mk.injEq] at heq
    obtain ⟨rfl, rfl⟩ := heq
    obtain ⟨hbad, text, htext, rfl⟩ := ih hbody
    have henc := Utf8.encodeChar_of_head hhead
    obtain ⟨a', tail, hc, -⟩ := Utf8.encodeChar_begin c
    obtain ⟨rfl, -⟩ : a' = a ∧ _ := by simpa [hc] using henc
    have hplain := (plain_iff hc).1 ⟨hquote, hslash, hcontrol⟩
    exact ⟨hbad, _, .plain hplain htext, by rw [← henc, List.append_assoc]⟩
  | case8 bad a rest _ _ _ _ ih =>
    -- A byte that is not UTF-8 is never forgotten.
    obtain ⟨hbad, -⟩ := ih h
    cases bad <;> cases hbad

theorem stringBody_complete {text : Bytes} {cs : List Char} (h : Characters text cs) (r : Bytes) :
    stringBody none (text ++ 0x22 :: r) = .ok (cs, r) := by
  induction h with
  | nil => simp [stringBody]
  | @plain c bs cs hc _ ih =>
    obtain ⟨a, tail, henc, hhead⟩ := Utf8.head_encodeChar c (bs ++ 0x22 :: r)
    obtain ⟨hquote, hslash, hcontrol⟩ := (plain_iff henc).2 hc
    rw [henc, List.append_assoc, List.cons_append, stringBody]
    simp only [if_neg hquote, if_neg hslash, if_neg hcontrol]
    split
    · next hh =>
      rw [hhead, Utf8.Head.char.injEq] at hh
      obtain ⟨rfl, rfl⟩ := hh
      rw [ih]
      rfl
    · next hh => exact absurd hhead (hh _ _)
  | @escape e c bs cs he _ ih =>
    have hesc := escaped_complete he (bs ++ 0x22 :: r)
    rw [List.cons_append, List.append_assoc, stringBody]
    simp only [if_neg (show ¬(0x5C : UInt8) = 0x22 by decide), if_true]
    split
    · next hh => rw [hesc] at hh; cases hh
    · next hh =>
      rw [hesc, Except.ok.injEq, Prod.mk.injEq] at hh
      obtain ⟨rfl, rfl⟩ := hh
      rw [ih]
      rfl

theorem readString_eq_ok_iff {bs r : Bytes} {s : String} :
    readString bs = .ok (s, r) ↔ ∃ text, StringText text s ∧ 0x22 :: bs = text ++ r := by
  rw [readString, Except.map_eq_ok_iff]
  constructor
  · rintro ⟨⟨cs, r'⟩, hbody, heq⟩
    rw [Prod.mk.injEq] at heq
    obtain ⟨rfl, rfl⟩ := heq
    obtain ⟨-, text, htext, rfl⟩ := stringBody_sound hbody
    exact ⟨_, .quotes htext, by simp⟩
  · rintro ⟨_, ⟨htext⟩, heq⟩
    rename_i text cs
    obtain rfl : bs = text ++ 0x22 :: r := by simpa using heq
    exact ⟨_, stringBody_complete htext r, rfl⟩

end NodeConfig.Json
