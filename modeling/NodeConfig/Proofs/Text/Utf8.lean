import Mathlib
import NodeConfig.Text.Utf8

namespace NodeConfig.Utf8

@[simp] theorem octet_toNat {n : ℕ} (h : n < 0x100) : (octet n).toNat = n := by
  simp [octet, Nat.mod_eq_of_lt h]

theorem width_eq (b : UInt8) :
    width b =
      if b.toNat < 0x80 then 1 else if b.toNat < 0xC2 then 0 else if b.toNat < 0xE0 then 2
      else if b.toNat < 0xF0 then 3 else if b.toNat < 0xF5 then 4 else 0 := by
  simp [width, UInt8.lt_iff_toNat_lt]

theorem isContinuation_iff (b : UInt8) :
    isContinuation b = true ↔ 0x80 ≤ b.toNat ∧ b.toNat < 0xC0 := by
  simp [isContinuation, UInt8.lt_iff_toNat_lt, UInt8.le_iff_toNat_le]

theorem isSecond_iff (a b : UInt8) :
    isSecond a b = true ↔ (0x80 ≤ b.toNat ∧ b.toNat < 0xC0) ∧
      (a.toNat = 0xE0 → 0xA0 ≤ b.toNat) ∧ (a.toNat = 0xED → b.toNat < 0xA0) ∧
      (a.toNat = 0xF0 → 0x90 ≤ b.toNat) ∧ (a.toNat = 0xF4 → b.toNat < 0x90) := by
  simp only [isSecond, Bool.and_eq_true, isContinuation_iff, ← UInt8.toNat_inj]
  split_ifs <;> simp_all [UInt8.lt_iff_toNat_lt, UInt8.le_iff_toNat_le]

theorem toNat_valid (c : Char) : c.toNat < 0xD800 ∨ (0xDFFF < c.toNat ∧ c.toNat < 0x110000) :=
  c.valid

/-- A byte below `0x80` begins a character that is that byte. -/
theorem encodeChar_begin (c : Char) : ∃ a tail, encodeChar c = a :: tail ∧
    (a.toNat = c.toNat ∨ 0x80 ≤ a.toNat ∧ 0x80 ≤ c.toNat) := by
  have hv := toNat_valid c
  simp only [encodeChar]
  split_ifs with h1 h2 h3
  · exact ⟨_, _, rfl, .inl (octet_toNat (by omega))⟩
  all_goals
    refine ⟨_, _, rfl, .inr ⟨?_, by omega⟩⟩
    rw [octet_toNat (by omega)]
    omega

/-- A byte below `0x80` stands for nothing but its own character. -/
theorem toNat_of_mem_encodeChar {c : Char} {b : UInt8} (h : b ∈ encodeChar c)
    (hb : b.toNat < 0x80) : b.toNat = c.toNat := by
  have hv := toNat_valid c
  have hne : ∀ n, 0x80 ≤ n → n < 0x100 → b ≠ octet n := by
    rintro n hlow hhigh rfl
    rw [octet_toNat hhigh] at hb
    omega
  simp only [encodeChar] at h
  split_ifs at h
  · rw [List.mem_singleton.1 h, octet_toNat (by omega)]
  all_goals simp (disch := omega) only [List.mem_cons, List.not_mem_nil, hne, or_self] at h

theorem head_one {a : UInt8} {rest : Bytes} (ha : a.toNat < 0x80) :
    head a rest = .char (Char.ofNat a.toNat) rest := by
  simp [head, width_eq, ha]

theorem head_two {a b : UInt8} {rest : Bytes}
    (ha : 0xC2 ≤ a.toNat ∧ a.toNat < 0xE0) (hb : isSecond a b = true) :
    head a (b :: rest) = .char (char2 a b) rest := by
  have hw : width a = 2 := by rw [width_eq]; grind
  simp [head, hw, hb]

theorem head_three {a b c : UInt8} {rest : Bytes}
    (ha : 0xE0 ≤ a.toNat ∧ a.toNat < 0xF0) (hb : isSecond a b = true)
    (hc : isContinuation c = true) :
    head a (b :: c :: rest) = .char (char3 a b c) rest := by
  have hw : width a = 3 := by rw [width_eq]; grind
  simp [head, hw, hb, hc]

theorem head_four {a b c d : UInt8} {rest : Bytes}
    (ha : 0xF0 ≤ a.toNat ∧ a.toNat < 0xF5) (hb : isSecond a b = true)
    (hc : isContinuation c = true) (hd : isContinuation d = true) :
    head a (b :: c :: d :: rest) = .char (char4 a b c d) rest := by
  have hw : width a = 4 := by rw [width_eq]; grind
  simp [head, hw, hb, hc, hd]

/-- The bytes of a character, whatever follows them, are read as that character. -/
theorem head_encodeChar (c : Char) (rest : Bytes) :
    ∃ a tail, encodeChar c = a :: tail ∧ head a (tail ++ rest) = .char c rest := by
  have hv := toNat_valid c
  have hc : Char.ofNat c.toNat = c := Char.ofNat_toNat c
  unfold encodeChar
  generalize c.toNat = n at hv hc
  -- One case for each width; that the code is no surrogate is used for three bytes.
  by_cases h1 : n < 0x80
  · refine ⟨octet n, [], by simp [h1], ?_⟩
    have ho : (octet n).toNat = n := octet_toNat (by omega)
    rw [List.nil_append, head_one (by omega), ho, hc]
  by_cases h2 : n < 0x800
  · refine ⟨_, _, by rw [if_neg h1, if_pos h2], ?_⟩
    have ha : (octet (0xC0 + n / 0x40)).toNat = 0xC0 + n / 0x40 := octet_toNat (by omega)
    have hb : (octet (0x80 + n % 0x40)).toNat = 0x80 + n % 0x40 := octet_toNat (by omega)
    rw [List.singleton_append, head_two (by omega) ((isSecond_iff _ _).2 (by omega))]
    rw [char2, payload, ha, hb, show (0xC0 + n / 0x40) % 0x20 * 0x40 + (0x80 + n % 0x40) % 0x40 = n
      by omega, hc]
  by_cases h3 : n < 0x10000
  · refine ⟨_, _, by rw [if_neg h1, if_neg h2, if_pos h3], ?_⟩
    have ha : (octet (0xE0 + n / 0x1000)).toNat = 0xE0 + n / 0x1000 := octet_toNat (by omega)
    have hb : (octet (0x80 + n / 0x40 % 0x40)).toNat = 0x80 + n / 0x40 % 0x40 :=
      octet_toNat (by omega)
    have hd : (octet (0x80 + n % 0x40)).toNat = 0x80 + n % 0x40 := octet_toNat (by omega)
    rw [List.cons_append, List.singleton_append, head_three (by omega)
      ((isSecond_iff _ _).2 (by omega)) ((isContinuation_iff _).2 (by omega))]
    rw [char3, payload, payload, ha, hb, hd, show (0xE0 + n / 0x1000) % 0x10 * 0x1000 +
      (0x80 + n / 0x40 % 0x40) % 0x40 * 0x40 + (0x80 + n % 0x40) % 0x40 = n by omega, hc]
  · refine ⟨_, _, by rw [if_neg h1, if_neg h2, if_neg h3], ?_⟩
    have ha : (octet (0xF0 + n / 0x40000)).toNat = 0xF0 + n / 0x40000 := octet_toNat (by omega)
    have hb : (octet (0x80 + n / 0x1000 % 0x40)).toNat = 0x80 + n / 0x1000 % 0x40 :=
      octet_toNat (by omega)
    have hd : (octet (0x80 + n / 0x40 % 0x40)).toNat = 0x80 + n / 0x40 % 0x40 :=
      octet_toNat (by omega)
    have he : (octet (0x80 + n % 0x40)).toNat = 0x80 + n % 0x40 := octet_toNat (by omega)
    simp only [List.cons_append, List.nil_append]
    rw [head_four (by omega) ((isSecond_iff _ _).2 (by omega))
      ((isContinuation_iff _).2 (by omega)) ((isContinuation_iff _).2 (by omega))]
    rw [char4, payload, payload, payload, ha, hb, hd, he,
      show (0xF0 + n / 0x40000) % 0x08 * 0x40000 + (0x80 + n / 0x1000 % 0x40) % 0x40 * 0x1000 +
        (0x80 + n / 0x40 % 0x40) % 0x40 * 0x40 + (0x80 + n % 0x40) % 0x40 = n by omega, hc]

theorem encode_cons (c : Char) (cs : List Char) : encode (c :: cs) = encodeChar c ++ encode cs :=
  List.flatMap_cons

theorem decodeFrom_encode (cs : List Char) (start : ℕ) : decodeFrom start (encode cs) = .ok cs := by
  induction cs generalizing start with
  | nil => simp [encode, decodeFrom]
  | cons c cs ih =>
    obtain ⟨a, tail, he, hh⟩ := head_encodeChar c (encode cs)
    have hb : encode (c :: cs) = a :: (tail ++ encode cs) := by
      rw [encode_cons, he, List.cons_append]
    rw [hb, decodeFrom]
    split
    · next c' r h =>
      rw [hh, Head.char.injEq] at h
      obtain ⟨rfl, rfl⟩ := h
      rw [ih]
      rfl
    · next n h => rw [hh] at h; cases h
    · next h => rw [hh] at h; cases h

theorem decode_encode (cs : List Char) : decode (encode cs) = .ok cs := decodeFrom_encode cs 0

/-- Bytes of a string are the UTF-8 of its characters. -/
theorem decode_ofString (s : String) : decode (ofString s) = .ok s.toList := decode_encode s.toList

theorem ofString_injective : Function.Injective ofString := by
  intro s t h
  have hd := decode_ofString s
  rw [h, decode_ofString, Except.ok.injEq] at hd
  exact (String.toList_inj.1 hd).symm

theorem ofString_append (s t : String) : ofString (s ++ t) = ofString s ++ ofString t := by
  simp [ofString, encode]

theorem ofString_join (l : List String) : ofString (String.join l) = l.flatMap ofString := by
  simp only [ofString, encode, String.toList_join, List.flatMap_assoc]
  rfl

theorem octet_eq {n : ℕ} {b : UInt8} (h : n = b.toNat) : octet n = b := by
  rw [octet, h]
  exact UInt8.ofNat_toNat

theorem toNat_ofNat {n : ℕ} (h : n < 0xD800 ∨ (0xDFFF < n ∧ n < 0x110000)) :
    (Char.ofNat n).toNat = n := by
  rw [Char.toNat_ofNat, if_pos h]

/-- Which lead bytes a sequence of each width begins with. -/
theorem of_width {a : UInt8} {n : ℕ} (h : width a = n) :
    (n = 1 ∧ a.toNat < 0x80) ∨ (n = 2 ∧ 0xC2 ≤ a.toNat ∧ a.toNat < 0xE0) ∨
      (n = 3 ∧ 0xE0 ≤ a.toNat ∧ a.toNat < 0xF0) ∨ (n = 4 ∧ 0xF0 ≤ a.toNat ∧ a.toNat < 0xF5) ∨
      n = 0 := by
  rw [width_eq] at h
  split_ifs at h <;> omega

section Sequences

variable {a b c d : UInt8}

theorem encodeChar_one (ha : a.toNat < 0x80) : encodeChar (Char.ofNat a.toNat) = [a] := by
  have hn : (Char.ofNat a.toNat).toNat = a.toNat := toNat_ofNat (by omega)
  rw [encodeChar, hn, if_pos ha, octet_eq rfl]

theorem encodeChar_char2 (ha : 0xC2 ≤ a.toNat ∧ a.toNat < 0xE0) (hb : isSecond a b = true) :
    encodeChar (char2 a b) = [a, b] := by
  have hb := (isSecond_iff _ _).1 hb
  have hn : (char2 a b).toNat = a.toNat % 0x20 * 0x40 + b.toNat % 0x40 :=
    toNat_ofNat (by simp only [payload]; omega)
  rw [encodeChar, hn, if_neg (by omega), if_pos (by omega), octet_eq (b := a) (by omega),
    octet_eq (b := b) (by omega)]

theorem encodeChar_char3 (ha : 0xE0 ≤ a.toNat ∧ a.toNat < 0xF0) (hb : isSecond a b = true)
    (hc : isContinuation c = true) : encodeChar (char3 a b c) = [a, b, c] := by
  have hb := (isSecond_iff _ _).1 hb
  have hc := (isContinuation_iff _).1 hc
  have hn : (char3 a b c).toNat =
      a.toNat % 0x10 * 0x1000 + b.toNat % 0x40 * 0x40 + c.toNat % 0x40 :=
    toNat_ofNat (by simp only [payload]; omega)
  rw [encodeChar, hn, if_neg (by omega), if_neg (by omega), if_pos (by omega),
    octet_eq (b := a) (by omega), octet_eq (b := b) (by omega), octet_eq (b := c) (by omega)]

theorem encodeChar_char4 (ha : 0xF0 ≤ a.toNat ∧ a.toNat < 0xF5) (hb : isSecond a b = true)
    (hc : isContinuation c = true) (hd : isContinuation d = true) :
    encodeChar (char4 a b c d) = [a, b, c, d] := by
  have hb := (isSecond_iff _ _).1 hb
  have hc := (isContinuation_iff _).1 hc
  have hd := (isContinuation_iff _).1 hd
  have hn : (char4 a b c d).toNat = a.toNat % 0x08 * 0x40000 + b.toNat % 0x40 * 0x1000 +
      c.toNat % 0x40 * 0x40 + d.toNat % 0x40 :=
    toNat_ofNat (by simp only [payload]; omega)
  rw [encodeChar, hn, if_neg (by omega), if_neg (by omega), if_neg (by omega),
    octet_eq (b := a) (by omega), octet_eq (b := b) (by omega), octet_eq (b := c) (by omega),
    octet_eq (b := d) (by omega)]

end Sequences

/-- What is read as a character is the encoding of that character. -/
theorem encodeChar_of_head {a : UInt8} {rest r : Bytes} {c : Char}
    (h : head a rest = .char c r) : encodeChar c ++ r = a :: rest := by
  unfold head at h
  split at h
  · next hw =>
    cases h
    rw [encodeChar_one (by have := of_width hw; omega)]
    rfl
  · next b rest hw =>
    split at h
    · next hb =>
      cases h
      rw [encodeChar_char2 (by have := of_width hw; omega) hb]
      rfl
    · cases h
  · next b rest hw =>
    split at h
    · next hb =>
      split at h
      · next d rest =>
        split at h
        · next hd =>
          cases h
          rw [encodeChar_char3 (by have := of_width hw; omega) hb hd]
          rfl
        · cases h
      · cases h
    · cases h
  · next b rest hw =>
    split at h
    · next hb =>
      split at h
      · next d rest =>
        split at h
        · next hd =>
          split at h
          · next e rest =>
            split at h
            · next he =>
              cases h
              rw [encodeChar_char4 (by have := of_width hw; omega) hb hd he]
              rfl
            · cases h
          · cases h
        · cases h
      · cases h
    · cases h
  · cases h
  · cases h

theorem encode_of_decodeFrom {start : ℕ} {bs : Bytes} {cs : List Char}
    (h : decodeFrom start bs = .ok cs) : encode cs = bs := by
  fun_induction decodeFrom start bs generalizing cs with
  | case1 start =>
    cases h
    rfl
  | case2 start a rest c r hhead ih =>
    cases hr : decodeFrom (start + (rest.length + 1 - r.length)) r with
    | error e => rw [hr] at h; cases h
    | ok ds =>
      rw [hr] at h
      cases h
      rw [encode_cons, ih hr, encodeChar_of_head hhead]
  | case3 => cases h
  | case4 => cases h

theorem decode_eq_ok_iff {bs : Bytes} {cs : List Char} : decode bs = .ok cs ↔ bs = encode cs := by
  constructor
  · intro h
    exact (encode_of_decodeFrom h).symm
  · rintro rfl
    exact decode_encode cs

/-- Bytes are the text of no string but their own. -/
theorem toString?_eq_some_iff {bs : Bytes} {s : String} :
    toString? bs = some s ↔ bs = ofString s := by
  rw [ofString, ← decode_eq_ok_iff, toString?]
  cases decode bs with
  | error e => simp
  | ok cs => simp [← String.toList_inj]

/-- A character with a smaller code has the smaller bytes, whatever follows the two. -/
theorem encodeChar_lt {c d : Char} (h : c < d) (bs bs' : Bytes) :
    encodeChar c ++ bs < encodeChar d ++ bs' := by
  have hc := toNat_valid c
  have hd := toNat_valid d
  have hlt : c.toNat < d.toNat := h
  have hoctet : ∀ {a b : ℕ}, a < 0x100 → b < 0x100 → (octet a < octet b ↔ a < b) := by
    intro a b ha hb
    rw [UInt8.lt_iff_toNat_lt, octet_toNat ha, octet_toNat hb]
  have hoctet' : ∀ {a b : ℕ}, a < 0x100 → b < 0x100 → (octet a = octet b ↔ a = b) := by
    intro a b ha hb
    rw [← UInt8.toNat_inj, octet_toNat ha, octet_toNat hb]
  unfold encodeChar
  generalize c.toNat = n at *
  generalize d.toNat = m at *
  -- Of two widths the larger one has the larger first byte; in one width the bytes are digits.
  dsimp only
  split_ifs <;>
    simp (disch := omega) only [List.cons_append, List.nil_append, List.cons_lt_cons_iff, hoctet,
      hoctet'] <;>
    omega

theorem encode_lt {cs ds : List Char} (h : cs < ds) : encode cs < encode ds := by
  induction cs generalizing ds with
  | nil =>
    cases ds with
    | nil => exact absurd h (List.lt_irrefl _)
    | cons d ds =>
      obtain ⟨a, tail, hd, -⟩ := encodeChar_begin d
      rw [encode_cons, hd]
      exact List.nil_lt_cons ..
  | cons c cs ih =>
    cases ds with
    | nil => exact absurd h (List.not_lt_nil _)
    | cons d ds =>
      rw [encode_cons, encode_cons]
      rcases List.cons_lt_cons_iff.1 h with hlt | ⟨rfl, hlt⟩
      · exact encodeChar_lt hlt _ _
      · exact List.append_left_lt (ih hlt)

/-- Texts are in the order of their bytes. -/
theorem ofString_lt_iff {s t : String} : ofString s < ofString t ↔ s < t := by
  have hlt : ∀ {s t : String}, s < t → ofString s < ofString t :=
    fun h => encode_lt (String.lt_iff_toList_lt.1 h)
  constructor
  · intro h
    rcases lt_trichotomy s t with hst | rfl | hts
    · exact hst
    · exact absurd h (List.lt_irrefl _)
    · exact absurd h (List.lt_asymm (hlt hts))
  · exact hlt

end NodeConfig.Utf8
