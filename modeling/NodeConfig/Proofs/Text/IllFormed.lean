import Mathlib
import NodeConfig.Proofs.Text.Utf8

namespace NodeConfig.Utf8

variable {a b c d : UInt8} {bs rest : Bytes} {ch : Char} {k n start : ℕ} {fault : Fault}

def IsText (bs : Bytes) : Prop := ∃ cs : List Char, bs = cs.flatMap String.utf8EncodeChar

/-- Some character's encoding begins so. -/
def Begins (bs : Bytes) : Prop := ∃ c : Char, bs <+: String.utf8EncodeChar c

/-- How long the maximal ill-formed subsequence is that bytes begin with: as long as a beginning of
some character's encoding can be found there, and one byte if there is none. -/
def IsMaximalSubpart (bs : Bytes) (n : ℕ) : Prop :=
  IsGreatest {k | k ≤ bs.length ∧ (k = 1 ∨ Begins (bs.take k))} n

/-- The encoding by ranges is that of the standard library. -/
theorem encodeChar_eq (c : Char) : encodeChar c = String.utf8EncodeChar c := by
  have hv := toNat_valid c
  unfold encodeChar String.utf8EncodeChar
  rw [show c.val.toNat = c.toNat from rfl]
  generalize c.toNat = n at hv
  dsimp only
  -- One case for each width. The library masks digits that are small enough as they are.
  by_cases h1 : n < 0x80
  · rw [if_pos h1, if_pos (by omega)]
    rfl
  rw [if_neg h1, if_neg (show ¬ n ≤ 127 by omega), Nat.add_comm 0x80 (n % 0x40)]
  by_cases h2 : n < 0x800
  · rw [if_pos h2, if_pos (by omega), show 0xC0 + n / 0x40 = n / 64 % 32 + 192 by omega]
    rfl
  rw [if_neg h2, if_neg (show ¬ n ≤ 2047 by omega), Nat.add_comm 0x80 (n / 0x40 % 0x40)]
  by_cases h3 : n < 0x10000
  · rw [if_pos h3, if_pos (by omega), show 0xE0 + n / 0x1000 = n / 4096 % 16 + 224 by omega]
    rfl
  · rw [if_neg h3, if_neg (show ¬ n ≤ 65535 by omega), Nat.add_comm 0x80 (n / 0x1000 % 0x40),
      show 0xF0 + n / 0x40000 = n / 262144 % 8 + 240 by omega]
    rfl

theorem isText_iff : IsText bs ↔ ∃ cs, bs = encode cs := by
  rw [IsText, show String.utf8EncodeChar = encodeChar from funext fun c => (encodeChar_eq c).symm]
  rfl

theorem isText_encode (cs : List Char) : IsText (encode cs) := isText_iff.2 ⟨cs, rfl⟩

theorem begins_iff : Begins bs ↔ ∃ c, bs <+: encodeChar c := by
  simp only [Begins, encodeChar_eq]

theorem decode_eq_error_iff : (∃ fault, decode bs = .error fault) ↔ ¬ IsText bs := by
  rw [isText_iff]
  constructor
  · rintro ⟨fault, h⟩ ⟨cs, rfl⟩
    rw [decode_encode] at h
    cases h
  · intro h
    cases hd : decode bs with
    | error fault => exact ⟨fault, rfl⟩
    | ok cs => exact absurd ⟨cs, decode_eq_ok_iff.1 hd⟩ h

/-! ### Characters at the front -/

/-- Text begins with the encoding of a character, and text follows. -/
theorem isText_cons_iff : IsText (a :: rest) ↔ ∃ c r, head a rest = .char c r ∧ IsText r := by
  constructor
  · intro h
    obtain ⟨_ | ⟨c, cs⟩, h⟩ := isText_iff.1 h
    · cases h
    · obtain ⟨a', tail, hc, hhead⟩ := head_encodeChar c (encode cs)
      rw [encode_cons, hc, List.cons_append, List.cons.injEq] at h
      obtain ⟨rfl, rfl⟩ := h
      exact ⟨c, encode cs, hhead, isText_encode cs⟩
  · rintro ⟨c, r, hhead, hr⟩
    obtain ⟨cs, rfl⟩ := isText_iff.1 hr
    apply isText_iff.2
    exact ⟨c :: cs, (encodeChar_of_head hhead).symm⟩

theorem isText_encode_append_iff (cs : List Char) : IsText (encode cs ++ bs) ↔ IsText bs := by
  induction cs with
  | nil => rfl
  | cons c cs ih =>
    obtain ⟨a, tail, hc, hhead⟩ := head_encodeChar c (encode cs ++ bs)
    rw [encode_cons, List.append_assoc, hc, List.cons_append, isText_cons_iff, ← ih]
    constructor
    · rintro ⟨c', r, h, hr⟩
      rw [hhead, Head.char.injEq] at h
      exact h.2 ▸ hr
    · intro h
      exact ⟨c, _, hhead, h⟩

/-- What is read as a character is read so whatever comes after. -/
theorem head_append (h : head a rest = .char ch bs) (more : Bytes) :
    head a (rest ++ more) = .char ch (bs ++ more) := by
  obtain ⟨a', tail, hc, hhead⟩ := head_encodeChar ch (bs ++ more)
  have hsplit := encodeChar_of_head h
  rw [hc, List.cons_append, List.cons.injEq] at hsplit
  obtain ⟨rfl, rfl⟩ := hsplit
  rw [List.append_assoc]
  exact hhead

/-! ### Sequences that go wrong -/

/-- A sequence goes wrong after so many bytes: the next does not fit, or the first leads none. -/
inductive Broken (a : UInt8) : Bytes → ℕ → Prop
  | lead {rest : Bytes} (hw : width a = 0) : Broken a rest 1
  | second {b : UInt8} {rest : Bytes} (hw : 2 ≤ width a) (hb : isSecond a b = false) :
      Broken a (b :: rest) 1
  | third {b c : UInt8} {rest : Bytes} (hw : 3 ≤ width a) (hb : isSecond a b = true)
      (hc : isContinuation c = false) : Broken a (b :: c :: rest) 2
  | fourth {b c d : UInt8} {rest : Bytes} (hw : width a = 4) (hb : isSecond a b = true)
      (hc : isContinuation c = true) (hd : isContinuation d = false) :
      Broken a (b :: c :: d :: rest) 3

/-- The bytes end inside a sequence that was good so far. -/
inductive Unfinished (a : UInt8) : Bytes → Prop
  | lead (hw : 2 ≤ width a) : Unfinished a []
  | second {b : UInt8} (hw : 3 ≤ width a) (hb : isSecond a b = true) : Unfinished a [b]
  | third {b c : UInt8} (hw : width a = 4) (hb : isSecond a b = true)
      (hc : isContinuation c = true) : Unfinished a [b, c]

theorem width_le (a : UInt8) : width a ≤ 4 := by
  have := of_width (rfl : width a = width a)
  omega

theorem head_of_broken (h : Broken a rest n) : head a rest = .illFormed n := by
  have hle := width_le a
  cases h with
  | lead hw => simp [head, hw]
  | second hw hb =>
    obtain h | h | h : width a = 2 ∨ width a = 3 ∨ width a = 4 := by omega
    all_goals simp [head, h, hb]
  | third hw hb hc =>
    obtain h | h : width a = 3 ∨ width a = 4 := by omega
    all_goals simp [head, h, hb, hc]
  | fourth hw hb hc hd => simp [head, hw, hb, hc, hd]

theorem head_of_unfinished (h : Unfinished a rest) : head a rest = .cut := by
  have hle := width_le a
  cases h with
  | lead hw =>
    obtain h | h | h : width a = 2 ∨ width a = 3 ∨ width a = 4 := by omega
    all_goals simp [head, h]
  | second hw hb =>
    obtain h | h : width a = 3 ∨ width a = 4 := by omega
    all_goals simp [head, h, hb]
  | third hw hb hc => simp [head, hw, hb, hc]

/-- There is a character at the front, or the sequence there goes wrong, or it ends too early. -/
theorem head_cases (a : UInt8) (rest : Bytes) :
    (∃ c r, head a rest = .char c r) ∨ (∃ n, Broken a rest n) ∨ Unfinished a rest := by
  have hle := width_le a
  by_cases h0 : width a = 0
  · exact .inr (.inl ⟨1, .lead h0⟩)
  by_cases h1 : width a = 1
  · exact .inl ⟨_, rest, by simp [head, h1]; rfl⟩
  cases rest with
  | nil => exact .inr (.inr (.lead (by omega)))
  | cons b rest =>
    cases hb : isSecond a b with
    | false => exact .inr (.inl ⟨1, .second (by omega) hb⟩)
    | true =>
      by_cases h2 : width a = 2
      · exact .inl ⟨_, rest, by simp [head, h2, hb]; rfl⟩
      cases rest with
      | nil => exact .inr (.inr (.second (by omega) hb))
      | cons c rest =>
        cases hc : isContinuation c with
        | false => exact .inr (.inl ⟨2, .third (by omega) hb hc⟩)
        | true =>
          by_cases h3 : width a = 3
          · exact .inl ⟨_, rest, by simp [head, h3, hb, hc]; rfl⟩
          have h4 : width a = 4 := by omega
          cases rest with
          | nil => exact .inr (.inr (.third h4 hb hc))
          | cons d rest =>
            cases hd : isContinuation d with
            | false => exact .inr (.inl ⟨3, .fourth h4 hb hc hd⟩)
            | true => exact .inl ⟨_, rest, by simp [head, h4, hb, hc, hd]; rfl⟩

theorem broken_of_head (h : head a rest = .illFormed n) : Broken a rest n := by
  obtain ⟨c, r, hchar⟩ | ⟨m, hbroken⟩ | hcut := head_cases a rest
  · cases h.symm.trans hchar
  · cases h.symm.trans (head_of_broken hbroken)
    exact hbroken
  · cases h.symm.trans (head_of_unfinished hcut)

theorem unfinished_of_head (h : head a rest = .cut) : Unfinished a rest := by
  obtain ⟨c, r, hchar⟩ | ⟨m, hbroken⟩ | hcut := head_cases a rest
  · cases h.symm.trans hchar
  · cases h.symm.trans (head_of_broken hbroken)
  · exact hcut

theorem Broken.bounds (h : Broken a rest n) : 1 ≤ n ∧ n ≤ 3 ∧ n ≤ rest.length + 1 := by
  cases h <;> simp

/-- That a sequence goes wrong depends on the bytes up to the one that does not fit. -/
theorem Broken.take (h : Broken a rest n) (hk : n ≤ k) : Broken a (rest.take k) n := by
  cases h with
  | lead hw => exact .lead hw
  | second hw hb =>
    obtain ⟨k, rfl⟩ : ∃ j, k = j + 1 := ⟨k - 1, by omega⟩
    exact .second hw hb
  | third hw hb hc =>
    obtain ⟨k, rfl⟩ : ∃ j, k = j + 2 := ⟨k - 2, by omega⟩
    exact .third hw hb hc
  | fourth hw hb hc hd =>
    obtain ⟨k, rfl⟩ : ∃ j, k = j + 3 := ⟨k - 3, by omega⟩
    exact .fourth hw hb hc hd

theorem Broken.append (h : Broken a rest n) (more : Bytes) : Broken a (rest ++ more) n := by
  cases h with
  | lead hw => exact .lead hw
  | second hw hb => exact .second hw hb
  | third hw hb hc => exact .third hw hb hc
  | fourth hw hb hc hd => exact .fourth hw hb hc hd

/-! ### Sequences that could still become good -/

theorem Begins.trans {bs' : Bytes} (hp : bs' <+: bs) (h : Begins bs) : Begins bs' := by
  obtain ⟨c, hc⟩ := h
  exact ⟨c, hp.trans hc⟩

theorem begins_of_encodeChar {more : Bytes} (h : encodeChar ch = bs ++ more) : Begins bs := by
  refine ⟨ch, more, ?_⟩
  rw [← h, encodeChar_eq]

/-- After each lead byte some byte can be the second one. -/
theorem exists_isSecond (a : UInt8) : ∃ b, isSecond a b = true := by
  simp only [isSecond_iff]
  by_cases hlow : a.toNat = 0xE0 ∨ a.toNat = 0xF0
  · refine ⟨0xA0, by decide, ?_⟩
    rw [show (0xA0 : UInt8).toNat = 0xA0 from rfl]
    omega
  · refine ⟨0x80, by decide, ?_⟩
    rw [show (0x80 : UInt8).toNat = 0x80 from rfl]
    omega

theorem begins_third (hw : width a = 4) (hb : isSecond a b = true)
    (hc : isContinuation c = true) : Begins [a, b, c] := by
  have ha := of_width hw
  exact begins_of_encodeChar (encodeChar_char4 (d := 0x80) (by omega) hb hc (by decide))

theorem begins_second (hw : 3 ≤ width a) (hb : isSecond a b = true) : Begins [a, b] := by
  have ha := of_width (rfl : width a = width a)
  by_cases h4 : width a = 4
  · exact (begins_third (c := 0x80) h4 hb (by decide)).trans ⟨[0x80], rfl⟩
  · exact begins_of_encodeChar (encodeChar_char3 (c := 0x80) (by omega) hb (by decide))

theorem begins_lead (hw : 2 ≤ width a) : Begins [a] := by
  have ha := of_width (rfl : width a = width a)
  obtain ⟨b, hb⟩ := exists_isSecond a
  by_cases h2 : width a = 2
  · exact begins_of_encodeChar (encodeChar_char2 (by omega) hb)
  · exact (begins_second (by omega) hb).trans ⟨[b], rfl⟩

theorem Unfinished.begins (h : Unfinished a rest) : Begins (a :: rest) := by
  cases h with
  | lead hw => exact begins_lead hw
  | second hw hb => exact begins_second hw hb
  | third hw hb hc => exact begins_third hw hb hc

/-- Up to the byte that does not fit a sequence is good. -/
theorem Broken.begins (h : Broken a rest n) : n = 1 ∨ Begins ((a :: rest).take n) := by
  cases h with
  | lead hw => exact .inl rfl
  | second hw hb => exact .inl rfl
  | third hw hb hc => exact .inr (begins_second hw hb)
  | fourth hw hb hc hd => exact .inr (begins_third hw hb hc)

/-- With that byte it is the beginning of no character. -/
theorem Broken.not_begins (h : Broken a rest n) (hk : n < k) : ¬ Begins ((a :: rest).take k) := by
  intro hbegins
  obtain ⟨c, more, hc⟩ := begins_iff.1 hbegins
  obtain ⟨j, rfl⟩ : ∃ j, k = j + 1 := ⟨k - 1, by omega⟩
  obtain ⟨a', tail, hsplit, hchar⟩ := head_encodeChar c []
  rw [hsplit, List.take_succ_cons, List.cons_append, List.cons.injEq] at hc
  obtain ⟨rfl, rfl⟩ := hc
  -- The bytes of the character are read as it, but what they begin with goes wrong.
  have hbroken := head_of_broken (((h.take (k := j) (by omega)).append more).append [])
  cases hchar.symm.trans hbroken

theorem Broken.isMaximalSubpart (h : Broken a rest n) : IsMaximalSubpart (a :: rest) n := by
  obtain ⟨-, -, hle⟩ := h.bounds
  constructor
  · exact ⟨hle, h.begins⟩
  · rintro k ⟨-, hk⟩
    have hpos := h.bounds.1
    by_contra hlt
    rcases hk with rfl | hk
    · omega
    · exact h.not_begins (by omega) hk

/-! ### The first ill-formed place -/

/-- Where the check fails it has read characters, and then comes a sequence that is none. -/
theorem decodeFrom_eq_error (h : decodeFrom start bs = .error fault) :
    ∃ cs a rest, bs = encode cs ++ a :: rest ∧ fault.start = start + (encode cs).length ∧
      ((∃ n, Broken a rest n ∧ fault.length = some n) ∨
        Unfinished a rest ∧ fault.length = none) := by
  fun_induction decodeFrom start bs with
  | case1 => cases h
  | case2 start a rest c r hhead ih =>
    cases hr : decodeFrom (start + (rest.length + 1 - r.length)) r with
    | ok ds => rw [hr] at h; cases h
    | error e =>
      rw [hr] at h
      cases h
      obtain ⟨cs, a', rest', rfl, hstart, hfault⟩ := ih hr
      have hsplit := encodeChar_of_head hhead
      have hlength := congrArg List.length hsplit
      simp only [List.length_append, List.length_cons] at hlength
      refine ⟨c :: cs, a', rest', ?_, ?_, hfault⟩
      · rw [encode_cons, List.append_assoc, hsplit]
      · rw [hstart, encode_cons]
        simp only [List.length_append, List.length_cons]
        omega
  | case3 start a rest n hhead =>
    cases h
    exact ⟨[], a, rest, rfl, rfl, .inl ⟨n, broken_of_head hhead, rfl⟩⟩
  | case4 start a rest hhead =>
    cases h
    exact ⟨[], a, rest, rfl, rfl, .inr ⟨unfinished_of_head hhead, rfl⟩⟩

theorem not_isText_cons (h : (∃ n, Broken a rest n) ∨ Unfinished a rest) :
    ¬ IsText (a :: rest) := by
  rw [isText_cons_iff]
  rintro ⟨c, r, hchar, -⟩
  rcases h with ⟨n, h⟩ | h
  · cases hchar.symm.trans (head_of_broken h)
  · cases hchar.symm.trans (head_of_unfinished h)

/-- The good bytes that a fault names are the longest beginning that is text. -/
theorem isGreatest_start (h : decode bs = .error fault) :
    IsGreatest {i | i ≤ bs.length ∧ IsText (bs.take i)} fault.start := by
  obtain ⟨cs, a, rest, rfl, hstart, hbad⟩ := decodeFrom_eq_error h
  rw [Nat.zero_add] at hstart
  rw [hstart]
  constructor
  · refine ⟨by simp, ?_⟩
    rw [List.take_left]
    exact isText_encode cs
  · rintro i ⟨-, htext⟩
    by_contra hlt
    obtain ⟨j, rfl⟩ : ∃ j, i = (encode cs).length + (j + 1) :=
      ⟨i - (encode cs).length - 1, by omega⟩
    rw [List.take_length_add_append, List.take_succ_cons, isText_encode_append_iff,
      isText_cons_iff] at htext
    obtain ⟨c, r, hchar, -⟩ := htext
    -- A character found in fewer bytes would be found in all of them.
    have hall := head_append hchar (rest.drop j)
    rw [List.take_append_drop] at hall
    rcases hbad with ⟨n, h, -⟩ | ⟨h, -⟩
    · cases hall.symm.trans (head_of_broken h)
    · cases hall.symm.trans (head_of_unfinished h)

/-- A fault has no length exactly where the bytes could go on so that all of them are text. -/
theorem length_eq_none_iff (h : decode bs = .error fault) :
    fault.length = none ↔ ∃ more, IsText (bs ++ more) := by
  obtain ⟨cs, a, rest, rfl, -, hbad⟩ := decodeFrom_eq_error h
  simp only [List.append_assoc, List.cons_append, isText_encode_append_iff]
  rcases hbad with ⟨n, hbroken, hlength⟩ | ⟨hunfinished, hlength⟩
  · rw [hlength]
    -- What goes wrong does so whatever comes after.
    refine iff_of_false (by simp) ?_
    rintro ⟨more, htext⟩
    exact not_isText_cons (.inl ⟨n, hbroken.append more⟩) htext
  · -- The rest of a character that begins so makes text of the whole.
    refine iff_of_true hlength ?_
    obtain ⟨c, more, hc⟩ := begins_iff.1 hunfinished.begins
    refine ⟨more, isText_iff.2 ⟨[c], ?_⟩⟩
    rw [encode_cons, ← hc]
    exact (List.append_nil _).symm

theorem isMaximalSubpart_length (h : decode bs = .error fault) (hn : fault.length = some n) :
    1 ≤ n ∧ n ≤ 3 ∧ IsMaximalSubpart (bs.drop fault.start) n := by
  obtain ⟨cs, a, rest, rfl, hstart, ⟨m, hbroken, hlength⟩ | ⟨-, hlength⟩⟩ := decodeFrom_eq_error h
  · cases hn.symm.trans hlength
    obtain ⟨hpos, hle, -⟩ := hbroken.bounds
    rw [hstart, Nat.zero_add, List.drop_left]
    exact ⟨hpos, hle, hbroken.isMaximalSubpart⟩
  · cases hn.symm.trans hlength

end NodeConfig.Utf8
