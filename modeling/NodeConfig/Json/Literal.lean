import NodeConfig.Json.Fault

namespace NodeConfig

namespace Json

def hexValue? (b : UInt8) : Option Nat :=
  if 0x30 ≤ b && b ≤ 0x39 then some (b.toNat - 0x30)
  else if 0x41 ≤ b && b ≤ 0x46 then some (b.toNat - 0x37)
  else if 0x61 ≤ b && b ≤ 0x66 then some (b.toNat - 0x57)
  else none

def unit (w x y z : Nat) : Nat := ((w * 16 + x) * 16 + y) * 16 + z

/-- Four hexadecimal digits. -/
def hexUnit : Bytes → Except Fault (Nat × Bytes)
  | a :: b :: c :: d :: rest =>
    match hexValue? a, hexValue? b, hexValue? c, hexValue? d with
    | some w, some x, some y, some z => .ok (unit w x y z, rest)
    | _, _, _, _ => failBefore .invalidEscape rest
  | _ => failBefore .endInString []

def pairChar (high low : Nat) : Char :=
  Char.ofNat (0x10000 + (high - 0xD800) * 0x400 + (low - 0xDC00))

def isHigh (n : Nat) : Bool := 0xD800 ≤ n && n < 0xDC00

def isLow (n : Nat) : Bool := 0xDC00 ≤ n && n < 0xE000

def lowUnit (high : Nat) : Bytes → Except Fault (Char × Bytes)
  | [] => failBefore .endInString []
  | a :: bs =>
    if a ≠ 0x5C then failBefore .unfinishedPair bs
    else
      match bs with
      | [] => failBefore .endInString []
      | b :: rest =>
        if b ≠ 0x75 then failBefore .unfinishedPair rest
        else
          match hexUnit rest with
          | .error e => .error e
          | .ok (low, rest) =>
            if isLow low then .ok (pairChar high low, rest) else failBefore .loneSurrogate rest

/-- A character given by one unit or by a pair. -/
def unicodeEscape (bs : Bytes) : Except Fault (Char × Bytes) :=
  match hexUnit bs with
  | .error e => .error e
  | .ok (n, rest) =>
    if isLow n then failBefore .loneSurrogate rest
    else if isHigh n then lowUnit n rest
    else .ok (Char.ofNat n, rest)

def escaped : Bytes → Except Fault (Char × Bytes)
  | [] => failBefore .endInString []
  | b :: rest =>
    match b with
    | 0x22 => .ok ('"', rest)
    | 0x5C => .ok ('\\', rest)
    | 0x2F => .ok ('/', rest)
    | 0x62 => .ok ('\x08', rest)
    | 0x66 => .ok ('\x0c', rest)
    | 0x6E => .ok ('\n', rest)
    | 0x72 => .ok ('\r', rest)
    | 0x74 => .ok ('\t', rest)
    | 0x75 => unicodeEscape rest
    | _ => failBefore .invalidEscape rest

theorem length_hexUnit {bs r : Bytes} {n : Nat} (h : hexUnit bs = .ok (n, r)) :
    r.length < bs.length := by
  unfold hexUnit failBefore at h
  repeat' split at h
  all_goals cases h
  simp +arith

theorem length_lowUnit {bs r : Bytes} {n : Nat} {c : Char} (h : lowUnit n bs = .ok (c, r)) :
    r.length < bs.length := by
  unfold lowUnit failBefore at h
  split at h
  · cases h
  · split at h
    · cases h
    · split at h
      · cases h
      · split at h
        · cases h
        · split at h
          · cases h
          · rename_i hu
            have := length_hexUnit hu
            split at h
            · simp only [Except.ok.injEq, Prod.mk.injEq] at h
              simp only [List.length_cons, ← h.2]
              omega
            · cases h

theorem length_unicodeEscape {bs r : Bytes} {c : Char} (h : unicodeEscape bs = .ok (c, r)) :
    r.length < bs.length := by
  unfold unicodeEscape failBefore at h
  split at h
  · cases h
  · rename_i hu
    have hl := length_hexUnit hu
    split at h
    · cases h
    · split at h
      · exact Nat.lt_trans (length_lowUnit h) hl
      · cases h; exact hl

theorem length_escaped {bs r : Bytes} {c : Char} (h : escaped bs = .ok (c, r)) :
    r.length < bs.length := by
  unfold escaped failBefore at h
  repeat' split at h
  case h_9 => exact Nat.lt_succ_of_lt (length_unicodeEscape h)
  all_goals cases h
  all_goals simp

/-- The characters up to the closing quote. Bytes that are not UTF-8 are reported there, at the
first of them: `bad` is what followed it. -/
def stringBody (bad : Option Nat) : Bytes → Except Fault (List Char × Bytes)
  | [] => failBefore .endInString []
  | a :: rest =>
    if a = 0x22 then
      match bad with
      | none => .ok ([], rest)
      | some left => .error ⟨.codePoint, left⟩
    else if a = 0x5C then
      match _h : escaped rest with
      | .error e => .error e
      | .ok (c, r) => (stringBody bad r).map fun (cs, t) => (c :: cs, t)
    else if a < 0x20 then failBefore .control rest
    else
      match _h : Utf8.head a rest with
      | .char c r => (stringBody bad r).map fun (cs, t) => (c :: cs, t)
      | _ => stringBody (bad.or (some rest.length)) rest
termination_by bs => bs.length
decreasing_by
  · have := length_escaped _h; simp; omega
  · have := Utf8.length_lt_of_head _h; simp; omega
  · simp

def readString (bs : Bytes) : Except Fault (String × Bytes) :=
  (stringBody none bs).map fun (cs, rest) => (String.ofList cs, rest)

end Json

end NodeConfig
