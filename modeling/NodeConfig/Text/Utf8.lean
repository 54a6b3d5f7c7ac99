namespace NodeConfig

abbrev Bytes := List UInt8

namespace Utf8

def octet (n : Nat) : UInt8 := UInt8.ofNat n

def encodeChar (c : Char) : Bytes :=
  let n := c.toNat
  if n < 0x80 then [octet n]
  else if n < 0x800 then [octet (0xC0 + n / 0x40), octet (0x80 + n % 0x40)]
  else if n < 0x10000 then
    [octet (0xE0 + n / 0x1000), octet (0x80 + n / 0x40 % 0x40), octet (0x80 + n % 0x40)]
  else
    [octet (0xF0 + n / 0x40000), octet (0x80 + n / 0x1000 % 0x40),
      octet (0x80 + n / 0x40 % 0x40), octet (0x80 + n % 0x40)]

def encode (cs : List Char) : Bytes := cs.flatMap encodeChar

def ofString (s : String) : Bytes := encode s.toList

/-- Where and how bytes stop being UTF-8: `start` bytes are good, and the ill-formed sequence has
`length` bytes, or the content ends inside a sequence that could still become good. -/
structure Fault where
  start : Nat
  length : Option Nat
  deriving DecidableEq, Repr

/-- How many bytes a sequence with this lead byte has; 0 for no lead byte. -/
def width (b : UInt8) : Nat :=
  if b < 0x80 then 1
  else if b < 0xC2 then 0
  else if b < 0xE0 then 2
  else if b < 0xF0 then 3
  else if b < 0xF5 then 4
  else 0

def isContinuation (b : UInt8) : Bool := 0x80 ≤ b && b < 0xC0

/-- The second byte excludes overlong forms, surrogates and codes above U+10FFFF. -/
def isSecond (lead b : UInt8) : Bool :=
  isContinuation b &&
    (if lead = 0xE0 then 0xA0 ≤ b
     else if lead = 0xED then b < 0xA0
     else if lead = 0xF0 then 0x90 ≤ b
     else if lead = 0xF4 then b < 0x90
     else true)

def payload (b : UInt8) : Nat := b.toNat % 0x40

def char2 (a b : UInt8) : Char := Char.ofNat (a.toNat % 0x20 * 0x40 + payload b)

def char3 (a b c : UInt8) : Char :=
  Char.ofNat (a.toNat % 0x10 * 0x1000 + payload b * 0x40 + payload c)

def char4 (a b c d : UInt8) : Char :=
  Char.ofNat (a.toNat % 0x08 * 0x40000 + payload b * 0x1000 + payload c * 0x40 + payload d)

/-- First character of nonempty bytes, or what is wrong there. -/
inductive Head where
  | char (c : Char) (rest : Bytes)
  | illFormed (length : Nat)
  | cut

def head (a : UInt8) (rest : Bytes) : Head :=
  match width a, rest with
  | 1, r => .char (Char.ofNat a.toNat) r
  | 2, b :: r => if isSecond a b then .char (char2 a b) r else .illFormed 1
  | 3, b :: r =>
    if isSecond a b then
      match r with
      | c :: r => if isContinuation c then .char (char3 a b c) r else .illFormed 2
      | [] => .cut
    else .illFormed 1
  | 4, b :: r =>
    if isSecond a b then
      match r with
      | c :: r =>
        if isContinuation c then
          match r with
          | d :: r => if isContinuation d then .char (char4 a b c d) r else .illFormed 3
          | [] => .cut
        else .illFormed 2
      | [] => .cut
    else .illFormed 1
  | 0, _ => .illFormed 1
  | _, _ => .cut

theorem length_lt_of_head {a : UInt8} {rest r : Bytes} {c : Char}
    (h : head a rest = .char c r) : r.length < rest.length + 1 := by
  unfold head at h
  repeat' split at h
  all_goals cases h
  all_goals simp +arith

def decodeFrom (start : Nat) : Bytes → Except Fault (List Char)
  | [] => .ok []
  | a :: rest =>
    match h : head a rest with
    | .char c r => (decodeFrom (start + (rest.length + 1 - r.length)) r).map (c :: ·)
    | .illFormed n => .error ⟨start, some n⟩
    | .cut => .error ⟨start, none⟩
termination_by bs => bs.length
decreasing_by exact length_lt_of_head h

/-- Characters of the bytes, or the first ill-formed place. -/
def decode (bs : Bytes) : Except Fault (List Char) := decodeFrom 0 bs

def toString? (bs : Bytes) : Option String :=
  match decode bs with
  | .ok cs => some (String.ofList cs)
  | .error _ => none

/-- Characters of the bytes, with a replacement character for each ill-formed sequence. -/
def decodeLossy (bs : Bytes) : List Char :=
  match bs with
  | [] => []
  | a :: rest =>
    match h : head a rest with
    | .char c r => c :: decodeLossy r
    | .illFormed n => '\ufffd' :: decodeLossy (rest.drop (n - 1))
    | .cut => ['\ufffd']
termination_by bs.length
decreasing_by
  · exact length_lt_of_head h
  · simp +arith

def lossy (bs : Bytes) : String := String.ofList (decodeLossy bs)

def Fault.message (f : Fault) : String :=
  match f.length with
  | some n => s!"invalid utf-8 sequence of {n} bytes from index {f.start}"
  | none => s!"incomplete utf-8 byte sequence from index {f.start}"

end Utf8

end NodeConfig
