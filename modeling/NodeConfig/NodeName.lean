import NodeConfig.Power

namespace NodeConfig

/-- What clock and chance give when a name is made. -/
structure Reading where
  millis : Nat
  seed : Nat
  noise : Nat
  deriving DecidableEq, Repr

/-- The part of a name that ascends: milliseconds, and a counter of 42 bits. -/
structure Stamp where
  millis : Nat
  counter : Nat
  deriving DecidableEq, Repr

namespace Stamp

def zero : Stamp := ⟨0, 0⟩

/-- A fresh counter leaves the highest of its bits for counting. -/
def seeded (millis : Nat) (r : Reading) : Stamp := ⟨millis, r.seed % pow2 41⟩

/-- The counter starts anew when the clock has moved on, and counts on otherwise; the time moves
on when the counter is at its end. -/
def next (s : Stamp) (r : Reading) : Stamp :=
  if s.millis < r.millis then seeded r.millis r
  else if s.counter + 1 < pow2 42 then ⟨s.millis, s.counter + 1⟩
  else seeded (s.millis + 1) r

def hex : Nat → Nat → List Char
  | 0, _ => []
  | width + 1, n => hex width (n / 16) ++ [Nat.digitChar (n % 16)]

/-- Time, version 7 with the counter's first 12 bits, variant 2 with its next 14, its last 16 and
the noise. -/
def nameChars (s : Stamp) (noise : Nat) : List Char :=
  List.intercalate ['-'] [
    hex 8 (s.millis / pow2 16),
    hex 4 (s.millis % pow2 16),
    hex 4 (7 * pow2 12 + s.counter / pow2 30 % pow2 12),
    hex 4 (2 * pow2 14 + s.counter / pow2 16 % pow2 14),
    hex 12 (s.counter % pow2 16 * pow2 32 + noise % pow2 32)]

def name (s : Stamp) (noise : Nat) : String := String.ofList (s.nameChars noise)

end Stamp

/-- Where names come from: the stamp of the last one, and the readings for those to come. -/
structure NameSource where
  last : Stamp
  readings : Nat → Reading
  used : Nat

namespace NameSource

def fresh (readings : Nat → Reading) : NameSource := ⟨.zero, readings, 0⟩

def mint (src : NameSource) : String × NameSource :=
  let r := src.readings src.used
  let s := src.last.next r
  (s.name r.noise, { src with last := s, used := src.used + 1 })

def mintMany (src : NameSource) : Nat → List String × NameSource
  | 0 => ([], src)
  | n + 1 =>
    let (name, src) := src.mint
    let (names, src) := src.mintMany n
    (name :: names, src)

end NameSource

/-- Digits in five groups, with the version and the variant in their places. -/
def isNodeName (cs : List Char) : Bool :=
  cs.length = 36 &&
    cs.zipIdx.all fun (c, i) =>
      if i = 8 || i = 13 || i = 18 || i = 23 then c = '-'
      else if i = 14 then c = '7'
      else if i = 19 then c = '8' || c = '9' || c = 'a' || c = 'b'
      else c.isDigit || ('a' ≤ c && c ≤ 'f')

end NodeConfig
