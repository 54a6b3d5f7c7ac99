import NodeConfig.Decimal.Binary64
import NodeConfig.Power

namespace NodeConfig

structure Decimal where
  digits : Nat
  exponent : Int
  deriving DecidableEq, Repr

namespace Decimal

/-- The reals that round to `value / den`: between `low / den` and `high / den`, the ends included
when the significand is even. -/
structure Interval where
  low : Nat
  value : Nat
  high : Nat
  den : Nat
  closed : Bool

/-- The gap below a power of two is half the gap above it. -/
def interval (x : Binary64) : Interval :=
  let m := x.significand
  let below := if m = pow2 52 ∧ Binary64.minExponent < x.exponent then 1 else 2
  let (scale, den) :=
    match x.exponent with
    | .ofNat k => (pow2 k, 1)
    | .negSucc k => (1, pow2 (k + 1))
  ⟨(4 * m - below) * scale, 4 * m * scale, (4 * m + 2) * scale, 4 * den, m % 2 = 0⟩

def Interval.holds (i : Interval) (digits : Nat) (p : Int) : Bool :=
  let (n, d) :=
    match p with
    | .ofNat k => (digits * pow10 k * i.den, 1)
    | .negSucc k => (digits * i.den, pow10 (k + 1))
  if i.closed then i.low * d ≤ n && n ≤ i.high * d else i.low * d < n && n < i.high * d

/-- The value on the grid of `10 ^ p`, rounded down, and whether the next point is nearer. -/
def Interval.gridBelow (i : Interval) (p : Int) : Nat × Bool :=
  let (n, d) :=
    match p with
    | .ofNat k => (i.value, i.den * pow10 k)
    | .negSucc k => (i.value * pow10 (k + 1), i.den)
  (n / d, decide (d < 2 * (n % d)))

def Interval.onGrid (i : Interval) (p : Int) : Option Nat :=
  let (k, up) := i.gridBelow p
  let first := if up then k + 1 else k
  let second := if up then k else k + 1
  if i.holds first p then some first else if i.holds second p then some second else none

/-- The coarsest grid at or below `10 ^ p` with a point that reads back. -/
def Interval.search (i : Interval) (p : Int) : Nat → Decimal
  | 0 => ⟨(i.gridBelow p).1, p⟩
  | fuel + 1 =>
    match i.onGrid p with
    | some k => ⟨k, p⟩
    | none => i.search (p - 1) fuel

def digitCount (n : Nat) : Nat := (Nat.toDigits 10 n).length

def magnitude (x : Binary64) : Int :=
  let (n, d) := x.fraction
  if d ≤ n then digitCount (n / d) else 1 - digitCount (d / n)

/-- Shortest decimal of a nonzero number: 17 digits always read back. -/
def shortest (x : Binary64) : Decimal :=
  (interval x).search (magnitude x) 20

def positional (x : Decimal) : String :=
  let ds := Nat.toDigits 10 x.digits
  match x.exponent with
  | .ofNat k => String.ofList (ds ++ List.replicate k '0') ++ ".0"
  | .negSucc k =>
    let places := k + 1
    let ds := List.replicate (places + 1 - ds.length) '0' ++ ds
    String.ofList (ds.take (ds.length - places)) ++ "." ++
      String.ofList (ds.drop (ds.length - places))

def scientific (x : Decimal) : String :=
  let ds := Nat.toDigits 10 x.digits
  let e := x.exponent + ds.length - 1
  let tail := ds.drop 1
  String.ofList (ds.take 1) ++ (if tail = [] then "" else "." ++ String.ofList tail) ++
    (if e < 0 then "e-" else "e+") ++ toString e.natAbs

end Decimal

namespace Binary64

def signed (x : Binary64) (s : String) : String := if x.negative then "-" ++ s else s

def toPositional (x : Binary64) : String :=
  x.signed (if x.isZero then "0.0" else (Decimal.shortest x).positional)

/-- Positional from `1e-5` up to below `1e16`, scientific elsewhere. -/
def toCompact (x : Binary64) : String :=
  x.signed <|
    if x.isZero then "0.0"
    else
      let d := Decimal.shortest x
      let point := d.exponent + Decimal.digitCount d.digits
      if -5 < point ∧ point ≤ 16 then d.positional else d.scientific

end Binary64

end NodeConfig
