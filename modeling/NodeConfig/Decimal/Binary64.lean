import NodeConfig.Power

namespace NodeConfig

/-- `significand · 2 ^ exponent`, with a sign that zero keeps. -/
structure Binary64 where
  negative : Bool
  significand : Nat
  exponent : Int
  deriving DecidableEq, Repr

namespace Binary64

def minExponent : Int := -1074

def maxExponent : Int := 971

def zero : Binary64 := ⟨false, 0, minExponent⟩

/-- The quotient rounded to the nearest natural number, a half to the even neighbour. -/
def roundDiv (num den : Nat) : Nat :=
  let q := num / den
  let r := num % den
  if 2 * r < den then q
  else if den < 2 * r then q + 1
  else if q % 2 = 0 then q else q + 1

def roundAt (num den : Nat) (e : Int) : Nat :=
  match e with
  | .ofNat k => roundDiv num (den * pow2 k)
  | .negSucc k => roundDiv (num * pow2 (k + 1)) den

/-- An exponent that leaves `num / den` 53 binary digits, or 52. -/
def exponentFor (num den : Nat) : Int :=
  max minExponent ((Nat.log2 num : Int) - Nat.log2 den - 52)

/-- The nearest number to `num / den`; none where that is infinite. -/
def nearest (negative : Bool) (num den : Nat) : Option Binary64 :=
  let e := exponentFor num den
  let m := roundAt num den e
  -- The estimate of the exponent is at most one too high.
  let (m, e) :=
    if m < pow2 52 ∧ minExponent < e then (roundAt num den (e - 1), e - 1) else (m, e)
  let (m, e) := if m = pow2 53 then (pow2 52, e + 1) else (m, e)
  if maxExponent < e then none else some ⟨negative, m, if m = 0 then minExponent else e⟩

def ofNat (n : Nat) : Option Binary64 := nearest false n 1

def fraction (x : Binary64) : Nat × Nat :=
  match x.exponent with
  | .ofNat k => (x.significand * pow2 k, 1)
  | .negSucc k => (x.significand, pow2 (k + 1))

def mul (x y : Binary64) : Option Binary64 :=
  let (a, b) := x.fraction
  let (c, d) := y.fraction
  nearest (x.negative != y.negative) (a * c) (b * d)

def div (x y : Binary64) : Option Binary64 :=
  let (a, b) := x.fraction
  let (c, d) := y.fraction
  nearest (x.negative != y.negative) (a * d) (b * c)

def isZero (x : Binary64) : Bool := x.significand = 0

def neg (x : Binary64) : Binary64 := { x with negative := !x.negative }

end Binary64

end NodeConfig
