import NodeConfig.Json.Fault
import NodeConfig.Json.Value
import NodeConfig.Power

namespace NodeConfig

namespace Json

def isDigit (b : UInt8) : Bool := 0x30 ≤ b && b ≤ 0x39

def digit (b : UInt8) : Nat := b.toNat - 0x30

def digits (bs : Bytes) : Bytes × Bytes := (bs.takeWhile isDigit, bs.dropWhile isDigit)

/-- Appends digits to a significand while it fits 64 bits, and counts them. -/
def absorb (significand : Nat) : Bytes → Nat × Nat
  | [] => (significand, 0)
  | d :: ds =>
    let next := significand * 10 + digit d
    if next < pow2 64 then
      let (s, n) := absorb next ds
      (s, n + 1)
    else (significand, 0)

def power (n : Nat) : Binary64 := (Binary64.ofNat (pow10 n)).getD Binary64.zero

/-- Divides by powers of ten no larger than `1e308`, one rounding each. -/
def scaleDown (x : Binary64) (n : Nat) : Binary64 :=
  if n ≤ 308 then (x.div (power n)).getD Binary64.zero
  else if x.isZero then x
  else scaleDown ((x.div (power 308)).getD Binary64.zero) (n - 308)
termination_by n
decreasing_by omega

def real? (positive : Bool) (significand : Nat) (exponent : Int) : Option Binary64 :=
  let x := (Binary64.ofNat significand).getD Binary64.zero
  let y? :=
    match exponent with
    | .ofNat k =>
      if k ≤ 308 then x.mul (power k) else if x.isZero then some x else none
    | .negSucc k => some (scaleDown x (k + 1))
  y?.map fun y => if positive then y else y.neg

def finish (positive : Bool) (significand : Nat) (exponent : Int) (rest : Bytes) :
    Except Fault (JsonNumber × Bytes) :=
  match real? positive significand exponent with
  | some x => .ok (.real x, rest)
  | none => failBefore .outOfRange rest

/-- Digits of an exponent up to the one that takes it out of 32 bits: its value, or what follows
that digit. -/
def exponentDigits (n : Nat) : Bytes → Except Bytes Nat
  | [] => .ok n
  | d :: ds =>
    let next := n * 10 + digit d
    if next < pow2 31 then exponentDigits next ds else .error ds

def exponentPart (positive : Bool) (significand : Nat) (start : Int) (bs : Bytes) :
    Except Fault (JsonNumber × Bytes) :=
  let (up, bs) :=
    match bs with
    | 0x2B :: r => (true, r)
    | 0x2D :: r => (false, r)
    | _ => (true, bs)
  match bs with
  | [] => failBefore .endInValue []
  | b :: r =>
    if !isDigit b then failBefore .invalidNumber r
    else
      let (ds, rest) := digits bs
      match exponentDigits 0 ds with
      | .ok e => finish positive significand (if up then start + e else start - e) rest
      | .error more =>
        if significand ≠ 0 ∧ up then .error ⟨.outOfRange, more.length + rest.length⟩
        else .ok (.real ⟨!positive, 0, Binary64.minExponent⟩, rest)

def afterFraction (positive : Bool) (significand : Nat) (start : Int) (rest : Bytes) :
    Except Fault (JsonNumber × Bytes) :=
  match rest with
  | 0x65 :: r | 0x45 :: r => exponentPart positive significand start r
  | _ => finish positive significand start rest

/-- What follows the point. Digits that do not fit are dropped. -/
def fractionPart (positive : Bool) (significand : Nat) (start : Int) (bs : Bytes) :
    Except Fault (JsonNumber × Bytes) :=
  let (ds, rest) := digits bs
  match ds with
  | [] => failHere (if rest = [] then .endInValue else .invalidNumber) rest
  | _ =>
    let (s, n) := absorb significand ds
    afterFraction positive s (start - n) rest

/-- A whole number that fits; a negative zero is a real. -/
def whole (positive : Bool) (n : Nat) : JsonNumber :=
  if positive then .int n
  else if 1 ≤ n ∧ n ≤ pow2 63 then .int (-n)
  else .real (((Binary64.ofNat n).getD Binary64.zero).neg)

def readNumber (positive : Bool) (bs : Bytes) : Except Fault (JsonNumber × Bytes) :=
  match bs with
  | [] => failBefore .endInValue []
  | b :: r =>
    if !isDigit b then failBefore .invalidNumber r
    else
      let (ds, rest) := if b = 0x30 then ([b], r) else digits bs
      if b = 0x30 && r.head?.any isDigit then failHere .invalidNumber r
      else
        let (s, n) := absorb 0 ds
        let dropped := ds.length - n
        match rest with
        | 0x2E :: r => fractionPart positive s dropped r
        | 0x65 :: r | 0x45 :: r => exponentPart positive s dropped r
        | _ => if dropped = 0 then .ok (whole positive s, rest) else finish positive s dropped rest

end Json

end NodeConfig
