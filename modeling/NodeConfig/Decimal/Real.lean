import NodeConfig.Decimal.Shortest
import NodeConfig.Power

namespace NodeConfig

inductive Real where
  | finite (x : Binary64)
  | infinite (negative : Bool)
  | nan
  deriving DecidableEq, Repr

namespace Real

def text : Real → String
  | .finite x => x.toPositional
  | .infinite negative => if negative then "-inf" else "inf"
  | .nan => "NaN"

/-- `digits · 10 ^ exponent`. Beyond these exponents the value is zero or infinite. -/
def ofDecimal (negative : Bool) (digits : Nat) (exponent : Int) : Real :=
  let top := exponent + Decimal.digitCount digits
  if digits = 0 ∨ top < -330 then .finite { Binary64.zero with negative := negative }
  else if 310 < top then .infinite negative
  else
    let x? :=
      match exponent with
      | .ofNat k => Binary64.nearest negative (digits * pow10 k) 1
      | .negSucc k => Binary64.nearest negative digits (pow10 (k + 1))
    match x? with
    | some x => .finite x
    | none => .infinite negative

def digitsValue (ds : List Char) : Nat := ds.foldl (fun n d => n * 10 + (d.toNat - 0x30)) 0

def dropSign : List Char → Bool × List Char
  | '-' :: rest => (true, rest)
  | '+' :: rest => (false, rest)
  | cs => (false, cs)

def exponentPart? : List Char → Option Int
  | [] => some 0
  | c :: rest =>
    if c = 'e' || c = 'E' then
      let (negative, ds) := dropSign rest
      if ds ≠ [] && ds.all Char.isDigit then
        some (if negative then -(digitsValue ds : Int) else digitsValue ds)
      else none
    else none

/-- Digits with a point and a power of ten; either side of the point may be missing. -/
def literal? (cs : List Char) : Option Real :=
  let (negative, cs) := dropSign cs
  let whole := cs.takeWhile Char.isDigit
  let rest := cs.drop whole.length
  let (places, rest) :=
    match rest with
    | '.' :: r => (r.takeWhile Char.isDigit, r.dropWhile Char.isDigit)
    | _ => ([], rest)
  if whole ++ places = [] then none
  else
    (exponentPart? rest).map fun e =>
      ofDecimal negative (digitsValue (whole ++ places)) (e - places.length)

end Real

end NodeConfig
