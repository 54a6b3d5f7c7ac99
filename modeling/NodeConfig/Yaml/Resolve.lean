import NodeConfig.Decimal.Real
import NodeConfig.Power

namespace NodeConfig.Yaml

inductive Resolved where
  | null
  | bool (b : Bool)
  | int (n : Int)
  | real (x : Real)
  | text
  deriving DecidableEq, Repr

def isNull (cs : List Char) : Bool :=
  cs = "null".toList || cs = "Null".toList || cs = "NULL".toList || cs = ['~']

def bool? (cs : List Char) : Option Bool :=
  if cs = "true".toList || cs = "True".toList || cs = "TRUE".toList then some true
  else if cs = "false".toList || cs = "False".toList || cs = "FALSE".toList then some false
  else none

def digitIn? (base : Nat) (c : Char) : Option Nat :=
  let d? :=
    if c.isDigit then some (c.toNat - 0x30)
    else if 'a' ≤ c && c ≤ 'z' then some (c.toNat - 0x57)
    else if 'A' ≤ c && c ≤ 'Z' then some (c.toNat - 0x37)
    else none
  d?.filter (· < base)

def natural? (base : Nat) (cs : List Char) : Option Nat :=
  if cs = [] then none
  else cs.foldl (fun n? c => n?.bind fun n => (digitIn? base c).map (n * base + ·)) (some 0)

/-- A zero before other digits makes text of them. -/
def isPadded (cs : List Char) : Bool :=
  let cs := match cs with | '-' :: r => r | '+' :: r => r | _ => cs
  match cs with
  | '0' :: d :: r => (d :: r).all Char.isDigit
  | _ => false

def magnitude? (cs : List Char) : Option Nat :=
  let marked? :=
    match cs with
    | '0' :: 'x' :: r => natural? 16 r
    | '0' :: 'o' :: r => natural? 8 r
    | '0' :: 'b' :: r => natural? 2 r
    | _ => none
  marked?.orElse fun _ => if isPadded cs then none else natural? 10 cs

/-- Whole numbers of up to 128 bits. -/
def int? (cs : List Char) : Option Int :=
  let n? : Option Int :=
    match cs with
    | '-' :: r => (magnitude? r).map fun n => -(n : Int)
    | '+' :: r => (magnitude? r).map Int.ofNat
    | r => (magnitude? r).map Int.ofNat
  n?.filter fun n => -pow2 127 ≤ n && n < pow2 128

/-- Finite decimals, and names of the infinities and of what is no number. -/
def real? (cs : List Char) : Option Real :=
  let unsigned := match cs with | '+' :: r => r | _ => cs
  let names (s : List Char) (ns : List String) : Bool := ns.any (·.toList = s)
  if cs.head? = some '+' && (unsigned.head? = some '+' || unsigned.head? = some '-') then none
  else if names unsigned [".inf", ".Inf", ".INF"] then some (.infinite false)
  else if names cs ["-.inf", "-.Inf", "-.INF"] then some (.infinite true)
  else if names cs [".nan", ".NaN", ".NAN"] then some .nan
  else
    match Real.literal? unsigned with
    | some (.finite x) => some (.finite x)
    | _ => none

def resolvePlain (cs : List Char) : Resolved :=
  if cs = [] || isNull cs then .null
  else
    match bool? cs with
    | some b => .bool b
    | none =>
      match int? cs with
      | some n => .int n
      | none =>
        match if isPadded cs then none else real? cs with
        | some x => .real x
        | none => .text

end NodeConfig.Yaml
