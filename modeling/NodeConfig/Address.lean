import NodeConfig.Power

namespace NodeConfig

inductive Address where
  | v4 (octets : List Nat) (port : Nat)
  | v6 (groups : List Nat) (scope : Nat) (port : Nat)
  deriving DecidableEq, Repr

namespace Address

def digitOf? (radix : Nat) (c : Char) : Option Nat :=
  let v :=
    if c.isDigit then c.toNat - 0x30
    else if 'a' ≤ c && c ≤ 'z' then c.toNat - 0x57
    else if 'A' ≤ c && c ≤ 'Z' then c.toNat - 0x37
    else radix
  if v < radix then some v else none

/-- A number below `limit`, and the rest. At most `width` digits, if that is given; zeros in front
only where they are allowed. -/
def number? (radix : Nat) (width : Option Nat) (zeros : Bool) (limit : Nat) (cs : List Char) :
    Option (Nat × List Char) :=
  let ds := cs.takeWhile fun c => (digitOf? radix c).isSome
  let n := (ds.filterMap (digitOf? radix)).foldl (fun n d => n * radix + d) 0
  if ds = [] || width.any (· < ds.length) || (!zeros && ds.head? = some '0' && 1 < ds.length) then
    none
  else if n < limit then some (n, cs.drop ds.length)
  else none

def char? (c : Char) : List Char → Option (List Char)
  | d :: rest => if d = c then some rest else none
  | [] => none

def octet? (cs : List Char) : Option (Nat × List Char) := number? 10 (some 3) false 256 cs

def octets? (cs : List Char) : Option (List Nat × List Char) := do
  let (a, r) ← octet? cs
  let (b, r) ← octet? (← char? '.' r)
  let (c, r) ← octet? (← char? '.' r)
  let (d, r) ← octet? (← char? '.' r)
  return ([a, b, c, d], r)

def port? (cs : List Char) : Option (Nat × List Char) := do
  number? 10 none true (pow2 16) (← char? ':' cs)

def separated? (first : Bool) (cs : List Char) : Option (List Char) :=
  if first then some cs else char? ':' cs

def groups (first : Bool) : Nat → List Char → List Nat × Bool × List Char
  | 0, cs => ([], false, cs)
  | limit + 1, cs =>
    let octets :=
      if limit = 0 then none
      else (separated? first cs).bind octets?
    match octets with
    | some ([a, b, c, d], r) => ([a * 256 + b, c * 256 + d], true, r)
    | _ =>
      match (separated? first cs).bind (number? 16 (some 4) true (pow2 16)) with
      | some (g, r) =>
        let (gs, ended, r) := groups false limit r
        (g :: gs, ended, r)
      | none => ([], false, cs)

/-- Eight groups; two colons stand for as many zeros as are missing. -/
def sixteen? (cs : List Char) : Option (List Nat × List Char) :=
  let (front, ended, r) := groups true 8 cs
  if front.length = 8 then some (front, r)
  else if ended then none
  else do
    let r ← char? ':' (← char? ':' r)
    let (back, _, r) := groups true (8 - (front.length + 1)) r
    return (front ++ List.replicate (8 - front.length - back.length) 0 ++ back, r)

def scope? (cs : List Char) : Option (Nat × List Char) := do
  number? 10 none true (pow2 32) (← char? '%' cs)

def v4? (cs : List Char) : Option Address := do
  let (octets, r) ← octets? cs
  let (port, r) ← port? r
  if r.isEmpty then return .v4 octets port else none

def v6? (cs : List Char) : Option Address := do
  let (groups, r) ← sixteen? (← char? '[' cs)
  let (scope, r) := (scope? r).getD (0, r)
  let (port, r) ← port? (← char? ']' r)
  if r.isEmpty then return .v6 groups scope port else none

def ofText? (s : String) : Option Address := (v4? s.toList).or (v6? s.toList)

def octetsText (octets : List Nat) : String := String.intercalate "." (octets.map toString)

def groupsText (groups : List Nat) : String :=
  String.intercalate ":" (groups.map fun g => String.ofList (Nat.toDigits 16 g))

def zeros (groups : List Nat) : Nat := (groups.takeWhile (· = 0)).length

/-- Start and length of the longest run of zeros, the first of those. -/
def longestZeros (groups : List Nat) : Nat × Nat :=
  (List.range groups.length).foldl (fun best i =>
    let run := zeros (groups.drop i)
    if best.2 < run then (i, run) else best) (0, 0)

/-- Two colons stand for the longest run of two zeros or more; an address of four bytes in disguise
is shown as one. -/
def sixteenText (groups : List Nat) : String :=
  match groups with
  | [0, 0, 0, 0, 0, 0xFFFF, a, b] => "::ffff:" ++ octetsText [a / 256, a % 256, b / 256, b % 256]
  | _ =>
    let (start, length) := longestZeros groups
    if 1 < length then
      groupsText (groups.take start) ++ "::" ++ groupsText (groups.drop (start + length))
    else groupsText groups

def text : Address → String
  | .v4 octets port => octetsText octets ++ ":" ++ toString port
  | .v6 groups scope port =>
    "[" ++ sixteenText groups ++ (if scope = 0 then "" else "%" ++ toString scope) ++ "]:" ++
      toString port

end Address

end NodeConfig
