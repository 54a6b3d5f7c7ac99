import NodeConfig.Power
import NodeConfig.Toml.Value

namespace NodeConfig.Toml

/-- What stands at a place: something read, something else, or something begun and wrong. -/
inductive Outcome (α : Type) where
  | read (value : α) (rest : List Char)
  | absent
  | malformed

def digits? (n low high : Nat) (cs : List Char) : Option (Nat × List Char) :=
  let ds := cs.take n
  if ds.length = n && ds.all Char.isDigit then
    let v := Real.digitsValue ds
    if low ≤ v && v ≤ high then some (v, cs.drop n) else none
  else none

def isLeap (year : Nat) : Bool := year % 4 = 0 && (year % 100 ≠ 0 || year % 400 = 0)

def daysIn (year month : Nat) : Nat :=
  if month = 2 then (if isLeap year then 29 else 28)
  else if month = 4 || month = 6 || month = 9 || month = 11 then 30
  else 31

def date (cs : List Char) : Outcome Unit :=
  match digits? 4 0 9999 cs with
  | some (year, '-' :: rest) =>
    match digits? 2 1 12 rest with
    | some (month, '-' :: rest) =>
      match digits? 2 1 31 rest with
      | some (day, rest) => if day ≤ daysIn year month then .read () rest else .malformed
      | none => .malformed
    | _ => .malformed
  | _ => .absent

def clock (cs : List Char) : Outcome Unit :=
  match digits? 2 0 23 cs with
  | some (_, ':' :: rest) =>
    match digits? 2 0 59 rest with
    | some (_, ':' :: rest) =>
      match digits? 2 0 60 rest with
      | some (_, rest) =>
        match rest with
        | '.' :: r =>
          if (r.takeWhile Char.isDigit) = [] then .read () rest
          else .read () (r.dropWhile Char.isDigit)
        | _ => .read () rest
      | none => .malformed
    | _ => .malformed
  | _ => .absent

def offset (cs : List Char) : Outcome Unit :=
  match cs with
  | c :: rest =>
    if c = 'Z' || c = 'z' then .read () rest
    else if c = '+' || c = '-' then
      match digits? 2 0 23 rest with
      | some (_, ':' :: rest) =>
        match digits? 2 0 59 rest with
        | some (_, rest) => .read () rest
        | none => .malformed
      | _ => .malformed
    else .absent
  | [] => .absent

def time (cs : List Char) : Outcome Unit :=
  match date cs with
  | .malformed => .malformed
  | .absent => clock cs
  | .read _ rest =>
    match rest with
    | c :: r =>
      if c = 'T' || c = 't' || c = ' ' then
        match clock r with
        | .malformed => .malformed
        | .absent => .read () rest
        | .read _ r =>
          match offset r with
          | .absent => .read () r
          | o => o
      else .read () rest
    | [] => .read () rest

/-- More digits after the first; an underscore must have a digit after it. -/
def moreDigits (isDigit : Char → Bool) : List Char → Outcome (List Char)
  | [] => .read [] []
  | '_' :: d :: rest =>
    if isDigit d then
      match moreDigits isDigit rest with
      | .read ds r => .read (d :: ds) r
      | o => o
    else .malformed
  | c :: rest =>
    if c = '_' then .malformed
    else if isDigit c then
      match moreDigits isDigit rest with
      | .read ds r => .read (c :: ds) r
      | o => o
    else .read [] (c :: rest)

def someDigits (isDigit : Char → Bool) (cs : List Char) : Outcome (List Char) :=
  match cs with
  | [] => .absent
  | c :: rest =>
    if isDigit c then
      match moreDigits isDigit rest with
      | .read ds r => .read (c :: ds) r
      | o => o
    else .absent

/-- Digits without a zero in front. -/
def wholeDigits (cs : List Char) : Outcome (List Char) :=
  match cs with
  | '0' :: rest => .read ['0'] rest
  | cs => someDigits Char.isDigit cs

def power (cs : List Char) : Outcome Int :=
  match cs with
  | c :: rest =>
    if c = 'e' || c = 'E' then
      let (negative, ds) := Real.dropSign rest
      match someDigits Char.isDigit ds with
      | .read ds r =>
        let n : Int := Real.digitsValue ds
        .read (if negative then -n else n) r
      | _ => .malformed
    else .read 0 cs
  | [] => .read 0 []

def real (negative : Bool) (whole places : List Char) (rest : List Char) : Outcome Value :=
  match power rest with
  | .read e r =>
    let x := Real.ofDecimal negative (Real.digitsValue (whole ++ places)) (e - places.length)
    if x = .infinite false then .malformed else .read (.real x) r
  | _ => .malformed

/-- Whole numbers fit 64 bits with their sign. -/
def int (n : Int) (rest : List Char) : Outcome Value :=
  if -pow2 63 ≤ n && n < pow2 63 then .read (.int n) rest else .malformed

def digitValue (c : Char) : Nat :=
  if c.isDigit then c.toNat - 0x30
  else if 'a' ≤ c && c ≤ 'f' then c.toNat - 0x57
  else c.toNat - 0x37

def isHexDigit (c : Char) : Bool := c.isDigit || ('a' ≤ c && c ≤ 'f') || ('A' ≤ c && c ≤ 'F')

def based (base : Nat) (isDigit : Char → Bool) (cs : List Char) : Outcome Value :=
  match someDigits isDigit cs with
  | .read ds r => int (ds.foldl (fun n d => n * base + digitValue d) 0 : Nat) r
  | _ => .malformed

def special (negative : Bool) : List Char → Outcome Value
  | 'i' :: 'n' :: 'f' :: rest => .read (.real (.infinite negative)) rest
  | 'n' :: 'a' :: 'n' :: rest => .read (.real .nan) rest
  | _ => .absent

def number (cs : List Char) : Outcome Value :=
  match cs with
  | '0' :: 'x' :: rest => based 16 isHexDigit rest
  | '0' :: 'o' :: rest => based 8 (fun c => '0' ≤ c && c ≤ '7') rest
  | '0' :: 'b' :: rest => based 2 (fun c => c = '0' || c = '1') rest
  | _ =>
    let (negative, unsigned) := Real.dropSign cs
    match wholeDigits unsigned with
    | .malformed => .malformed
    | .absent => special negative unsigned
    | .read whole rest =>
      match rest with
      | '.' :: r =>
        match someDigits Char.isDigit r with
        | .read places r => real negative whole places r
        | _ => .malformed
      | c :: _ =>
        if c = 'e' || c = 'E' then real negative whole [] rest
        else int (if negative then -(Real.digitsValue whole : Int) else Real.digitsValue whole) rest
      | [] => int (if negative then -(Real.digitsValue whole : Int) else Real.digitsValue whole) []

def numberOrTime (cs : List Char) : Outcome Value :=
  match time cs with
  | .read _ rest => .read .time rest
  | .malformed => .malformed
  | .absent => number cs

end NodeConfig.Toml
