import NodeConfig.Decimal.Shortest
import NodeConfig.Text.Quoted

namespace NodeConfig

/-- A whole number in the range of 64 bits, signed or not, or a real. -/
inductive JsonNumber where
  | int (n : Int)
  | real (x : Binary64)
  deriving DecidableEq, Repr

inductive Json where
  | null
  | bool (b : Bool)
  | number (n : JsonNumber)
  | string (s : String)
  | array (items : List Json)
  | object (members : List (String × Json))
  deriving Repr, Inhabited

namespace Json

/-- Adds a member in its place; a later value replaces an earlier one. -/
def insertMember (name : String) (value : Json) : List (String × Json) → List (String × Json)
  | [] => [(name, value)]
  | (n, v) :: rest =>
    if name < n then (name, value) :: (n, v) :: rest
    else if name = n then (name, value) :: rest
    else (n, v) :: insertMember name value rest

def member? (j : Json) (name : String) : Option Json :=
  match j with
  | .object ms => ms.lookup name
  | _ => none

def hex4 (n : Nat) : String :=
  let ds := Nat.toDigits 16 n
  String.ofList (List.replicate (4 - ds.length) '0' ++ ds)

/-- Quotes, backslashes and controls are escaped, nothing else. -/
def escape (c : Char) : String :=
  match c with
  | '"' => "\\\""
  | '\\' => "\\\\"
  | '\x08' => "\\b"
  | '\t' => "\\t"
  | '\n' => "\\n"
  | '\x0c' => "\\f"
  | '\r' => "\\r"
  | c => if c.toNat < 0x20 then "\\u" ++ hex4 c.toNat else String.singleton c

def quote (s : String) : String := "\"" ++ String.join (s.toList.map escape) ++ "\""

end Json

def JsonNumber.text : JsonNumber → String
  | .int n => toString n
  | .real x => x.toCompact

namespace Json

mutual

def compact : Json → String
  | .null => "null"
  | .bool b => if b then "true" else "false"
  | .number n => n.text
  | .string s => quote s
  | .array items => "[" ++ compactItems items ++ "]"
  | .object members => "\x7b" ++ compactMembers members ++ "\x7d"

def compactItems : List Json → String
  | [] => ""
  | [j] => j.compact
  | j :: rest => j.compact ++ "," ++ compactItems rest

def compactMembers : List (String × Json) → String
  | [] => ""
  | [(n, j)] => quote n ++ ":" ++ j.compact
  | (n, j) :: rest => quote n ++ ":" ++ j.compact ++ "," ++ compactMembers rest

end

end Json

end NodeConfig
