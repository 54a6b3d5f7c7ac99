namespace NodeConfig.Toml

/-- Written by a code or a letter wherever escapes are possible. -/
def isControl (c : Char) : Bool :=
  (c.toNat < 0x20 && c ≠ '\t' && c ≠ '\n') || c.toNat = 0x7F

/-- The longest run of a character; `run` of them came last. -/
def longestRun (q : Char) (run : Nat) : List Char → Nat
  | [] => run
  | c :: rest => if c = q then longestRun q (run + 1) rest else max run (longestRun q 0 rest)

inductive Form where
  | basic | literal | basicLines | literalLines
  deriving DecidableEq, Repr

def formFor (cs : List Char) : Form :=
  let controls := cs.any isControl
  let lines := cs.contains '\n'
  let escapes := controls || cs.contains '\\'
  if !escapes && !cs.contains '"' && !lines then .basic
  else if !controls && !cs.contains '\'' && !lines then .literal
  else if !escapes && longestRun '"' 0 cs ≤ 2 then .basicLines
  else if !controls && longestRun '\'' 0 cs ≤ 2 then .literalLines
  else if lines then .basicLines
  else .basic

def escapeOf? (lines : Bool) (c : Char) : Option (List Char) :=
  if c = '\\' then some ['\\', '\\']
  else if c = '\t' then some ['\\', 't']
  else if c = '\n' then (if lines then none else some ['\\', 'n'])
  else if c = '\x08' then some ['\\', 'b']
  else if c = '\x0c' then some ['\\', 'f']
  else if c = '\r' then some ['\\', 'r']
  else if isControl c then
    let ds := (Nat.toDigits 16 c.toNat).map Char.toUpper
    some ('\\' :: 'u' :: List.replicate (4 - ds.length) '0' ++ ds)
  else none

/-- A basic text with its escapes. Over lines two quotes in a row need none; `run` of them came
last. -/
def basicText (lines : Bool) (run : Nat) : List Char → List Char
  | [] => []
  | c :: rest =>
    if c = '"' then
      if lines && run < 2 then c :: basicText lines (run + 1) rest
      else '\\' :: c :: basicText lines 0 rest
    else
      match escapeOf? lines c with
      | some e => e ++ basicText lines 0 rest
      | none => c :: basicText lines 0 rest

/-- A text between its quotes. One that has lines begins on a line of its own. -/
def writeText (cs : List Char) : List Char :=
  let triple (q : Char) (body : List Char) : List Char :=
    [q, q, q] ++ (if cs.contains '\n' then ['\n'] else []) ++ body ++ [q, q, q]
  match formFor cs with
  | .basic => '"' :: basicText false 0 cs ++ ['"']
  | .literal => '\'' :: cs ++ ['\'']
  | .basicLines => triple '"' (basicText true 0 cs)
  | .literalLines => triple '\'' cs

def writePair (key : String) (value : String) : List Char :=
  key.toList ++ " = ".toList ++ writeText value.toList ++ ['\n']

end NodeConfig.Toml
