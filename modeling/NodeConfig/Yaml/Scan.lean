import NodeConfig.Yaml.Block
import NodeConfig.Yaml.Plain
import NodeConfig.Yaml.Quoted
import NodeConfig.Yaml.Tag

/-!
From text to tokens. Block structure is read off the columns at which tokens begin. A key without
a question mark is known for one only at its colon: the mark for it is then put before tokens that
were read already. So a token is certain only when no key can begin with it any more, and when the
text breaks off in a fault the uncertain tokens are lost.
-/

namespace NodeConfig.Yaml

/-- What begins at a place. -/
inductive Start where
  | directive
  | documentMark (t : Token)
  | flowOpen (t : Token)
  | flowClose (t : Token)
  | flowEntry
  | blockEntry
  | key
  | value
  | alias
  | anchor
  | tag
  | block (folded : Bool)
  | quoted (double : Bool)
  | plain
  | nothing
  deriving DecidableEq, Repr

/-- Characters that no plain scalar begins with, but for `-`, `?` and `:`. -/
def isIndicator (c : Char) : Bool := ",[]\x7b\x7d#&*!|>'\"%@`".toList.contains c

/-- In the block a hyphen, a question mark or a colon needs a blank or a break after it; in the flow
a question mark or a colon needs none, and a hyphen before a break begins an entry. -/
def startOf (flow : Bool) (column : Nat) : List Char → Start
  | [] => .nothing
  | c :: rest =>
    if column = 0 && c = '%' then .directive
    else if column = 0 && isMark '-' (c :: rest) then .documentMark .documentStart
    else if column = 0 && isMark '.' (c :: rest) then .documentMark .documentEnd
    else if c = '-' then (if endsWord rest then .blockEntry else .plain)
    else if c = '?' then (if flow || endsWord rest then .key else .plain)
    else if c = ':' then (if flow || endsWord rest then .value else .plain)
    else if !isIndicator c then (if isWord c then .plain else .nothing)
    else if c = '[' then .flowOpen .flowSequenceStart
    else if c = '{' then .flowOpen .flowMappingStart
    else if c = ']' then .flowClose .flowSequenceEnd
    else if c = '}' then .flowClose .flowMappingEnd
    else if c = ',' then .flowEntry
    else if c = '*' then .alias
    else if c = '&' then .anchor
    else if c = '!' then .tag
    else if c = '|' && !flow then .block false
    else if c = '>' && !flow then .block true
    else if c = '\'' then .quoted false
    else if c = '"' then .quoted true
    else .nothing

/-- Past blanks, comments and breaks, to the next token: whether a key may begin there, and where it
is. -/
def skipGap (flow keyAllowed comment : Bool) (p : Place) : List Char → Bool × Place × List Char
  | [] => (keyAllowed, p, [])
  | '\r' :: '\n' :: rest => skipGap flow (keyAllowed || !flow) false (p.nextLine 2) rest
  | c :: rest =>
    if isBreak c then skipGap flow (keyAllowed || !flow) false p.nextLine rest
    else if comment || c = ' ' || (c = '\t' && (flow || !keyAllowed)) ||
        (c = byteOrderMark && p.column = 0) then
      skipGap flow keyAllowed comment p.right rest
    else if c = '#' then skipGap flow keyAllowed true p.right rest
    else (keyAllowed, p, c :: rest)

structure KeyStart where
  required : Bool
  number : Nat
  place : Place
  deriving DecidableEq, Repr

/-- A key is a single line of at most 1024 characters. -/
def KeyStart.isStale (k : KeyStart) (p : Place) : Bool :=
  k.place.line < p.line || k.place.index + 1024 < p.index

structure Scan where
  place : Place
  rest : List Char
  /-- Tokens read, the last one first. -/
  tokens : List Token
  /-- Where a key may begin in the innermost collection. -/
  key : Option KeyStart
  /-- The same for the collections around it, up to the block. -/
  outer : List (Option KeyStart)
  indents : List Nat
  keyAllowed : Bool

namespace Scan

def begin (cs : List Char) : Scan := ⟨.start, cs, [], none, [], [], true⟩

def inFlow (s : Scan) : Bool := !s.outer.isEmpty

def push (t : Token) (s : Scan) : Scan := { s with tokens := t :: s.tokens }

def take (n : Nat) (t : Token) (s : Scan) : Scan :=
  { s with place := s.place.right n, rest := s.rest.drop n, tokens := t :: s.tokens }

def takePiece {α : Type} (t : α → Token) (x : Option (Piece α)) (s : Scan) : Option Scan :=
  x.map fun x => { s with place := x.place, rest := x.rest, tokens := t x.value :: s.tokens }

def allowKey (b : Bool) (s : Scan) : Scan := { s with keyAllowed := b }

/-- A token put before those from `number` on. -/
def insert (number : Nat) (t : Token) (s : Scan) : Scan :=
  let later := s.tokens.length - number
  { s with tokens := s.tokens.take later ++ t :: s.tokens.drop later }

/-- A block collection opens at this column if it is to the right of the current one. -/
def roll (column number : Nat) (t : Token) (s : Scan) : Scan :=
  if s.inFlow || s.indents.head?.any (column ≤ ·) then s
  else { insert number t s with indents := column :: s.indents }

def enter (t : Token) (s : Scan) : Option Scan :=
  if s.inFlow then some s
  else if s.keyAllowed then some (roll s.place.column s.tokens.length t s)
  else none

/-- The block collections to the right of a column end. -/
def unrollTo (column : Nat) (s : Scan) : Scan :=
  if s.inFlow then s
  else
    let ended := (s.indents.takeWhile (column < ·)).length
    { s with
      tokens := List.replicate ended .blockEnd ++ s.tokens
      indents := s.indents.drop ended }

def unrollAll (s : Scan) : Scan :=
  if s.inFlow then s
  else { s with tokens := List.replicate s.indents.length .blockEnd ++ s.tokens, indents := [] }

/-- What remains of a possible key at a later place; an error if it is stale and required. -/
def freshKey (p : Place) : Option KeyStart → Option (Option KeyStart)
  | none => some none
  | some k => if k.isStale p then (if k.required then none else some none) else some (some k)

def dropStale (s : Scan) : Option Scan :=
  match freshKey s.place s.key, s.outer.mapM (freshKey s.place) with
  | some key, some outer => some { s with key := key, outer := outer }
  | _, _ => none

/-- No key begins where one might have; an error if it is required. -/
def dropKey (s : Scan) : Option Scan :=
  if s.key.any (·.required) then none else some { s with key := none }

def startKey (s : Scan) : Option Scan :=
  if s.keyAllowed then
    (dropKey s).map fun s =>
      { s with
        key := some
          ⟨!s.inFlow && s.indents.head? = some s.place.column, s.tokens.length, s.place⟩ }
  else some s

/-- Tokens before which no mark for a key can be put any more. -/
def certain (s : Scan) : List Token :=
  let firsts := (s.key :: s.outer).filterMap fun k => k.map KeyStart.number
  s.tokens.reverse.take (firsts.foldl min s.tokens.length)

def directive (s : Scan) : Option Scan := do
  let s ← (unrollAll s).dropKey
  let d ← Yaml.directive s.place.right (s.rest.drop 1)
  let (p, cs) ← lineEnd d.place d.rest
  let t :=
    match d.value with
    | .version major minor => .versionDirective major minor
    | .tag handle head => .tagDirective handle head
  return { s with place := p, rest := cs, tokens := t :: s.tokens, keyAllowed := false }

def value (s : Scan) : Option Scan :=
  match s.key with
  | some k =>
    let s := (insert k.number .key s).roll k.place.column k.number .blockMappingStart
    some ((take 1 .value { s with key := none }).allowKey false)
  | none => (enter .blockMappingStart s).map fun s => (take 1 .value s).allowKey (!s.inFlow)

def flowClose (t : Token) (s : Scan) : Option Scan :=
  (dropKey s).map fun s =>
    let s := (take 1 t s).allowKey false
    match s.outer with
    | k :: outer => { s with key := k, outer := outer }
    | [] => s

def textIndent (s : Scan) : Nat :=
  match s.indents with
  | n :: _ => n + 1
  | [] => 0

/-- The token that begins at this place. -/
def fetch (s : Scan) : Option Scan :=
  match startOf s.inFlow s.place.column s.rest with
  | .directive => directive s
  | .documentMark t => (unrollAll s).dropKey.map fun s => (take 3 t s).allowKey false
  | .flowOpen t =>
    (startKey s).map fun s =>
      { take 1 t s with key := none, outer := s.key :: s.outer, keyAllowed := true }
  | .flowClose t => flowClose t s
  | .flowEntry => (dropKey s).map fun s => (take 1 .flowEntry s).allowKey true
  | .blockEntry =>
    ((enter .blockSequenceStart s).bind dropKey).map fun s => (take 1 .blockEntry s).allowKey true
  | .key =>
    ((enter .blockMappingStart s).bind dropKey).map fun s =>
      (take 1 .key s).allowKey (!s.inFlow)
  | .value => value s
  | .alias =>
    (startKey s).bind fun s =>
      takePiece .alias (anchorName s.place.right (s.rest.drop 1)) (s.allowKey false)
  | .anchor =>
    (startKey s).bind fun s =>
      takePiece .anchor (anchorName s.place.right (s.rest.drop 1)) (s.allowKey false)
  | .tag =>
    (startKey s).bind fun s =>
      takePiece (fun t => .tag t.handle t.suffix) (tagWords s.inFlow s.place s.rest)
        (s.allowKey false)
  | .block folded =>
    (dropKey s).bind fun s =>
      takePiece (fun cs => .scalar (String.ofList cs) (if folded then .folded else .literal))
        (blockScalar folded s.indents.head? s.place.right (s.rest.drop 1)) (s.allowKey true)
  | .quoted double =>
    (startKey s).bind fun s =>
      takePiece (fun cs => .scalar (String.ofList cs) (if double then .double else .single))
        (quotedScalar double s.place.right (s.rest.drop 1)) (s.allowKey false)
  | .plain =>
    (startKey s).bind fun s =>
      (Yaml.plain s.inFlow s.textIndent s.place s.rest).map fun t =>
        { s with
          place := t.place
          rest := t.rest
          tokens := .scalar (String.ofList t.value.text) .plain :: s.tokens
          keyAllowed := t.value.broken }
  | .nothing => none

def finish (s : Scan) : Option Scan :=
  (unrollAll s).dropKey.map (push .streamEnd)

/-- To the next token, past keys and block collections that end before it. -/
def advance (s : Scan) : Option Scan :=
  let (keyAllowed, p, cs) := skipGap s.inFlow s.keyAllowed false s.place s.rest
  (dropStale { s with place := p, rest := cs, keyAllowed := keyAllowed }).map fun s =>
    unrollTo p.column s

end Scan

def Scan.run (s : Scan) : List Token :=
  match s.dropStale with
  | none => s.certain
  | some fresh =>
    match fresh.advance with
    | none => fresh.certain
    | some t =>
      if t.rest = [] then
        match t.finish with
        | some t => t.tokens.reverse
        | none => fresh.certain
      else
        match t.fetch with
        | some t => if t.rest.length < s.rest.length then run t else fresh.certain
        | none => fresh.certain
termination_by s.rest.length

/-- The tokens of a text, with the mark of its end unless a fault comes first. A character that has
no place in a text is a fault before all tokens; a byte order mark at the start is no character. -/
def tokens (cs : List Char) : List Token :=
  let cs := if cs.head? = some byteOrderMark then cs.drop 1 else cs
  if cs.all isAllowed then (Scan.begin cs).run else []

end NodeConfig.Yaml
