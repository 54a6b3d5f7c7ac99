import NodeConfig.Yaml.Gap

namespace NodeConfig.Yaml

/-- What becomes of the breaks at the end: only the first stays, none does, or all do. -/
inductive Chomp where
  | clip | strip | keep
  deriving DecidableEq, Repr

structure BlockHeader where
  chomp : Chomp
  /-- Indentation beyond that of the parent. -/
  indent : Option Nat
  deriving DecidableEq, Repr

def chomp? (c : Char) : Option Chomp :=
  if c = '+' then some .keep else if c = '-' then some .strip else none

/-- The mark of chomping and the digit of indentation, in either order; a zero is an error. -/
def blockMarks (p : Place) (cs : List Char) : Option (Piece BlockHeader) :=
  let digit? (c : Char) : Option Nat := if c.isDigit then some (c.toNat - 0x30) else none
  match cs with
  | [] => some ⟨⟨.clip, none⟩, p, []⟩
  | c :: rest =>
    match chomp? c with
    | some k =>
      match rest with
      | d :: r =>
        match digit? d with
        | some 0 => none
        | some n => some ⟨⟨k, some n⟩, p.right 2, r⟩
        | none => some ⟨⟨k, none⟩, p.right, rest⟩
      | [] => some ⟨⟨k, none⟩, p.right, rest⟩
    | none =>
      match digit? c with
      | some 0 => none
      | some n =>
        match rest with
        | d :: r =>
          match chomp? d with
          | some k => some ⟨⟨k, some n⟩, p.right 2, r⟩
          | none => some ⟨⟨.clip, some n⟩, p.right, rest⟩
        | [] => some ⟨⟨.clip, some n⟩, p.right, rest⟩
      | none => some ⟨⟨.clip, none⟩, p, cs⟩

/-- Blanks and a comment up to the end of the line; none if anything else stands there. -/
def lineEnd (p : Place) (cs : List Char) : Option (Place × List Char) :=
  let blanks := cs.takeWhile isBlank
  let p := p.right blanks.length
  let cs := cs.drop blanks.length
  let (p, cs) := if cs.head? = some '#' then dropLine p cs else (p, cs)
  match cs with
  | [] => some (p, [])
  | c :: _ => if isBreak c then some (dropBreak p cs) else none

def blockHeader (p : Place) (cs : List Char) : Option (Piece BlockHeader) :=
  match blockMarks p cs with
  | none => none
  | some t => (lineEnd t.place t.rest).map fun (p, cs) => ⟨t.value, p, cs⟩

/-- The widest indentation up to the first line with text; none on a tab in it. -/
def firstIndent (widest column : Nat) : List Char → Option Nat
  | [] => some (max widest column)
  | c :: rest =>
    if c = ' ' then firstIndent widest (column + 1) rest
    else if c = '\t' then none
    else if isBreak c then firstIndent (max widest column) 0 rest
    else some (max widest column)

/-- Between two lines of text: the break after the last line, the breaks of empty lines, and whether
the last line began with a blank. -/
structure BlockGap where
  first : Option Char
  more : List Char
  indented : Bool
  deriving DecidableEq, Repr

/-- What a gap becomes before a line with the first character `c`: in a folded scalar one line feed
between two lines that do not begin with blanks is a space, or nothing before empty lines. -/
def BlockGap.join (folded : Bool) (g : BlockGap) (c : Char) : List Char :=
  if folded && g.first = some '\n' && !g.indented && !isBlank c then
    (if g.more = [] then [' '] else g.more)
  else g.first.toList ++ g.more

def BlockGap.chomp (g : BlockGap) : Chomp → List Char
  | .strip => []
  | .clip => g.first.toList
  | .keep => g.first.toList ++ g.more

/-- Lines indented by `indent`. In `line` the reading is inside a line of text, else in the
indentation of one, after the gap `g`. None on a tab in the indentation. -/
def blockBody (folded : Bool) (chomp : Chomp) (indent : Nat) (line : Bool) (g : BlockGap)
    (p : Place) : List Char → Option (Piece (List Char))
  | [] => some ⟨g.chomp chomp, p, []⟩
  | '\r' :: '\n' :: rest =>
    let g := if line then { g with first := some '\n' } else { g with more := g.more ++ ['\n'] }
    blockBody folded chomp indent false g (p.nextLine 2) rest
  | c :: rest =>
    if isBreak c then
      let b := breakValue c
      let g := if line then { g with first := some b } else { g with more := g.more ++ [b] }
      blockBody folded chomp indent false g p.nextLine rest
    else if line then
      (blockBody folded chomp indent true g p.right rest).map fun t =>
        { t with value := c :: t.value }
    else if p.column < indent && c = ' ' then
      blockBody folded chomp indent false g p.right rest
    else if p.column < indent && c = '\t' then none
    else if p.column = indent then
      (blockBody folded chomp indent true ⟨none, [], isBlank c⟩ p.right rest).map fun t =>
        { t with value := g.join folded c ++ c :: t.value }
    else some ⟨g.chomp chomp, p, c :: rest⟩

def blockScalar (folded : Bool) (parent : Option Nat) (p : Place) (cs : List Char) :
    Option (Piece (List Char)) :=
  match blockHeader p cs with
  | none => none
  | some h =>
    let least := match parent with | some n => n + 1 | none => 1
    let indent? :=
      match h.value.indent with
      | some n => some ((parent.getD 0) + n)
      | none => (firstIndent 0 0 h.rest).map (max least)
    match indent? with
    | none => none
    | some indent =>
      blockBody folded h.value.chomp indent false ⟨none, [], false⟩ h.place h.rest

end NodeConfig.Yaml
