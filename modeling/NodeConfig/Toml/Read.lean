import NodeConfig.Toml.Number
import NodeConfig.Toml.Text

namespace NodeConfig.Toml

def skipBlanks (cs : List Char) : List Char := cs.dropWhile isBlank

/-- Brackets and dotted keys stay below this depth. -/
def depthLimit : Nat := 80

def isBareKeyChar (c : Char) : Bool := c.isAlphanum || c = '-' || c = '_'

def simpleKey (cs : List Char) : Outcome String :=
  match cs with
  | [] => .absent
  | c :: rest =>
    if c = '"' then
      match basicBody rest with
      | some (key, r) => .read (String.ofList key) r
      | none => .malformed
    else if c = '\'' then
      match literalBody rest with
      | some (key, r) => .read (String.ofList key) r
      | none => .malformed
    else
      let key := cs.takeWhile isBareKeyChar
      if key = [] then .absent else .read (String.ofList key) (cs.drop key.length)

/-- Keys with points between them, and blanks around each. A point with no key after it is left. -/
def keyPath (cs : List Char) : Outcome (List String) :=
  match simpleKey (skipBlanks cs) with
  | .absent => .absent
  | .malformed => .malformed
  | .read key rest =>
    let rest := skipBlanks rest
    match rest with
    | '.' :: r =>
      if r.length < cs.length then
        match keyPath r with
        | .read path rest => .read (key :: path) rest
        | .absent => .read [key] ('.' :: r)
        | .malformed => .malformed
      else .malformed
    | _ => .read [key] rest
termination_by cs.length

/-- Blanks, line ends and comments between the items of an array. None on a comment that has no
line end. -/
def skipFiller (comment : Bool) : List Char → Option (List Char)
  | [] => if comment then none else some []
  | '\r' :: '\n' :: rest => skipFiller false rest
  | c :: rest =>
    if c = '\n' then skipFiller false rest
    else if comment then (if isTextChar c then skipFiller true rest else none)
    else if isBlank c then skipFiller false rest
    else if c = '#' then skipFiller true rest
    else some (c :: rest)

def word (w : String) (v : Value) (cs : List Char) : Except Fault (Value × List Char) :=
  if w.toList.isPrefixOf cs then .ok (v, cs.drop w.length) else .error .malformed

mutual

/-- A value inside `depth` brackets. `fuel` bounds the calls. -/
def value (fuel depth : Nat) (cs : List Char) : Except Fault (Value × List Char) :=
  match fuel with
  | 0 => .error .malformed
  | fuel + 1 =>
    match cs with
    | [] => .error .malformed
    | c :: rest =>
      if c = '"' || c = '\'' then
        match readText cs with
        | some (s, r) => .ok (.text (String.ofList s), r)
        | none => .error .malformed
      else if c = '[' then
        if depthLimit ≤ depth + 1 then .error .tooDeep
        else (items fuel (depth + 1) rest).map fun (vs, r) => (.array vs, r)
      else if c = '\x7b' then
        if depthLimit ≤ depth + 1 then .error .tooDeep
        else do
          let (ps, r) ← pairs fuel (depth + 1) rest
          let v ← tableOfPairs ps
          match skipBlanks r with
          | '\x7d' :: r => .ok (v, r)
          | _ => .error .malformed
      else if c = 't' then word "true" (.bool true) cs
      else if c = 'f' then word "false" (.bool false) cs
      else
        match numberOrTime cs with
        | .read v r => .ok (v, r)
        | _ => .error .malformed

def items (fuel depth : Nat) (cs : List Char) : Except Fault (List Value × List Char) :=
  match fuel with
  | 0 => .error .malformed
  | fuel + 1 =>
    match skipFiller false cs with
    | none => .error .malformed
    | some (']' :: rest) => .ok ([], rest)
    | some cs => do
      let (v, r) ← value fuel depth cs
      match skipFiller false r with
      | some (',' :: r) =>
        let (vs, r) ← items fuel depth r
        return (v :: vs, r)
      | some (']' :: r) => return ([v], r)
      | _ => .error .malformed

/-- Pairs in braces. Where no key follows they end, before the comma if there is one. -/
def pairs (fuel depth : Nat) (cs : List Char) :
    Except Fault (List (List String × String × Value) × List Char) :=
  match fuel with
  | 0 => .error .malformed
  | fuel + 1 =>
    match keyPath cs with
    | .malformed => .error .malformed
    | .absent => .ok ([], cs)
    | .read path rest =>
      if depthLimit ≤ path.length then .ok ([], cs)
      else
        match rest with
        | '=' :: r => do
          let (v, r) ← value fuel depth (skipBlanks r)
          let (parents, key) := Document.splitPath path
          let r := skipBlanks r
          match r with
          | ',' :: after =>
            let (more, r') ← pairs fuel depth after
            return ((parents, key, v) :: more, if more.isEmpty then r else r')
          | _ => return ([(parents, key, v)], r)
        | _ => .error .malformed

end

def lineEnd (cs : List Char) : Except Fault (List Char) :=
  let cs := skipBlanks cs
  let cs := if cs.head? = some '#' then (cs.drop 1).dropWhile isTextChar else cs
  match cs with
  | [] => .ok []
  | _ =>
    match newline? cs with
    | some rest => .ok rest
    | none => .error .malformed

def fullKey (cs : List Char) : Except Fault (List String × List Char) :=
  match keyPath cs with
  | .read path rest => if depthLimit ≤ path.length then .error .tooDeep else .ok (path, rest)
  | _ => .error .malformed

namespace Document

def header (d : Document) (cs : List Char) : Except Fault (Document × List Char) :=
  match cs with
  | '[' :: rest => do
    let (path, r) ← fullKey rest
    match r with
    | ']' :: ']' :: r =>
      let r ← lineEnd r
      return (← d.openElement path, r)
    | _ => .error .malformed
  | rest => do
    let (path, r) ← fullKey rest
    match r with
    | ']' :: r =>
      let r ← lineEnd r
      return (← d.openTable path, r)
    | _ => .error .malformed

def pair (d : Document) (cs : List Char) : Except Fault (Document × List Char) := do
  let (path, r) ← fullKey cs
  match r with
  | '=' :: r =>
    let (v, r) ← value (2 * r.length + 2) 0 (skipBlanks r)
    let r ← lineEnd r
    return (← d.add path v, r)
  | _ => .error .malformed

def lines (d : Document) (cs : List Char) : Except Fault Document :=
  match skipBlanks cs with
  | [] => .ok d
  | c :: rest =>
    let step? : Except Fault (Document × List Char) :=
      if c = '#' then (lineEnd (c :: rest)).map (d, ·)
      else if c = '[' then d.header rest
      else
        match newline? (c :: rest) with
        | some r => .ok (d, r)
        | none => if c = '\r' then .error .malformed else d.pair (c :: rest)
    match step? with
    | .error f => .error f
    | .ok (d, r) => if r.length < cs.length then lines d r else .error .malformed
termination_by cs.length

end Document

/-- The entries of a document. A byte order mark at its start is no part of it. -/
def parse (cs : List Char) : Except Fault Entries := do
  let cs := if cs.head? = some '\ufeff' then cs.drop 1 else cs
  (← Document.empty.lines cs).close

end NodeConfig.Toml
