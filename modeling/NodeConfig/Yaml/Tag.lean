import NodeConfig.Yaml.Place

namespace NodeConfig.Yaml

def isTagChar (wide : Bool) (c : Char) : Bool :=
  isNameChar c || ";/?:@&=+$.%!~*'()".toList.contains c ||
    (wide && (c = ',' || c = '[' || c = ']'))

def hexPair? (a b : Char) : Option Nat :=
  let digit? (c : Char) : Option Nat :=
    if c.isDigit then some (c.toNat - 0x30)
    else if 'a' ≤ c && c ≤ 'f' then some (c.toNat - 0x57)
    else if 'A' ≤ c && c ≤ 'F' then some (c.toNat - 0x37)
    else none
  match digit? a, digit? b with
  | some x, some y => some (x * 16 + y)
  | _, _ => none

def escapeWidth (n : Nat) : Nat :=
  if n < 0x80 then 1
  else if n < 0xC0 then 0
  else if n < 0xE0 then 2
  else if n < 0xF0 then 3
  else if n < 0xF8 then 4
  else 0

/-- Text of a tag. Bytes after percent signs are kept as characters of the same number; `pending`
more of them belong to the sequence begun. -/
def tagText (wide : Bool) (pending : Nat) (p : Place) :
    List Char → Option (Piece (List Char))
  | '%' :: a :: b :: rest =>
    match hexPair? a b with
    | none => none
    | some n =>
      let left? :=
        if pending = 0 then
          if escapeWidth n = 0 then none else some (escapeWidth n - 1)
        else if 0x80 ≤ n && n < 0xC0 then some (pending - 1) else none
      match left? with
      | none => none
      | some left =>
        (tagText wide left (p.right 3) rest).map fun t =>
          { t with value := Char.ofNat n :: t.value }
  | c :: rest =>
    if pending ≠ 0 || c = '%' then none
    else if isTagChar wide c then
      (tagText wide 0 p.right rest).map fun t => { t with value := c :: t.value }
    else some ⟨[], p, c :: rest⟩
  | [] => if pending ≠ 0 then none else some ⟨[], p, []⟩

/-- A handle: an exclamation mark, and a name with another after it if there is one. -/
def tagHandle (p : Place) (cs : List Char) : Option (Piece (List Char)) :=
  match cs with
  | '!' :: rest =>
    let name := rest.takeWhile isNameChar
    let after := rest.drop name.length
    let p := p.right (name.length + 1)
    match after with
    | '!' :: r => some ⟨'!' :: (name ++ ['!']), p.right, r⟩
    | _ => some ⟨'!' :: name, p, after⟩
  | _ => none

structure TagWords where
  handle : String
  suffix : String

def isHandle (cs : List Char) : Bool := 2 ≤ cs.length && cs.getLast? = some '!'

def tagWords (flow : Bool) (p : Place) (cs : List Char) : Option (Piece TagWords) :=
  let words? : Option (Piece TagWords) :=
    match cs with
    | _ :: '<' :: rest =>
      match tagText true 0 (p.right 2) rest with
      | some t =>
        match t.rest with
        | '>' :: r =>
          if t.value = [] then none
          else some ⟨⟨"", String.ofList t.value⟩, t.place.right, r⟩
        | _ => none
      | none => none
    | _ =>
      match tagHandle p cs with
      | none => none
      | some h =>
        match tagText false 0 h.place h.rest with
        | none => none
        | some t =>
          if isHandle h.value then
            if t.value = [] then none
            else some ⟨⟨String.ofList h.value, String.ofList t.value⟩, t.place, t.rest⟩
          else
            let suffix := h.value.drop 1 ++ t.value
            if suffix = [] then some ⟨⟨"", "!"⟩, t.place, t.rest⟩
            else some ⟨⟨"!", String.ofList suffix⟩, t.place, t.rest⟩
  match words? with
  | none => none
  | some t =>
    if endsWord t.rest || (flow && t.rest.head? = some ',') then some t else none

def endsName (cs : List Char) : Bool :=
  endsWord cs || cs.head?.any fun c => "?:,]\x7d%@`".toList.contains c

def anchorName (p : Place) (cs : List Char) : Option (Piece String) :=
  let name := cs.takeWhile isNameChar
  let rest := cs.drop name.length
  if name ≠ [] && endsName rest then some ⟨String.ofList name, p.right name.length, rest⟩
  else none

/-- A directive of the text: its version, or a handle for tags. -/
inductive Directive where
  | version (major minor : Nat)
  | tag (handle head : String)

def skipBlanks (p : Place) (cs : List Char) : Place × List Char :=
  let blanks := cs.takeWhile isBlank
  (p.right blanks.length, cs.drop blanks.length)

def versionNumber (p : Place) (cs : List Char) : Option (Piece Nat) :=
  let ds := cs.takeWhile Char.isDigit
  if ds = [] || 9 < ds.length then none
  else
    let n := ds.foldl (fun n d => n * 10 + (d.toNat - 0x30)) 0
    some ⟨n, p.right ds.length, cs.drop ds.length⟩

def versionDirective (p : Place) (cs : List Char) : Option (Piece Directive) :=
  let (p, cs) := skipBlanks p cs
  match versionNumber p cs with
  | none => none
  | some major =>
    match major.rest with
    | '.' :: rest =>
      (versionNumber major.place.right rest).map fun minor =>
        ⟨.version major.value minor.value, minor.place, minor.rest⟩
    | _ => none

def tagDirective (p : Place) (cs : List Char) : Option (Piece Directive) :=
  let (p, cs) := skipBlanks p cs
  match tagHandle p cs with
  | none => none
  | some h =>
    if h.value ≠ ['!'] && !isHandle h.value then none
    else if !h.rest.head?.any isBlank then none
    else
      let (p, cs) := skipBlanks h.place h.rest
      match tagText true 0 p cs with
      | none => none
      | some t =>
        if t.value = [] || !endsWord t.rest then none
        else some ⟨.tag (String.ofList h.value) (String.ofList t.value), t.place, t.rest⟩

def directive (p : Place) (cs : List Char) : Option (Piece Directive) :=
  let name := cs.takeWhile isNameChar
  let rest := cs.drop name.length
  let p := p.right name.length
  if !endsWord rest then none
  else if name = "YAML".toList then versionDirective p rest
  else if name = "TAG".toList then tagDirective p rest
  else none

end NodeConfig.Yaml
