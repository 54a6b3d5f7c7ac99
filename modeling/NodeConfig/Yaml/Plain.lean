import NodeConfig.Yaml.Gap

namespace NodeConfig.Yaml

structure PlainText where
  text : List Char
  broken : Bool
  deriving DecidableEq, Repr

def isFlowIndicator (c : Char) : Bool := c = ',' || c = '[' || c = ']' || c = '{' || c = '}'

/-- A colon here is an error. -/
def isBadColon (flow : Bool) : List Char → Bool
  | c :: d :: _ => flow && c = ':' && (isFlowIndicator d || d = '?')
  | _ => false

/-- The scalar ends before this character of a word. -/
def endsPlain (flow : Bool) (c : Char) (rest : List Char) : Bool :=
  (c = ':' && endsWord rest) || (flow && isFlowIndicator c)

/-- The scalar does not go on with the word after a gap: a comment, a document mark, or less
indentation than `indent`. -/
def stopsAt (flow : Bool) (indent : Nat) (g : Gap) (p : Place) (cs : List Char) : Bool :=
  (p.column = 0 && isDocumentMark cs) ||
    (!g.isNone && (cs.head? = some '#' || (!flow && p.column < indent)))

/-- The rest of a plain scalar, with the gap before it. None on a tab in the indentation and on a
colon that ends nothing. -/
def plainBody (flow : Bool) (indent : Nat) (g : Gap) (p : Place) :
    List Char → Option (Piece PlainText)
  | [] => some ⟨⟨[], g.broken⟩, p, []⟩
  | '\r' :: '\n' :: rest => plainBody flow indent (g.addBreak '\n') (p.nextLine 2) rest
  | c :: rest =>
    if isBlank c then
      if g.broken && p.column < indent && c = '\t' then none
      else plainBody flow indent (g.addBlank c) p.right rest
    else if isBreak c then plainBody flow indent (g.addBreak c) p.nextLine rest
    else if stopsAt flow indent g p (c :: rest) then some ⟨⟨[], g.broken⟩, p, c :: rest⟩
    else if isBadColon flow (c :: rest) then none
    else if endsPlain flow c rest then some ⟨⟨[], g.broken⟩, p, c :: rest⟩
    else
      (plainBody flow indent .none p.right rest).map fun t =>
        { t with value := { t.value with text := g.fold ++ c :: t.value.text } }

def plain (flow : Bool) (indent : Nat) (p : Place) (cs : List Char) : Option (Piece PlainText) :=
  plainBody flow indent .none p cs

end NodeConfig.Yaml
