import NodeConfig.Yaml.Gap

namespace NodeConfig.Yaml

def hexValue? (c : Char) : Option Nat :=
  if c.isDigit then some (c.toNat - 0x30)
  else if 'a' ≤ c && c ≤ 'f' then some (c.toNat - 0x57)
  else if 'A' ≤ c && c ≤ 'F' then some (c.toNat - 0x37)
  else none

def hexNumber? (acc : Nat) : Nat → List Char → Option Nat
  | 0, _ => some acc
  | _ + 1, [] => none
  | n + 1, c :: rest =>
    match hexValue? c with
    | some d => hexNumber? (acc * 16 + d) n rest
    | none => none

/-- A character by its code. Surrogates are none. -/
def charOf? (n : Nat) : Option Char := if n.isValidChar then some (Char.ofNat n) else none

def shortEscape? (c : Char) : Option Char :=
  match c with
  | '0' => some '\x00'
  | 'a' => some '\x07'
  | 'b' => some '\x08'
  | 't' => some '\t'
  | '\t' => some '\t'
  | 'n' => some '\n'
  | 'v' => some '\x0b'
  | 'f' => some '\x0c'
  | 'r' => some '\r'
  | 'e' => some '\x1b'
  | ' ' => some ' '
  | '"' => some '"'
  | '/' => some '/'
  | '\\' => some '\\'
  | 'N' => some nel
  | '_' => some '\u00a0'
  | 'L' => some lineSeparator
  | 'P' => some paragraphSeparator
  | _ => none

def codeDigits (c : Char) : Nat :=
  if c = 'x' then 2 else if c = 'u' then 4 else if c = 'U' then 8 else 0

def escape? : List Char → Option (Char × Nat)
  | [] => none
  | c :: rest =>
    match shortEscape? c with
    | some d => some (d, 1)
    | none =>
      match codeDigits c with
      | 0 => none
      | n =>
        match (hexNumber? 0 n rest).bind charOf? with
        | some d => some (d, n + 1)
        | none => none

def addText (cs : List Char) (t : Piece (List Char)) : Piece (List Char) :=
  { t with value := cs ++ t.value }

/-- Text up to the closing quote, with the gap before it. None if there is no such quote, on a bad
escape and on a document mark. -/
def quotedBody (double : Bool) (g : Gap) (p : Place) (cs : List Char) :
    Option (Piece (List Char)) :=
  match cs with
  | [] => none
  | c :: rest =>
    if c = '\r' && rest.head? = some '\n' then
      quotedBody double (g.addBreak '\n') (p.nextLine 2) (rest.drop 1)
    else if isBlank c then quotedBody double (g.addBlank c) p.right rest
    else if isBreak c then quotedBody double (g.addBreak c) p.nextLine rest
    else if p.column = 0 && isDocumentMark cs then none
    else if double && c = '"' then some ⟨g.fold, p.right, rest⟩
    else if !double && c = '\'' then
      if rest.head? = some '\'' then
        (quotedBody double .none (p.right 2) (rest.drop 1)).map (addText (g.fold ++ ['\'']))
      else some ⟨g.fold, p.right, rest⟩
    else if double && c = '\\' then
      match rest with
      | '\r' :: '\n' :: r =>
        (quotedBody double .escaped (p.right.nextLine 2) r).map (addText g.fold)
      | d :: r =>
        if isBreak d then (quotedBody double .escaped p.right.nextLine r).map (addText g.fold)
        else
          match escape? (d :: r) with
          | some (e, n) =>
            (quotedBody double .none (p.right (n + 1)) ((d :: r).drop n)).map
              (addText (g.fold ++ [e]))
          | none => none
      | [] => none
    else (quotedBody double .none p.right rest).map (addText (g.fold ++ [c]))
termination_by cs.length
decreasing_by all_goals simp +arith [*]

def quotedScalar (double : Bool) (p : Place) (cs : List Char) : Option (Piece (List Char)) :=
  quotedBody double .none p cs

end NodeConfig.Yaml
