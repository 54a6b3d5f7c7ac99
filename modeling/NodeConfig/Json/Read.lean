import NodeConfig.Json.Literal
import NodeConfig.Json.Number

namespace NodeConfig

namespace Json

def isBlank (b : UInt8) : Bool := b = 0x20 || b = 0x0A || b = 0x09 || b = 0x0D

def skipBlanks (bs : Bytes) : Bytes := bs.dropWhile isBlank

def word (w : Bytes) (bs : Bytes) : Except Fault Bytes :=
  match w, bs with
  | [], bs => .ok bs
  | _ :: _, [] => failBefore .endInValue []
  | a :: w, b :: r => if a = b then word w r else failBefore .expectedIdent r

/-- Brackets may nest this deep, less one. -/
def maxDepth : Nat := 128

mutual

/-- A value, after blanks. `fuel` bounds the calls. -/
def value (fuel depth : Nat) (bs : Bytes) : Except Fault (Json × Bytes) :=
  match fuel with
  | 0 => failBefore .endInValue bs
  | fuel + 1 =>
    let bs := skipBlanks bs
    match bs with
    | [] => failHere .endInValue []
    | b :: r =>
      match b with
      | 0x6E => return (.null, ← word [0x75, 0x6C, 0x6C] r)
      | 0x74 => return (.bool true, ← word [0x72, 0x75, 0x65] r)
      | 0x66 => return (.bool false, ← word [0x61, 0x6C, 0x73, 0x65] r)
      | 0x2D => return (← readNumber false r).map .number id
      | 0x22 => return (← readString r).map .string id
      | 0x5B =>
        match depth with
        | 0 | 1 => failHere .tooDeep bs
        | depth + 1 => return (← items fuel depth true r).map .array id
      | 0x7B =>
        match depth with
        | 0 | 1 => failHere .tooDeep bs
        | depth + 1 => return (← members fuel depth true [] r).map .object id
      | _ => if isDigit b then return (← readNumber true bs).map .number id
             else failHere .expectedValue bs

def items (fuel depth : Nat) (first : Bool) (bs : Bytes) : Except Fault (List Json × Bytes) :=
  match fuel with
  | 0 => failBefore .endInList bs
  | fuel + 1 =>
    let bs := skipBlanks bs
    match bs with
    | [] => failHere .endInList []
    | b :: r =>
      if b = 0x5D then .ok ([], r)
      else if first then do
        let (j, r) ← value fuel depth bs
        let (js, r) ← items fuel depth false r
        pure (j :: js, r)
      else if b = 0x2C then
        let r := skipBlanks r
        match r with
        | [] => failHere .endInValue []
        | 0x5D :: _ => failHere .trailingComma r
        | _ => do
          let (j, r) ← value fuel depth r
          let (js, r) ← items fuel depth false r
          pure (j :: js, r)
      else failHere .expectedListEnd bs

def members (fuel depth : Nat) (first : Bool) (found : List (String × Json)) (bs : Bytes) :
    Except Fault (List (String × Json) × Bytes) :=
  match fuel with
  | 0 => failBefore .endInObject bs
  | fuel + 1 =>
    let bs := skipBlanks bs
    match bs with
    | [] => failHere .endInObject []
    | b :: r =>
      if b = 0x7D then .ok (found, r)
      else if first then
        if b = 0x22 then do
          let (name, j, r) ← pair fuel depth r
          members fuel depth false (insertMember name j found) r
        else failHere .keyNotString bs
      else if b = 0x2C then
        let r := skipBlanks r
        match r with
        | [] => failHere .endInValue []
        | 0x22 :: r => do
          let (name, j, r) ← pair fuel depth r
          members fuel depth false (insertMember name j found) r
        | 0x7D :: _ => failHere .trailingComma r
        | _ => failHere .keyNotString r
      else failHere .expectedObjectEnd bs

def pair (fuel depth : Nat) (bs : Bytes) : Except Fault (String × Json × Bytes) :=
  match fuel with
  | 0 => failBefore .endInObject bs
  | fuel + 1 => do
    let (name, r) ← readString bs
    let r := skipBlanks r
    match r with
    | [] => failHere .endInObject []
    | 0x3A :: r => do
      let (j, r) ← value fuel depth r
      pure (name, j, r)
    | _ => failHere .expectedColon r

end

def finished (bs : Bytes) : Except Fault Unit :=
  match skipBlanks bs with
  | [] => .ok ()
  | r => failHere .trailing r

/-- The value that a text denotes. A call for each byte is enough, and two more at each bracket. -/
def parse (bs : Bytes) : Except Fault Json := do
  let (j, r) ← value (3 * bs.length + 3) maxDepth bs
  finished r
  pure j

end Json

end NodeConfig
