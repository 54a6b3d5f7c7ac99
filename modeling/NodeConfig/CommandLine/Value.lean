import NodeConfig.CommandLine.Usage
import NodeConfig.Files.Path
import NodeConfig.Power

namespace NodeConfig

namespace CommandLine

def textValue (v : Bytes) : Except ValueFault String :=
  match Utf8.toString? v with
  | some s => .ok s
  | none => .error .notText

/-- A path need not be text, but must not be empty. -/
def pathValue (v : Bytes) : Except ValueFault Path := if v = [] then .error .empty else .ok v

/-- The number that digits make of the one before them. It is looked at after each digit, and there
is none once it is more than `most`. -/
def digits? (most n : Nat) : List Char → Option Nat
  | [] => some n
  | c :: cs =>
    if c.isDigit then
      let next := n * 10 + (c.toNat - 0x30)
      if next ≤ most then digits? most next cs else none
    else none

def decimal? (most : Nat) (cs : List Char) : Option Nat :=
  if cs = [] then none else digits? most 0 cs

def natural? (most : Nat) (cs : List Char) : Option Nat :=
  match cs with
  | '+' :: rest => decimal? most rest
  | cs => decimal? most cs

def unsigned? (cs : List Char) : Option Nat := natural? (pow2 64 - 1) cs

/-- A whole number of 64 bits with or without a sign. Below zero there is one more. -/
def signed? (cs : List Char) : Option Int :=
  match cs with
  | '-' :: rest => (decimal? (pow2 63) rest).map fun n => -(n : Int)
  | cs => (natural? (pow2 63 - 1) cs).map fun n => (n : Int)

def longValue (v : Bytes) : Except ValueFault Nat := do
  match unsigned? (← textValue v).toList with
  | some n => .ok n
  | none => .error .rejected

/-- A number of fewer bits. It is read as one of 64 with a sign, so zero may have a minus, and then
compared with its range. -/
def shortValue (bits : Nat) (v : Bytes) : Except ValueFault Nat := do
  match signed? (← textValue v).toList with
  | some n => if 0 ≤ n && n < pow2 bits then .ok n.toNat else .error .rejected
  | none => .error .rejected

/-- One of the values that have names; a value may have several. -/
def choiceValue {α : Type} (choices : List (String × α)) (v : Bytes) : Except ValueFault α :=
  match Utf8.toString? v with
  | some s =>
    match choices.lookup s with
    | some a => .ok a
    | none => .error .unlisted
  | none => .error .unlisted

end CommandLine

end NodeConfig
