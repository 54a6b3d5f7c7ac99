import NodeConfig.Text.Utf8

namespace NodeConfig

namespace Json

inductive Cause where
  | endInValue | endInString | endInList | endInObject
  | expectedColon | expectedListEnd | expectedObjectEnd | expectedIdent | expectedValue
  | invalidEscape | invalidNumber | outOfRange | codePoint | control
  | keyNotString | loneSurrogate | unfinishedPair | trailingComma | trailing | tooDeep
  | mismatch (found wanted : String)
  deriving DecidableEq, Repr

/-- `left` bytes of the text follow the place of the fault. -/
structure Fault where
  cause : Cause
  left : Nat
  deriving DecidableEq, Repr

def Cause.message : Cause → String
  | .endInValue => "EOF while parsing a value"
  | .endInString => "EOF while parsing a string"
  | .endInList => "EOF while parsing a list"
  | .endInObject => "EOF while parsing an object"
  | .expectedColon => "expected `:`"
  | .expectedListEnd => "expected `,` or `]`"
  | .expectedObjectEnd => "expected `,` or `\x7d`"
  | .expectedIdent => "expected ident"
  | .expectedValue => "expected value"
  | .invalidEscape => "invalid escape"
  | .invalidNumber => "invalid number"
  | .outOfRange => "number out of range"
  | .codePoint => "invalid unicode code point"
  | .control => "control character (\\u0000-\\u001F) found while parsing a string"
  | .keyNotString => "key must be a string"
  | .loneSurrogate => "lone leading surrogate in hex escape"
  | .unfinishedPair => "unexpected end of hex escape"
  | .trailingComma => "trailing comma"
  | .trailing => "trailing characters"
  | .tooDeep => "recursion limit exceeded"
  | .mismatch found wanted => s!"invalid type: {found}, expected {wanted}"

/-- Line of a place, and the bytes between the start of the line and it. -/
def position (seen : Bytes) : Nat × Nat :=
  (1 + seen.count 0x0A, (seen.reverse.takeWhile (· != 0x0A)).length)

def Fault.place (f : Fault) (text : Bytes) : Nat × Nat :=
  position (text.take (text.length - f.left))

def Fault.message (f : Fault) (text : Bytes) : String :=
  let (line, column) := f.place text
  s!"{f.cause.message} at line {line} column {column}"

def failHere {α : Type} (cause : Cause) (rest : Bytes) : Except Fault α :=
  .error ⟨cause, rest.length - 1⟩

def failBefore {α : Type} (cause : Cause) (rest : Bytes) : Except Fault α :=
  .error ⟨cause, rest.length⟩

end Json

end NodeConfig
