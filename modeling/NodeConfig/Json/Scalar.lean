import NodeConfig.Json.Read

namespace NodeConfig

namespace Json

def foundNumber : JsonNumber → String
  | .int n => s!"integer `{n}`"
  | .real x => s!"floating point `{x.toCompact}`"

/-- The report of a value that is not of the kind wanted. Of a bracket nothing is read. -/
def mismatch {α : Type} (wanted : String) (bs : Bytes) : Except Fault α :=
  let report (found : String) (rest : Bytes) : Except Fault α :=
    failBefore (.mismatch found wanted) rest
  match bs with
  | [] => failHere .endInValue []
  | b :: rest =>
    if b = 0x6E then do report "null" (← word [0x75, 0x6C, 0x6C] rest)
    else if b = 0x74 then do report "boolean `true`" (← word [0x72, 0x75, 0x65] rest)
    else if b = 0x66 then do report "boolean `false`" (← word [0x61, 0x6C, 0x73, 0x65] rest)
    else if b = 0x2D then do
      let (n, r) ← readNumber false rest
      report (foundNumber n) r
    else if isDigit b then do
      let (n, r) ← readNumber true bs
      report (foundNumber n) r
    else if b = 0x22 then do
      let (s, r) ← readString rest
      report ("string " ++ quoted s) r
    else if b = 0x5B then report "sequence" bs
    else if b = 0x7B then report "map" bs
    else failHere .expectedValue bs

def stringOf (text : Bytes) : Except Fault String :=
  match skipBlanks text with
  | [] => failHere .endInValue []
  | b :: rest =>
    if b = 0x22 then do
      let (s, r) ← readString rest
      finished r
      return s
    else mismatch "a string" (b :: rest)

def flagOf (text : Bytes) : Except Fault Bool :=
  match skipBlanks text with
  | [] => failHere .endInValue []
  | b :: rest =>
    if b = 0x74 then do
      finished (← word [0x72, 0x75, 0x65] rest)
      return true
    else if b = 0x66 then do
      finished (← word [0x61, 0x6C, 0x73, 0x65] rest)
      return false
    else mismatch "a boolean" (b :: rest)

end Json

end NodeConfig
