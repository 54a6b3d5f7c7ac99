import NodeConfig.Json.Read

namespace NodeConfig

inductive SchemaFault where
  | malformed (cause : Json.Cause) (line column : Nat)
  | missing
  | notString (found : Json)

def SchemaFault.reason : SchemaFault → String
  | .malformed cause line column => s!"{cause.message} at line {line} column {column}"
  | .missing => "missing basePath"
  | .notString found => "basePath must be a string, got " ++ found.compact

def SchemaFault.message (f : SchemaFault) : String := "invalid API schema document: " ++ f.reason

def basePath (doc : Bytes) : Except SchemaFault String :=
  match Json.parse doc with
  | .error f =>
    let (line, column) := f.place doc
    .error (.malformed f.cause line column)
  | .ok j =>
    match j.member? "basePath" with
    | some (.string s) => .ok s
    | some other => .error (.notString other)
    | none => .error .missing

end NodeConfig
