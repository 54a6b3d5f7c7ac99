namespace NodeConfig

/-- How severe an event is, the most verbose first. -/
inductive Level where
  | trace | debug | info | warn | error
  deriving DecidableEq, Repr

namespace Level

def name : Level → String
  | .trace => "TRACE"
  | .debug => "DEBUG"
  | .info => "INFO"
  | .warn => "WARN"
  | .error => "ERROR"

def verbosity : Level → Nat
  | .error => 1
  | .warn => 2
  | .info => 3
  | .debug => 4
  | .trace => 5

end Level

inductive FieldValue where
  /-- A text that a text log shows as it is. -/
  | shown (s : String)
  /-- A text that a text log shows in quotes. -/
  | quoted (s : String)
  | int (n : Nat)
  | bool (b : Bool)
  deriving DecidableEq, Repr

structure Event where
  level : Level
  target : String
  message : String
  fields : List (String × FieldValue)
  deriving DecidableEq, Repr

end NodeConfig
