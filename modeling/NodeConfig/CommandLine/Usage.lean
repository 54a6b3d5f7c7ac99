import NodeConfig.Text.Utf8

namespace NodeConfig

namespace CommandLine

/-- Why a value is not taken. -/
inductive ValueFault where
  | empty
  | notText
  /-- Not among the values there are. -/
  | unlisted
  /-- Not in the form or the range wanted. -/
  | rejected
  deriving DecidableEq, Repr

inductive UsageFault where
  | help
  | unknown (arg : String)
  /-- A value for a parameter that takes none. -/
  | unneeded (arg value : String)
  | invalid (arg value : String)
  | rejected (arg value : String)
  | notText
  | repeated (arg : String)
  | missing (args : List String)
  deriving DecidableEq, Repr

def UsageFault.exitCode : UsageFault → Nat
  | .help => 0
  | _ => 2

/-- What a parameter takes, and how it changes the settings. -/
inductive Takes (σ : Type) where
  | help
  | flag (set : σ → σ)
  | value (set : Bytes → Except ValueFault (σ → σ))

structure Parameter (σ : Type) where
  short : Option Char
  long : Option String
  shown : String
  takes : Takes σ
  required : Bool := false
  default? : Option String := none

namespace Parameter

variable {σ τ : Type}

def within (modify : (σ → σ) → τ → τ) (p : Parameter σ) : Parameter τ where
  short := p.short
  long := p.long
  shown := p.shown
  takes :=
    match p.takes with
    | .help => .help
    | .flag set => .flag (modify set)
    | .value set => .value fun v => (set v).map modify
  required := p.required
  default? := p.default?

end Parameter

def ValueFault.at (f : ValueFault) (arg : String) (value : Bytes) : UsageFault :=
  match f with
  | .empty => .invalid arg ""
  | .notText => .notText
  | .unlisted => .invalid arg (Utf8.lossy value)
  | .rejected => .rejected arg (Utf8.lossy value)

end CommandLine

end NodeConfig
