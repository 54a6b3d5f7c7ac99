import NodeConfig.CommandLine.Usage

namespace NodeConfig

namespace CommandLine

variable {σ : Type}

structure Progress (σ : Type) where
  settings : σ
  /-- Parameters given so far, as faults show them. -/
  given : List String
  /-- The parameter that takes the next argument, with its value once that was read. -/
  awaiting : Option (Parameter σ × Option Bytes)
  /-- Two hyphens were read; what follows is no parameter. -/
  trailing : Bool

namespace Progress

def apply (s : Progress σ) (p : Parameter σ) (value : Option Bytes) :
    Except UsageFault (Progress σ) :=
  match p.takes, value with
  | .help, _ => .error .help
  | .flag set, _ =>
    if s.given.contains p.shown then .error (.repeated p.shown)
    else .ok { s with settings := set s.settings, given := p.shown :: s.given }
  | .value _, none => .error (.invalid p.shown "")
  | .value set, some v =>
    if s.given.contains p.shown then .error (.repeated p.shown)
    else
      match set v with
      | .ok change =>
        .ok { s with settings := change s.settings, given := p.shown :: s.given }
      | .error f => .error (f.at p.shown v)

/-- Applies the parameter whose value was awaited. -/
def settle (s : Progress σ) : Except UsageFault (Progress σ) :=
  match s.awaiting with
  | none => .ok s
  | some (p, value) => apply { s with awaiting := none } p value

def give (s : Progress σ) (p : Parameter σ) (value : Option Bytes) :
    Except UsageFault (Progress σ) := do
  apply (← s.settle) p value

def await (s : Progress σ) (p : Parameter σ) : Except UsageFault (Progress σ) := do
  return { ← s.settle with awaiting := some (p, none) }

end Progress

def hyphen : UInt8 := 0x2D
def equals : UInt8 := 0x3D

/-- What stands before the first equals sign, and what after it. -/
def splitEquals (arg : Bytes) : Bytes × Option Bytes :=
  match arg.dropWhile (· ≠ equals) with
  | [] => (arg, none)
  | _ :: value => (arg.takeWhile (· ≠ equals), some value)

def longArgument (ps : List (Parameter σ)) (s : Progress σ) (arg : Bytes) :
    Except UsageFault (Progress σ) :=
  let (name, value) := splitEquals arg
  match ps.find? fun p => p.long.any fun l => Utf8.ofString l = name with
  | none => .error (.unknown ("--" ++ Utf8.lossy name))
  | some p =>
    match p.takes, value with
    | .value _, none => s.await p
    | .value _, some v => s.give p (some v)
    | _, none => s.give p none
    | _, some v => .error (.unneeded p.shown (Utf8.lossy v))

/-- A value right after a letter; an equals sign before it is no part of it. -/
def attachedValue (rest : Bytes) : Option Bytes :=
  match rest with
  | [] => none
  | b :: r => some (if b = equals then r else b :: r)

/-- Letters after one hyphen. The rest of the argument is the value of the first that takes one. -/
def shortArguments (ps : List (Parameter σ)) (s : Progress σ) (arg : Bytes) :
    Except UsageFault (Progress σ) :=
  match arg with
  | [] => .ok s
  | a :: rest =>
    match _h : Utf8.head a rest with
    | .char c r =>
      match ps.find? (·.short = some c) with
      | none => .error (.unknown ("-" ++ String.singleton c))
      | some p =>
        match p.takes with
        | .value _ =>
          match attachedValue r with
          | some v => s.give p (some v)
          | none => s.await p
        | _ =>
          match s.give p none with
          | .ok s => shortArguments ps s r
          | .error f => .error f
    | _ => .error (.unknown ("-" ++ Utf8.lossy arg))
termination_by arg.length
decreasing_by exact Utf8.length_lt_of_head _h

def argument (ps : List (Parameter σ)) (s : Progress σ) (arg : Bytes) :
    Except UsageFault (Progress σ) :=
  let other : Except UsageFault (Progress σ) :=
    match s.awaiting with
    | some (p, none) => .ok { s with awaiting := some (p, some arg) }
    | _ => .error (.unknown (Utf8.lossy arg))
  if s.trailing then .error (.unknown (Utf8.lossy arg))
  else
    match arg with
    | a :: b :: rest =>
      if a = hyphen then
        if b = hyphen then
          if rest = [] then .ok { s with trailing := true } else longArgument ps s rest
        else shortArguments ps s (b :: rest)
      else other
    | _ => other

def supply (given : List String) (settings : σ) (p : Parameter σ) : Except UsageFault σ :=
  match p.takes, p.default? with
  | .value set, some text =>
    if given.contains p.shown then .ok settings
    else
      match set (Utf8.ofString text) with
      | .ok change => .ok (change settings)
      | .error f => .error (f.at p.shown (Utf8.ofString text))
  | _, _ => .ok settings

/-- The settings that arguments, and the defaults of what they do not give, make of blank ones. -/
def parse (ps : List (Parameter σ)) (blank : σ) (args : List Bytes) : Except UsageFault σ := do
  let s ← args.foldlM (argument ps) ⟨blank, [], none, false⟩
  let s ← s.settle
  let missing := ps.filter fun p => p.required && !s.given.contains p.shown
  if missing.isEmpty then ps.foldlM (supply s.given) s.settings
  else .error (.missing (missing.map (·.shown)))

end CommandLine

end NodeConfig
