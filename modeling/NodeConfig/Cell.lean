import NodeConfig.Json.Scalar

namespace NodeConfig

structure Cell (α : Type) where
  value : α
  deriving DecidableEq, Repr

namespace Cell

variable {α : Type}

def store (_ : Cell α) (a : α) : Cell α := ⟨a⟩

def swap (c : Cell α) (a : α) : α × Cell α := (c.value, ⟨a⟩)

def isEmpty (c : Cell String) : Bool := c.value = ""

/-- Stores a text only over an empty one, and says whether it did. -/
def storeIfEmpty (c : Cell String) (s : String) : Bool × Cell String :=
  if c.isEmpty then (true, ⟨s⟩) else (false, c)

def text (c : Cell String) : String := Json.quote c.value

def flagText (c : Cell Bool) : String := if c.value then "true" else "false"

def ofText (text : Bytes) : Except Json.Fault (Cell String) := (Json.stringOf text).map (⟨·⟩)

def ofFlagText (text : Bytes) : Except Json.Fault (Cell Bool) := (Json.flagOf text).map (⟨·⟩)

/-- Takes over a cell that was read. A fault is handed on, and the cell stays as it is. -/
def replace (c : Cell α) : Except Json.Fault (Cell α) → Except Json.Fault Unit × Cell α
  | .ok read => (.ok (), read)
  | .error f => (.error f, c)

end Cell

end NodeConfig
