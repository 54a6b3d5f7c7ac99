import NodeConfig.Session

namespace NodeConfig

/-- A place that is filled once. -/
structure Once (α : Type) where
  value : Option α
  deriving DecidableEq, Repr

namespace Once

variable {α : Type}

def empty : Once α := ⟨none⟩

/-- What is in the place; what the caller made, if nothing was. -/
def get (o : Once α) (made : α) : α × Once α :=
  match o.value with
  | some a => (a, o)
  | none => (made, ⟨some made⟩)

def getAll (o : Once α) : List α → List α × Once α
  | [] => ([], o)
  | a :: rest =>
    let (x, o) := o.get a
    let (xs, o) := o.getAll rest
    (x :: xs, o)

end Once

/-- The stores of a program, one of which its parts may share. -/
structure Program where
  session : Session
  shared : Once Nat

namespace Program

def begin (w : World) : Program := ⟨.start w, .empty⟩

/-- The shared store, by number. If there is none it is made, with the timeout of this caller. -/
def share (g : Program) (timeout : Nat) : Nat × Program :=
  let (i, shared) := g.shared.get g.session.stores.length
  (i, ⟨if g.shared.value.isSome then g.session else g.session.add timeout, shared⟩)

end Program

inductive ChannelOf where
  | keyChanged
  | restart
  deriving DecidableEq, Repr

/-- The receiving side of a channel: which store it belongs to, by number, and which of its channels
it is. -/
structure Watch where
  store : Nat
  channel : ChannelOf
  deriving DecidableEq, Repr

def Watch.sameChannel (a b : Watch) : Bool := a = b

end NodeConfig
