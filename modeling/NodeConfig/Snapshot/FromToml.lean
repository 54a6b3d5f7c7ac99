import NodeConfig.Snapshot.Fault
import NodeConfig.Text.Blank
import NodeConfig.Toml.Read

namespace NodeConfig

namespace Toml

/-- A time shows itself as a table. -/
def Value.found : Value → Found
  | .text s => .text s
  | .int n => .int n
  | .real x => .real x
  | .bool b => .bool b
  | .time => .map
  | .array _ => .sequence
  | .table _ _ => .map
  | .tables _ => .sequence

def misfit (wanted : Wanted) (v : Value) : SnapshotFault := .misfit [] (.wrongType v.found wanted)

def readField (x : Identity) (v : Value) : Field → Except SnapshotFault Identity
  | .text f =>
    match v with
    | .text s => .ok (x.set f s)
    | v => .error (misfit .text v)
  | .certFetched =>
    match v with
    | .bool b => .ok { x with certFetched := b }
    | v => .error (misfit .flag v)

def fieldsOfTable (x : Identity) : Entries → Except SnapshotFault Identity
  | [] => .ok x
  | (key, v) :: rest =>
    match Field.ofKey? key with
    | some f => do fieldsOfTable (← readField x v f) rest
    | none => fieldsOfTable x rest

def fieldsOfItems (x : Identity) : List Field → List Value → Except SnapshotFault Identity
  | f :: fs, v :: rest => do fieldsOfItems (← readField x v f) fs rest
  | _, _ => .ok x

def identityOf (v : Value) : Except SnapshotFault Identity :=
  match v with
  | .table _ es => fieldsOfTable .empty es
  | .time => .ok .empty
  | .array vs => fieldsOfItems .empty Field.all vs
  | .tables es => fieldsOfItems .empty Field.all (es.map (.table .header))
  | v => .error (misfit .identity v)

def Fault.asSnapshot : Fault → SnapshotFault
  | .malformed => .malformed
  | .duplicateKey => .duplicateKey
  | .tooDeep => .tooDeep

end Toml

/-- The snapshot in a TOML text; none if it is all blank. The text is read in full before its
values. -/
def snapshotOfToml (cs : List Char) : Except SnapshotFault (Option Identity) :=
  if cs.all isWhite then .ok none
  else
    match Toml.parse cs with
    | .error f => .error f.asSnapshot
    | .ok es =>
      match Toml.Entries.lookup? "cluster" es with
      | none => .ok (some .empty)
      | some v => (Toml.identityOf v).map some

end NodeConfig
