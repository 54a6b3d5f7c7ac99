import NodeConfig.Files.Change
import NodeConfig.Log.Event
import NodeConfig.Schema
import NodeConfig.Snapshot.Format

namespace NodeConfig

inductive ConfigFault where
  | schema (f : SchemaFault)
  | corrupt (path : Path) (f : SnapshotFault)
  | write (path : Path) (e : OsError)

namespace ConfigFault

def message : ConfigFault → String
  | .schema f => f.message
  | .corrupt path f => s!"malformed cluster snapshot {path.display}: {f.message}"
  | .write path e => s!"failed to write cluster snapshot {path.display}: {e.message}"

def isFatal : ConfigFault → Bool
  | .corrupt _ _ => true
  | _ => false

end ConfigFault

/-- What stands at the path of a snapshot. -/
inductive Snapshot where
  /-- No file that can be read. -/
  | missing (e : OsError)
  | empty
  | loaded (x : Identity)
  deriving DecidableEq, Repr

namespace Snapshot

def read (f : Files) (p : Path) : Except ConfigFault Snapshot :=
  match f.read p with
  | .error e => .ok (.missing e)
  | .ok content =>
    match (Format.ofPath p).decode content with
    | .error e => .error (.corrupt p e)
    | .ok none => .ok .empty
    | .ok (some x) => .ok (.loaded x)

def readEvents (p : Path) : Except ConfigFault Snapshot → List Event
  | .ok (.missing e) =>
    [⟨.info, "dataplane_config::config::loader", "No readable cluster snapshot, using defaults",
      [("path", .shown p.display), ("error", .shown e.message)]⟩]
  | _ => []

/-- The identity that a snapshot stands for; all empty unless one was loaded. -/
def identity : Snapshot → Identity
  | .loaded x => x
  | _ => .empty

def text (p : Path) (x : Identity) : String := (Format.ofPath p).encode x

def writeOn (f : Files) (disk : Files.Disk) (p : Path) (x : Identity) :
    Files × Except ConfigFault Unit :=
  match f.replace disk p (Utf8.ofString (text p x)) with
  | ⟨f, none⟩ => (f, .ok ())
  | ⟨f, some e⟩ => (f, .error (.write p e))

/-- Writes on a disk that does what it is asked to. -/
def write (f : Files) (p : Path) (x : Identity) : Files × Except ConfigFault Unit :=
  writeOn f .sound p x

end Snapshot

end NodeConfig
