import NodeConfig.Snapshot.Mismatch
import NodeConfig.Text.Utf8

namespace NodeConfig

inductive SnapshotFault where
  | notText (f : Utf8.Fault)
  | malformed
  /-- Keys down to the place; a key that is no scalar has no name. -/
  | misfit (path : List (Option String)) (m : Misfit)
  | unknownAnchor
  | moreDocuments
  | duplicateKey
  | tooDeep
  deriving DecidableEq, Repr

namespace SnapshotFault

def pathText (path : List (Option String)) : String :=
  String.intercalate "." (path.map fun k => k.getD "?")

/-- The place comes first unless it is the whole document. -/
def message : SnapshotFault → String
  | .notText f => f.message
  | .malformed => "syntax"
  | .misfit path m => (if path = [] then "" else pathText path ++ ": ") ++ m.message
  | .unknownAnchor => "unknown anchor"
  | .moreDocuments => "deserializing from YAML containing more than one document is not supported"
  | .duplicateKey => "duplicate key"
  | .tooDeep => "recursion limit exceeded"

end SnapshotFault

end NodeConfig
