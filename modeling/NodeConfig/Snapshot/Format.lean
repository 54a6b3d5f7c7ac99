import NodeConfig.Files.Path
import NodeConfig.Snapshot.FromToml
import NodeConfig.Snapshot.FromYaml
import NodeConfig.Snapshot.ToToml
import NodeConfig.Snapshot.ToYaml

namespace NodeConfig

inductive Format where
  | yaml
  | toml
  deriving DecidableEq, Repr

namespace Format

def lower (b : UInt8) : UInt8 := if 0x41 ≤ b && b ≤ 0x5A then b + 0x20 else b

/-- TOML for its own extension, in any case; YAML for all else. -/
def ofPath (p : Path) : Format :=
  match p.extension? with
  | some ext => if ext.map lower = Utf8.ofString "toml" then .toml else .yaml
  | none => .yaml

def encode (f : Format) (x : Identity) : String :=
  match f with
  | .yaml => yamlOfSnapshot x
  | .toml => tomlOfSnapshot x

/-- The identity that a file holds, or none if it holds nothing. Content is checked to be UTF-8
before it is read. -/
def decode (f : Format) (content : Bytes) : Except SnapshotFault (Option Identity) :=
  match Utf8.decode content with
  | .error e => .error (.notText e)
  | .ok cs =>
    match f with
    | .yaml => snapshotOfYaml cs
    | .toml => snapshotOfToml cs

end Format

end NodeConfig
