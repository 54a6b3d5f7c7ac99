import NodeConfig.Decimal.Real
import NodeConfig.Identity
import NodeConfig.Power
import NodeConfig.Text.Quoted

namespace NodeConfig

/-- What stands where something else is wanted. -/
inductive Found where
  | unit
  | bool (b : Bool)
  | int (n : Int)
  | real (x : Real)
  | text (s : String)
  | sequence
  | map
  deriving DecidableEq, Repr

/-- Whole numbers beyond 64 bits say how wide they are. -/
def Found.describe : Found → String
  | .unit => "unit value"
  | .bool b => s!"boolean `{b}`"
  | .int n =>
    if n < -pow2 63 then s!"integer `{n}` as i128"
    else if pow2 64 ≤ n then s!"integer `{n}` as u128"
    else s!"integer `{n}`"
  | .real x => s!"floating point `{x.text}`"
  | .text s => "string " ++ quoted s
  | .sequence => "sequence"
  | .map => "map"

inductive Wanted where
  | document
  | identity
  | text
  | flag
  | fieldName
  | number
  | real
  | null
  deriving DecidableEq, Repr

def Wanted.describe : Wanted → String
  | .document => "struct SnapshotDocument"
  | .identity => "struct ClusterIdentity"
  | .text => "a string"
  | .flag => "a boolean"
  | .fieldName => "field identifier"
  | .number => "an integer"
  | .real => "a float"
  | .null => "null"

inductive Misfit where
  | wrongType (found : Found) (wanted : Wanted)
  /-- The text of a scalar is not of the type that its tag gives. -/
  | wrongValue (text : String) (wanted : Wanted)
  | duplicate (key : String)
  deriving DecidableEq, Repr

def Misfit.message : Misfit → String
  | .wrongType found wanted => s!"invalid type: {found.describe}, expected {wanted.describe}"
  | .wrongValue text wanted =>
    "invalid value: string " ++ quoted text ++ ", expected " ++ wanted.describe
  | .duplicate key => s!"duplicate field `{key}`"

end NodeConfig
