namespace NodeConfig

inductive LoadSource where
  | file | empty | default | ephemeral
  deriving DecidableEq, Repr

def LoadSource.name : LoadSource → String
  | .file => "file"
  | .empty => "empty"
  | .default => "default"
  | .ephemeral => "ephemeral"

inductive SendResult where
  | delivered | coalesced | full | timeout
  deriving DecidableEq, Repr

def SendResult.name : SendResult → String
  | .delivered => "delivered"
  | .coalesced => "coalesced"
  | .full => "full"
  | .timeout => "timeout"

inductive Counter where
  | load (source : LoadSource)
  | save (ok : Bool)
  | send (channel : String) (result : SendResult)
  deriving DecidableEq, Repr

namespace Counter

def name : Counter → String
  | .load source => "config_loads_total\x7bsource=\"" ++ source.name ++ "\"\x7d"
  | .save ok => "config_saves_total\x7bresult=\"" ++ (if ok then "ok" else "error") ++ "\"\x7d"
  | .send channel result =>
    "notifications_sent_total\x7bchannel=\"" ++ channel ++ "\",outcome=\"" ++ result.name ++
      "\"\x7d"

end Counter

/-- A counter for each thing that was done, in the order in which it was. -/
abbrev Metrics := List Counter

namespace Metrics

/-- The counters that were used and how often, sorted by name. -/
def lines (m : Metrics) : List String :=
  (m.eraseDups.map fun c => c.name ++ " " ++ toString (m.count c)).mergeSort (· ≤ ·)

end Metrics

end NodeConfig
