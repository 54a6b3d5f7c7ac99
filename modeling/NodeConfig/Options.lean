import NodeConfig.Files.Path
import NodeConfig.Log.Event

namespace NodeConfig

/-- Options about the load balancer and the files around it. -/
structure Options where
  configFile : Path := Path.ofString "/etc/haproxy/haproxy.cfg"
  userlist : String := "controller"
  haproxyBin : String := "haproxy"
  reloadDelay : Nat := 5
  reloadCmd : Option String := none
  restartCmd : Option String := none
  /-- Days after which a reload is forgotten. -/
  reloadRetention : Nat := 1
  transactionDir : Path := Path.ofString "/tmp/haproxy"
  backupsNumber : Nat := 0
  masterRuntime : Option Path := none
  showSystemInfo : Bool := false
  gitMode : Bool := false
  gitSettingsFile : Path := Path.ofString "/etc/haproxy/git.settings"
  dataplaneConfig : Option Path := none
  deriving DecidableEq, Repr

namespace Options

/-- Where the identity is kept; nowhere if the path is empty. -/
def snapshotPath (o : Options) : Option Path := o.dataplaneConfig.filter (· ≠ [])

end Options

inductive LogTarget where
  | stdout
  | file
  deriving DecidableEq, Repr

inductive LogFormat where
  | text
  | json
  deriving DecidableEq, Repr

structure LogOptions where
  target : LogTarget := .stdout
  file : Path := Path.ofString "/var/log/dataplaneapi/dataplaneapi.log"
  level : Level := .warn
  format : LogFormat := .text
  deriving DecidableEq, Repr

namespace LogOptions

/-- The filter that a level stands for. -/
def directive (o : LogOptions) : String :=
  match o.level with
  | .trace => "trace"
  | .debug => "debug"
  | .info => "info"
  | .warn => "warn"
  | .error => "error"

end LogOptions

end NodeConfig
