import NodeConfig.Address
import NodeConfig.CommandLine.Parse
import NodeConfig.CommandLine.Value
import NodeConfig.Options

namespace NodeConfig

namespace CommandLine

variable {σ α : Type}

def setter (short : Option Char) (long shown : String) (read : Bytes → Except ValueFault α)
    (set : α → σ → σ) (default? : Option String := none) : Parameter σ where
  short := short
  long := if long = "" then none else some long
  shown := shown
  takes := .value fun v => (read v).map set
  default? := default?

def flag (short : Char) (long : String) (set : σ → σ) : Parameter σ where
  short := some short
  long := some long
  shown := "--" ++ long
  takes := .flag set

def help : Parameter σ where
  short := some 'h'
  long := some "help"
  shown := "--help"
  takes := .help

def optionParameters : List (Parameter Options) := [
  setter (some 'c') "config-file" "--config-file <CONFIG_FILE>" pathValue
    (fun v o => { o with configFile := v }) "/etc/haproxy/haproxy.cfg",
  setter (some 'u') "userlist" "--userlist <USERLIST>" textValue
    (fun v o => { o with userlist := v }) "controller",
  setter (some 'b') "haproxy-bin" "--haproxy-bin <HAPROXY_BIN>" textValue
    (fun v o => { o with haproxyBin := v }) "haproxy",
  setter (some 'd') "reload-delay" "--reload-delay <RELOAD_DELAY>" longValue
    (fun v o => { o with reloadDelay := v }) "5",
  setter (some 'r') "reload-cmd" "--reload-cmd <RELOAD_CMD>" textValue
    fun v o => { o with reloadCmd := some v },
  setter (some 's') "restart-cmd" "--restart-cmd <RESTART_CMD>" textValue
    fun v o => { o with restartCmd := some v },
  setter none "reload-retention" "--reload-retention <RELOAD_RETENTION>" (shortValue 32)
    (fun v o => { o with reloadRetention := v }) "1",
  setter (some 't') "transaction-dir" "--transaction-dir <TRANSACTION_DIR>" pathValue
    (fun v o => { o with transactionDir := v }) "/tmp/haproxy",
  setter (some 'n') "backups-number" "--backups-number <BACKUPS_NUMBER>" (shortValue 32)
    (fun v o => { o with backupsNumber := v }) "0",
  setter (some 'm') "master-runtime" "--master-runtime <MASTER_RUNTIME>" pathValue
    fun v o => { o with masterRuntime := some v },
  flag 'i' "show-system-info" fun o => { o with showSystemInfo := true },
  flag 'g' "git-mode" fun o => { o with gitMode := true },
  setter none "git-settings-file" "--git-settings-file <GIT_SETTINGS_FILE>" pathValue
    (fun v o => { o with gitSettingsFile := v }) "/etc/haproxy/git.settings",
  setter (some 'f') "" "-f <FILE>" pathValue
    fun v o => { o with dataplaneConfig := some v }]

def targets : List (String × LogTarget) := [("stdout", .stdout), ("file", .file)]

/-- The fourth level has a short name too. -/
def levels : List (String × Level) :=
  [("trace", .trace), ("debug", .debug), ("info", .info), ("warning", .warn), ("warn", .warn),
    ("error", .error)]

def formats : List (String × LogFormat) := [("text", .text), ("json", .json), ("JSON", .json)]

def logParameters : List (Parameter LogOptions) := [
  setter none "log-to" "--log-to <LOG_TO>" (choiceValue targets)
    (fun v o => { o with target := v }) "stdout",
  setter none "log-file" "--log-file <LOG_FILE>" pathValue
    (fun v o => { o with file := v }) "/var/log/dataplaneapi/dataplaneapi.log",
  setter none "log-level" "--log-level <LOG_LEVEL>" (choiceValue levels)
    (fun v o => { o with level := v }) "warning",
  setter none "log-format" "--log-format <LOG_FORMAT>" (choiceValue formats)
    (fun v o => { o with format := v }) "text"]

structure Settings where
  options : Options := {}
  logging : LogOptions := {}
  deriving DecidableEq, Repr

/-- Settings before any parameter has its value or its default. -/
def Settings.blank : Settings where
  options := ⟨[], "", "", 0, none, none, 0, [], 0, none, false, false, [], none⟩
  logging := ⟨.stdout, [], .trace, .text⟩

def settingsParameters : List (Parameter Settings) :=
  optionParameters.map (.within fun f s => { s with options := f s.options }) ++
    logParameters.map (.within fun f s => { s with logging := f s.logging })

def settings (args : List Bytes) : Except UsageFault Settings :=
  parse (settingsParameters ++ [help]) .blank args

def addressValue (v : Bytes) : Except ValueFault Address := do
  match Address.ofText? (← textValue v) with
  | some a => .ok a
  | none => .error .rejected

/-- What the daemon is launched with. -/
structure Launch where
  settings : Settings := {}
  apiSchema : Path := []
  host : String := "localhost"
  port : Nat := 5555
  /-- Seconds that a send waits for the signal before it to be received. -/
  notifyTimeout : Nat := 5
  metricsAddress : Option Address := none
  deriving DecidableEq, Repr

def launchParameters : List (Parameter Launch) :=
  settingsParameters.map (.within fun f l => { l with settings := f l.settings }) ++ [
    { setter none "api-schema" "--api-schema <API_SCHEMA>" pathValue
        (fun v (l : Launch) => { l with apiSchema := v }) with required := true },
    setter none "host" "--host <HOST>" textValue
      fun v l => { l with host := v },
    setter none "port" "--port <PORT>" (shortValue 16)
      fun v l => { l with port := v },
    setter none "notify-timeout" "--notify-timeout <NOTIFY_TIMEOUT>" longValue
      fun v l => { l with notifyTimeout := v },
    setter none "metrics-address" "--metrics-address <METRICS_ADDRESS>" addressValue
      fun v l => { l with metricsAddress := some v }]

def launch (args : List Bytes) : Except UsageFault Launch :=
  parse (launchParameters ++ [help]) { settings := .blank } args

end CommandLine

end NodeConfig
