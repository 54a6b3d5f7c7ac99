import NodeConfig.CommandLine.Options
import NodeConfig.Log.Filter
import NodeConfig.Log.Line
import NodeConfig.Power
import NodeConfig.Store

namespace NodeConfig

namespace Daemon

structure Surroundings where
  files : Files
  names : NameSource
  /-- A filter that goes before the level of the log. -/
  filter : Option String
  time : String
  /-- Why no port can be listened on, if none can. -/
  refusal : Option String

inductive Sink where
  | stdout
  | file (l : Location)
  | nowhere
  deriving DecidableEq, Repr

/-- What a run leaves behind. -/
structure Exit where
  code : Nat
  files : Files
  stdout : String
  stderr : String
  logged : List Event
  /-- What is in the log, if its file has no name any more. -/
  unnamed : Option Bytes

structure Running where
  world : World
  options : LogOptions
  filter : Filter
  time : String
  sink : Sink
  stdout : String
  logged : List Event
  /-- What is in the log, if its file has no name any more. -/
  unnamed : Option Bytes

namespace Running

def write (r : Running) (line : String) : Running :=
  match r.sink with
  | .stdout => { r with stdout := r.stdout ++ line }
  | .file l =>
    { r with world := { r.world with files := r.world.files.appendAt l (Utf8.ofString line) } }
  | .nowhere => { r with unnamed := r.unnamed.map fun b => b ++ Utf8.ofString line }

def log (r : Running) (e : Event) : Running :=
  if r.filter.shows e then
    { r.write (Log.line r.options r.time e) with logged := r.logged ++ [e] }
  else r

/-- The run over files that a save left, where it may have replaced the log. -/
def onto (r : Running) (w : World) : Option Location → Running
  | none => { r with world := w }
  | some l =>
    { r with world := w, sink := .nowhere, unnamed := some (r.world.files.contentAt l) }

def logAll (r : Running) (es : List Event) : Running := es.foldl log r

def exit (r : Running) (code : Nat) (stderr : String) : Exit :=
  ⟨code, r.world.files, r.stdout, stderr, r.logged, r.unnamed⟩

end Running

def target : String := "dataplane_config"

def metricsTarget : String := "dataplane_config::observability::metrics"

def version : String := "0.1.0"

def failure (text : String) : String := "Error: " ++ text ++ "\n"

/-- The filter of a log: one from the surroundings if it can be read, else the level. -/
def filterOf (s : Surroundings) (o : LogOptions) : Filter :=
  ((s.filter.bind Filter.ofText?).or (Filter.ofText? o.directive)).getD Filter.errors

def begin (s : Surroundings) (o : LogOptions) : Except OsError Running :=
  let running (files : Files) (sink : Sink) : Running :=
    ⟨⟨files, s.names⟩, o, filterOf s o, s.time, sink, "", [], none⟩
  match o.target with
  | .stdout => .ok (running s.files .stdout)
  | .file =>
    match s.files.openLog o.file with
    | (_, .error e) => .error e
    | (files, .ok l) => .ok (running files (.file l))

def filesAfterOpen (s : Surroundings) (o : LogOptions) : Files := (s.files.openLog o.file).1

def metricsEvent (refusal : Option String) (a : Address) : Event :=
  match refusal with
  | some why =>
    ⟨.error, target, "Failed to start metrics exporter",
      [("metrics_address", .shown a.text),
        ("error", .shown ("failed to create HTTP listener: " ++ why))]⟩
  | none => ⟨.info, metricsTarget, "Metrics exporter listening", [("address", .shown a.text)]⟩

/-- The log, if a save that ended so has replaced it. -/
def replacedLog (r : Running) (s : Store) (result : Except ConfigFault Unit) : Option Location :=
  match s.options.snapshotPath, r.sink, result with
  | some p, .file l, .ok () =>
    match r.world.files.target p with
    | .ok t => if t.location = l then some l else none
    | .error _ => none
  | _, _, _ => none

/-- Writes the identity to its snapshot. Where that replaces the log, the lines to come go to the
file that was there, which has no name any more. -/
def persist (r : Running) (s : Store) : Running :=
  let saved := s.save r.world
  let r := r.onto saved.world (replacedLog r s saved.result)
  let r := r.logAll saved.report.events
  match saved.result with
  | .ok () => r
  | .error e =>
    r.log ⟨.warn, target, "Could not persist cluster snapshot", [("error", .shown e.message)]⟩

/-- One signal to reload the key: it is announced, and the listener receives it. -/
def reload (r : Running) (s : Store) : Running × Store :=
  let r := r.log ⟨.info, target, "SIGHUP received, reloading bootstrap key", []⟩
  let sent := s.reloadKey r.world
  let r := r.logAll sent.report.events
  let (received, c) := sent.store.keyChanged.receive
  let r :=
    if received then
      r.log ⟨.info, target, "Bootstrap key changed",
        [("name", .shown s.identity.name), ("key_set", .bool (s.identity.bootstrapKey ≠ ""))]⟩
    else r
  let r :=
    match sent.result with
    | .ok () => r
    | .error e =>
      r.log ⟨.warn, target, "Bootstrap key reload not delivered", [("error", .shown e.message)]⟩
  (r, { sent.store with keyChanged := c })

def reloads (r : Running) (s : Store) : Nat → Running × Store
  | 0 => (r, s)
  | n + 1 =>
    let (r, s) := reload r s
    reloads r s n

def shutdown (r : Running) : Exit :=
  ((r.log ⟨.info, target, "Shutdown signal received", []⟩).log
    ⟨.info, target, "Shutdown complete", []⟩).exit 0 ""

def bootstrap (r : Running) (refusal : Option String) (l : CommandLine.Launch) :
    Except Exit (Running × Store) :=
  let r := r.log ⟨.info, target, "dataplane-config v" ++ version ++ " starting", []⟩
  let r := r.logAll (l.metricsAddress.toList.map (metricsEvent refusal))
  let s := (Store.make (l.notifyTimeout * pow10 9)).install l.settings.options l.settings.logging
  match r.world.files.read l.apiSchema with
  | .error e => .error (r.exit 1 (failure e.details))
  | .ok schema =>
    let loaded := s.load r.world schema l.host l.port
    let r := { r with world := loaded.world }.logAll loaded.report.events
    match loaded.result with
    | .error (.schema f) => .error (r.exit 1 (failure ("Schema(" ++ quoted f.reason ++ ")")))
    | .error e =>
      .error ((r.log ⟨.error, target, "Cannot continue with an ambiguous cluster identity",
        [("error", .shown e.message)]⟩).exit 1 "")
    | .ok () => .ok (persist r loaded.store, loaded.store)

def start (s : Surroundings) (args : List Bytes) : Except Exit (Running × Store) :=
  match CommandLine.launch args with
  | .error f => .error ⟨f.exitCode, s.files, "", "", [], none⟩
  | .ok l =>
    match begin s l.settings.logging with
    | .error e =>
      .error ⟨1, filesAfterOpen s l.settings.logging, "", failure ("Io(" ++ e.details ++ ")"), [],
        none⟩
    | .ok r => bootstrap r s.refusal l

/-- A run with arguments, `hups` signals to reload the key, and one to stop. -/
def run (s : Surroundings) (args : List Bytes) (hups : Nat) : Exit :=
  match start s args with
  | .error e => e
  | .ok (r, store) => shutdown (reloads r store hups).1

end Daemon

end NodeConfig
