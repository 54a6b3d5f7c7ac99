import NodeConfig.Channel
import NodeConfig.Identity.Defaults
import NodeConfig.Options
import NodeConfig.Power
import NodeConfig.Snapshot.File

namespace NodeConfig

/-- Where the API is served. -/
structure Server where
  host : String := ""
  port : Nat := 0
  apiBasePath : String := ""
  deriving DecidableEq, Repr

structure Store where
  options : Options
  logging : LogOptions
  server : Server
  identity : Identity
  keyChanged : Channel
  restart : Channel
  deriving DecidableEq, Repr

/-- What a store works on: the files, and where new names come from. -/
structure World where
  files : Files
  names : NameSource

/-- What an operation of a store gave, and all that it changed. -/
structure Step (α : Type) where
  result : α
  store : Store
  world : World
  report : Report

def Step.map {α β : Type} (f : α → β) (s : Step α) : Step β :=
  ⟨f s.result, s.store, s.world, s.report⟩

namespace Store

def target : String := "dataplane_config::config::store"

/-- Nanoseconds that a send waits where nothing else is said. -/
def defaultTimeout : Nat := 5 * pow10 9

def make (timeout : Nat) : Store where
  options := {}
  logging := {}
  server := {}
  identity := .empty
  keyChanged := .make "bootstrap_key" (.block timeout)
  restart := .make "restart" .coalesce

def install (s : Store) (options : Options) (logging : LogOptions) : Store :=
  { s with options, logging }

def normalHost (host : String) : String := if host = "localhost" then "127.0.0.1" else host

/-- The identity to start from, and what is reported about it. Without a path there is no
snapshot. -/
def stored (s : Store) (f : Files) : Except ConfigFault (Identity × Report) × List Event :=
  match s.options.snapshotPath with
  | none => (.ok (.empty, .count (.load .ephemeral)), [])
  | some p =>
    let path := [("path", FieldValue.shown p.display)]
    let read := Snapshot.read f p
    let outcome : Except ConfigFault (Identity × Report) :=
      match read with
      | .error e => .error e
      | .ok (.missing _) => .ok (.empty, .count (.load .default))
      | .ok .empty =>
        .ok (.empty, .event ⟨.info, target, "Cluster snapshot is empty, using defaults", path⟩ ++
          .count (.load .empty))
      | .ok (.loaded x) =>
        .ok (x, .event ⟨.info, target, "Cluster snapshot loaded", path⟩ ++ .count (.load .file))
    (outcome, Snapshot.readEvents p read)

def loadedEvent (x : Identity) (server : Server) : Event :=
  ⟨.info, target, "Configuration loaded",
    [("name", .shown x.name), ("mode", .shown x.mode), ("host", .shown server.host),
      ("port", .int server.port)]⟩

/-- Takes the base path from a schema, and the identity from its snapshot with defaults where it is
empty. A fault of the schema changes nothing; one of the snapshot leaves the identity. -/
def load (s : Store) (w : World) (schema : Bytes) (host : String) (port : Nat) :
    Step (Except ConfigFault Unit) :=
  match basePath schema with
  | .error f => ⟨.error (.schema f), s, w, .nothing⟩
  | .ok base =>
    let s := { s with server := ⟨normalHost host, port, base⟩ }
    match s.stored w.files with
    | (.error e, events) => ⟨.error e, s, w, ⟨events, []⟩⟩
    | (.ok (x, report), events) =>
      let d := x.withDefaults w.names
      ⟨.ok (), { s with identity := d.identity }, { w with names := d.names },
        ⟨events, []⟩ ++ report ++ d.report ++ .event (loadedEvent d.identity s.server)⟩

def saveOn (s : Store) (disk : Files.Disk) (w : World) : Step (Except ConfigFault Unit) :=
  match s.options.snapshotPath with
  | none => ⟨.ok (), s, w, .nothing⟩
  | some p =>
    match Snapshot.writeOn w.files disk p s.identity with
    | (f, .ok ()) =>
      ⟨.ok (), s, { w with files := f },
        .event ⟨.debug, target, "Cluster snapshot saved", [("path", .shown p.display)]⟩ ++
          .count (.save true)⟩
    | (f, .error e) => ⟨.error e, s, { w with files := f }, .count (.save false)⟩

/-- Saves on a disk that does what it is asked to. -/
def save (s : Store) (w : World) : Step (Except ConfigFault Unit) := s.saveOn .sound w

/-- A save that failed while a key was changed. -/
def saveFailed : Except ConfigFault Unit → List Event
  | .ok () => []
  | .error e =>
    [⟨.error, target, "Failed to persist bootstrap key",
      [("error", .shown e.message), ("fatal", .bool e.isFatal)]⟩]

def reloadKey (s : Store) (w : World) : Step (Except SendFault Unit) :=
  let sent := s.keyChanged.send
  ⟨sent.result.map fun _ => (), { s with keyChanged := sent.channel }, w, sent.report⟩

def setKey (s : Store) (key : String) : Store :=
  { s with identity := { s.identity with bootstrapKey := key } }

/-- Changes the key, saves it and announces it. A save that failed is only reported. -/
def changeKey (s : Store) (w : World) (key : String) : Step (Except SendFault Unit) :=
  let saved := (s.setKey key).save w
  let sent := saved.store.reloadKey saved.world
  { sent with report := saved.report ++ ⟨saveFailed saved.result, []⟩ ++ sent.report }

def requestRestart (s : Store) (w : World) : Step SendOutcome :=
  let sent := s.restart.send
  let outcome :=
    match sent.result with
    | .ok outcome => outcome
    | .error _ => .coalesced
  ⟨outcome, { s with restart := sent.channel }, w, sent.report⟩

/-- Changes the key several times while another receives the announcements, `left` of them. -/
def rotate (s : Store) (w : World) (left : Nat) (keys : List String) :
    Step (List (Except SendFault Unit) × Nat) :=
  let (left, c) := s.keyChanged.receiveWaiting left
  let s := { s with keyChanged := c }
  match keys with
  | [] => ⟨([], left), s, w, .nothing⟩
  | key :: keys =>
    let changed := s.changeKey w key
    let rest := changed.store.rotate changed.world left keys
    { rest with
      result := (changed.result :: rest.result.1, rest.result.2)
      report := changed.report ++ rest.report }

end Store

end NodeConfig
