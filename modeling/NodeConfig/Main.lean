import NodeConfig.Daemon
import NodeConfig.Log.Time
import Std.Async.TCP
import Std.Time.DateTime.Timestamp

/-!
The daemon on real files. The files that its arguments name are read before it starts; after each
step what changed is written back. A line of input stands for a signal to reload the key, and the
end of input for the one to stop.
-/

namespace NodeConfig

def entryOnDisk (p : Path) : IO (Option Entry) := do
  match ← (IO.FS.readBinFile p.display).toBaseIO with
  | .ok content => return some (.file content.toList)
  | .error (.inappropriateType ..) => return some .dir
  | .error _ => return none

/-- Adds what stands at a path on the disk, and the directory that holds it. -/
def addFromDisk (f : Files) (p : Path) : IO Files := do
  let holder := Files.holder p
  let f :=
    match ← entryOnDisk holder with
    | some .dir => (f.makeDirs holder).files
    | _ => f
  match ← entryOnDisk p with
  | some (.file content) => return (f.overwrite p content).files
  | some .dir => return (f.makeDirs p).files
  | none => return f

def diskPath (l : Location) : Path :=
  if Files.home.isPrefixOf l then Path.join false (l.drop Files.home.length) else Path.join true l

/-- Appends to a file that grew; replaces one that changed otherwise. -/
def putOnDisk (l : Location) (old : Option Entry) (new : Entry) : IO Unit := do
  let path := (diskPath l).display
  match old, new with
  | _, .dir => IO.FS.createDirAll path
  | some (.file before), .file content =>
    if before.isPrefixOf content then
      let h ← IO.FS.Handle.mk path .append
      h.write ⟨(content.drop before.length).toArray⟩
    else
      IO.FS.writeBinFile (path ++ ".tmp") ⟨content.toArray⟩
      IO.FS.rename (path ++ ".tmp") path
  | _, .file content =>
    IO.FS.writeBinFile (path ++ ".tmp") ⟨content.toArray⟩
    IO.FS.rename (path ++ ".tmp") path

def syncToDisk (before after : Files) : IO Unit :=
  after.entries.forM fun (l, e) => do
    if before.get? l ≠ some e then putOnDisk l (before.get? l) e

def now : IO Nat := do
  return (← Std.Time.Timestamp.now).toNanosecondsSinceUnixEpoch.toInt.toNat / 1000

def bytesValue (bs : List UInt8) : Nat := bs.foldl (fun n b => n * 256 + b.toNat) 0

abbrev Listener := Std.Async.TCP.Socket.Server

def Address.socket : Address → Std.Net.SocketAddress
  | .v4 octets port =>
    .v4 ⟨⟨Vector.ofFn fun i : Fin 4 => UInt8.ofNat (octets.getD i 0)⟩, UInt16.ofNat port⟩
  | .v6 groups _ port =>
    .v6 ⟨⟨Vector.ofFn fun i : Fin 8 => UInt16.ofNat (groups.getD i 0)⟩, UInt16.ofNat port⟩

def listenFault : IO.Error → String
  | .permissionDenied .. => (OsError.other 13 "PermissionDenied" "Permission denied").message
  | .resourceBusy .. => (OsError.other 98 "AddrInUse" "Address already in use").message
  | .unsupportedOperation .. =>
    (OsError.other 99 "AddrNotAvailable" "Cannot assign requested address").message
  | e => toString e

/-- Takes an address for the metrics, or says why it is not to be had. Connections are kept waiting:
what they are answered is not part of the daemon. -/
def listen (a : Address) : IO (Except String Listener) := do
  let listener ← Std.Async.TCP.Socket.Server.mk
  let opened : IO Unit := do
    listener.bind a.socket
    listener.listen 128
  match ← opened.toBaseIO with
  | .ok () => return .ok listener
  | .error e => return .error (listenFault e)

/-- What the daemon finds on this machine, and the port that it holds. -/
def surroundings (args : List Bytes) : IO (Daemon.Surroundings × Option Listener) := do
  let micros ← now
  let noise ← IO.getRandomBytes 10
  let (paths, address) :=
    match CommandLine.launch args with
    | .error _ => ([], none)
    | .ok l =>
      (l.apiSchema :: l.settings.options.snapshotPath.toList ++
        (if l.settings.logging.target = LogTarget.file then [l.settings.logging.file] else []),
        l.metricsAddress)
  let listening ← address.mapM listen
  let reading : Reading :=
    ⟨micros / 1000, bytesValue (noise.toList.take 6), bytesValue (noise.toList.drop 6)⟩
  let around : Daemon.Surroundings := {
    files := ← paths.foldlM addFromDisk .empty
    names := .fresh fun _ => reading
    filter := ← IO.getEnv "RUST_LOG"
    time := Log.timeText micros
    refusal := listening.bind fun l => match l with | .error why => some why | .ok _ => none }
  return (around, listening.bind Except.toOption)

def flush (before after : Daemon.Running) : IO Unit := do
  syncToDisk before.world.files after.world.files
  let out ← IO.getStdout
  out.write ⟨((Utf8.ofString after.stdout).drop (Utf8.ofString before.stdout).length).toArray⟩
  out.flush

/-- One line after the other, then the end. -/
partial def waitForSignals (r : Daemon.Running) (s : Store) : IO UInt32 := do
  let r := { r with time := Log.timeText (← now) }
  if (← (← IO.getStdin).getLine) = "" then
    let e := Daemon.shutdown r
    flush r { r with world := { r.world with files := e.files }, stdout := e.stdout }
    return e.code.toUInt32
  else
    let (r', s) := Daemon.reload r s
    flush r r'
    waitForSignals r' s

def serveOnDisk (args : List String) : IO UInt32 := do
  let args := args.map Utf8.ofString
  let (around, listener) ← surroundings args
  let held ← IO.mkRef listener
  match Daemon.start around args with
  | .error e =>
    syncToDisk around.files e.files
    IO.print e.stdout
    IO.eprint e.stderr
    return e.code.toUInt32
  | .ok (r, s) =>
    flush { r with world := { r.world with files := around.files }, stdout := "" } r
    let code ← waitForSignals r s
    -- the port is given back at the end of the run, not after its last use
    held.set none
    return code

end NodeConfig

def main (args : List String) : IO UInt32 := NodeConfig.serveOnDisk args
