import NodeConfig.Files.Tree

namespace NodeConfig

namespace Files

def read (f : Files) (p : Path) : Except OsError Bytes :=
  match f.locate p with
  | .error e => .error e
  | .ok l =>
    match f.get? l with
    | some (.file content) => .ok content
    | _ => .error .isDirectory

def isDirPath (f : Files) (p : Path) : Bool :=
  match f.locate p with
  | .ok l => f.isDir l
  | .error _ => false

def makeDir (f : Files) (p : Path) : Except OsError Files :=
  if p.hasNul then .error .nulInName
  else
    match f.target p with
    | .error e => .error e
    | .ok t =>
      match t.name with
      | none => .error .exists
      | some name =>
        if nameLimit < name.length then .error .nameTooLong
        else if (f.get? t.location).isSome then .error .exists
        else .ok (f.put t.location .dir)

/-- The files after an operation, which may have failed half-way. -/
structure Attempt where
  files : Files
  error : Option OsError
  deriving DecidableEq, Repr

/-- The first of the paths is made a directory; the others are those above it, made first where
they are missing. -/
def makeDirsIn (f : Files) : List Path → Attempt
  | [] => ⟨f, none⟩
  | p :: above =>
    match f.makeDir p with
    | .ok f => ⟨f, none⟩
    | .error .notFound =>
      match f.makeDirsIn above with
      | ⟨f, some e⟩ => ⟨f, some e⟩
      | ⟨f, none⟩ =>
        match f.makeDir p with
        | .ok f => ⟨f, none⟩
        | .error e => ⟨f, if f.isDirPath p then none else some e⟩
    | .error e => ⟨f, if f.isDirPath p then none else some e⟩

def makeDirs (f : Files) (p : Path) : Attempt := f.makeDirsIn p.ancestors

/-- The file to write to at a path: where it is or can be made. -/
def writable (f : Files) (p : Path) : Except OsError Location :=
  if p.hasNul then .error .nulInName
  else
    match f.target p with
    | .error e => .error e
    | .ok t =>
      match t.name with
      | none => .error .isDirectory
      | some name =>
        if p.endsInSlash then .error .isDirectory
        else if nameLimit < name.length then .error .nameTooLong
        else if f.get? t.location = some .dir then .error .isDirectory
        else .ok t.location

def contentAt (f : Files) (l : Location) : Bytes :=
  match f.get? l with
  | some (.file content) => content
  | _ => []

/-- Opens a file for appending: makes the directories above it, and the file if it is not there. -/
def openLog (f : Files) (p : Path) : Files × Except OsError Location :=
  let made : Attempt :=
    match p.parent? with
    | some d => if d = [] then ⟨f, none⟩ else f.makeDirs d
    | none => ⟨f, none⟩
  match made with
  | ⟨f, some e⟩ => (f, .error e)
  | ⟨f, none⟩ =>
    match f.writable p with
    | .error e => (f, .error e)
    | .ok l => (if (f.get? l).isSome then f else f.put l (.file []), .ok l)

def appendAt (f : Files) (l : Location) (text : Bytes) : Files :=
  f.put l (.file (f.contentAt l ++ text))

def writeLog (f : Files) (p : Path) (text : Bytes) : Files × Except OsError Location :=
  match f.openLog p with
  | (f, .ok l) => (f.appendAt l text, .ok l)
  | (f, .error e) => (f, .error e)

def writeLogs (f : Files) : List (Path × Bytes) → Files × List (Except OsError Location)
  | [] => (f, [])
  | (p, text) :: rest =>
    let (f, r) := f.writeLog p text
    let (f, rs) := f.writeLogs rest
    (f, r :: rs)

def overwrite (f : Files) (p : Path) (content : Bytes) : Attempt :=
  match f.writable p with
  | .error e => ⟨f, some e⟩
  | .ok l => ⟨f.put l (.file content), none⟩

def removeFile (f : Files) (p : Path) : Files :=
  match f.locate p with
  | .error _ => f
  | .ok l =>
    match f.get? l with
    | some (.file _) => f.erase l
    | _ => f

/-- The directory that holds a path: the one named before its last component, or the working
directory. -/
def holder (p : Path) : Path :=
  match p.parent? with
  | none => Path.here
  | some d => if d = [] then Path.here else d

/-- Longer than all names there are, and than those in a path. -/
def unusedName (f : Files) (p : Path) : Segment :=
  let longest := (((f.entries.map (·.1)).flatten ++ p.segments).map List.length).foldl max 0
  Path.dot :: List.replicate longest 0x74

def temporary (f : Files) (p : Path) (d : Location) : Location := d ++ [f.unusedName p]

def withTemporary (f : Files) (p : Path) (d : Location) (part : Bytes) : Files :=
  f.put (f.temporary p d) (.file part)

/-- Moves a file over what a path names, which must not be a directory. -/
def rename (f : Files) (source : Location) (p : Path) : Except OsError Files :=
  if p.hasNul then .error .invalid
  else
    match f.target p with
    | .error e => .error e
    | .ok t =>
      match t.name with
      | none => .error .busy
      | some name =>
        if nameLimit < name.length then .error .nameTooLong
        else if p.endsInSlash then .error .notDirectory
        else if f.get? t.location = some .dir then .error .isDirectory
        else .ok ((f.put t.location (.file (f.contentAt source))).erase source)

/-- What the disk answers to a call that writes to a file. -/
inductive WriteAnswer where
  /-- It took so many bytes, perhaps not all. -/
  | took (n : Nat)
  | interrupted
  | refused (e : OsError)
  deriving DecidableEq, Repr

/-- What the disk answers to the calls that replace a file, where the tree leaves that open. Taking
a temporary file away does not fail. -/
structure Disk where
  create : Option OsError
  /-- Beyond these it takes all that is left to write. -/
  writes : List WriteAnswer
  sync : Option OsError
  rename : Option OsError
  deriving DecidableEq, Repr

def Disk.sound : Disk := ⟨none, [], none, none⟩

/-- Writes what is left after `done`, call by call. Gives what is in the file after each call, and
the error that ended this before all was written. -/
def writeAll (done : Bytes) : List WriteAnswer → Bytes → List Bytes × Option OsError
  | [], left => ([done ++ left], none)
  | _, [] => ([], none)
  | .took 0 :: _, _ => ([], some .writeZero)
  | .took n :: answers, left =>
    let (parts, e) := writeAll (done ++ left.take n) answers (left.drop n)
    ((done ++ left.take n) :: parts, e)
  | .interrupted :: answers, left => writeAll done answers left
  | .refused e :: _, _ => ([], some e)

def settle (f : Files) (disk : Disk) (source : Location) (p : Path) : Except OsError Files :=
  match disk.sync with
  | some e => .error e
  | none =>
    match disk.rename with
    | some e => .error e
    | none => f.rename source p

structure Replacing where
  states : List Files
  error : Option OsError
  deriving DecidableEq, Repr

/-- Writes all content to a temporary file in a directory, then renames it. The temporary file is
taken away wherever that stops. -/
def replacingIn (f : Files) (disk : Disk) (p : Path) (content : Bytes) (d : Location) :
    Replacing :=
  let (parts, stopped) := writeAll [] disk.writes content
  let states := ([] :: parts).map (f.withTemporary p d)
  let written := f.withTemporary p d (parts.getLast?.getD [])
  let settled : Except OsError Files :=
    match stopped with
    | some e => .error e
    | none => written.settle disk (f.temporary p d) p
  match settled with
  | .ok done => ⟨states ++ [done], none⟩
  | .error e => ⟨states ++ [written.erase (f.temporary p d)], some e⟩

def replacing (f : Files) (disk : Disk) (p : Path) (content : Bytes) : Replacing :=
  match f.locate (holder p) with
  | .error e => ⟨[], some e⟩
  | .ok d =>
    if !f.isDir d then ⟨[], some .notDirectory⟩
    else
      match disk.create with
      | some e => ⟨[], some e⟩
      | none => f.replacingIn disk p content d

def replace (f : Files) (disk : Disk) (p : Path) (content : Bytes) : Attempt :=
  let r := f.replacing disk p content
  ⟨r.states.getLast?.getD f, r.error⟩

end Files

end NodeConfig
