import NodeConfig.Files.Path

/-!
A tree of files and directories, and where paths lead in it. Relative paths start in the working
directory, of whose surroundings nothing is known.
-/

namespace NodeConfig

/-- Names from the root down. -/
abbrev Location := List Segment

inductive Entry where
  | file (content : Bytes)
  | dir
  deriving DecidableEq, Repr

/-- Why the system refuses an operation on files. -/
inductive OsError where
  | notFound
  | notDirectory
  | isDirectory
  | exists
  | nameTooLong
  | busy
  | invalid
  /-- A path with a NUL in it is not passed to the system. -/
  | nulInName
  /-- A call took nothing of what was to be written. -/
  | writeZero
  /-- One that does not come from the tree. -/
  | other (code : Nat) (kind text : String)
  deriving DecidableEq, Repr

namespace OsError

def code? : OsError → Option Nat
  | .notFound => some 2
  | .busy => some 16
  | .exists => some 17
  | .notDirectory => some 20
  | .isDirectory => some 21
  | .invalid => some 22
  | .nameTooLong => some 36
  | .nulInName => none
  | .writeZero => none
  | .other code _ _ => some code

def kind : OsError → String
  | .notFound => "NotFound"
  | .busy => "ResourceBusy"
  | .exists => "AlreadyExists"
  | .notDirectory => "NotADirectory"
  | .isDirectory => "IsADirectory"
  | .invalid => "InvalidInput"
  | .nulInName => "InvalidInput"
  | .nameTooLong => "InvalidFilename"
  | .writeZero => "WriteZero"
  | .other _ kind _ => kind

def text : OsError → String
  | .notFound => "No such file or directory"
  | .busy => "Device or resource busy"
  | .exists => "File exists"
  | .notDirectory => "Not a directory"
  | .isDirectory => "Is a directory"
  | .invalid => "Invalid argument"
  | .nulInName => "file name contained an unexpected NUL byte"
  | .nameTooLong => "File name too long"
  | .writeZero => "failed to write whole buffer"
  | .other _ _ text => text

def message (e : OsError) : String :=
  match e.code? with
  | none => e.text
  | some code => s!"{e.text} (os error {code})"

def details (e : OsError) : String :=
  match e.code? with
  | none => "Error \x7b kind: " ++ e.kind ++ ", message: \"" ++ e.text ++ "\" \x7d"
  | some code =>
    "Os \x7b code: " ++ toString code ++ ", kind: " ++ e.kind ++ ", message: \"" ++ e.text ++
      "\" \x7d"

end OsError

/-- Entries by location. The root is a directory without an entry. -/
structure Files where
  entries : List (Location × Entry)
  deriving DecidableEq, Repr

namespace Files

def home : Location := [[0x77]]

def empty : Files := ⟨[(home, .dir)]⟩

def get? (f : Files) (l : Location) : Option Entry := f.entries.lookup l

def put (f : Files) (l : Location) (e : Entry) : Files :=
  if (f.get? l).isSome then ⟨f.entries.map fun x => if x.1 = l then (l, e) else x⟩
  else ⟨f.entries ++ [(l, e)]⟩

def erase (f : Files) (l : Location) : Files := ⟨f.entries.filter (·.1 ≠ l)⟩

def isDir (f : Files) (l : Location) : Bool := l = [] || f.get? l = some .dir

def nameLimit : Nat := 255

def step (f : Files) (l : Location) (s : Segment) : Except OsError Location :=
  if !f.isDir l then .error .notDirectory
  else if s = Path.here then .ok l
  else if s = Path.above then .ok l.dropLast
  else if nameLimit < s.length then .error .nameTooLong
  else if (f.get? (l ++ [s])).isSome then .ok (l ++ [s])
  else .error .notFound

def walk (f : Files) (l : Location) (ss : List Segment) : Except OsError Location :=
  ss.foldlM (step f) l

def origin (p : Path) : Location := if p.isAbsolute then [] else home

def locate (f : Files) (p : Path) : Except OsError Location :=
  if p.hasNul then .error .nulInName
  else if p = [] then .error .notFound
  else
    match f.walk (origin p) p.segments with
    | .error e => .error e
    | .ok l => if p.endsInSlash && !f.isDir l then .error .notDirectory else .ok l

/-- A name in a directory, which need not be there; none for a path that ends in no name. -/
structure Target where
  directory : Location
  name : Option Segment
  deriving DecidableEq, Repr

def Target.location (t : Target) : Location := t.directory ++ t.name.toList

/-- The directory in which a path ends, and the name it ends in. -/
def target (f : Files) (p : Path) : Except OsError Target :=
  if p = [] then .error .notFound
  else
    match p.segments.getLast? with
    | none => .ok ⟨[], none⟩
    | some last =>
      match f.walk (origin p) p.segments.dropLast with
      | .error e => .error e
      | .ok d =>
        if !f.isDir d then .error .notDirectory
        else .ok ⟨d, if last = Path.here || last = Path.above then none else some last⟩

end Files

end NodeConfig
