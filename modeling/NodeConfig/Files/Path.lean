import NodeConfig.Text.Utf8

namespace NodeConfig

abbrev Path := Bytes

abbrev Segment := Bytes

namespace Path

def slash : UInt8 := 0x2F
def dot : UInt8 := 0x2E

def here : Segment := [dot]

def above : Segment := [dot, dot]

def ofString (s : String) : Path := Utf8.ofString s

def display (p : Path) : String := Utf8.lossy p

def isAbsolute (p : Path) : Bool := p.head? = some slash

def endsInSlash (p : Path) : Bool := p.getLast? = some slash

def hasNul (p : Path) : Bool := p.contains 0

/-- Pieces between slashes, empty ones too. -/
def split : Bytes → List Segment
  | [] => [[]]
  | b :: rest =>
    if b = slash then [] :: split rest
    else
      match split rest with
      | [] => [[b]]
      | s :: ss => (b :: s) :: ss

def segments (p : Path) : List Segment := (split p).filter (· ≠ [])

/-- Segments without those that stay in place; one at the start of a relative path is kept. -/
def components (p : Path) : List Segment :=
  match segments p with
  | [] => []
  | s :: ss =>
    let ss := ss.filter (· ≠ here)
    if s = here && isAbsolute p then ss else s :: ss

def join (absolute : Bool) (ss : List Segment) : Path :=
  (if absolute then [slash] else []) ++ List.intercalate [slash] ss

/-- The path without its last component. The root and the empty path have none. -/
def parent? (p : Path) : Option Path :=
  match components p with
  | [] => none
  | cs => some (join (isAbsolute p) cs.dropLast)

def fileName? (p : Path) : Option Segment :=
  match (components p).getLast? with
  | some s => if s = here || s = above then none else some s
  | none => none

/-- What follows the last point of the name, unless the name begins with that point. -/
def extension? (p : Path) : Option Bytes :=
  match fileName? p with
  | none => none
  | some name =>
    let back := name.reverse
    let ext := back.takeWhile (· ≠ dot)
    if ext.length + 1 < back.length then some ext.reverse else none

/-- The path and those above it that are named in it, the longest first. -/
def ancestors (p : Path) : List Path :=
  let cs := components p
  (List.range cs.length).map fun k =>
    if k = 0 then p else join (isAbsolute p) (cs.take (cs.length - k))

end Path

end NodeConfig
