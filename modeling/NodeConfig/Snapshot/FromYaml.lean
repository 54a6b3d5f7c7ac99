import NodeConfig.Snapshot.Fault
import NodeConfig.Yaml.Document
import NodeConfig.Yaml.Resolve

namespace NodeConfig

namespace Yaml

/-- A document while it is read: its root, and why it breaks off if it does. -/
structure Source where
  root : Node
  cause : Break

def Source.cut (src : Source) : SnapshotFault :=
  match src.cause with
  | .malformed => .malformed
  | .unknownAnchor => .unknownAnchor

def Resolved.found (text : String) : Resolved → Found
  | .null => .unit
  | .bool b => .bool b
  | .int n => .int n
  | .real x => .real x
  | .text => .text text

def standardTag (name : String) : String := "tag:yaml.org,2002:" ++ name

/-- What a scalar is where it does not fit. A standard tag gives its type; without a tag, or with
one of the document's own, a plain scalar shows its type. -/
def scalarMisfit (label : Label) (style : Style) (text : String) (wanted : Wanted) : Misfit :=
  let cs := text.toList
  let typed (found? : Option Found) (type : Wanted) : Misfit :=
    match found? with
    | some found => .wrongType found wanted
    | none => .wrongValue text type
  let plain : Found := if style = .plain then (resolvePlain cs).found text else .text text
  match label.tag with
  | none => .wrongType plain wanted
  | some tag =>
    if tag = standardTag "bool" then typed ((bool? cs).map .bool) .flag
    else if tag = standardTag "int" then typed ((int? cs).map .int) .number
    else if tag = standardTag "float" then typed ((real? cs).map .real) .real
    else if tag = standardTag "null" then typed (if isNull cs then some .unit else none) .null
    else .wrongType (if tag.startsWith "!" then plain else .text text) wanted

abbrev Path := List (Option String)

def Source.misfit (src : Source) (path : Path) (wanted : Wanted) : Node → SnapshotFault
  | .scalar label style text => .misfit path (scalarMisfit label style text wanted)
  | .sequence _ _ => .misfit path (.wrongType .sequence wanted)
  | .mapping _ _ => .misfit path (.wrongType .map wanted)
  | .alias _ => src.cut
  | .cut => src.cut

def Source.text (src : Source) (path : Path) (wanted : Wanted) (n : Node) :
    Except SnapshotFault String :=
  match src.root.resolve n with
  | .scalar _ _ text => .ok text
  | n => .error (src.misfit path wanted n)

/-- A plain scalar, or a literal one with the tag of flags, that is a name of a flag. -/
def Source.flag (src : Source) (path : Path) (n : Node) : Except SnapshotFault Bool :=
  match src.root.resolve n with
  | .scalar label style text =>
    let open? := style = .plain || (style = .literal && label.tag = some (standardTag "bool"))
    match if open? then bool? text.toList else none with
    | some b => .ok b
    | none => .error (src.misfit path .flag (.scalar label style text))
  | n => .error (src.misfit path .flag n)

def keyName : Node → Option String
  | .scalar _ _ text => some text
  | _ => none

def Source.fields (src : Source) (path : Path) (seen : List Field) (x : Identity) :
    List (Node × Node) → Except SnapshotFault Identity
  | [] => .ok x
  | (k, v) :: rest => do
    let key ← src.text path .fieldName k
    match Field.ofKey? key with
    | none => if v.isCut then .error src.cut else src.fields path seen x rest
    | some f =>
      if f ∈ seen then .error (.misfit path (.duplicate key))
      else
        match f with
        | .text t =>
          let s ← src.text (path ++ [keyName k]) .text v
          src.fields path (f :: seen) (x.set t s) rest
        | .certFetched =>
          let b ← src.flag (path ++ [keyName k]) v
          src.fields path (f :: seen) { x with certFetched := b } rest

/-- A plain scalar without text, in place of a mapping without pairs. -/
def isNothing : Node → Bool
  | .scalar _ style text => style = .plain && text = ""
  | _ => false

def Source.identity (src : Source) (path : Path) (n : Node) : Except SnapshotFault Identity :=
  match src.root.resolve n with
  | .mapping _ pairs => src.fields path [] .empty pairs
  | n => if isNothing n then .ok .empty else .error (src.misfit path .identity n)

/-- Pairs of the document. The identity is under `cluster`, once at most. -/
def Source.sections (src : Source) (x? : Option Identity) :
    List (Node × Node) → Except SnapshotFault Identity
  | [] => .ok (x?.getD .empty)
  | (k, v) :: rest => do
    let key ← src.text [] .fieldName k
    if key = "cluster" then
      if x?.isSome then .error (.misfit [] (.duplicate key))
      else
        let x ← src.identity [keyName k] v
        src.sections (some x) rest
    else if v.isCut then .error src.cut
    else src.sections x? rest

/-- The snapshot in a document; none if its only node is a null. -/
def Source.snapshot (src : Source) : Except SnapshotFault (Option Identity) :=
  match src.root with
  | .mapping _ pairs => (src.sections none pairs).map some
  | .scalar label .plain text =>
    match label.tag with
    | none =>
      if text = "" || isNull text.toList then .ok none
      else .error (src.misfit [] .document src.root)
    | some tag =>
      if tag = standardTag "null" && isNull text.toList then .ok none
      else if tag ≠ standardTag "null" && text = "" then .ok (some .empty)
      else .error (src.misfit [] .document src.root)
  | n => .error (src.misfit [] .document n)

end Yaml

/-- The snapshot in a YAML text; none if there is nothing in it. A misfit is reported before a fault
in the text after it. -/
def snapshotOfYaml (cs : List Char) : Except SnapshotFault (Option Identity) :=
  let doc := Yaml.document cs
  match doc.root with
  | none => .ok none
  | some root => do
    let src : Yaml.Source := ⟨root, doc.fault.getD .malformed⟩
    let x? ← src.snapshot
    if doc.fault.isSome then .error src.cut
    else if doc.more then .error .moreDocuments
    else .ok x?

end NodeConfig
