import NodeConfig.Decimal.Real

namespace NodeConfig.Toml

inductive Fault where
  | malformed
  | duplicateKey
  | tooDeep
  deriving DecidableEq, Repr

/-- What made a table: its own header, a header further down, a dotted key, or braces. -/
inductive Origin where
  | header | implied | dotted | inline
  deriving DecidableEq, Repr

inductive Value where
  | text (s : String)
  | int (n : Int)
  | real (x : Real)
  | bool (b : Bool)
  | time
  | array (items : List Value)
  | table (origin : Origin) (entries : List (String × Value))
  /-- A table for each header in double brackets. -/
  | tables (elements : List (List (String × Value)))
  deriving Repr

abbrev Entries := List (String × Value)

namespace Entries

def lookup? (key : String) (es : Entries) : Option Value := List.lookup key es

def replace (key : String) (v : Value) (es : Entries) : Entries :=
  es.map fun e => if e.1 = key then (key, v) else e

def remove (key : String) (es : Entries) : Entries := es.filter (·.1 ≠ key)

end Entries

/-- The table made for a key on the way to another. -/
def madeOnTheWay (dotted : Bool) : Origin := if dotted then .dotted else .implied

/-- A key on the way leads into a value that was there. A dotted key enters only tables that no
header and no braces made; a key in braces calls a closed table a duplicate, elsewhere it is an
error to reach into a value. -/
def mayEnter (dotted braces : Bool) : Origin → Except Fault Unit
  | .inline => .error (if braces then .duplicateKey else .malformed)
  | .header => if dotted then .error .duplicateKey else .ok ()
  | _ => .ok ()

/-- Changes the table at a path, making the tables that are not there. Of a list of tables the last
is meant. -/
def change {α : Type} (dotted braces : Bool)
    (f : Origin → Entries → Except Fault (α × Entries)) (origin : Origin) (es : Entries) :
    List String → Except Fault (α × Entries)
  | [] => f origin es
  | key :: path =>
    match es.lookup? key with
    | none => do
      let (a, sub) ← change dotted braces f (madeOnTheWay dotted) [] path
      return (a, es ++ [(key, .table (madeOnTheWay dotted) sub)])
    | some (.table o sub) => do
      mayEnter dotted braces o
      let (a, sub) ← change dotted braces f o sub path
      return (a, es.replace key (.table o sub))
    | some (.tables elements) => do
      let (a, sub) ← change dotted braces f .header (elements.getLast?.getD []) path
      return (a, es.replace key (.tables (elements.dropLast ++ [sub])))
    | some _ => .error .malformed

/-- Adds a key with its value, below a dotted path. A dotted key adds to tables that dotted keys
made, and only such a key does. -/
def addPair (braces : Bool) (path : List String) (key : String) (v : Value) (es : Entries) :
    Except Fault Entries :=
  (change true braces (fun origin es =>
    if (origin = .dotted) = path.isEmpty then .error .duplicateKey
    else if (es.lookup? key).isSome then .error .duplicateKey
    else .ok ((), es ++ [(key, v)])) (if braces then .inline else .header) es path).map (·.2)

def tableOfPairs (pairs : List (List String × String × Value)) : Except Fault Value :=
  (pairs.foldlM (fun es (path, key, v) => addPair true path key v es) []).map (.table .inline)

/-- A document while it is read: the tables that are complete, and the one being read. -/
structure Document where
  root : Entries
  /-- The header of the table being read; none for the keys before all headers. -/
  path : List String
  inArray : Bool
  current : Entries
  deriving Repr

namespace Document

def empty : Document := ⟨[], [], false, []⟩

def splitPath (path : List String) : List String × String :=
  (path.dropLast, path.getLast?.getD "")

/-- The table being read is put in its place. -/
def close (d : Document) : Except Fault Entries :=
  if d.path = [] then .ok d.current
  else
    let (parents, key) := splitPath d.path
    (change false false (fun _ es =>
      match es.lookup? key with
      | some (.tables elements) =>
        if d.inArray then .ok ((), es.replace key (.tables (elements ++ [d.current])))
        else .error .duplicateKey
      | some _ => .error .duplicateKey
      | none =>
        .ok ((), es ++
          [(key, if d.inArray then .tables [d.current] else .table .header d.current)]))
      .header d.root parents).map (·.2)

/-- A header begins a table. One that was implied so far keeps what it has. -/
def openTable (path : List String) (d : Document) : Except Fault Document := do
  let root ← d.close
  let (parents, key) := splitPath path
  let (current, root) ← change false false (fun _ es =>
    match es.lookup? key with
    | none => .ok ([], es)
    | some (.table .implied sub) => .ok (sub, es.remove key)
    | some _ => .error .duplicateKey) .header root parents
  return ⟨root, path, false, current⟩

/-- A header in double brackets begins one more table of a list. -/
def openElement (path : List String) (d : Document) : Except Fault Document := do
  let root ← d.close
  let (parents, key) := splitPath path
  let (_, root) ← change false false (fun _ es =>
    match es.lookup? key with
    | none => .ok ((), es)
    | some (.tables _) => .ok ((), es)
    | some _ => .error .duplicateKey) .header root parents
  return ⟨root, path, true, []⟩

def add (path : List String) (v : Value) (d : Document) : Except Fault Document := do
  let (parents, key) := splitPath path
  return { d with current := ← addPair false parents key v d.current }

end Document

end NodeConfig.Toml
