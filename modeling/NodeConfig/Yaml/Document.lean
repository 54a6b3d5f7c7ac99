import NodeConfig.Yaml.Node
import NodeConfig.Yaml.Scan

namespace NodeConfig.Yaml

/-- Why a text breaks off. -/
inductive Break where
  | malformed
  | unknownAnchor
  deriving DecidableEq, Repr

structure Left where
  tokens : List Token
  anchors : List (String × Nat)
  deriving Repr

structure Reading (α : Type) where
  value : α
  left : Except Break Left

namespace Reading

def map {α β : Type} (f : α → β) (r : Reading α) : Reading β := ⟨f r.value, r.left⟩

def broken : Reading Node := ⟨.cut, .error .malformed⟩

def cons (r : Reading Node) (more : Left → Reading (List Node)) : Reading (List Node) :=
  match r.left with
  | .error b => ⟨[r.value], .error b⟩
  | .ok s => (more s).map (r.value :: ·)

def pair (k : Reading Node) (value : Left → Reading Node) : Reading (Node × Node) :=
  match k.left with
  | .error b => ⟨(k.value, .cut), .error b⟩
  | .ok s => (value s).map (k.value, ·)

def consPair (r : Reading (Node × Node)) (more : Left → Reading (List (Node × Node))) :
    Reading (List (Node × Node)) :=
  match r.left with
  | .error b => ⟨[r.value], .error b⟩
  | .ok s => (more s).map (r.value :: ·)

end Reading

/-- Texts that handles of tags stand for. -/
abbrev Handles := List (String × String)

def fullTag (handles : Handles) (handle suffix : String) : Option String :=
  if handle = "" then some suffix
  else (handles.find? (·.1 = handle)).map (·.2 ++ suffix)

structure Properties where
  anchor : Option String
  tag : Option (String × String)

def properties : List Token → Properties × List Token
  | .anchor a :: .tag h s :: rest => (⟨some a, some (h, s)⟩, rest)
  | .anchor a :: rest => (⟨some a, none⟩, rest)
  | .tag h s :: .anchor a :: rest => (⟨some a, some (h, s)⟩, rest)
  | .tag h s :: rest => (⟨none, some (h, s)⟩, rest)
  | ts => (⟨none, none⟩, ts)

/-- The label of a node that begins. An anchor's number is the count of names before it, so one
whose name was given before shares its number with the next new name. -/
def Properties.label (handles : Handles) (anchors : List (String × Nat)) (ps : Properties) :
    Option (Label × List (String × Nat)) :=
  let tag? : Option (Option String) :=
    match ps.tag with
    | none => some none
    | some (h, s) => (fullTag handles h s).map some
  tag?.map fun tag =>
    match ps.anchor with
    | none => (⟨none, tag⟩, anchors)
    | some a =>
      (⟨some anchors.length, tag⟩, (a, anchors.length) :: anchors.filter (·.1 ≠ a))

/-- The tag `!` of a scalar says no more than that it is one. -/
def Label.ofScalar (l : Label) : Label := if l.tag = some "!" then { l with tag := .none } else l

def endsBlockItem (t : Token) : Bool := t = .blockEntry || t = .blockEnd

def endsBlockPart (t : Token) : Bool := t = .key || t = .value || t = .blockEnd

def endsFlowItem (close t : Token) : Bool := t = .flowEntry || t = close

def endsFlowKey (close t : Token) : Bool := t = .value || endsFlowItem close t

mutual

/-- A node. In `block` it may be a block collection; with `indentless` entries may follow without
indentation of their own. -/
def node (handles : Handles) (block indentless : Bool) (s : Left) : Nat → Reading Node
  | 0 => .broken
  | fuel + 1 =>
    match s.tokens with
    | .alias a :: rest =>
      match s.anchors.find? (·.1 = a) with
      | some (_, n) => ⟨.alias n, .ok { s with tokens := rest }⟩
      | none => ⟨.cut, .error .unknownAnchor⟩
    | ts =>
      let (ps, ts) := properties ts
      match ts, ps.label handles s.anchors with
      | [], _ => .broken
      | _, none => .broken
      | t :: rest, some (label, anchors) =>
        let next : Left := ⟨rest, anchors⟩
        match t with
        | .scalar text style => ⟨.scalar label.ofScalar style text, .ok next⟩
        | .flowSequenceStart => (flowItems handles true next fuel).map (.sequence label)
        | .flowMappingStart => (flowPairs handles true next fuel).map (.mapping label)
        | t =>
          if t = .blockEntry && indentless then
            (entries handles ⟨ts, anchors⟩ fuel).map (.sequence label)
          else if t = .blockSequenceStart && block then
            (blockItems handles next fuel).map (.sequence label)
          else if t = .blockMappingStart && block then
            (blockPairs handles next fuel).map (.mapping label)
          else if ps.anchor.isSome || ps.tag.isSome then
            ⟨.scalar label .plain "", .ok ⟨ts, anchors⟩⟩
          else .broken

def part (handles : Handles) (block indentless : Bool) (ends : Token → Bool) (s : Left) :
    Nat → Reading Node
  | 0 => .broken
  | fuel + 1 =>
    match s.tokens with
    | [] => .broken
    | t :: _ => if ends t then ⟨.empty, .ok s⟩ else node handles block indentless s fuel

/-- The part after a colon, or nothing if there is no colon. -/
def valuePart (handles : Handles) (block : Bool) (ends : Token → Bool) (s : Left) :
    Nat → Reading Node
  | 0 => .broken
  | fuel + 1 =>
    match s.tokens with
    | [] => .broken
    | .value :: rest => part handles block block ends { s with tokens := rest } fuel
    | _ => ⟨.empty, .ok s⟩

def blockItems (handles : Handles) (s : Left) : Nat → Reading (List Node)
  | 0 => Reading.broken.map ([·])
  | fuel + 1 =>
    match s.tokens with
    | .blockEntry :: rest =>
      (part handles true false endsBlockItem { s with tokens := rest } fuel).cons
        fun s => blockItems handles s fuel
    | .blockEnd :: rest => ⟨[], .ok { s with tokens := rest }⟩
    | _ => Reading.broken.map ([·])

def entries (handles : Handles) (s : Left) : Nat → Reading (List Node)
  | 0 => Reading.broken.map ([·])
  | fuel + 1 =>
    match s.tokens with
    | [] => Reading.broken.map ([·])
    | .blockEntry :: rest =>
      (part handles true false (fun t => t = .blockEntry || endsBlockPart t)
        { s with tokens := rest } fuel).cons fun s => entries handles s fuel
    | _ => ⟨[], .ok s⟩

def blockPairs (handles : Handles) (s : Left) : Nat → Reading (List (Node × Node))
  | 0 => Reading.broken.map fun n => [(n, n)]
  | fuel + 1 =>
    match s.tokens with
    | .key :: rest =>
      ((part handles true true endsBlockPart { s with tokens := rest } fuel).pair
        fun s => valuePart handles true endsBlockPart s fuel).consPair
        fun s => blockPairs handles s fuel
    | .blockEnd :: rest => ⟨[], .ok { s with tokens := rest }⟩
    | _ => Reading.broken.map fun n => [(n, n)]

/-- Items of a flow sequence, up to its bracket. A pair may be an item: then a missing key takes the
token after it. -/
def flowItems (handles : Handles) (first : Bool) (s : Left) : Nat → Reading (List Node)
  | 0 => Reading.broken.map ([·])
  | fuel + 1 =>
    let ts? :=
      match s.tokens with
      | .flowSequenceEnd :: _ => some s.tokens
      | .flowEntry :: rest => if first then some s.tokens else some rest
      | ts => if first then some ts else none
    match ts? with
    | none => Reading.broken.map ([·])
    | some (.flowSequenceEnd :: rest) => ⟨[], .ok { s with tokens := rest }⟩
    | some (.key :: rest) =>
      let key : Reading Node :=
        match rest with
        | [] => .broken
        | t :: after =>
          if endsFlowKey .flowSequenceEnd t then ⟨.empty, .ok { s with tokens := after }⟩
          else node handles false false { s with tokens := rest } fuel
      let pair := key.pair fun s =>
        valuePart handles false (endsFlowItem .flowSequenceEnd) s fuel
      (pair.map fun kv => Node.mapping .none [kv]).cons
        fun s => flowItems handles false s fuel
    | some ts =>
      (node handles false false { s with tokens := ts } fuel).cons
        fun s => flowItems handles false s fuel

/-- Pairs of a flow mapping, up to its brace. A key without a question mark and a colon has no
value. -/
def flowPairs (handles : Handles) (first : Bool) (s : Left) : Nat → Reading (List (Node × Node))
  | 0 => Reading.broken.map fun n => [(n, n)]
  | fuel + 1 =>
    let ts? :=
      match s.tokens with
      | .flowMappingEnd :: _ => some s.tokens
      | .flowEntry :: rest => if first then some s.tokens else some rest
      | ts => if first then some ts else none
    match ts? with
    | none => Reading.broken.map fun n => [(n, n)]
    | some (.flowMappingEnd :: rest) => ⟨[], .ok { s with tokens := rest }⟩
    | some (.key :: rest) =>
      ((part handles false false (endsFlowKey .flowMappingEnd)
        { s with tokens := rest } fuel).pair
        fun s => valuePart handles false (endsFlowItem .flowMappingEnd) s fuel).consPair
        fun s => flowPairs handles false s fuel
    | some ts =>
      ((node handles false false { s with tokens := ts } fuel).pair fun s =>
        match s.tokens with
        | [] => .broken
        | _ => ⟨.empty, .ok s⟩).consPair
        fun s => flowPairs handles false s fuel

end

def standardHandles : Handles := [("!", "!"), ("!!", "tag:yaml.org,2002:")]

/-- Directives before a document, with the handles declared. A second version, a version other than
1.1 and 1.2, and a handle declared twice are errors. -/
def directives (versioned : Bool) (handles : Handles) : List Token → Option (Handles × List Token)
  | .versionDirective major minor :: rest =>
    if versioned || major ≠ 1 || (minor ≠ 1 && minor ≠ 2) then none
    else directives true handles rest
  | .tagDirective handle head :: rest =>
    if handles.any (·.1 = handle) then none
    else directives versioned (handles ++ [(handle, head)]) rest
  | ts => some (handles, ts)

def endsDocument (t : Token) : Bool :=
  match t with
  | .versionDirective _ _ => true
  | .tagDirective _ _ => true
  | .documentStart => true
  | .documentEnd => true
  | .streamEnd => true
  | _ => false

/-- The first document of a text: its node if it has one, why the text breaks off in it or right
after it, and whether anything comes after it. -/
structure Document where
  root : Option Node
  fault : Option Break
  more : Bool

/-- Marks at the end of a document are skipped; more than the end of the text then is another
document. -/
def hasMore (ts : List Token) : Bool := (ts.dropWhile (· = .documentEnd)).head? ≠ some .streamEnd

def Document.ofReading (r : Reading Node) : Document :=
  match r.left with
  | .error b => ⟨some r.value, some b, false⟩
  | .ok s =>
    match s.tokens with
    | [] => ⟨some r.value, some .malformed, false⟩
    | ts => ⟨some r.value, none, hasMore ts⟩

def Document.ofTokens (ts : List Token) : Document :=
  let fuel := 4 * ts.length + 4
  match ts with
  | [] => ⟨some .cut, some .malformed, false⟩
  | .streamEnd :: _ => ⟨none, none, false⟩
  | t :: _ =>
    if endsDocument t && t ≠ .documentEnd then
      match directives false [] ts with
      | some (handles, .documentStart :: rest) =>
        .ofReading (part (handles ++ standardHandles) true false endsDocument ⟨rest, []⟩ fuel)
      | _ => ⟨some .cut, some .malformed, false⟩
    else .ofReading (node standardHandles true false ⟨ts, []⟩ fuel)

def document (cs : List Char) : Document := .ofTokens (tokens cs)

end NodeConfig.Yaml
