import NodeConfig.Yaml.Block
import NodeConfig.Yaml.Resolve
import NodeConfig.Yaml.Scan

namespace NodeConfig.Yaml

/-- Written as it is; any other character is escaped. -/
def isPlainly (c : Char) : Bool :=
  let n := c.toNat
  c = '\n' || (0x20 ≤ n && n ≤ 0x7E) || (0xA0 ≤ n && n ≠ 0xFEFF && n ≠ 0xFFFE && n ≠ 0xFFFF)

def hasNeighbours (r : Char → Char → Bool) : List Char → Bool
  | c :: d :: rest => r c d || hasNeighbours r (d :: rest)
  | _ => false

def isSpaceOrBreak (c : Char) : Bool := c = ' ' || isBreak c

/-- Three hyphens or points in front. -/
def beginsLikeMark : List Char → Bool
  | a :: b :: c :: _ => a = b && b = c && (a = '-' || a = '.')
  | _ => false

/-- A plain scalar cannot begin like this. -/
def beginsLikeStructure : List Char → Bool
  | [] => false
  | c :: rest => isIndicator c || ((c = '-' || c = '?' || c = ':') && endsWord rest)

/-- A colon that ends a word, or a hash that begins one. -/
def holdsStructure (cs : List Char) : Bool :=
  cs.getLast? = some ':' || hasNeighbours (fun c d => c = ':' && !isWord d) cs ||
    hasNeighbours (fun c d => !isWord c && d = '#') cs

def fitsPlain (cs : List Char) : Bool :=
  cs.all (fun c => isPlainly c && !isBreak c) && !cs.head?.any isSpaceOrBreak &&
    !cs.getLast?.any isSpaceOrBreak && !beginsLikeMark cs && !beginsLikeStructure cs &&
    !holdsStructure cs

def fitsSingle (cs : List Char) : Bool :=
  cs.all isPlainly && !hasNeighbours (fun c d => isBreak c && d = ' ') cs &&
    !hasNeighbours (fun c d => c = ' ' && isBreak d) cs

def fitsLiteral (cs : List Char) : Bool :=
  cs.all isPlainly && cs.getLast? ≠ some ' ' &&
    !hasNeighbours (fun c d => c = ' ' && isBreak d) cs

/-- Without quotes it would not read back as text, or might not. -/
def needsQuotes (cs : List Char) : Bool := resolvePlain cs ≠ .text || isPadded cs

def styleFor (cs : List Char) : Style :=
  if cs.contains '\n' then (if fitsLiteral cs then .literal else .double)
  else if !needsQuotes cs && fitsPlain cs then .plain
  else if fitsSingle cs then .single
  else .double

def escapeDouble (c : Char) : List Char :=
  let code (letter : Char) (width : Nat) : List Char :=
    let ds := (Nat.toDigits 16 c.toNat).map Char.toUpper
    '\\' :: letter :: List.replicate (width - ds.length) '0' ++ ds
  if c = '"' then ['\\', '"']
  else if c = '\\' then ['\\', '\\']
  else if isPlainly c && !isBreak c then [c]
  else if c = '\x00' then ['\\', '0']
  else if c = '\x07' then ['\\', 'a']
  else if c = '\x08' then ['\\', 'b']
  else if c = '\t' then ['\\', 't']
  else if c = '\n' then ['\\', 'n']
  else if c = '\x0b' then ['\\', 'v']
  else if c = '\x0c' then ['\\', 'f']
  else if c = '\r' then ['\\', 'r']
  else if c = '\x1b' then ['\\', 'e']
  else if c = nel then ['\\', 'N']
  else if c = lineSeparator then ['\\', 'L']
  else if c = paragraphSeparator then ['\\', 'P']
  else if c.toNat ≤ 0xFF then code 'x' 2
  else if c.toNat ≤ 0xFFFF then code 'u' 4
  else code 'U' 8

def writeDouble (cs : List Char) : List Char := '"' :: cs.flatMap escapeDouble ++ ['"']

/-- Text between single quotes. After a break the indentation of the text is given; in `broken` a
break came last. -/
def singleBody (indent : Nat) (broken : Bool) : List Char → List Char
  | [] => if broken then List.replicate indent ' ' else []
  | c :: rest =>
    if isBreak c then c :: singleBody indent true rest
    else
      (if broken then List.replicate indent ' ' else []) ++
        (if c = '\'' then ['\'', '\''] else [c]) ++ singleBody indent false rest

def writeSingle (indent : Nat) (cs : List Char) : List Char :=
  '\'' :: singleBody indent false cs ++ ['\'']

def literalBody (indent : Nat) (broken : Bool) : List Char → List Char
  | [] => []
  | c :: rest =>
    if isBreak c then c :: literalBody indent true rest
    else
      (if broken then List.replicate indent ' ' else []) ++ c :: literalBody indent false rest

def chompMark (cs : List Char) : List Char :=
  match cs.reverse with
  | [] => ['-']
  | [_] => ['+']
  | c :: d :: _ => if !isBreak c then ['-'] else if isBreak d then ['+'] else []

/-- A block with its header. The indentation is given when the text itself begins with a space or a
break. -/
def writeLiteral (indent : Nat) (cs : List Char) : List Char :=
  '|' :: (if cs.head?.any isSpaceOrBreak then ['2'] else []) ++ chompMark cs ++
    '\n' :: literalBody indent true cs

/-- A text as the value of a key, in lines indented by `indent`. -/
def writeScalar (indent : Nat) (cs : List Char) : List Char :=
  match styleFor cs with
  | .plain => cs
  | .single => writeSingle indent cs
  | .literal => writeLiteral indent cs
  | _ => writeDouble cs

/-- A line feed, unless the text ends in a break of its own. -/
def endLine (cs : List Char) : List Char := if cs.getLast?.any isBreak then cs else cs ++ ['\n']

/-- A key at its indentation and its text, two further in if it has lines. -/
def writeEntry (indent : Nat) (key value : String) : List Char :=
  List.replicate indent ' ' ++ key.toList ++ [':', ' '] ++
    endLine (writeScalar (indent + 2) value.toList)

end NodeConfig.Yaml
