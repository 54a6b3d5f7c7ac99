namespace NodeConfig.Toml

def isBlank (c : Char) : Bool := c = ' ' || c = '\t'

/-- Controls have no place in a text or a comment, but for the tab. -/
def isTextChar (c : Char) : Bool := c = '\t' || (0x20 ≤ c.toNat && c.toNat ≠ 0x7F)

def newline? : List Char → Option (List Char)
  | '\n' :: rest => some rest
  | '\r' :: '\n' :: rest => some rest
  | _ => none

def dropNewline (cs : List Char) : List Char := (newline? cs).getD cs

def hexDigit? (c : Char) : Option Nat :=
  if c.isDigit then some (c.toNat - 0x30)
  else if 'a' ≤ c && c ≤ 'f' then some (c.toNat - 0x57)
  else if 'A' ≤ c && c ≤ 'F' then some (c.toNat - 0x37)
  else none

def codeChar? (width : Nat) (cs : List Char) : Option Char :=
  let ds := cs.take width
  if ds.length < width then none
  else
    match ds.foldl (fun n? c => n?.bind fun n => (hexDigit? c).map (n * 16 + ·)) (some 0) with
    | some n => if n.isValidChar then some (Char.ofNat n) else none
    | none => none

def escape? : List Char → Option (Char × Nat)
  | [] => none
  | c :: rest =>
    if c = 'b' then some ('\x08', 1)
    else if c = 't' then some ('\t', 1)
    else if c = 'n' then some ('\n', 1)
    else if c = 'f' then some ('\x0c', 1)
    else if c = 'r' then some ('\r', 1)
    else if c = '"' then some ('"', 1)
    else if c = '\\' then some ('\\', 1)
    else if c = 'u' then (codeChar? 4 rest).map (·, 5)
    else if c = 'U' then (codeChar? 8 rest).map (·, 9)
    else none

/-- What was read, and the rest. None if there is no end to it, or something wrong in it. -/
abbrev TextRead := Option (List Char × List Char)

def TextRead.cons (c : Char) (r : TextRead) : TextRead := r.map fun (cs, rest) => (c :: cs, rest)

def basicBody : List Char → TextRead
  | [] => none
  | c :: rest =>
    if c = '"' then some ([], rest)
    else if c = '\\' then
      match escape? rest with
      | some (d, n) => TextRead.cons d (basicBody (rest.drop n))
      | none => none
    else if isTextChar c then TextRead.cons c (basicBody rest)
    else none
termination_by cs => cs.length
decreasing_by all_goals simp +arith [*]

def literalBody : List Char → TextRead
  | [] => none
  | c :: rest =>
    if c = '\'' then some ([], rest)
    else if isTextChar c then TextRead.cons c (literalBody rest)
    else none

def skipLines : List Char → List Char
  | '\r' :: '\n' :: rest => skipLines rest
  | c :: rest => if isBlank c || c = '\n' then skipLines rest else c :: rest
  | [] => []

def escapedEnd? (cs : List Char) : Option (List Char) :=
  (newline? (cs.dropWhile isBlank)).map skipLines

def isTriple (q : Char) : List Char → Bool
  | a :: b :: c :: _ => a = q && b = q && c = q
  | _ => false

/-- After the opening quotes of a text with lines. Up to two quotes may stand before the closing
ones. -/
def linesBody (q : Char) (cs : List Char) : TextRead :=
  match cs with
  | [] => none
  | c :: rest =>
    if isTriple q cs then
      let more := (rest.drop 2).takeWhile (· = q)
      some (more.take 2, (rest.drop 2).drop (more.take 2).length)
    else if c = '\\' && q = '"' then
      match escapedEnd? rest with
      | some r => if r.length ≤ rest.length then linesBody q r else none
      | none =>
        match escape? rest with
        | some (d, n) => TextRead.cons d (linesBody q (rest.drop n))
        | none => none
    else if c = '\n' then TextRead.cons '\n' (linesBody q rest)
    else if c = '\r' && rest.head? = some '\n' then
      TextRead.cons '\n' (linesBody q (rest.drop 1))
    else if isTextChar c then TextRead.cons c (linesBody q rest)
    else none
termination_by cs.length
decreasing_by all_goals simp +arith [*]

/-- A text from its first quote on; the line end right after three quotes is no part of it. -/
def readText (cs : List Char) : TextRead :=
  match cs with
  | [] => none
  | q :: rest =>
    if isTriple q cs then linesBody q (dropNewline (rest.drop 2))
    else if q = '"' then basicBody rest
    else if q = '\'' then literalBody rest
    else none

end NodeConfig.Toml
