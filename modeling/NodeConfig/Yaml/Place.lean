namespace NodeConfig.Yaml

def nel : Char := '\u0085'
def lineSeparator : Char := '\u2028'
def paragraphSeparator : Char := '\u2029'
def byteOrderMark : Char := '\ufeff'

def isBreak (c : Char) : Bool :=
  c = '\n' || c = '\r' || c = nel || c = lineSeparator || c = paragraphSeparator

def isBlank (c : Char) : Bool := c = ' ' || c = '\t'

def isWord (c : Char) : Bool := !isBlank c && !isBreak c

def endsWord : List Char → Bool
  | [] => true
  | c :: _ => !isWord c

/-- What a break leaves in a scalar: the Unicode separators stay, all others are a line feed. -/
def breakValue (c : Char) : Char :=
  if c = lineSeparator || c = paragraphSeparator then c else '\n'

def isNameChar (c : Char) : Bool := c.isAlphanum || c = '_' || c = '-'

/-- Controls have no place in a text, but for tab and breaks. -/
def isAllowed (c : Char) : Bool :=
  let n := c.toNat
  c = '\t' || c = '\n' || c = '\r' || (0x20 ≤ n && n ≤ 0x7E) || c = nel ||
    (0xA0 ≤ n && n ≤ 0xD7FF) || (0xE000 ≤ n && n ≤ 0xFFFD) || 0x10000 ≤ n

/-- Characters before a place, lines before it and characters before it on its line. -/
structure Place where
  index : Nat
  line : Nat
  column : Nat
  deriving DecidableEq, Repr

namespace Place

def start : Place := ⟨0, 0, 0⟩

def right (p : Place) (n : Nat := 1) : Place := ⟨p.index + n, p.line, p.column + n⟩

def nextLine (p : Place) (n : Nat := 1) : Place := ⟨p.index + n, p.line + 1, 0⟩

end Place

/-- Something read, and where reading goes on. -/
structure Piece (α : Type) where
  value : α
  place : Place
  rest : List Char

/-- Three of a character, and no word after them: the mark of a document's start or end. -/
def isMark (c : Char) : List Char → Bool
  | a :: b :: d :: rest => a = c && b = c && d = c && endsWord rest
  | _ => false

def isDocumentMark (cs : List Char) : Bool := isMark '-' cs || isMark '.' cs

def dropBreak (p : Place) : List Char → Place × List Char
  | '\r' :: '\n' :: rest => (p.nextLine 2, rest)
  | c :: rest => if isBreak c then (p.nextLine, rest) else (p, c :: rest)
  | [] => (p, [])

def dropLine (p : Place) (cs : List Char) : Place × List Char :=
  let line := cs.takeWhile (!isBreak ·)
  (p.right line.length, cs.drop line.length)

end NodeConfig.Yaml
