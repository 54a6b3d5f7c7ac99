import NodeConfig.CommandLine.Value
import NodeConfig.Log.Event
import NodeConfig.Text.Blank
import NodeConfig.Text.Printable

namespace NodeConfig

structure Directive where
  /-- Zero shows nothing. -/
  verbosity : Nat
  /-- Targets begin with this. -/
  target : Option (List Char)
  span : Option (List Char)
  /-- Fields that an event must have, and whether their value is given too. -/
  fields : List (List Char × Bool)
  deriving DecidableEq, Repr

namespace Directive

def everything : Nat := 5

def names : List (List Char × Nat) :=
  [("off".toList, 0), ("error".toList, 1), ("warn".toList, 2), ("info".toList, 3),
    ("debug".toList, 4), ("trace".toList, 5)]

def verbosity? (cs : List Char) : Option Nat :=
  match CommandLine.unsigned? cs with
  | some n => if n ≤ everything then some n else none
  | none => names.lookup (cs.map Char.toLower)

/-- Blocks of signs that are neither letters nor digits. -/
def signBlocks : List (Nat × Nat) :=
  [(0x00, 0xA9), (0xAB, 0xB1), (0xB4, 0xB4), (0xB6, 0xB8), (0xBB, 0xBB), (0xBF, 0xBF),
    (0xD7, 0xD7), (0xF7, 0xF7), (0x2000, 0x206F), (0x20A0, 0x20FF), (0x2190, 0x245F),
    (0x2500, 0x2775), (0x2794, 0x2BFF), (0x3000, 0x3004), (0x3008, 0x3020), (0x1F000, 0x1F0FF),
    (0x1F200, 0x1FBEF)]

def isAlphanumeric (c : Char) : Bool :=
  c.isAlphanum ||
    (isPrintable c && signBlocks.all fun (low, high) => c.toNat < low || high < c.toNat)

/-- What a target may begin with. -/
def beginsTarget (c : Char) : Bool := c = '-' || c = ':' || c = '_' || isAlphanumeric c

def trim (cs : List Char) : List Char :=
  ((cs.dropWhile isWhite).reverse.dropWhile isWhite).reverse

def slice (cs : List Char) (start stop : Nat) : List Char := (cs.drop start).take (stop - start)

def field? (cs : List Char) : Option (List Char × Bool) :=
  if cs = [] then none else some (cs.takeWhile (· ≠ '='), cs.contains '=')

def verbosityFrom? (piece : List Char) (start : Nat) : Option Nat :=
  match piece.drop start with
  | [] => some everything
  | cs => verbosity? cs

def closing? (piece rest : List Char) (place : Nat) (d : Directive) : Option Directive :=
  match rest with
  | [] => some d
  | c :: _ =>
    if c = '=' then (verbosityFrom? piece (place + 1)).map fun v => { d with verbosity := v }
    else none

/-- What stands in brackets: a span, and a field in braces. -/
def brackets? (piece rest : List Char) (place : Nat) (target : Option (List Char)) :
    Option Directive :=
  let name := rest.takeWhile fun c => c ≠ ']' && c ≠ '\x7b'
  let stop := place + name.length
  match rest.drop name.length with
  | [] => none
  | c :: rest =>
    let span := slice piece place stop
    if c = ']' then closing? piece rest (stop + 1) ⟨everything, target, some span, []⟩
    else
      let field := rest.takeWhile (· ≠ '\x7d')
      let fieldStop := stop + 1 + field.length
      match rest.drop field.length with
      | '\x7d' :: ']' :: rest => do
        let f ← field? (slice piece (stop + 1) fieldStop)
        closing? piece rest (fieldStop + 2)
          ⟨everything, target, if span = [] then none else some span, [f]⟩
      | _ => none

/-- One directive. Blanks around it do not count where its parts are looked for, but where they are
taken from they do. -/
def ofPiece? (piece : List Char) : Option Directive :=
  match trim piece with
  | [] => none
  | c :: rest =>
    if c = '[' then brackets? piece rest 1 none
    else if !beginsTarget c then none
    else
      let name := c :: rest.takeWhile fun c => c ≠ '=' && c ≠ '['
      let target := slice piece 0 name.length
      match (c :: rest).drop name.length with
      | [] =>
        match verbosity? piece with
        | some v => some ⟨v, none, none, []⟩
        | none => some ⟨everything, some piece, none, []⟩
      | d :: rest =>
        if d = '=' then
          (verbosityFrom? piece (name.length + 1)).map fun v => ⟨v, some target, none, []⟩
        else brackets? piece rest (name.length + 1) (some target)

def isStatic (d : Directive) : Bool := d.span.isNone && d.fields.all fun f => !f.2

/-- Whether a directive fits an event. -/
def fits (d : Directive) (e : Event) : Bool :=
  d.isStatic && d.target.all (·.isPrefixOf e.target.toList) &&
    d.fields.all fun f => f.1 = "message".toList || e.fields.any fun x => x.1.toList = f.1

/-- How long the target is, if there is one, and how many fields there are. -/
def rank (d : Directive) : Nat × Nat :=
  ((d.target.map fun t => t.length + 1).getD 0, d.fields.length)

def outranks (d e : Directive) : Bool :=
  e.rank.1 < d.rank.1 || (e.rank.1 = d.rank.1 && e.rank.2 ≤ d.rank.2)

end Directive

abbrev Filter := List Directive

namespace Filter

/-- Only errors are shown where nothing is said. -/
def errors : Filter := [⟨1, none, none, []⟩]

def splitCommas : List Char → List (List Char)
  | [] => [[]]
  | c :: rest =>
    if c = ',' then [] :: splitCommas rest
    else
      match splitCommas rest with
      | [] => [[c]]
      | p :: ps => (c :: p) :: ps

def ofText? (text : String) : Option Filter :=
  if text = "" then some errors
  else (splitCommas text.toList).mapM Directive.ofPiece?

/-- Whether a log shows an event. Of directives that are equally specific the later one decides. -/
def shows (f : Filter) (e : Event) : Bool :=
  let best : Option Directive := f.foldl (fun best d =>
    if !d.fits e then best
    else
      match best with
      | none => some d
      | some b => if d.outranks b then some d else best) none
  best.any fun d => e.level.verbosity ≤ d.verbosity

end Filter

end NodeConfig
