import NodeConfig.Yaml.Token

namespace NodeConfig.Yaml

/-- Blanks on one line, or breaks: the first, unless it was escaped, and the others. -/
structure Gap where
  blanks : List Char
  broken : Bool
  first : Option Char
  more : List Char
  deriving DecidableEq, Repr

namespace Gap

def none : Gap := ⟨[], false, .none, []⟩

def escaped : Gap := ⟨[], true, .none, []⟩

def isNone (g : Gap) : Bool := g.blanks = [] && !g.broken

/-- Blanks next to a break are lost. -/
def addBlank (g : Gap) (c : Char) : Gap :=
  if g.broken then g else { g with blanks := g.blanks ++ [c] }

def addBreak (g : Gap) (c : Char) : Gap :=
  if g.broken then { g with more := g.more ++ [breakValue c] }
  else ⟨[], true, some (breakValue c), []⟩

/-- A single line feed is a space; of several, the first is dropped. -/
def fold (g : Gap) : List Char :=
  if !g.broken then g.blanks
  else
    match g.first with
    | .none => g.more
    | some c => if c = '\n' then (if g.more = [] then [' '] else g.more) else c :: g.more

end Gap

end NodeConfig.Yaml
