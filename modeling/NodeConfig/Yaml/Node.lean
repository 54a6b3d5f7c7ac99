import NodeConfig.Yaml.Token

namespace NodeConfig.Yaml

/-- What stands before a node: the number of its anchor, and its tag. -/
structure Label where
  anchor : Option Nat
  tag : Option String
  deriving DecidableEq, Repr

def Label.none : Label := ⟨.none, .none⟩

inductive Node where
  | scalar (label : Label) (style : Style) (text : String)
  | sequence (label : Label) (items : List Node)
  | mapping (label : Label) (pairs : List (Node × Node))
  | alias (anchor : Nat)
  /-- The text breaks off here. -/
  | cut
  deriving Repr

namespace Node

def empty : Node := .scalar .none .plain ""

mutual

def isCut : Node → Bool
  | .scalar _ _ _ => false
  | .sequence _ items => isCutList items
  | .mapping _ pairs => isCutPairs pairs
  | .alias _ => false
  | .cut => true

def isCutList : List Node → Bool
  | [] => false
  | n :: rest => isCut n || isCutList rest

def isCutPairs : List (Node × Node) → Bool
  | [] => false
  | (k, v) :: rest => isCut k || isCut v || isCutPairs rest

end

mutual

def anchored (n : Node) : List (Nat × Node) :=
  match n with
  | .scalar label _ _ => label.anchor.toList.map (·, n)
  | .sequence label items => label.anchor.toList.map (·, n) ++ anchoredList items
  | .mapping label pairs => label.anchor.toList.map (·, n) ++ anchoredPairs pairs
  | .alias _ => []
  | .cut => []

def anchoredList : List Node → List (Nat × Node)
  | [] => []
  | n :: rest => anchored n ++ anchoredList rest

def anchoredPairs : List (Node × Node) → List (Nat × Node)
  | [] => []
  | (k, v) :: rest => anchored k ++ anchored v ++ anchoredPairs rest

end

/-- The node that an anchor of the document stands for: the last one of that number. -/
def target (root : Node) (anchor : Nat) : Option Node :=
  ((anchored root).reverse.find? (·.1 = anchor)).map (·.2)

def resolve (root : Node) : Node → Node
  | .alias anchor => (target root anchor).getD .cut
  | n => n

end Node

end NodeConfig.Yaml
