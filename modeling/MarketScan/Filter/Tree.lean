import MarketScan.Filter.Condition

/-!
# Filter trees

A tree of connectives over conditions. `FilterTree.combine` joins trees and refuses to join none;
a tree put together in any other way may have a connective without operands.

* `FilterTree.json` — the tree in a document
* `FilterTree.depth` — its height, a condition counting as one
-/

namespace MarketScan

/-- Conditions joined by connectives. -/
inductive FilterTree where
  | leaf (condition : Condition)
  | node (connective : Connective) (operands : List FilterTree)

namespace FilterTree

def isNode : FilterTree → Bool
  | .node _ _ => true
  | .leaf _ => false

def connective? : FilterTree → Option Connective
  | .node c _ => some c
  | .leaf _ => none

def operands : FilterTree → List FilterTree
  | .node _ ts => ts
  | .leaf _ => []

/-- The trees joined by a connective; of no trees, the connective that lacks them. -/
def combine (connective : Connective) : List FilterTree → Except Connective FilterTree
  | [] => .error connective
  | t :: ts => .ok (.node connective (t :: ts))

/-- The tree as a connective: a bare condition becomes its only operand. -/
def asNode : FilterTree → FilterTree
  | .leaf c => .node .and [.leaf c]
  | t => t

/-! ## Recursion over a tree -/

mutual

/-- The height of the tree, a condition counting as one. -/
def depth : FilterTree → Nat
  | .leaf _ => 1
  | .node _ ts => 1 + depthAll ts

/-- The greatest height. -/
def depthAll : List FilterTree → Nat
  | [] => 0
  | t :: ts => max (depth t) (depthAll ts)

end

mutual

/-- The tree in a document. -/
def json : FilterTree → Json
  | .leaf c => .object [("expression", c.json)]
  | .node c ts =>
    .object [("operation", .object [("operator", c.json), ("operands", .array (jsonAll ts))])]

def jsonAll : List FilterTree → List Json
  | [] => []
  | t :: ts => json t :: jsonAll ts

end

mutual

/-- Equality of trees, with conditions compared by `Condition.same`. -/
def same : FilterTree → FilterTree → Bool
  | .leaf c, .leaf d => c.same d
  | .node c ts, .node d us => c == d && sameAll ts us
  | _, _ => false

def sameAll : List FilterTree → List FilterTree → Bool
  | [], [] => true
  | t :: ts, u :: us => same t u && sameAll ts us
  | _, _ => false

end

end FilterTree

end MarketScan
