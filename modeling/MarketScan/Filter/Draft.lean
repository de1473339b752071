import MarketScan.Failure
import MarketScan.Filter.Tree

/-!
# Drafts of filters

Conditions and filter trees as they are asked for, before they are built. A draft may give a comparison
or a connective by its code, and may join trees of which there are none, so building it may fail. Drafts
are built from the left and from the leaves upward, a code being read before the operands that follow
it, and the first thing that cannot be built is the failure of the whole.

* `Condition.Draft.build`, `FilterTree.Draft.build`
-/

namespace MarketScan

/-- Why a draft cannot be built. -/
inductive Unbuildable where
  /-- A code stands for nothing. -/
  | code (r : Vocabulary.Refusal)
  | failure (e : Failure)

/-- The term of a code in a draft. -/
def Vocabulary.read {α : Type} (V : Vocabulary α) (code : Json) : Except Unbuildable α :=
  (V.ofJson code).mapError .code

/-- A condition as it is asked for. -/
inductive Condition.Draft where
  | given (c : Condition)
  /-- A condition whose comparison is given by its code. -/
  | coded (field : String) (code : Json) (operand : Option Operand)

def Condition.Draft.build : Condition.Draft → Except Unbuildable Condition
  | .given c => .ok c
  | .coded field code operand => do
    let comparison ← Comparison.vocabulary.read code
    .ok ⟨field, comparison, operand⟩

namespace FilterTree

/-- A tree as it is asked for. -/
inductive Draft where
  | condition (d : Condition.Draft)
  /-- Trees to be joined. -/
  | join (connective : Connective) (parts : List Draft)
  /-- A connective given by its code, which may be without operands. -/
  | coded (code : Json) (parts : List Draft)

mutual

def Draft.build : Draft → Except Unbuildable FilterTree
  | .condition d => do .ok (.leaf (← d.build))
  | .join k parts => do
    let ts ← Draft.buildAll parts
    (combine k ts).mapError fun k => .failure (.emptyConnective k)
  | .coded code parts => do
    let k ← Connective.vocabulary.read code
    .ok (.node k (← Draft.buildAll parts))

def Draft.buildAll : List Draft → Except Unbuildable (List FilterTree)
  | [] => .ok []
  | d :: ds => do
    let t ← Draft.build d
    .ok (t :: (← Draft.buildAll ds))

end

end FilterTree

end MarketScan
