import MarketScan.Filter.Draft
import MarketScan.Proofs.Except

/-!
# What is built of a draft

Building goes through a draft from the left and from the leaves upward, and so meets its faults in the
order in which the draft is written: a code stands before the operands of its connective, and a
connective that joins nothing has no operands. A draft is built when there is no fault in it, and fails
for the first one otherwise.

A plan is a draft without codes. What is built of it has its shape at every level.

* `FilterTree.Draft.faults` — all faults of a draft, in order
* `FilterTree.Draft.build_failsFor` — the first of them is why building fails
* `FilterTree.Plan.Describes` — a tree has the shape of a plan
* `FilterTree.Plan.build_cases` — a plan lacks parts at some place, or its tree is built
-/

namespace MarketScan

/-! ## Faults of a draft -/

/-- Why a code cannot be read, if it cannot. -/
def Vocabulary.fault? {α : Type} (V : Vocabulary α) (code : Json) : Option Unbuildable :=
  match V.ofJson code with
  | .ok _ => none
  | .error r => some (.code r)

theorem Vocabulary.read_failsFor {α : Type} (V : Vocabulary α) (code : Json) :
    FailsFor (V.read code) (V.fault? code).toList := by
  unfold read fault?
  cases V.ofJson code with
  | ok t => exact .ok t
  | error r => exact .error _ []

namespace Condition.Draft

/-- Why a condition cannot be built, if it cannot. -/
def fault? : Draft → Option Unbuildable
  | .given _ => none
  | .coded _ code _ => Comparison.vocabulary.fault? code

theorem build_failsFor (d : Draft) : FailsFor d.build d.fault?.toList := by
  cases d with
  | given c => exact .ok c
  | coded field code operand =>
    exact (Comparison.vocabulary.read_failsFor code).map fun k => Condition.mk field k operand

end Condition.Draft

namespace FilterTree

namespace Draft

mutual

/-- The draft and all drafts in it, from the left on and each before those in it. -/
def subdrafts : Draft → List Draft
  | .condition d => [.condition d]
  | .join k parts => .join k parts :: subdraftsAll parts
  | .coded code parts => .coded code parts :: subdraftsAll parts

def subdraftsAll : List Draft → List Draft
  | [] => []
  | d :: ds => subdrafts d ++ subdraftsAll ds

end

/-- What is wrong with a draft, apart from what is wrong with the drafts in it. -/
def fault? : Draft → Option Unbuildable
  | .condition d => d.fault?
  | .join k [] => some (.failure (.emptyConnective k))
  | .join _ (_ :: _) => none
  | .coded code _ => Connective.vocabulary.fault? code

/-- All that is wrong with a draft. -/
def faults (d : Draft) : List Unbuildable := d.subdrafts.filterMap fault?

/-- With a part to join, nothing can fail but the parts. -/
theorem build_join_cons (k : Connective) (d : Draft) (ds : List Draft) :
    (join k (d :: ds)).build = buildAll (d :: ds) >>= fun ts => .ok (.node k ts) := by
  rw [build, buildAll]
  cases d.build with
  | error e => rfl
  | ok t => cases buildAll ds <;> rfl

mutual

/-- **The first fault of a draft is why it cannot be built.** -/
theorem build_failsFor : ∀ d : Draft, FailsFor d.build d.faults
  | .condition d => by
    have h := d.build_failsFor.map FilterTree.leaf
    unfold faults subdrafts
    cases hd : d.fault? <;> simpa [fault?, hd, build] using h
  | .join k [] => .error _ []
  | .join k (d :: ds) => by
    rw [build_join_cons]
    exact (buildAll_failsFor (d :: ds)).map (FilterTree.node k)
  | .coded code parts => by
    have hcode := Connective.vocabulary.read_failsFor code
    have h := hcode.bind fun k => (buildAll_failsFor parts).map (FilterTree.node k)
    unfold faults subdrafts
    cases hc : Connective.vocabulary.fault? code <;> simpa [fault?, hc, build] using h

theorem buildAll_failsFor :
    ∀ ds : List Draft, FailsFor (buildAll ds) ((subdraftsAll ds).filterMap fault?)
  | [] => .ok []
  | d :: ds => by
    have h := (build_failsFor d).bind fun t => (buildAll_failsFor ds).map (t :: ·)
    rw [subdraftsAll, List.filterMap_append]
    rw [buildAll]
    exact h

end

end Draft

/-! ## Plans and their trees -/

/-- A description of a tree: conditions, and connectives with any number of parts. -/
inductive Plan where
  | condition (c : Condition)
  | join (connective : Connective) (parts : List Plan)

namespace Plan

mutual

/-- The draft that asks for the tree of a plan. -/
def draft : Plan → Draft
  | .condition c => .condition (.given c)
  | .join k parts => .join k (draftAll parts)

def draftAll : List Plan → List Draft
  | [] => []
  | p :: ps => draft p :: draftAll ps

end

/-- What comes of building a plan. -/
def build (p : Plan) : Except Unbuildable FilterTree := p.draft.build

mutual

/-- The plan and all plans in it, from the left on and each before those in it. -/
def subplans : Plan → List Plan
  | .condition c => [.condition c]
  | .join k parts => .join k parts :: subplansAll parts

def subplansAll : List Plan → List Plan
  | [] => []
  | p :: ps => subplans p ++ subplansAll ps

end

mutual

/-- How many levels a plan has. -/
def height : Plan → Nat
  | .condition _ => 1
  | .join _ parts => heightAll parts + 1

def heightAll : List Plan → Nat
  | [] => 0
  | p :: ps => max (height p) (heightAll ps)

end

/-- A tree that has the shape of a plan. -/
inductive Describes : Plan → FilterTree → Prop where
  | condition (c : Condition) : Describes (.condition c) (.leaf c)
  | join (k : Connective) {parts : List Plan} {ts : List FilterTree}
    (h : List.Forall₂ Describes parts ts) : Describes (.join k parts) (.node k ts)

/-- A value that has the shape of a plan: an `expression` for each condition, and an `operation` for each
connective, with the values of its parts for operands. -/
inductive IsWrittenAs : Plan → Json → Prop where
  | condition (c : Condition) : IsWrittenAs (.condition c) (.object [("expression", c.json)])
  | join (k : Connective) {parts : List Plan} {js : List Json}
    (h : List.Forall₂ IsWrittenAs parts js) :
    IsWrittenAs (.join k parts)
      (.object [("operation", .object [("operator", .string k.code), ("operands", .array js)])])

end Plan

mutual

/-- Every connective in the tree has an operand. -/
def Filled : FilterTree → Prop
  | .leaf _ => True
  | .node _ ts => ts ≠ [] ∧ FilledAll ts

def FilledAll : List FilterTree → Prop
  | [] => True
  | t :: ts => Filled t ∧ FilledAll ts

end

namespace Plan

mutual

theorem subdrafts_draft : ∀ p : Plan, p.draft.subdrafts = p.subplans.map draft
  | .condition c => rfl
  | .join k parts => by
    simp [draft, Draft.subdrafts, subplans, subdraftsAll_draftAll parts]

theorem subdraftsAll_draftAll :
    ∀ ps : List Plan, Draft.subdraftsAll (draftAll ps) = (subplansAll ps).map draft
  | [] => rfl
  | p :: ps => by
    simp [draftAll, Draft.subdraftsAll, subplansAll, subdrafts_draft p, subdraftsAll_draftAll ps]

end

/-- The only plans at fault are connectives without parts. -/
theorem fault?_draft_eq_some_iff {p : Plan} {e : Unbuildable} :
    p.draft.fault? = some e ↔ ∃ k, p = .join k [] ∧ e = .failure (.emptyConnective k) := by
  cases p with
  | condition c => exact ⟨nofun, nofun⟩
  | join k parts =>
    cases parts with
    | nil =>
      constructor
      · rintro ⟨⟩
        exact ⟨k, rfl, rfl⟩
      · rintro ⟨_, ⟨⟩, rfl⟩
        rfl
    | cons p ps => exact ⟨nofun, nofun⟩

mutual

/-- What is built of a plan has its shape. -/
theorem describes_of_build : ∀ (p : Plan) (t : FilterTree), p.build = .ok t → p.Describes t ∧ t.Filled
  | .condition c, t, h => by
    cases h
    exact ⟨.condition c, trivial⟩
  | .join k [], t, h => by cases h
  | .join k (p :: ps), t, h => by
    rw [build, draft, draftAll, Draft.build_join_cons] at h
    obtain ⟨ts, hts, ⟨⟩⟩ := bind_eq_ok_iff.mp h
    obtain ⟨hdescribes, hfilled⟩ := describes_of_buildAll (p :: ps) ts hts
    refine ⟨.join k hdescribes, ?_, hfilled⟩
    rintro rfl
    cases hdescribes

theorem describes_of_buildAll : ∀ (ps : List Plan) (ts : List FilterTree),
    Draft.buildAll (draftAll ps) = .ok ts → List.Forall₂ Describes ps ts ∧ FilledAll ts
  | [], ts, h => by
    cases h
    exact ⟨.nil, trivial⟩
  | p :: ps, ts, h => by
    rw [draftAll, Draft.buildAll] at h
    obtain ⟨t, ht, h⟩ := bind_eq_ok_iff.mp h
    obtain ⟨ts, hts, ⟨⟩⟩ := bind_eq_ok_iff.mp h
    obtain ⟨hp, hfilled⟩ := describes_of_build p t ht
    obtain ⟨hps, hfilledAll⟩ := describes_of_buildAll ps ts hts
    exact ⟨.cons hp hps, hfilled, hfilledAll⟩

end

mutual

theorem Describes.depth_eq : ∀ {p : Plan} {t : FilterTree}, p.Describes t → t.depth = p.height
  | _, _, .condition c => rfl
  | _, _, .join k h => by rw [depth, height, depthAll_eq h, Nat.add_comm]

theorem depthAll_eq : ∀ {ps : List Plan} {ts : List FilterTree},
    List.Forall₂ Describes ps ts → depthAll ts = heightAll ps
  | _, _, .nil => rfl
  | _, _, .cons hp hps => by rw [depthAll, heightAll, hp.depth_eq, depthAll_eq hps]

end

mutual

theorem Describes.isWrittenAs : ∀ {p : Plan} {t : FilterTree}, p.Describes t → p.IsWrittenAs t.json
  | _, _, .condition c => .condition c
  | _, _, .join k h => .join k (isWrittenAs_jsonAll h)

theorem isWrittenAs_jsonAll : ∀ {ps : List Plan} {ts : List FilterTree},
    List.Forall₂ Describes ps ts → List.Forall₂ IsWrittenAs ps (jsonAll ts)
  | _, _, .nil => .nil
  | _, _, .cons hp hps => .cons hp.isWrittenAs (isWrittenAs_jsonAll hps)

end

/-- **A plan with a connective that joins nothing fails for the first such connective, and of any other
plan the tree is built that it describes.** -/
theorem build_cases (p : Plan) :
    (∃ k before after, p.subplans = before ++ .join k [] :: after ∧ (∀ l, .join l [] ∉ before) ∧
      p.build = .error (.failure (.emptyConnective k)) ∧
      (Failure.emptyConnective k).message = s!"A {k.code} connective needs at least one operand") ∨
    (∀ k, .join k [] ∉ p.subplans) ∧ ∃ t, p.build = .ok t ∧
      p.Describes t ∧ t.Filled ∧ t.depth = p.height ∧ p.IsWrittenAs t.json := by
  have hfails : FailsFor p.build p.draft.faults := p.draft.build_failsFor
  have hfaults : p.draft.faults = p.subplans.filterMap fun q => q.draft.fault? := by
    rw [Draft.faults, subdrafts_draft, List.filterMap_map]
    rfl
  rw [hfaults] at hfails
  cases hfirst : p.subplans.findSome? fun q => q.draft.fault? with
  | some e =>
    obtain ⟨before, q, after, hsplit, hq, hbefore⟩ := List.findSome?_eq_some_iff.mp hfirst
    obtain ⟨k, rfl, rfl⟩ := fault?_draft_eq_some_iff.mp hq
    refine .inl ⟨k, before, after, hsplit, fun l hl => ?_, ?_, ?_⟩
    · have hnone := hbefore _ hl
      cases hnone
    · rw [hfails.eq_error_iff, List.head?_filterMap]
      exact hfirst
    · cases k <;> rfl
  | none =>
    rw [List.findSome?_eq_none_iff] at hfirst
    obtain ⟨t, ht⟩ := hfails.exists_ok_iff.mpr (List.filterMap_eq_nil_iff.mpr hfirst)
    obtain ⟨hdescribes, hfilled⟩ := describes_of_build p t ht
    refine .inr ⟨fun k hk => ?_, t, ht, hdescribes, hfilled, hdescribes.depth_eq, hdescribes.isWrittenAs⟩
    have hnone := hfirst _ hk
    cases hnone

end Plan

end FilterTree

end MarketScan
