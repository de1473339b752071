import MarketScan.Proofs.Json.Accepted
import MarketScan.Proofs.Query.Contents

/-!
# How deep a filter tree may be

In a document a tree takes three levels of nesting for each connective, two for a condition and one more
where the operand of the condition is an array. So its nesting follows from its depth but for one level,
and that one is never the level at which a text is refused.

* `FilterTree.nesting`, `FilterTree.nesting_json` — the nesting of a tree by recursion over the tree
* `FilterTree.nesting_bounds` — nesting and depth
* `Query.parse_text_depth` — the depth up to which a text is read
-/

namespace MarketScan

/-! ## The parts of a document -/

/-- The nesting of the operand, none if there is no operand. -/
def Condition.operandNesting (c : Condition) : Nat := c.operand.elim 0 (·.json.nesting)

theorem Condition.nesting_json (c : Condition) : c.json.nesting = 1 + c.operandNesting := by
  have hcode : c.comparison.json.nesting = 0 := rfl
  rw [json, operandNesting]
  cases c.operand <;> simp [Json.nesting, Json.nestingFields, hcode, Nat.add_comm]

theorem Json.nesting_ofStrings_le (items : List String) : (Json.ofStrings items).nesting ≤ 1 := by
  rw [ofStrings, nesting_array_le_iff]
  intro j hj
  obtain ⟨s, -, rfl⟩ := List.mem_map.mp hj
  exact Nat.le_refl 0

theorem Symbols.nesting_json_le (s : Symbols) : s.json.nesting ≤ 4 := by
  have hgroup (values : List String) : (indexJson values).nesting ≤ 2 := by
    rw [indexJson, Json.nesting_object_le_iff]
    intro e he
    rcases List.mem_pair.mp he with rfl | rfl
    · exact Nat.zero_le 1
    · exact Json.nesting_ofStrings_le values
  rw [json, Json.nesting_object_le_iff]
  intro e he
  rcases List.mem_append.mp he with he | he
  · split at he
    · cases List.mem_singleton.mp he
      exact (Json.nesting_ofStrings_le _).trans (by decide)
    · cases he
  · split at he
    · cases he
    · cases List.mem_singleton.mp he
      rw [Json.nesting_array_le_iff]
      intro j hj
      obtain ⟨values, -, rfl⟩ := List.mem_map.mp hj
      exact hgroup values

theorem Order.nesting_json (o : Order) : o.json.nesting = 1 := by
  rw [json]
  cases o.nullsFirst <;> rfl

theorem Window.nesting_json (w : Window) : w.json.nesting = 1 := rfl

/-! ## Trees -/

namespace FilterTree

mutual

/-- The nesting of the tree in a document. -/
def nesting : FilterTree → Nat
  | .leaf c => 2 + c.operandNesting
  | .node _ ts => 3 + nestingAll ts

/-- The greatest nesting. -/
def nestingAll : List FilterTree → Nat
  | [] => 0
  | t :: ts => max (nesting t) (nestingAll ts)

end

mutual

/-- The conditions of the tree. -/
def conditions : FilterTree → List Condition
  | .leaf c => [c]
  | .node _ ts => conditionsAll ts

def conditionsAll : List FilterTree → List Condition
  | [] => []
  | t :: ts => conditions t ++ conditionsAll ts

end

mutual

/-- **The nesting of a tree follows its recursion.** -/
theorem nesting_json : ∀ t : FilterTree, t.json.nesting = t.nesting
  | .leaf c => by
    have hcondition := c.nesting_json
    simp only [json, nesting, Json.nesting, Json.nestingFields]
    omega
  | .node k ts => by
    have hcode : k.json.nesting = 0 := rfl
    have hts := nestingItems_jsonAll ts
    simp only [json, nesting, Json.nesting, Json.nestingFields]
    omega

theorem nestingItems_jsonAll : ∀ ts : List FilterTree, Json.nestingItems (jsonAll ts) = nestingAll ts
  | [] => rfl
  | t :: ts => by rw [jsonAll, nestingAll, Json.nestingItems, nesting_json t, nestingItems_jsonAll ts]

end

mutual

/-- **Each level of a tree takes three of nesting, but the last may take one less.** -/
theorem nesting_bounds : ∀ t : FilterTree, (∀ c ∈ t.conditions, c.operandNesting ≤ 1) →
    t.nesting ≤ 3 * t.depth ∧ 3 * t.depth ≤ t.nesting + 1
  | .leaf c, h => by
    have hoperand := h c List.mem_cons_self
    rw [nesting, depth]
    omega
  | .node k ts, h => by
    have hts := nestingAll_bounds ts h
    rw [nesting, depth]
    omega

theorem nestingAll_bounds : ∀ ts : List FilterTree,
    (∀ c ∈ conditionsAll ts, c.operandNesting ≤ 1) →
      nestingAll ts ≤ 3 * depthAll ts ∧ 3 * depthAll ts ≤ nestingAll ts + 1
  | [], _ => by decide
  | t :: ts, h => by
    obtain ⟨ht, hts⟩ := List.forall_mem_append.mp h
    have hfirst := nesting_bounds t ht
    have hothers := nestingAll_bounds ts hts
    rw [nestingAll, depthAll]
    omega

end

end FilterTree

namespace Query

/-! ## Documents -/

/-- All conditions of the query, those of its tree included. -/
def conditions (q : Query) : List Condition := q.filter ++ q.filterTree.elim [] (·.conditions)

section Nesting

variable {q : Query} (hoperands : ∀ c ∈ q.conditions, ∀ o ∈ c.operand, o.json.nesting ≤ 1)
  (hproperties : ∀ e ∈ q.properties, e.2.nesting ≤ 126)
include hoperands

theorem operandNesting_le {c : Condition} (hc : c ∈ q.conditions) : c.operandNesting ≤ 1 := by
  have hc' := hoperands c hc
  rw [Condition.operandNesting]
  cases ho : c.operand with
  | none => exact Nat.zero_le 1
  | some o => exact hc' o ho

theorem nesting_filter_le : (Json.array (q.filter.map Condition.json)).nesting ≤ 3 := by
  rw [Json.nesting_array_le_iff]
  intro j hj
  obtain ⟨c, hc, rfl⟩ := List.mem_map.mp hj
  have hle := operandNesting_le hoperands (List.mem_append_left _ hc)
  rw [c.nesting_json]
  omega

theorem nesting_ownFields_le (htree : ∀ t ∈ q.filterTree, t.json.nesting ≤ 126) :
    ∀ e ∈ q.document.ownFields, e.2.nesting ≤ 126 := by
  have hsmall {j : Json} {n : Nat} (h : j.nesting ≤ n) (hn : n ≤ 126) : j.nesting ≤ 126 := h.trans hn
  exact Document.forall_ownFields (p := (·.nesting ≤ 126))
    (hsmall (Json.nesting_ofStrings_le _) (by decide))
    (fun s _ => hsmall s.nesting_json_le (by decide)) (hsmall (Nat.le_refl 1) (by decide))
    (hsmall (Json.nesting_ofStrings_le _) (by decide))
    (hsmall (nesting_filter_le hoperands) (by decide)) htree
    (hsmall (Order.nesting_json _).le (by decide)) (hsmall (Window.nesting_json _).le (by decide))

include hproperties

/-- Nothing but the tree can be nested too deep. -/
theorem nesting_document_le_iff :
    q.document.json.nesting ≤ Json.maxNesting ↔ ∀ t ∈ q.filterTree, t.json.nesting ≤ 126 := by
  rw [Document.json, Json.maxNesting, Json.nesting_object_le_iff (n := 126)]
  constructor
  · intro h t ht
    refine h ("filter2", t.json) (List.mem_append_left _ ?_)
    have htree : q.document.filterTree = some t := ht
    simp [Document.ownFields, htree]
  · intro h e he
    rcases List.mem_append.mp he with he | he
    · exact nesting_ownFields_le hoperands h e he
    · exact hproperties e he

theorem nesting_document_le_iff_depth :
    q.document.json.nesting ≤ Json.maxNesting ↔ ∀ t ∈ q.filterTree, t.depth ≤ 42 := by
  rw [nesting_document_le_iff hoperands hproperties]
  refine forall₂_congr fun t ht => ?_
  have hbounds := t.nesting_bounds fun c hc => operandNesting_le hoperands <| by
    have htree : q.filterTree = some t := ht
    rw [conditions, htree]
    exact List.mem_append_right _ hc
  -- 42 levels take 126 of nesting at most, 43 take 128 at least
  rw [t.nesting_json]
  omega

end Nesting

/-- **A text is read as long as the filter tree is at most 42 deep, and refused for its nesting when the
tree is deeper.** The tree may have any shape, and a text is made at any depth. -/
theorem parse_text_depth {q : Query}
    (hoperands : ∀ c ∈ q.conditions, ∀ o ∈ c.operand, o.json.nesting ≤ 1)
    (hproperties : ∀ e ∈ q.properties, e.2.nesting ≤ 126) :
    ((∃ j, Json.parse q.text = .ok j) ↔ ∀ t ∈ q.filterTree, t.depth ≤ 42) ∧
    ((∃ t ∈ q.filterTree, 42 < t.depth) → ∃ e, Json.parse q.text = .error e ∧
      e.message = s!"recursion limit exceeded at line {e.line} column {e.column}") ∧
    ∀ t ∈ q.filterTree, t.json.nesting = t.nesting := by
  have hdepth := nesting_document_le_iff_depth hoperands hproperties
  refine ⟨Json.exists_parse_compact_iff.trans hdepth, ?_, fun t _ => t.nesting_json⟩
  rintro ⟨t, ht, hdeep⟩
  have hlarge : Json.maxNesting < q.document.json.nesting := by
    rw [← Nat.not_le, hdepth]
    exact fun h => absurd (h t ht) (Nat.not_le.mpr hdeep)
  obtain ⟨e, he, hcause⟩ := Json.parse_compact_of_lt hlarge
  refine ⟨e, he, ?_⟩
  rw [Json.SyntaxError.message, hcause]
  rfl

end Query

/-! ## On both sides of the bound -/

namespace FilterTree

/-- A condition under `n` connectives, beside each of which stands one without operands. -/
def ladder (c : Condition) (n : Nat) : FilterTree :=
  Nat.repeat (fun t => .node .and [.node .or [], t]) n (.leaf c)

theorem depth_ladder (c : Condition) (n : Nat) : (ladder c n).depth = n + 1 := by
  induction n with
  | zero => rfl
  | succ n ih =>
    have hdepth : (ladder c (n + 1)).depth = 1 + max 1 (max (ladder c n).depth 0) := rfl
    omega

theorem conditions_ladder (c : Condition) (n : Nat) : (ladder c n).conditions = [c] := by
  induction n with
  | zero => rfl
  | succ n ih =>
    have hconditions : (ladder c (n + 1)).conditions = [] ++ ((ladder c n).conditions ++ []) := rfl
    rw [hconditions, ih]
    rfl

end FilterTree

namespace Query

/-- A column between another one and the largest floating number. -/
def ladderCondition : Condition :=
  ⟨"close", .inRange, some (.range (.field "open")
    (.value (.number (.float ⟨true, Numeric.Format.double.magnitudes - 1, by decide⟩))))⟩

/-- The query with a ladder of one more connective than `n`. -/
def ladderQuery (n : Nat) : Query := ofCalls
  [.addConditions [ladderCondition], .setFilterTree (.ladder ladderCondition (n + 1)),
    .setProperty "preset" (.array [.object []])]

theorem filterTree_ladderQuery (n : Nat) :
    (ladderQuery n).filterTree = some (.ladder ladderCondition (n + 1)) := rfl

theorem nesting_of_mem_ladderQuery (n : Nat) :
    ∀ c ∈ (ladderQuery n).conditions, ∀ o ∈ c.operand, o.json.nesting ≤ 1 := by
  intro c hc
  rw [conditions, filterTree_ladderQuery, Option.elim_some, FilterTree.conditions_ladder] at hc
  obtain rfl : c = ladderCondition := by
    rcases List.mem_append.mp hc with hc | hc <;> exact List.mem_singleton.mp hc
  rintro o ⟨⟩
  decide

theorem properties_ladderQuery (n : Nat) : ∀ e ∈ (ladderQuery n).properties, e.2.nesting ≤ 126 := by
  intro e he
  cases List.mem_singleton.mp he
  decide

/-- Of two ladders that differ by one connective the lower one is read. -/
theorem parse_text_ladderQuery : (∃ j, Json.parse (ladderQuery 40).text = .ok j) ∧
    ∃ e, Json.parse (ladderQuery 41).text = .error e ∧
      e.message = s!"recursion limit exceeded at line {e.line} column {e.column}" := by
  constructor
  · refine (parse_text_depth (nesting_of_mem_ladderQuery 40) (properties_ladderQuery 40)).1.mpr ?_
    intro t ht
    rw [filterTree_ladderQuery] at ht
    cases ht
    rw [FilterTree.depth_ladder]
  · refine (parse_text_depth (nesting_of_mem_ladderQuery 41) (properties_ladderQuery 41)).2.1
      ⟨_, filterTree_ladderQuery 41, ?_⟩
    rw [FilterTree.depth_ladder]
    decide

end Query

end MarketScan
