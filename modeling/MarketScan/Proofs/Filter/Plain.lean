import MarketScan.Filter.Tree
import MarketScan.Proofs.Vocabulary

/-!
# Filters up to the kind of operands

A document does not say of which kind an operand is: a field is written like the string of its name,
and a range like a list of its ends or an array of two. All else that is in a filter can be read off
the document. `plain` puts in place of each operand the JSON value that it is written as.

* `FilterTree.json_plain` — a plain filter is written alike
* `FilterTree.plain_eq_of_json_eq` — filters that are written alike are alike when made plain
-/

namespace MarketScan

/-! ## Codes -/

theorem Comparison.json_injective : Function.Injective Comparison.json :=
  Vocabulary.json_injective find?_code

theorem Connective.json_injective : Function.Injective Connective.json :=
  Vocabulary.json_injective find?_code

/-! ## Conditions -/

/-- The operand as the JSON value that it is written as. -/
def Operand.plain (o : Operand) : Operand := .value o.json

namespace Condition

def plain (c : Condition) : Condition := { c with operand := c.operand.map Operand.plain }

@[simp] theorem json_plain (c : Condition) : c.plain.json = c.json := by
  unfold json plain
  cases c.operand <;> rfl

theorem plain_eq_of_json_eq {c d : Condition} (h : c.json = d.json) : c.plain = d.plain := by
  obtain ⟨field, comparison, operand⟩ := c
  obtain ⟨field', comparison', operand'⟩ := d
  have hfields := Json.object.inj h
  simp only [List.cons_append, List.nil_append, List.cons.injEq, Prod.mk.injEq, Json.string.injEq,
    true_and] at hfields
  obtain ⟨rfl, hcode, hoperand⟩ := hfields
  obtain rfl := Comparison.json_injective hcode
  unfold plain
  -- an operand is there in both or in neither
  rcases operand with _ | o <;> rcases operand' with _ | o'
  · rfl
  · cases hoperand
  · cases hoperand
  · have hjson : o.json = o'.json := by simpa using hoperand
    simp only [Option.map_some, Operand.plain, hjson]

theorem map_plain_eq {cs ds : List Condition} (h : cs.map json = ds.map json) :
    cs.map plain = ds.map plain := by
  induction cs generalizing ds with
  | nil =>
    obtain rfl := List.map_eq_nil_iff.mp h.symm
    rfl
  | cons c cs ih =>
    cases ds with
    | nil => cases h
    | cons d ds =>
      obtain ⟨hc, hcs⟩ := List.cons.inj h
      rw [List.map_cons, List.map_cons, plain_eq_of_json_eq hc, ih hcs]

end Condition

/-! ## Trees -/

namespace FilterTree

mutual

/-- The tree with all operands made plain. -/
def plain : FilterTree → FilterTree
  | .leaf c => .leaf c.plain
  | .node k ts => .node k (plainAll ts)

def plainAll : List FilterTree → List FilterTree
  | [] => []
  | t :: ts => plain t :: plainAll ts

end

mutual

@[simp] theorem json_plain : ∀ t : FilterTree, t.plain.json = t.json
  | .leaf c => by rw [plain, json, json, Condition.json_plain]
  | .node k ts => by rw [plain, json, json, jsonAll_plainAll ts]

theorem jsonAll_plainAll : ∀ ts : List FilterTree, jsonAll (plainAll ts) = jsonAll ts
  | [] => rfl
  | t :: ts => by rw [plainAll, jsonAll, jsonAll, json_plain t, jsonAll_plainAll ts]

end

mutual

/-- **Trees that are written alike differ in nothing but the kind of operands.** -/
theorem plain_eq_of_json_eq : ∀ t u : FilterTree, t.json = u.json → t.plain = u.plain
  | .leaf c, .leaf d, h => by
    have hc : c.json = d.json := by simpa [json] using h
    rw [plain, plain, Condition.plain_eq_of_json_eq hc]
  | .leaf c, .node k us, h => by simp [json] at h
  | .node k ts, .leaf d, h => by simp [json] at h
  | .node k ts, .node l us, h => by
    obtain ⟨hcode, hoperands⟩ : k.json = l.json ∧ jsonAll ts = jsonAll us := by
      simpa [json] using h
    rw [plain, plain, Connective.json_injective hcode, plainAll_eq_of_jsonAll_eq ts us hoperands]

theorem plainAll_eq_of_jsonAll_eq :
    ∀ ts us : List FilterTree, jsonAll ts = jsonAll us → plainAll ts = plainAll us
  | [], [], _ => rfl
  | [], u :: us, h => by cases h
  | t :: ts, [], h => by cases h
  | t :: ts, u :: us, h => by
    obtain ⟨ht, hts⟩ := List.cons.inj h
    rw [plainAll, plainAll, plain_eq_of_json_eq t u ht, plainAll_eq_of_jsonAll_eq ts us hts]

end

theorem map_plain_eq {t u : Option FilterTree} (h : t.map json = u.map json) :
    t.map plain = u.map plain := by
  rcases t with _ | t <;> rcases u with _ | u
  · rfl
  · cases h
  · cases h
  · rw [Option.map_some, Option.map_some, plain_eq_of_json_eq t u (Option.some.inj h)]

end FilterTree

end MarketScan
