import MarketScan.Proofs.Json.Shape
import MarketScan.Proofs.Query.History

/-!
# What queries hold

The JSON values that a query holds were handed to it in conditions, filter trees and properties.
What is true of all of them is true of the document too, if arrays and objects pass it on: the rest
of the document is made of strings and whole numbers, under keys that no property has.

* `Query.Holds` — a property of all JSON values in a query
* `Query.Reachable` — calls with proper JSON values make the query
* `Query.Reachable.holds_json` — what holds of the values in a query holds of its document
-/

namespace MarketScan

variable {p : Json → Prop}

/-! ## Operands, conditions and trees -/

namespace Operand

mutual

/-- Every JSON value in the operand has the property. -/
def Holds (p : Json → Prop) : Operand → Prop
  | .value j => p j
  | .field _ => True
  | .range low high => Holds p low ∧ Holds p high
  | .list items => HoldsItems p items

def HoldsItems (p : Json → Prop) : List Operand → Prop
  | [] => True
  | item :: items => Holds p item ∧ HoldsItems p items

end

mutual

theorem holds_json (hp : Json.Hereditary p) : ∀ o : Operand, o.Holds p → p o.json
  | .value _, h => h
  | .field name, _ => hp.string name
  | .range low high, h => by
    refine hp.array fun j hj => ?_
    rcases List.mem_pair.mp hj with rfl | rfl
    · exact holds_json hp low h.1
    · exact holds_json hp high h.2
  | .list items, h => hp.array (holds_jsonItems hp items h)

theorem holds_jsonItems (hp : Json.Hereditary p) :
    ∀ items : List Operand, HoldsItems p items → ∀ j ∈ jsonItems items, p j
  | [], _ => nofun
  | item :: items, h =>
    List.forall_mem_cons.mpr ⟨holds_json hp item h.1, holds_jsonItems hp items h.2⟩

end

end Operand

namespace Condition

def Holds (p : Json → Prop) (c : Condition) : Prop := ∀ o ∈ c.operand, o.Holds p

theorem holds_json (hp : Json.Hereditary p) {c : Condition} (h : c.Holds p) : p c.json := by
  have hfield : p (.string c.field) := hp.string _
  have hcode : p c.comparison.json := hp.string _
  rw [json]
  cases ho : c.operand with
  | none =>
    have hkeys : ["left", "operation"].Nodup := by decide
    refine hp.object hkeys ?_
    rintro e he
    rcases List.mem_pair.mp he with rfl | rfl
    · exact hfield
    · exact hcode
  | some o =>
    have hkeys : ["left", "operation", "right"].Nodup := by decide
    have hoperand : p o.json := o.holds_json hp (h o ho)
    refine hp.object hkeys ?_
    simp [hfield, hcode, hoperand]

end Condition

namespace FilterTree

mutual

/-- Every JSON value in the tree has the property. -/
def Holds (p : Json → Prop) : FilterTree → Prop
  | .leaf c => c.Holds p
  | .node _ ts => HoldsAll p ts

def HoldsAll (p : Json → Prop) : List FilterTree → Prop
  | [] => True
  | t :: ts => Holds p t ∧ HoldsAll p ts

end

mutual

theorem holds_json (hp : Json.Hereditary p) : ∀ t : FilterTree, t.Holds p → p t.json
  | .leaf c, h => hp.object_singleton (Condition.holds_json hp h)
  | .node k ts, h => by
    have hkeys : ["operator", "operands"].Nodup := by decide
    have hoperands : p (.array (jsonAll ts)) := hp.array (holds_jsonAll hp ts h)
    refine hp.object_singleton (hp.object hkeys fun e he => ?_)
    rcases List.mem_pair.mp he with rfl | rfl
    · exact hp.string _
    · exact hoperands

theorem holds_jsonAll (hp : Json.Hereditary p) :
    ∀ ts : List FilterTree, HoldsAll p ts → ∀ j ∈ jsonAll ts, p j
  | [], _ => nofun
  | t :: ts, h => List.forall_mem_cons.mpr ⟨holds_json hp t h.1, holds_jsonAll hp ts h.2⟩

end

end FilterTree

namespace Query

/-! ## Calls and queries -/

/-- Every JSON value in the arguments of a call has the property. -/
def Call.Holds (p : Json → Prop) : Call → Prop
  | .addConditions conditions => ∀ c ∈ conditions, c.Holds p
  | .setFilterTree tree => tree.Holds p
  | .setProperty _ value => p value
  | _ => True

/-- Every JSON value in the query has the property. -/
structure Holds (p : Json → Prop) (q : Query) : Prop where
  filter : ∀ c ∈ q.filter, c.Holds p
  filterTree : ∀ t ∈ q.filterTree, t.Holds p
  properties : ∀ e ∈ q.properties, p e.2

/-- Calls make the query, in whose JSON values no object holds a name twice. -/
def Reachable (q : Query) : Prop :=
  ∃ calls : List Call, (∀ c ∈ calls, c.Holds Json.KeysDistinct) ∧ q = ofCalls calls

theorem holds_default : default.Holds p := ⟨nofun, nofun, nofun⟩

theorem Call.Holds.filterTree {c : Call} (hc : c.Holds p) : ∀ t ∈ c.filterTree?, t.Holds p := by
  intro t ht
  cases c with
  | setFilterTree tree =>
    cases tree with
    | leaf condition =>
      cases ht
      exact ⟨hc, trivial⟩
    | node k ts =>
      cases ht
      exact hc
  | _ => cases ht

theorem Call.Holds.conditions {c : Call} (hc : c.Holds p) : ∀ d ∈ c.conditions, d.Holds p := by
  intro d hd
  cases c with
  | addConditions conditions => exact hc d hd
  | _ => cases hd

/-- A property comes from a call that sets one, under a key that does not belong to the document. -/
theorem Call.eq_of_property?_eq_some {c : Call} {e : String × Json} (h : c.property? = some e) :
    c = .setProperty e.1 e.2 ∧ e.1 ∉ reservedKeys := by
  cases c with
  | setProperty key value =>
    rw [Call.property?] at h
    split at h
    · cases h
    · next hfree =>
      cases h
      exact ⟨rfl, hfree⟩
  | _ => cases h

/-- A call adds no JSON value but those of its arguments. -/
theorem Holds.apply {q : Query} (hq : q.Holds p) {c : Call} (hc : c.Holds p) :
    (q.apply c).Holds p := by
  rw [apply_eq]
  constructor
  case filter =>
    intro d hd
    rcases List.mem_append.mp hd with hold | hnew
    · exact hq.filter d hold
    · exact hc.conditions d hnew
  case filterTree =>
    intro t ht
    rcases Option.or_eq_some_iff.mp ht with hnew | ⟨-, hold⟩
    · exact hc.filterTree t hnew
    · exact hq.filterTree t hold
  case properties =>
    intro e he
    cases hset : c.property? with
    | none =>
      rw [hset] at he
      exact hq.properties e he
    | some new =>
      rw [hset] at he
      rcases Entries.mem_insert he with rfl | hold
      · obtain ⟨rfl, -⟩ := Call.eq_of_property?_eq_some hset
        exact hc
      · exact hq.properties e hold

theorem holds_ofCalls {calls : List Call} (h : ∀ c ∈ calls, c.Holds p) : (ofCalls calls).Holds p := by
  induction calls using List.reverseRecOn with
  | nil => exact holds_default
  | append_singleton calls c ih =>
    rw [ofCalls_concat]
    have hcalls : ∀ c ∈ calls, c.Holds p := fun c hc => h c (List.mem_append_left _ hc)
    exact (ih hcalls).apply (h c (by simp))

/-- No property has a key of the document. -/
theorem not_reserved_of_mem_properties (calls : List Call) :
    ∀ key ∈ Entries.keys (ofCalls calls).properties, key ∉ reservedKeys := by
  intro key hkey
  rw [properties_ofCalls, Entries.keys_ofList, List.mem_eraseDups] at hkey
  obtain ⟨e, he, rfl⟩ := List.mem_map.mp hkey
  obtain ⟨c, -, hc⟩ := List.mem_filterMap.mp he
  exact (Call.eq_of_property?_eq_some hc).2

end Query

/-! ## Documents -/

theorem Symbols.holds_json (hp : Json.Hereditary p) (s : Symbols) : p s.json := by
  have hgroup (values : List String) : p (indexJson values) := by
    have hkeys : ["type", "values"].Nodup := by decide
    refine hp.object hkeys fun e he => ?_
    rcases List.mem_pair.mp he with rfl | rfl
    · exact hp.string _
    · exact hp.ofStrings values
  have hgroups : p (.array (s.indexes.map indexJson)) := by
    refine hp.array fun j hj => ?_
    obtain ⟨values, -, rfl⟩ := List.mem_map.mp hj
    exact hgroup values
  have hkeys : ["tickers", "groups"].Nodup := by decide
  unfold json
  rcases s.tickers with _ | tickers <;> cases s.indexes.isEmpty
  · exact hp.object_singleton hgroups
  · exact hp.object .nil nofun
  · refine hp.object hkeys fun e he => ?_
    rcases List.mem_pair.mp he with rfl | rfl
    · exact hp.ofStrings tickers
    · exact hgroups
  · exact hp.object_singleton (hp.ofStrings tickers)

theorem Order.holds_json (hp : Json.Hereditary p) (o : Order) : p o.json := by
  have hcolumn : p (.string o.column) := hp.string _
  have hdirection : p (.string o.direction.code) := hp.string _
  rw [json]
  cases o.nullsFirst with
  | none =>
    have hkeys : ["sortBy", "sortOrder"].Nodup := by decide
    refine hp.object hkeys ?_
    simp [hcolumn, hdirection]
  | some b =>
    have hkeys : ["sortBy", "sortOrder", "nullsFirst"].Nodup := by decide
    refine hp.object hkeys ?_
    simp [hcolumn, hdirection, hp.bool b]

theorem Window.holds_json (hp : Json.Hereditary p) (w : Window) : p w.json := by
  refine hp.array fun j hj => ?_
  rcases List.mem_pair.mp hj with rfl | rfl <;> exact hp.whole _

namespace Document

/-- What a document says itself stands under the reserved keys, each at most once and in order. -/
theorem keys_ownFields_sublist (d : Document) :
    (Entries.keys d.ownFields).Sublist Query.reservedKeys := by
  unfold ownFields
  cases d.symbols <;> cases d.filter.isEmpty <;> cases d.filterTree <;>
    simp +decide [Entries.keys, Query.reservedKeys]

/-- What holds of each part of a document holds of what the document says itself. -/
theorem forall_ownFields {d : Document} (markets : p (.ofStrings d.markets))
    (symbols : ∀ s ∈ d.symbols, p s.json) (options : p (.object [("lang", .string language)]))
    (columns : p (.ofStrings d.columns)) (filter : p (.array (d.filter.map Condition.json)))
    (filterTree : ∀ t ∈ d.filterTree, p t.json) (order : p d.order.json)
    (window : p d.window.json) : ∀ e ∈ d.ownFields, p e.2 := by
  intro e he
  simp only [ownFields, List.mem_append, or_assoc] at he
  rcases he with he | he | he | he | he | he
  · cases List.mem_singleton.mp he
    exact markets
  · split at he
    · next s hs =>
      cases List.mem_singleton.mp he
      exact symbols s hs
    · cases he
  · rcases List.mem_pair.mp he with rfl | rfl
    · exact options
    · exact columns
  · split at he
    · cases he
    · cases List.mem_singleton.mp he
      exact filter
  · split at he
    · next t ht =>
      cases List.mem_singleton.mp he
      exact filterTree t ht
    · cases he
  · rcases List.mem_pair.mp he with rfl | rfl
    · exact order
    · exact window

end Document

namespace Query

/-- The keys of a document are distinct. -/
theorem Reachable.nodup_keys {q : Query} (hq : q.Reachable) :
    (Entries.keys q.document.fields).Nodup := by
  obtain ⟨calls, -, rfl⟩ := hq
  have hown := (ofCalls calls).document.keys_ownFields_sublist
  have hreserved : reservedKeys.Nodup := by decide
  have hproperties : (Entries.keys (ofCalls calls).properties).Nodup := by
    rw [properties_ofCalls]
    exact Entries.nodup_ofList _
  rw [Document.fields, Entries.keys, List.map_append]
  refine List.nodup_append.mpr ⟨hreserved.sublist hown, hproperties, ?_⟩
  rintro key hkey _ hfree rfl
  exact not_reserved_of_mem_properties calls key hfree (hown.subset hkey)

theorem Holds.ownFields (hp : Json.Hereditary p) {q : Query} (h : q.Holds p) :
    ∀ e ∈ q.document.ownFields, p e.2 := by
  have hfilter : p (.array (q.filter.map Condition.json)) := by
    refine hp.array fun j hj => ?_
    obtain ⟨c, hc, rfl⟩ := List.mem_map.mp hj
    exact Condition.holds_json hp (h.filter c hc)
  exact Document.forall_ownFields (hp.ofStrings _) (fun s _ => s.holds_json hp)
    (hp.object_singleton (hp.string _)) (hp.ofStrings _) hfilter
    (fun t ht => t.holds_json hp (h.filterTree t ht)) (Order.holds_json hp _)
    (Window.holds_json hp _)

/-- **What holds of the JSON values in a query holds of its document.** -/
theorem Reachable.holds_json (hp : Json.Hereditary p) {q : Query} (hq : q.Reachable)
    (h : q.Holds p) : p q.document.json := by
  refine hp.object hq.nodup_keys fun e he => ?_
  rcases List.mem_append.mp he with he | he
  · exact h.ownFields hp e he
  · exact h.properties e he

theorem Reachable.not_reserved {q : Query} (hq : q.Reachable) :
    ∀ key ∈ Entries.keys q.properties, key ∉ reservedKeys := by
  obtain ⟨calls, -, rfl⟩ := hq
  exact not_reserved_of_mem_properties calls

/-- No object in a document holds a key twice. -/
theorem Reachable.keysDistinct {q : Query} (hq : q.Reachable) : q.document.json.KeysDistinct := by
  refine hq.holds_json Json.hereditary_keysDistinct ?_
  obtain ⟨calls, hcalls, rfl⟩ := hq
  exact holds_ofCalls hcalls

end Query

end MarketScan
