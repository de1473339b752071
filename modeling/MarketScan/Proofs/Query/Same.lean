import MarketScan.Proofs.Json.Same
import MarketScan.Proofs.Query.Identity

/-!
# Equality of queries

Queries are compared field by field, with JSON values and further properties compared without regard to
order. So equal queries need not send the same text. They do send equal documents, and whatever is
called on both leaves them equal.

* `Operand.equivalenceAt`, `FilterTree.equivalenceAt` — the comparisons of filters are equivalences
* `Query.same_iff_agree` — what equal queries have in common
* `Query.Agree.apply` — a call made on both keeps them equal
* `Query.same_document` — queries are equal exactly when their documents are
-/

namespace MarketScan

/-! ## Operands -/

namespace Operand

theorem holdsItems_iff {p : Json → Prop} (items : List Operand) :
    HoldsItems p items ↔ ∀ o ∈ items, o.Holds p := by
  induction items with
  | nil => simp [HoldsItems]
  | cons o items ih => rw [HoldsItems, ih, List.forall_mem_cons]

theorem sameItems_iff (xs ys : List Operand) :
    sameItems xs ys = true ↔ List.Forall₂ (fun o o' => o.same o' = true) xs ys :=
  forall₂_iff_of_eqns rfl (fun _ _ => rfl) (fun _ _ => rfl) (fun _ _ _ _ => rfl) xs ys

/-- Two operands of one kind. -/
inductive OfOneKind : Operand → Operand → Prop where
  | value (j k : Json) : OfOneKind (.value j) (.value k)
  | field (a b : String) : OfOneKind (.field a) (.field b)
  | range (a b c d : Operand) : OfOneKind (.range a b) (.range c d)
  | list (xs ys : List Operand) : OfOneKind (.list xs) (.list ys)

theorem ofOneKind_of_same {o o' : Operand} (h : o.same o' = true) : OfOneKind o o' := by
  cases o <;> cases o' <;> first | constructor | cases h

mutual

theorem equivalenceAt : ∀ o : Operand,
    EquivalenceAt (Holds Json.KeysDistinct) (fun o o' => o.same o' = true) o
  | .value j => by
    refine .constructed (C := value) (fun h => ?_) (fun _ => id) (fun _ _ _ _ => Iff.rfl)
      j.equivalenceAt
    cases ofOneKind_of_same h
    exact ⟨_, rfl⟩
  | .field name => by
    refine .constructed (C := field) (fun h => ?_) (fun _ => id) (fun _ _ _ _ => beq_iff_eq)
      (.eq name)
    cases ofOneKind_of_same h
    exact ⟨_, rfl⟩
  | .range low high => by
    have hends := (equivalenceAt low).prod (equivalenceAt high)
    refine hends.constructed (C := fun ends : Operand × Operand => range ends.1 ends.2)
      (fun h => ?_) (fun x hx => ?_) (fun _ _ _ _ => Bool.and_eq_true_iff)
    · cases ofOneKind_of_same h
      exact ⟨(_, _), rfl⟩
    · exact hx
  | .list items => by
    refine .constructed (C := list) (fun h => ?_) (fun _ => (holdsItems_iff _).mp)
      (fun _ _ _ _ => sameItems_iff _ _) (.list (equivalenceAt_items items))
    cases ofOneKind_of_same h
    exact ⟨_, rfl⟩

theorem equivalenceAt_items : ∀ items : List Operand, ∀ o ∈ items,
    EquivalenceAt (Holds Json.KeysDistinct) (fun o o' => o.same o' = true) o
  | [] => nofun
  | o :: items => List.forall_mem_cons.mpr ⟨equivalenceAt o, equivalenceAt_items items⟩

end

end Operand

/-! ## Conditions -/

namespace Condition

theorem sameOperand_iff (x y : Option Operand) :
    sameOperand x y = true ↔ Option.Rel (fun o o' => o.same o' = true) x y :=
  rel_iff_of_eqns rfl (fun _ => rfl) (fun _ => rfl) (fun _ _ => rfl) x y

theorem sameAll_iff (cs ds : List Condition) :
    sameAll cs ds = true ↔ List.Forall₂ (fun c d => c.same d = true) cs ds :=
  forall₂_iff_of_eqns rfl (fun _ _ => rfl) (fun _ _ => rfl) (fun _ _ _ _ => rfl) cs ds

theorem equivalenceAt (c : Condition) :
    EquivalenceAt (Holds Json.KeysDistinct) (fun c d => c.same d = true) c := by
  have hparts := (EquivalenceAt.eq (p := fun _ => True) (c.field, c.comparison)).prod
    (.option fun o (_ : o ∈ c.operand) => o.equivalenceAt)
  refine hparts.comap (f := fun c => ((c.field, c.comparison), c.operand)) (fun _ hc => ⟨trivial, hc⟩)
    (fun c d _ _ => ?_)
  simp [same, sameOperand_iff]

end Condition

/-! ## Filter trees -/

namespace FilterTree

theorem holdsAll_iff {p : Json → Prop} (ts : List FilterTree) :
    HoldsAll p ts ↔ ∀ t ∈ ts, t.Holds p := by
  induction ts with
  | nil => simp [HoldsAll]
  | cons t ts ih => rw [HoldsAll, ih, List.forall_mem_cons]

theorem sameAll_iff (ts us : List FilterTree) :
    sameAll ts us = true ↔ List.Forall₂ (fun t u => t.same u = true) ts us :=
  forall₂_iff_of_eqns rfl (fun _ _ => rfl) (fun _ _ => rfl) (fun _ _ _ _ => rfl) ts us

theorem sameOption_iff (x y : Option FilterTree) :
    sameOption x y = true ↔ Option.Rel (fun t u => t.same u = true) x y :=
  rel_iff_of_eqns rfl (fun _ => rfl) (fun _ => rfl) (fun _ _ => rfl) x y

mutual

theorem equivalenceAt : ∀ t : FilterTree,
    EquivalenceAt (Holds Json.KeysDistinct) (fun t u => t.same u = true) t
  | .leaf c => by
    refine .constructed (C := leaf) (fun {_ u} h => ?_) (fun _ => id) (fun _ _ _ _ => Iff.rfl)
      c.equivalenceAt
    cases u with
    | leaf d => exact ⟨d, rfl⟩
    | node k us => cases h
  | .node k ts => by
    have hparts := (EquivalenceAt.eq (p := fun _ => True) k).prod (.list (equivalenceAt_all ts))
    refine hparts.constructed (C := fun x : Connective × List FilterTree => node x.1 x.2)
      (fun {_ u} h => ?_) (fun x hx => ?_) (fun x y _ _ => ?_)
    · cases u with
      | leaf d => cases h
      | node k us => exact ⟨(k, us), rfl⟩
    · exact ⟨trivial, (holdsAll_iff x.2).mp hx⟩
    · rw [same, Bool.and_eq_true, beq_iff_eq, sameAll_iff]

theorem equivalenceAt_all : ∀ ts : List FilterTree, ∀ t ∈ ts,
    EquivalenceAt (Holds Json.KeysDistinct) (fun t u => t.same u = true) t
  | [] => nofun
  | t :: ts => List.forall_mem_cons.mpr ⟨equivalenceAt t, equivalenceAt_all ts⟩

end

end FilterTree

namespace Query

/-! ## Queries -/

/-- What equal queries have in common. -/
structure Agree (q r : Query) : Prop where
  markets : q.markets = r.markets
  symbols : q.symbols = r.symbols
  columns : q.columns = r.columns
  filter : List.Forall₂ (fun c d => c.same d = true) q.filter r.filter
  filterTree : Option.Rel (fun t u => t.same u = true) q.filterTree r.filterTree
  order : q.order = r.order
  window : q.window = r.window
  properties : Entries.Agree (fun j k : Json => j.same k = true) q.properties r.properties

theorem Reachable.nodup_properties {q : Query} (hq : q.Reachable) :
    (Entries.keys q.properties).Nodup := by
  obtain ⟨calls, -, rfl⟩ := hq
  rw [properties_ofCalls]
  exact Entries.nodup_ofList _

theorem Reachable.holds {q : Query} (hq : q.Reachable) : q.Holds Json.KeysDistinct := by
  obtain ⟨calls, hcalls, rfl⟩ := hq
  exact holds_ofCalls hcalls

theorem same_iff_agree {q r : Query} (hq : q.Reachable) (hr : r.Reachable) :
    q.same r = true ↔ q.Agree r := by
  have hproperties := Json.same_object_iff hq.nodup_properties hr.nodup_properties
  unfold same
  simp only [Bool.and_eq_true, beq_iff_eq, and_assoc, Condition.sameAll_iff,
    FilterTree.sameOption_iff, hproperties]
  constructor
  · rintro ⟨markets, symbols, columns, filter, filterTree, order, window, properties⟩
    exact ⟨markets, symbols, columns, filter, filterTree, order, window, properties⟩
  · rintro ⟨markets, symbols, columns, filter, filterTree, order, window, properties⟩
    exact ⟨markets, symbols, columns, filter, filterTree, order, window, properties⟩

theorem equivalenceAt (q : Query) : EquivalenceAt Reachable Agree q := by
  have hfilter := EquivalenceAt.list fun c (_ : c ∈ q.filter) => c.equivalenceAt
  have htree := EquivalenceAt.option fun t (_ : t ∈ q.filterTree) => t.equivalenceAt
  have hproperties := Entries.equivalenceAt_agree fun e (_ : e ∈ q.properties) => e.2.equivalenceAt
  have hfixed := EquivalenceAt.eq (p := fun _ => True)
    (q.markets, q.symbols, q.columns, q.order, q.window)
  refine (hfixed.prod (hfilter.prod (htree.prod hproperties))).comap (fun r => ?_) (fun r s _ _ => ?_)
    (f := fun r => ((r.markets, r.symbols, r.columns, r.order, r.window),
      r.filter, r.filterTree, r.properties))
  · intro hr
    exact ⟨trivial, hr.holds.filter, hr.holds.filterTree, hr.holds.properties⟩
  · simp only [Prod.mk.injEq]
    constructor
    · rintro ⟨markets, symbols, columns, filter, filterTree, order, window, properties⟩
      exact ⟨⟨markets, symbols, columns, order, window⟩, filter, filterTree, properties⟩
    · rintro ⟨⟨markets, symbols, columns, order, window⟩, filter, filterTree, properties⟩
      exact ⟨markets, symbols, columns, filter, filterTree, order, window, properties⟩

/-- What calls hand over is equal to itself. -/
theorem Agree.apply {q r : Query} (h : q.Agree r) {c : Call} (hc : c.Holds Json.KeysDistinct) :
    (q.apply c).Agree (r.apply c) := by
  rw [apply_eq, apply_eq, h.markets, h.symbols, h.columns, h.order, h.window]
  refine ⟨rfl, rfl, rfl, ?filter, ?filterTree, rfl, rfl, ?properties⟩
  case filter =>
    have hself (d : Condition) (hd : d ∈ c.conditions) : d.same d = true :=
      d.equivalenceAt.refl (hc.conditions d hd)
    exact List.rel_append h.filter (List.forall₂_same.mpr hself)
  case filterTree =>
    have hself (t : FilterTree) (ht : t ∈ c.filterTree?) : t.same t = true :=
      t.equivalenceAt.refl (hc.filterTree t ht)
    cases hset : c.filterTree? with
    | none => exact h.filterTree
    | some t => exact .some (hself t hset)
  case properties =>
    cases hset : c.property? with
    | none => exact h.properties
    | some e =>
      obtain ⟨rfl, -⟩ := Call.eq_of_property?_eq_some hset
      exact h.properties.insert e.1 (e.2.equivalenceAt.refl hc)

theorem Agree.foldl_apply {q r : Query} (h : q.Agree r) {calls : List Call}
    (hcalls : ∀ c ∈ calls, c.Holds Json.KeysDistinct) :
    (calls.foldl Query.apply q).Agree (calls.foldl Query.apply r) := by
  induction calls generalizing q r with
  | nil => exact h
  | cons c calls ih =>
    obtain ⟨hc, hrest⟩ := List.forall_mem_cons.mp hcalls
    exact ih (h.apply hc) hrest

theorem Reachable.foldl_apply {q : Query} (hq : q.Reachable) {calls : List Call}
    (hcalls : ∀ c ∈ calls, c.Holds Json.KeysDistinct) : (calls.foldl Query.apply q).Reachable := by
  obtain ⟨earlier, hearlier, rfl⟩ := hq
  refine ⟨earlier ++ calls, List.forall_mem_append.mpr ⟨hearlier, hcalls⟩, ?_⟩
  rw [ofCalls, ofCalls, List.foldl_append]

/-! ## Documents -/

/-- **Queries are equal exactly when their documents are.** What a document leaves out tells no two
queries apart. -/
theorem same_document (q r : Query) : q.document.same r.document = q.same r := by
  have hsymbols : (q.document.symbols == r.document.symbols) = (q.symbols == r.symbols) := by
    rw [Bool.eq_iff_iff, beq_iff_eq, beq_iff_eq, symbols_document_inj]
  rw [Document.same, hsymbols, same]
  rfl

/-- **Equality of queries is that of their documents, and an equivalence that every call keeps.** -/
theorem same_congruence {q r : Query} (hq : q.Reachable) (hr : r.Reachable) :
    (q.same r = true ↔ q.document.same r.document = true) ∧
    Equivalence (fun s t : { s : Query // s.Reachable } => s.1.same t.1 = true) ∧
    (q.same r = true → ∀ calls : List Call, (∀ c ∈ calls, c.Holds Json.KeysDistinct) →
      (calls.foldl apply q).same (calls.foldl apply r) = true) := by
  refine ⟨by rw [same_document], ⟨?refl, ?symm, ?trans⟩, fun h calls hcalls => ?_⟩
  case refl =>
    rintro ⟨s, hs⟩
    exact (same_iff_agree hs hs).mpr (s.equivalenceAt.refl hs)
  case symm =>
    rintro ⟨s, hs⟩ ⟨t, ht⟩ h
    exact (same_iff_agree ht hs).mpr (s.equivalenceAt.symm hs ht ((same_iff_agree hs ht).mp h))
  case trans =>
    rintro ⟨s, hs⟩ ⟨t, ht⟩ ⟨u, hu⟩ hst htu
    have hst := (same_iff_agree hs ht).mp hst
    have htu := (same_iff_agree ht hu).mp htu
    exact (same_iff_agree hs hu).mpr (s.equivalenceAt.trans hs ht hu hst htu)
  · have hagree := ((same_iff_agree hq hr).mp h).foldl_apply hcalls
    exact (same_iff_agree (hq.foldl_apply hcalls) (hr.foldl_apply hcalls)).mpr hagree

/-- Two properties and a condition with an object. -/
def paired (first second : String × Json) (fields : List (String × Json)) : List Call :=
  [.setProperty first.1 first.2, .setProperty second.1 second.2,
   .addConditions [⟨"close", .has, some (.list [.value (.object fields), .field "open"])⟩]]

theorem holds_paired {p : Json → Prop} {first second : String × Json} {fields : List (String × Json)}
    (hfirst : p first.2) (hsecond : p second.2) (hfields : p (.object fields)) :
    ∀ c ∈ paired first second fields, c.Holds p := by
  simp [paired, Call.Holds, Condition.Holds, Operand.Holds, Operand.HoldsItems, hfirst, hsecond,
    hfields]

/-- Properties, the fields of a property and the fields in a condition, each in one order and in the
other, with both zeros. -/
def forth : Query :=
  ofCalls (paired ("b", .null) ("a", .object [("x", .number (.float (.zero true))), ("y", .null)])
    [("u", .bool true), ("v", .array [])])

def back : Query :=
  ofCalls (paired ("a", .object [("y", .null), ("x", .number (.float (.zero false)))]) ("b", .null)
    [("v", .array []), ("u", .bool true)])

theorem same_congruence_paired :
    Entries.keys forth.properties ≠ Entries.keys back.properties ∧ forth.same back = true ∧
      forth.document.same back.document = true ∧
      ((forth.offset 7).setProperty "a" .null).same ((back.offset 7).setProperty "a" .null) = true := by
  have hobject (fields : List (String × Json)) (hkeys : (Entries.keys fields).Nodup)
      (hvalues : ∀ e ∈ fields, e.2.KeysDistinct) : (Json.object fields).KeysDistinct :=
    Json.keysDistinct_object.mpr ⟨hkeys, hvalues⟩
  have hforth : forth.Reachable := by
    refine ⟨paired _ _ _, holds_paired ?_ ?_ ?_, rfl⟩
    · exact trivial
    · exact hobject _ (by decide) (by simp [Json.KeysDistinct])
    · exact hobject _ (by decide) (by simp [Json.KeysDistinct, Json.KeysDistinctItems])
  have hback : back.Reachable := by
    refine ⟨paired _ _ _, holds_paired ?_ ?_ ?_, rfl⟩
    · exact hobject _ (by decide) (by simp [Json.KeysDistinct])
    · exact trivial
    · exact hobject _ (by decide) (by simp [Json.KeysDistinct, Json.KeysDistinctItems])
  have hsame : forth.same back = true := by decide
  obtain ⟨hdocument, -, hcalls⟩ := same_congruence hforth hback
  have hlater : ∀ c ∈ [Call.offset 7, .setProperty "a" .null], c.Holds Json.KeysDistinct := by
    simp [Call.Holds, Json.KeysDistinct]
  exact ⟨by decide, hsame, hdocument.mp hsame,
    hcalls hsame [.offset 7, .setProperty "a" .null] hlater⟩

end Query

end MarketScan
