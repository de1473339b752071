import MarketScan.Proofs.Query.Contents

/-!
# Documents follow the schema of the service

A schema is a list of slots, each for one key of an object: whether the key may be left out, and what
may stand under it. The fields of a document fill the slots of `Schema.document` in their order, and
what follows them are further properties under keys of their own.

Nothing in a document selects from an empty list. The queries that calls make hold none, since each
call leaves out what is not given (`Query.Sound`), and an empty list of conditions is not written.

* `Query.Sound` — what every call keeps, `Query.Reachable.sound` — what every query has
* `Schema.document` — the slots of a document
* `Query.follows_document` — every document fills them
-/

namespace MarketScan

/-! ## Schemas -/

namespace Schema

/-- A key of an object, and what may stand under it. -/
structure Slot where
  key : String
  optional : Bool
  Fits : Json → Prop

/-- Fields that fill slots in their order. -/
inductive Follows : List Slot → List (String × Json) → Prop where
  | nil : Follows [] []
  | filled {slot : Slot} {j : Json} {slots : List Slot} {fields : List (String × Json)}
    (hfits : slot.Fits j) (hrest : Follows slots fields) :
    Follows (slot :: slots) ((slot.key, j) :: fields)
  | leftOut {slot : Slot} {slots : List Slot} {fields : List (String × Json)}
    (hoptional : slot.optional = true) (hrest : Follows slots fields) : Follows (slot :: slots) fields

/-- An object of such fields. -/
def IsObject (slots : List Slot) (j : Json) : Prop :=
  ∃ fields, Follows slots fields ∧ j = .object fields

/-- An array with at least one item, and what every item is. -/
def IsFilledArray (p : Json → Prop) (j : Json) : Prop :=
  ∃ items, items ≠ [] ∧ (∀ item ∈ items, p item) ∧ j = .array items

def IsString (j : Json) : Prop := ∃ s, j = .string s

def IsCode (codes : List String) (j : Json) : Prop := ∃ code ∈ codes, j = .string code

def IsBool (j : Json) : Prop := ∃ b, j = .bool b

/-! ### Parts of a document -/

def group : List Slot :=
  [⟨"type", false, IsCode ["index"]⟩,
   ⟨"values", false, IsFilledArray IsString⟩]

/-- Either slot may be left out, but not both. -/
def IsSymbols (j : Json) : Prop :=
  j ≠ .object [] ∧
    IsObject
      [⟨"tickers", true, IsFilledArray IsString⟩,
       ⟨"groups", true, IsFilledArray (IsObject group)⟩] j

def options : List Slot := [⟨"lang", false, IsCode ["en"]⟩]

def condition : List Slot :=
  [⟨"left", false, IsString⟩,
   ⟨"operation", false, IsCode Comparison.vocabulary.codes⟩,
   ⟨"right", true, fun _ => True⟩]

/-- A filter tree: an `expression` or an `operation`, whose operands are trees. -/
inductive IsTree : Json → Prop where
  | expression {c : Json} (hc : IsObject condition c) : IsTree (.object [("expression", c)])
  | operation {k : Json} {operands : List Json} (hk : IsCode ["and", "or"] k)
    (hoperands : ∀ t ∈ operands, IsTree t) :
    IsTree (.object [("operation", .object [("operator", k), ("operands", .array operands)])])

/-- A filter tree that is no bare `expression`. -/
def IsOperation (j : Json) : Prop := IsTree j ∧ ∃ body, j = .object [("operation", body)]

def order : List Slot :=
  [⟨"sortBy", false, IsString⟩,
   ⟨"sortOrder", false, IsCode ["asc", "desc"]⟩,
   ⟨"nullsFirst", true, IsBool⟩]

/-- Two whole numbers without sign, of which the second is not the smaller one. -/
def IsRange (j : Json) : Prop :=
  ∃ low high : UInt64, low ≤ high ∧ j = .array [.ofUInt64 low, .ofUInt64 high]

/-- The keys that a document has of its own. -/
def document : List Slot :=
  [⟨"markets", false, IsFilledArray IsString⟩,
   ⟨"symbols", true, IsSymbols⟩,
   ⟨"options", false, IsObject options⟩,
   ⟨"columns", false, IsFilledArray IsString⟩,
   ⟨"filter", true, IsFilledArray (IsObject condition)⟩,
   ⟨"filter2", true, IsOperation⟩,
   ⟨"sort", false, IsObject order⟩,
   ⟨"range", false, IsRange⟩]

/-! ### Filling slots -/

theorem Follows.append {slots slots' : List Slot} {fields fields' : List (String × Json)}
    (h : Follows slots fields) (h' : Follows slots' fields') :
    Follows (slots ++ slots') (fields ++ fields') := by
  induction h with
  | nil => exact h'
  | filled hfits _ ih => exact .filled hfits ih
  | leftOut hoptional _ ih => exact .leftOut hoptional ih

theorem isFilledArray_map {α : Type} {p : Json → Prop} {f : α → Json} {xs : List α} (hne : xs ≠ [])
    (h : ∀ x ∈ xs, p (f x)) : IsFilledArray p (.array (xs.map f)) := by
  refine ⟨xs.map f, fun hnil => hne (List.map_eq_nil_iff.mp hnil), fun j hj => ?_, rfl⟩
  obtain ⟨x, hx, rfl⟩ := List.mem_map.mp hj
  exact h x hx

theorem isFilledArray_ofStrings {items : List String} (h : items ≠ []) :
    IsFilledArray IsString (.ofStrings items) :=
  isFilledArray_map h fun s _ => ⟨s, rfl⟩

end Schema

open Schema

/-! ## What calls keep -/

namespace Query

/-- A query in which nothing that is written as a list is empty, and no filter tree is a bare
condition. -/
structure Sound (q : Query) : Prop where
  markets : q.markets ≠ []
  columns : q.columns ≠ []
  tickers : ∀ tickers ∈ q.symbols.tickers, tickers ≠ []
  indexes : ∀ values ∈ q.symbols.indexes, values ≠ []
  filterTree : ∀ t ∈ q.filterTree, t.isNode = true

theorem sound_default : default.Sound where
  markets := List.cons_ne_nil _ _
  columns := List.cons_ne_nil _ _
  tickers := nofun
  indexes := nofun
  filterTree := nofun

/-- An empty list given to a call is no list, and a condition given as a tree becomes one. -/
theorem Sound.apply {q : Query} (hq : q.Sound) (c : Call) : (q.apply c).Sound := by
  rw [apply_eq]
  constructor
  case markets =>
    cases c with
    | setMarkets given =>
      cases given with
      | nil => exact hq.markets
      | cons market markets => exact List.cons_ne_nil _ _
    | _ => exact hq.markets
  case columns =>
    cases c with
    | select given =>
      cases given with
      | nil => exact hq.columns
      | cons column columns => exact List.cons_ne_nil _ _
    | _ => exact hq.columns
  case tickers =>
    intro tickers ht
    cases c with
    | setTickers given =>
      cases given with
      | nil => exact hq.tickers tickers ht
      | cons ticker rest =>
        cases ht
        exact List.cons_ne_nil _ _
    | _ => exact hq.tickers tickers ht
  case indexes =>
    intro values hv
    -- the group is an old one or the one that the call adds, and an empty list adds none
    rcases List.mem_append.mp hv with hold | hnew
    · exact hq.indexes values hold
    · cases c with
      | addIndexes given =>
        cases given with
        | nil => cases hnew
        | cons index rest =>
          obtain rfl := List.mem_singleton.mp hnew
          exact List.cons_ne_nil _ _
      | _ => cases hnew
  case filterTree =>
    intro t ht
    cases c with
    -- a bare condition was put under a connective of its own
    | setFilterTree tree => cases tree <;> cases ht <;> rfl
    | _ => exact hq.filterTree t ht

theorem sound_ofCalls (calls : List Call) : (ofCalls calls).Sound := by
  induction calls using List.reverseRecOn with
  | nil => exact sound_default
  | append_singleton calls c ih =>
    rw [ofCalls_concat]
    exact ih.apply c

theorem Reachable.sound {q : Query} (hq : q.Reachable) : q.Sound := by
  obtain ⟨calls, -, rfl⟩ := hq
  exact sound_ofCalls calls

end Query

/-! ## Parts of a document follow their schemas -/

theorem isObject_indexJson {values : List String} (h : values ≠ []) :
    IsObject group (Symbols.indexJson values) :=
  ⟨_, .filled ⟨"index", List.mem_singleton_self _, rfl⟩ (.filled (isFilledArray_ofStrings h) .nil), rfl⟩

theorem Symbols.isSymbols_json {s : Symbols} (hsome : s.isEmpty = false)
    (htickers : ∀ tickers ∈ s.tickers, tickers ≠ []) (hindexes : ∀ values ∈ s.indexes, values ≠ []) :
    IsSymbols s.json := by
  obtain ⟨tickers, indexes⟩ := s
  have hgroups (hne : indexes ≠ []) :
      IsFilledArray (IsObject group) (.array (indexes.map indexJson)) :=
    isFilledArray_map hne fun values hv => isObject_indexJson (hindexes values hv)
  rcases tickers with _ | tickers <;> rcases indexes with _ | ⟨values, indexes⟩
  · cases hsome
  · exact ⟨nofun, _, .leftOut rfl (.filled (hgroups nofun) .nil), rfl⟩
  · exact ⟨nofun, _, .filled (isFilledArray_ofStrings (htickers tickers rfl)) (.leftOut rfl .nil), rfl⟩
  · exact ⟨nofun, _, .filled (isFilledArray_ofStrings (htickers tickers rfl))
      (.filled (hgroups nofun) .nil), rfl⟩

theorem Condition.isObject_json (c : Condition) : IsObject condition c.json := by
  obtain ⟨field, comparison, operand⟩ := c
  have hcode : IsCode Comparison.vocabulary.codes comparison.json := by
    refine ⟨comparison.code, ?_, rfl⟩
    cases comparison <;> decide
  cases operand with
  | none => exact ⟨_, .filled ⟨field, rfl⟩ (.filled hcode (.leftOut rfl .nil)), rfl⟩
  | some o => exact ⟨_, .filled ⟨field, rfl⟩ (.filled hcode (.filled trivial .nil)), rfl⟩

namespace FilterTree

mutual

theorem isTree_json : ∀ t : FilterTree, IsTree t.json
  | .leaf c => .expression c.isObject_json
  | .node k ts => by
    have hcode : IsCode ["and", "or"] k.json := by
      refine ⟨k.code, ?_, rfl⟩
      cases k <;> decide
    exact .operation hcode (isTree_jsonAll ts)

theorem isTree_jsonAll : ∀ ts : List FilterTree, ∀ j ∈ jsonAll ts, IsTree j
  | [] => nofun
  | t :: ts => List.forall_mem_cons.mpr ⟨isTree_json t, isTree_jsonAll ts⟩

end

theorem isOperation_json {t : FilterTree} (h : t.isNode = true) : IsOperation t.json := by
  refine ⟨t.isTree_json, ?_⟩
  cases t with
  | leaf c => cases h
  | node k ts => exact ⟨_, rfl⟩

end FilterTree

theorem Order.isObject_json (o : Order) : IsObject Schema.order o.json := by
  obtain ⟨column, direction, nullsFirst⟩ := o
  have hcode : IsCode ["asc", "desc"] (.string direction.code) := by
    refine ⟨direction.code, ?_, rfl⟩
    cases direction <;> decide
  cases nullsFirst with
  | none => exact ⟨_, .filled ⟨column, rfl⟩ (.filled hcode (.leftOut rfl .nil)), rfl⟩
  | some b => exact ⟨_, .filled ⟨column, rfl⟩ (.filled hcode (.filled ⟨b, rfl⟩ .nil)), rfl⟩

theorem Window.isRange_json (w : Window) : IsRange w.json := by
  have hstart : (UInt64.ofNat w.start).toNat = w.start :=
    UInt64.toNat_ofNat_of_lt' (Nat.lt_of_le_of_lt w.start_le_stop w.stop_lt)
  have hstop : (UInt64.ofNat w.stop).toNat = w.stop := UInt64.toNat_ofNat_of_lt' w.stop_lt
  refine ⟨UInt64.ofNat w.start, UInt64.ofNat w.stop, ?_, ?_⟩
  · rw [UInt64.le_iff_toNat_le, hstart, hstop]
    exact w.start_le_stop
  · simp only [json, bounds, Json.ofUInt64, Json.Whole.ofUInt64, hstart, hstop]

/-! ## Documents -/

namespace Query

/-- The own fields of a document fill the slots that a document has. -/
theorem Sound.follows_ownFields {q : Query} (hq : q.Sound) :
    Follows Schema.document q.document.ownFields := by
  -- the schema cut where the fields of a document are put together
  change Follows ([⟨"markets", false, _⟩] ++ [⟨"symbols", true, _⟩] ++
    [⟨"options", false, _⟩, ⟨"columns", false, _⟩] ++ [⟨"filter", true, _⟩] ++
    [⟨"filter2", true, _⟩] ++ [⟨"sort", false, _⟩, ⟨"range", false, _⟩]) _
  unfold Document.ownFields
  refine .append (.append (.append (.append (.append ?markets ?symbols) ?columns) ?filter) ?tree) ?rest
  case markets => exact .filled (isFilledArray_ofStrings hq.markets) .nil
  case columns =>
    exact .filled ⟨_, .filled ⟨"en", List.mem_singleton_self _, rfl⟩ .nil, rfl⟩
      (.filled (isFilledArray_ofStrings hq.columns) .nil)
  case rest => exact .filled q.order.isObject_json (.filled q.window.isRange_json .nil)
  case symbols =>
    have hsymbols : q.document.symbols = if q.symbols.isEmpty then none else some q.symbols := rfl
    rw [hsymbols]
    cases hsome : q.symbols.isEmpty with
    | true => exact .leftOut rfl .nil
    | false => exact .filled (Symbols.isSymbols_json hsome hq.tickers hq.indexes) .nil
  case filter =>
    show Follows _ (if q.filter.isEmpty then [] else [("filter", .array (q.filter.map Condition.json))])
    cases hempty : q.filter with
    | nil => exact .leftOut rfl .nil
    | cons c cs =>
      exact .filled (isFilledArray_map (List.cons_ne_nil c cs) fun d _ => d.isObject_json) .nil
  case tree =>
    have hfilterTree : q.document.filterTree = q.filterTree := rfl
    rw [hfilterTree]
    cases htree : q.filterTree with
    | none => exact .leftOut rfl .nil
    | some t => exact .filled (FilterTree.isOperation_json (hq.filterTree t htree)) .nil

/-- **What a query sends follows the schema.** The keys of the schema come first and in its order,
then those of the further properties, none of which is a key of the schema. No object repeats a key. -/
theorem follows_document {q : Query} (hq : q.Reachable) :
    q.text = (Json.object q.document.fields).compact ∧
      (∃ own, Follows Schema.document own ∧ q.document.fields = own ++ q.properties) ∧
      (∀ key ∈ Entries.keys q.properties, key ∉ Schema.document.map Slot.key) ∧
      (Json.object q.document.fields).KeysDistinct :=
  ⟨rfl, ⟨_, hq.sound.follows_ownFields, rfl⟩, hq.not_reserved, hq.keysDistinct⟩

/-- Calls that give empty lists, a reserved key, one key twice, a bare condition and a last row. -/
def awkwardCalls : List Call :=
  [.select [], .setTickers [], .addIndexes [], .addIndexes ["SYML:SP;SPX"],
   .setProperty "symbols" (.array []), .setProperty "é" .null, .setProperty "é" (.bool true),
   .setFilterTree (.leaf ⟨"close", .empty, none⟩), .offset 18446744073709551615]

/-- The list of conditions is left out, and of the properties one key is there once. -/
theorem follows_document_awkwardCalls :
    Entries.keys (ofCalls awkwardCalls).document.fields =
        ["markets", "symbols", "options", "columns", "filter2", "sort", "range", "é"] ∧
      (∃ own, Follows Schema.document own ∧
        (ofCalls awkwardCalls).document.fields = own ++ (ofCalls awkwardCalls).properties) ∧
      (Json.object (ofCalls awkwardCalls).document.fields).KeysDistinct := by
  have hcalls : ∀ c ∈ awkwardCalls, c.Holds Json.KeysDistinct := by
    simp [awkwardCalls, Call.Holds, FilterTree.Holds, Condition.Holds, Json.KeysDistinct,
      Json.KeysDistinctItems]
  obtain ⟨-, hown, -, hdistinct⟩ := follows_document ⟨awkwardCalls, hcalls, rfl⟩
  exact ⟨by decide +kernel, hown, hdistinct⟩

end Query

end MarketScan
