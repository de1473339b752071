import MarketScan.Proofs.Entries
import MarketScan.Query.Document
import Mathlib.Data.List.Basic

/-!
# A document as its history tells it

What a query asks for can be read off the calls that made it, without running them. Lists that are
replaced are those of the last call that gave any, lists that are added to are joined in the order
of the calls, and a property stands where it was first set with the value that it was last set to.

* `Query.apply_eq` — all that a call can do, field by field
* `Query.History.document` — the document that calls describe
* `Query.document_ofCalls` — it is the document of the query that they make
-/

namespace MarketScan.Query

/-! ## What one call says -/

namespace Call

/-- The list, unless nothing is in it. -/
def given? : List String → Option (List String)
  | [] => none
  | item :: items => some (item :: items)

def markets? : Call → Option (List String)
  | .setMarkets markets => given? markets
  | _ => none

def tickers? : Call → Option (List String)
  | .setTickers tickers => given? tickers
  | _ => none

def indexes? : Call → Option (List String)
  | .addIndexes indexes => given? indexes
  | _ => none

def columns? : Call → Option (List String)
  | .select columns => given? columns
  | _ => none

def conditions : Call → List Condition
  | .addConditions conditions => conditions
  | _ => []

/-- The filter tree that a call sets. A bare condition becomes the only operand of an `and`. -/
def filterTree? : Call → Option FilterTree
  | .setFilterTree tree =>
    some <| match tree with
      | .leaf c => .node .and [.leaf c]
      | .node k ts => .node k ts
  | _ => none

def order? : Call → Option Order
  | .orderBy column ascending nullsFirst =>
    some ⟨column, if ascending then .ascending else .descending, some nullsFirst⟩
  | _ => none

/-- The property that a call sets, unless its key belongs to the document. -/
def property? : Call → Option (String × Json)
  | .setProperty key value => if key ∈ reservedKeys then none else some (key, value)
  | _ => none

/-- The window after a call. -/
def page (w : Window) : Call → Window
  | .limit n => w.limit n
  | .offset n => w.offset n
  | _ => w

end Call

/-- **What a call does to each field.** -/
theorem apply_eq (q : Query) (c : Call) :
    q.apply c =
      { markets := c.markets?.getD q.markets
        symbols := ⟨c.tickers?.or q.symbols.tickers, q.symbols.indexes ++ c.indexes?.toList⟩
        columns := c.columns?.getD q.columns
        filter := q.filter ++ c.conditions
        filterTree := c.filterTree?.or q.filterTree
        order := c.order?.getD q.order
        window := c.page q.window
        properties := c.property?.elim q.properties fun e => Entries.insert e.1 e.2 q.properties } := by
  cases c <;> simp only [apply, Call.markets?, Call.tickers?, Call.indexes?, Call.columns?,
    Call.conditions, Call.filterTree?, Call.order?, Call.property?, Call.page, Option.getD_none,
    Option.none_or, Option.toList_none, List.append_nil, Option.elim_none]
  case select columns => cases columns <;> rfl
  case setMarkets markets => cases markets <;> rfl
  case setTickers tickers => cases tickers <;> rfl
  case addIndexes indexes =>
    -- without an index nothing is added, which the list says by adding an empty one
    cases indexes with
    | nil => simp [addIndexes, Call.given?]
    | cons i is => rfl
  case addConditions conditions => rfl
  case setFilterTree tree => cases tree <;> rfl
  case orderBy column ascending nullsFirst => rfl
  case limit n => rfl
  case offset n => rfl
  case setProperty key value =>
    by_cases h : key ∈ reservedKeys
    · simp [setProperty, h]
    · simp [setProperty, h]

/-! ## Runs of calls -/

section Run

variable {α : Type}

/-- A field that calls replace holds what the last of them said. -/
theorem latest_of_step {f : Query → Option α} {g : Call → Option α}
    (step : ∀ q c, f (q.apply c) = (g c).or (f q)) (calls : List Call) :
    f (ofCalls calls) = ((calls.filterMap g).getLast?).or (f default) := by
  induction calls using List.reverseRecOn with
  | nil => rfl
  | append_singleton calls c ih =>
    rw [ofCalls_concat, step, ih, List.filterMap_append, List.getLast?_append, Option.or_assoc]
    cases h : g c <;> simp [h]

/-- The same for a field that is never without a value. -/
theorem latestD_of_step {f : Query → α} {g : Call → Option α}
    (step : ∀ q c, f (q.apply c) = (g c).getD (f q)) (calls : List Call) :
    f (ofCalls calls) = ((calls.filterMap g).getLast?).getD (f default) := by
  have h := latest_of_step (f := fun q => some (f q)) (g := g)
    (fun q c => by rw [step, Option.or_some]) calls
  rw [Option.or_some] at h
  exact Option.some.inj h

/-- A field that calls add to holds what all of them said, in their order. -/
theorem joined_of_step {f : Query → List α} {g : Call → List α}
    (step : ∀ q c, f (q.apply c) = f q ++ g c) (calls : List Call) :
    f (ofCalls calls) = f default ++ calls.flatMap g := by
  induction calls using List.reverseRecOn with
  | nil => simp
  | append_singleton calls c ih =>
    rw [ofCalls_concat, step, ih, List.flatMap_append, List.flatMap_singleton, List.append_assoc]

end Run

/-- Properties are set one after the other. -/
theorem properties_ofCalls (calls : List Call) :
    (ofCalls calls).properties = Entries.ofList (calls.filterMap Call.property?) := by
  induction calls using List.reverseRecOn with
  | nil => rfl
  | append_singleton calls c ih =>
    rw [ofCalls_concat, apply_eq, List.filterMap_append]
    cases h : c.property? with
    | none => simp [h, ih]
    | some e => simp [h, ih, Entries.ofList_concat]

/-! ## The document of a history -/

namespace History

/-- The symbols that calls select, if any call selects some. -/
def symbols? (calls : List Call) : Option Symbols :=
  if ∀ c ∈ calls, c.tickers? = none ∧ c.indexes? = none then none
  else some ⟨(calls.filterMap Call.tickers?).getLast?, calls.filterMap Call.indexes?⟩

/-- The document that calls describe, but for its window. -/
def document (calls : List Call) (window : Window) : Document where
  markets := ((calls.filterMap Call.markets?).getLast?).getD ["america"]
  symbols := symbols? calls
  columns := ((calls.filterMap Call.columns?).getLast?).getD
    ["name", "close", "volume", "market_cap_basic"]
  filter := calls.flatMap Call.conditions
  filterTree := (calls.filterMap Call.filterTree?).getLast?
  order := ((calls.filterMap Call.order?).getLast?).getD ⟨"name", .ascending, none⟩
  window := window
  properties := Entries.latest (calls.filterMap Call.property?)

end History

theorem tickers_ofCalls (calls : List Call) :
    (ofCalls calls).symbols.tickers = (calls.filterMap Call.tickers?).getLast? := by
  rw [latest_of_step (f := fun q => q.symbols.tickers) fun q c => by rw [apply_eq]]
  exact Option.or_none

theorem filterTree_ofCalls (calls : List Call) :
    (ofCalls calls).filterTree = (calls.filterMap Call.filterTree?).getLast? := by
  rw [latest_of_step (f := Query.filterTree) fun q c => by rw [apply_eq]]
  exact Option.or_none

theorem indexes_ofCalls (calls : List Call) :
    (ofCalls calls).symbols.indexes = calls.filterMap Call.indexes? := by
  rw [joined_of_step (f := fun q => q.symbols.indexes) fun q c => by rw [apply_eq],
    List.filterMap_eq_flatMap_toList]
  rfl

/-- A document has no symbols exactly when no call selected any. -/
theorem symbols_document_ofCalls (calls : List Call) :
    (ofCalls calls).document.symbols = History.symbols? calls := by
  have hempty : (ofCalls calls).symbols.isEmpty = true ↔
      ∀ c ∈ calls, c.tickers? = none ∧ c.indexes? = none := by
    rw [Symbols.isEmpty, tickers_ofCalls, indexes_ofCalls, Bool.and_eq_true, Option.isNone_iff_eq_none,
      List.isEmpty_iff, List.getLast?_eq_none_iff, List.filterMap_eq_nil_iff,
      List.filterMap_eq_nil_iff]
    exact forall₂_and.symm
  show (if (ofCalls calls).symbols.isEmpty then none else some (ofCalls calls).symbols) = _
  rw [History.symbols?]
  by_cases h : ∀ c ∈ calls, c.tickers? = none ∧ c.indexes? = none
  · rw [if_pos (hempty.mpr h), if_pos h]
  · rw [if_neg fun he => h (hempty.mp he), if_neg h, ← tickers_ofCalls, ← indexes_ofCalls]

/-- **A query sends the document that its history describes.** -/
theorem document_ofCalls (calls : List Call) :
    (ofCalls calls).document = History.document calls (ofCalls calls).window := by
  have hmarkets := latestD_of_step (f := Query.markets) (fun q c => by rw [apply_eq]) calls
  have hcolumns := latestD_of_step (f := Query.columns) (fun q c => by rw [apply_eq]) calls
  have horder := latestD_of_step (f := Query.order) (fun q c => by rw [apply_eq]) calls
  have hfilter := joined_of_step (f := Query.filter) (fun q c => by rw [apply_eq]) calls
  have hsymbols : (if (ofCalls calls).symbols.isEmpty then none else some (ofCalls calls).symbols) =
      History.symbols? calls := symbols_document_ofCalls calls
  rw [document, hmarkets, hsymbols, hcolumns, hfilter, filterTree_ofCalls, horder,
    properties_ofCalls, Entries.ofList_eq_latest]
  rfl

end MarketScan.Query
