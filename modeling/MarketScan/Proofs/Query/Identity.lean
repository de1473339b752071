import MarketScan.Proofs.Filter.Plain
import MarketScan.Proofs.Json.RoundTrip
import MarketScan.Proofs.Query.Contents

/-!
# What a text says about its query

Two queries send the same text only if they are the same query but for the kind of their operands:
keys that are left out, the shape of a filter tree and the further properties are all told apart. The
text is read as a document, the fields of the document are parted by their keys into its own ones and
the properties, and each part is found by its key.

* `Document.plain_eq_of_ownFields_eq` — each part of a document is known by the fields
* `Query.text_eq_iff` — when two queries send the same text
-/

namespace MarketScan

/-! ## Parts of a document -/

theorem Json.ofStrings_injective : Function.Injective Json.ofStrings := by
  intro xs ys h
  exact List.map_injective_iff.mpr (fun _ _ => Json.string.inj) (Json.array.inj h)

/-- An array that is left out when it is empty. -/
def Json.nonempty? {α : Type} (f : α → Json) (xs : List α) : Option Json :=
  if xs.isEmpty then none else some (.array (xs.map f))

/-- What it holds is known, there or not. -/
theorem Json.map_eq_of_nonempty?_eq {α : Type} {f : α → Json} {xs ys : List α}
    (h : nonempty? f xs = nonempty? f ys) : xs.map f = ys.map f := by
  cases xs <;> cases ys
  · rfl
  · cases h
  · cases h
  · exact Json.array.inj (Option.some.inj h)

namespace Symbols

theorem indexJson_injective : Function.Injective indexJson := by
  intro xs ys h
  exact Json.ofStrings_injective (by simpa [indexJson] using h)

/-- The fields that symbols are written as. -/
theorem exists_json_eq (s : Symbols) : ∃ fields, s.json = .object fields ∧
    Entries.get? "tickers" fields = s.tickers.map Json.ofStrings ∧
    Entries.get? "groups" fields = Json.nonempty? indexJson s.indexes := by
  refine ⟨_, rfl, ?_, ?_⟩
  · cases s.tickers <;> cases s.indexes <;> rfl
  · cases s.tickers <;> cases s.indexes <;> rfl

theorem eq_none_of_isEmpty {s : Symbols} (h : s.isEmpty = true) : s = none := by
  obtain ⟨tickers, indexes⟩ := s
  obtain ⟨ht, hi⟩ := Bool.and_eq_true_iff.mp h
  obtain rfl := Option.isNone_iff_eq_none.mp ht
  obtain rfl := List.isEmpty_iff.mp hi
  rfl

theorem json_injective : Function.Injective Symbols.json := by
  intro s t h
  obtain ⟨fields, hs, hstickers, hsgroups⟩ := s.exists_json_eq
  obtain ⟨fields', ht, httickers, htgroups⟩ := t.exists_json_eq
  obtain rfl : fields = fields' := by
    rw [hs, ht] at h
    exact Json.object.inj h
  have htickers : s.tickers = t.tickers :=
    Option.map_injective Json.ofStrings_injective (hstickers.symm.trans httickers)
  have hindexes : s.indexes = t.indexes :=
    List.map_injective_iff.mpr indexJson_injective
      (Json.map_eq_of_nonempty?_eq (hsgroups.symm.trans htgroups))
  obtain ⟨tickers, indexes⟩ := s
  obtain ⟨tickers', indexes'⟩ := t
  obtain rfl : tickers = tickers' := htickers
  obtain rfl : indexes = indexes' := hindexes
  rfl

end Symbols

theorem Direction.code_injective : Function.Injective Direction.code := by
  intro d e h
  cases d <;> cases e
  · rfl
  · exact absurd h (by decide)
  · exact absurd h (by decide)
  · rfl

theorem Order.json_injective : Function.Injective Order.json := by
  rintro ⟨column, direction, nullsFirst⟩ ⟨column', direction', nullsFirst'⟩ h
  have hfields := Json.object.inj h
  simp only [List.cons_append, List.nil_append, List.cons.injEq, Prod.mk.injEq, Json.string.injEq,
    true_and] at hfields
  obtain ⟨rfl, hdirection, hnulls⟩ := hfields
  obtain rfl := Direction.code_injective hdirection
  rcases nullsFirst with _ | b <;> rcases nullsFirst' with _ | b'
  · rfl
  · cases hnulls
  · cases hnulls
  · cases hnulls
    rfl

theorem Window.json_injective : Function.Injective Window.json := by
  intro v w h
  obtain ⟨hstart, hstop⟩ : v.bounds.1 = w.bounds.1 ∧ v.bounds.2 = w.bounds.2 := by
    simpa [json] using h
  have hs : (v.start : Int) = w.start := congrArg Json.Whole.value hstart
  have ht : (v.stop : Int) = w.stop := congrArg Json.Whole.value hstop
  simp only [stop] at ht
  exact Window.ext (by omega) (by omega)

namespace Document

/-- A document's own fields and its properties are told apart by their keys. -/
theorem ownFields_eq_filter (d : Document)
    (hfree : ∀ key ∈ Entries.keys d.properties, key ∉ Query.reservedKeys) :
    d.ownFields = d.fields.filter (fun e => Query.reservedKeys.contains e.1) ∧
      d.properties = d.fields.filter (fun e => !Query.reservedKeys.contains e.1) := by
  have hown : ∀ e ∈ d.ownFields, Query.reservedKeys.contains e.1 = true := fun e he =>
    List.contains_iff_mem.mpr (d.keys_ownFields_sublist.subset (List.mem_map_of_mem he))
  have hproperties : ∀ e ∈ d.properties, Query.reservedKeys.contains e.1 = false := fun e he => by
    rw [← Bool.not_eq_true, List.contains_iff_mem]
    exact hfree e.1 (List.mem_map_of_mem he)
  rw [fields, List.filter_append, List.filter_append]
  constructor
  · rw [List.filter_eq_self.mpr hown, List.filter_eq_nil_iff.mpr, List.append_nil]
    intro e he
    rw [hproperties e he]
    exact Bool.false_ne_true
  · rw [List.filter_eq_nil_iff.mpr, List.filter_eq_self.mpr, List.nil_append]
    · intro e he
      rw [hproperties e he]
      rfl
    · intro e he
      rw [hown e he]
      exact Bool.false_ne_true

/-- What stands under the keys of the document. -/
theorem get?_ownFields (d : Document) :
    Entries.get? "markets" d.ownFields = some (.ofStrings d.markets) ∧
    Entries.get? "symbols" d.ownFields = d.symbols.map Symbols.json ∧
    Entries.get? "columns" d.ownFields = some (.ofStrings d.columns) ∧
    Entries.get? "filter" d.ownFields = Json.nonempty? Condition.json d.filter ∧
    Entries.get? "filter2" d.ownFields = d.filterTree.map FilterTree.json ∧
    Entries.get? "sort" d.ownFields = some d.order.json ∧
    Entries.get? "range" d.ownFields = some d.window.json := by
  unfold ownFields
  cases d.symbols <;> cases d.filter <;> cases d.filterTree <;>
    simp [Entries.get?, Json.nonempty?]

/-- The document with all operands made plain. -/
def plain (d : Document) : Document :=
  { d with filter := d.filter.map Condition.plain, filterTree := d.filterTree.map FilterTree.plain }

theorem json_plain (d : Document) : d.plain.json = d.json := by
  have hfilter : (d.filter.map Condition.plain).map Condition.json = d.filter.map Condition.json := by
    rw [List.map_map]
    exact List.map_congr_left fun c _ => c.json_plain
  have hfields : d.plain.ownFields = d.ownFields := by
    unfold ownFields plain
    simp only [hfilter, List.isEmpty_map]
    cases d.filterTree with
    | none => rfl
    | some t => simp only [Option.map_some, FilterTree.json_plain]
  rw [json, json, fields, fields, hfields]
  rfl

/-- A document is known by its fields, but for the kind of its operands. -/
theorem plain_eq_of_ownFields_eq {d e : Document} (hown : d.ownFields = e.ownFields)
    (hproperties : d.properties = e.properties) : d.plain = e.plain := by
  obtain ⟨hmarkets, hsymbols, hcolumns, hfilter, htree, horder, hwindow⟩ := d.get?_ownFields
  obtain ⟨hmarkets', hsymbols', hcolumns', hfilter', htree', horder', hwindow'⟩ := e.get?_ownFields
  rw [hown] at hmarkets hsymbols hcolumns hfilter htree horder hwindow
  have markets : d.markets = e.markets :=
    Json.ofStrings_injective (Option.some.inj (hmarkets.symm.trans hmarkets'))
  have symbols : d.symbols = e.symbols :=
    Option.map_injective Symbols.json_injective (hsymbols.symm.trans hsymbols')
  have columns : d.columns = e.columns :=
    Json.ofStrings_injective (Option.some.inj (hcolumns.symm.trans hcolumns'))
  have filter : d.filter.map Condition.plain = e.filter.map Condition.plain :=
    Condition.map_plain_eq (Json.map_eq_of_nonempty?_eq (hfilter.symm.trans hfilter'))
  have tree : d.filterTree.map FilterTree.plain = e.filterTree.map FilterTree.plain :=
    FilterTree.map_plain_eq (htree.symm.trans htree')
  have order : d.order = e.order :=
    Order.json_injective (Option.some.inj (horder.symm.trans horder'))
  have window : d.window = e.window :=
    Window.json_injective (Option.some.inj (hwindow.symm.trans hwindow'))
  rw [plain, plain, markets, symbols, columns, filter, tree, order, window, hproperties]

theorem plain_eq_of_json_eq {d e : Document}
    (hd : ∀ key ∈ Entries.keys d.properties, key ∉ Query.reservedKeys)
    (he : ∀ key ∈ Entries.keys e.properties, key ∉ Query.reservedKeys) (h : d.json = e.json) :
    d.plain = e.plain := by
  obtain ⟨hdown, hdproperties⟩ := d.ownFields_eq_filter hd
  obtain ⟨heown, heproperties⟩ := e.ownFields_eq_filter he
  have hfields : d.fields = e.fields := Json.object.inj h
  rw [hfields] at hdown hdproperties
  exact plain_eq_of_ownFields_eq (hdown.trans heown.symm) (hdproperties.trans heproperties.symm)

end Document

namespace Query

/-- The query with all operands made plain. -/
def plain (q : Query) : Query :=
  { q with filter := q.filter.map Condition.plain, filterTree := q.filterTree.map FilterTree.plain }

theorem document_plain (q : Query) : q.plain.document = q.document.plain := rfl

/-- The symbols that a document leaves out select nothing. -/
theorem symbols_document_inj {q r : Query} :
    q.document.symbols = r.document.symbols ↔ q.symbols = r.symbols := by
  constructor
  · intro h
    have hsymbols : (if q.symbols.isEmpty then none else some q.symbols) =
        if r.symbols.isEmpty then none else some r.symbols := h
    split at hsymbols <;> split at hsymbols
    · next hq hr => rw [Symbols.eq_none_of_isEmpty hq, Symbols.eq_none_of_isEmpty hr]
    · cases hsymbols
    · cases hsymbols
    · exact Option.some.inj hsymbols
  · intro h
    rw [document, document, h]

theorem document_injective : Function.Injective Query.document := by
  intro q r h
  have symbols : q.symbols = r.symbols := symbols_document_inj.mp (congrArg Document.symbols h)
  cases q
  cases r
  simp_all [document]

/-- **Two queries send the same text exactly when they are the same but for the kind of their
operands.** -/
theorem text_eq_iff {q r : Query} (hq : q.Reachable) (hr : r.Reachable)
    (hqint : q.Holds Json.Integral) (hrint : r.Holds Json.Integral) :
    q.text = r.text ↔ q.plain = r.plain := by
  constructor
  · intro h
    have hjson : q.document.json = r.document.json :=
      Json.compact_injective (hq.holds_json Json.hereditary_integral hqint) hq.keysDistinct
        (hr.holds_json Json.hereditary_integral hrint) hr.keysDistinct h
    have hplain : q.document.plain = r.document.plain :=
      Document.plain_eq_of_json_eq hq.not_reserved hr.not_reserved hjson
    exact document_injective hplain
  · intro h
    have hjson : q.document.json = r.document.json := by
      rw [← Document.json_plain q.document, ← Document.json_plain r.document, ← document_plain, h,
        document_plain]
    rw [text, text, hjson]

/-- Calls that compare two columns, each with an operand that may be of any kind. -/
def compared (other ends : Operand) : List Call :=
  [.addConditions [⟨"close", .greater, some other⟩],
   .setFilterTree (.leaf ⟨"volume", .inRange, some ends⟩)]

theorem holds_compared {p : Json → Prop} {other ends : Operand} (ho : other.Holds p)
    (he : ends.Holds p) : ∀ c ∈ compared other ends, c.Holds p := by
  simp [compared, Call.Holds, Condition.Holds, FilterTree.Holds, ho, he]

/-- A field is not told from a string, nor a range from an array. One field is told from another. -/
theorem text_compared :
    (ofCalls (compared (.field "open") (.range (.ofUInt64 1) (.ofUInt64 9)))).text =
      (ofCalls (compared (.ofString "open") (.value (.array [.ofUInt64 1, .ofUInt64 9])))).text ∧
    (ofCalls (compared (.field "open") (.range (.ofUInt64 1) (.ofUInt64 9)))).text ≠
      (ofCalls (compared (.field "high") (.range (.ofUInt64 1) (.ofUInt64 9)))).text := by
  have hfield (p : Json → Prop) (hp : Json.Hereditary p) (name : String) :
      ∀ c ∈ compared (.field name) (.range (.ofUInt64 1) (.ofUInt64 9)), c.Holds p :=
    holds_compared trivial ⟨hp.whole _, hp.whole _⟩
  have hstring (p : Json → Prop) (hp : Json.Hereditary p) :
      ∀ c ∈ compared (.ofString "open") (.value (.array [.ofUInt64 1, .ofUInt64 9])), c.Holds p := by
    refine holds_compared (hp.string _) (hp.array fun j hj => ?_)
    rcases List.mem_pair.mp hj with rfl | rfl <;> exact hp.whole _
  have hdistinct := Json.hereditary_keysDistinct
  have hint := Json.hereditary_integral
  constructor
  · exact (text_eq_iff ⟨_, hfield _ hdistinct "open", rfl⟩ ⟨_, hstring _ hdistinct, rfl⟩
      (holds_ofCalls (hfield _ hint "open")) (holds_ofCalls (hstring _ hint))).mpr rfl
  · intro h
    have hplain := (text_eq_iff ⟨_, hfield _ hdistinct "open", rfl⟩ ⟨_, hfield _ hdistinct "high", rfl⟩
      (holds_ofCalls (hfield _ hint "open")) (holds_ofCalls (hfield _ hint "high"))).mp h
    have hfilter := congrArg Query.filter hplain
    simp [ofCalls, compared, apply, addConditions, setFilterTree, default, plain, Condition.plain,
      Operand.plain, Operand.json] at hfilter

end Query

end MarketScan
