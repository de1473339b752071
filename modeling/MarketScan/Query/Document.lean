import MarketScan.Query.Basic
import MarketScan.Json.Printer

/-!
# Scan documents

The document that a query is sent as. It leaves out symbols, conditions and a filter tree that are
not there, and ends with the further properties.

* `Query.document` — the document of a query
* `Document.json` — its JSON value
* `Query.same`, `Document.same` — equality, where properties and JSON objects have no order
-/

namespace MarketScan

/-- What is sent for a query. -/
structure Document where
  markets : List String
  symbols : Option Symbols
  columns : List String
  filter : List Condition
  filterTree : Option FilterTree
  order : Order
  window : Window
  properties : List (String × Json)

namespace Document

/-- The language in which names are answered. -/
def language : String := "en"

/-- The fields that are not further properties, with those left out that are not there. -/
def ownFields (d : Document) : List (String × Json) :=
  [("markets", .ofStrings d.markets)] ++
  (match d.symbols with
    | some s => [("symbols", s.json)]
    | none => []) ++
  [("options", .object [("lang", .string language)]), ("columns", .ofStrings d.columns)] ++
  (if d.filter.isEmpty then [] else [("filter", .array (d.filter.map Condition.json))]) ++
  (match d.filterTree with
    | some t => [("filter2", t.json)]
    | none => []) ++
  [("sort", d.order.json), ("range", d.window.json)]

/-- The fields of the document. -/
def fields (d : Document) : List (String × Json) := d.ownFields ++ d.properties

def json (d : Document) : Json := .object d.fields

end Document

/-! ## Equality -/

/-- Equality of optional filter trees. -/
def FilterTree.sameOption : Option FilterTree → Option FilterTree → Bool
  | none, none => true
  | some t, some u => t.same u
  | _, _ => false

namespace Document

def same (d e : Document) : Bool :=
  d.markets == e.markets && d.symbols == e.symbols && d.columns == e.columns &&
  Condition.sameAll d.filter e.filter && FilterTree.sameOption d.filterTree e.filterTree &&
  d.order == e.order && d.window == e.window &&
  (Json.object d.properties).same (.object e.properties)

end Document

namespace Query

/-- The document of a query. -/
def document (q : Query) : Document where
  markets := q.markets
  symbols := if q.symbols.isEmpty then none else some q.symbols
  columns := q.columns
  filter := q.filter
  filterTree := q.filterTree
  order := q.order
  window := q.window
  properties := q.properties

def same (q r : Query) : Bool :=
  q.markets == r.markets && q.symbols == r.symbols && q.columns == r.columns &&
  Condition.sameAll q.filter r.filter && FilterTree.sameOption q.filterTree r.filterTree &&
  q.order == r.order && q.window == r.window &&
  (Json.object q.properties).same (.object r.properties)

/-- The text that is sent. -/
def text (q : Query) : String := q.document.json.compact

/-- The text with one item a line. -/
def prettyText (q : Query) : String := q.document.json.pretty

end Query

end MarketScan
