import MarketScan.Filter.Tree
import MarketScan.Query.Window

/-!
# Queries

A query collects what a scan asks for: markets, symbols, columns, filters, order, window and further
properties. Every call returns the changed query, so a copy is the query itself.

Markets, columns and symbols are only replaced by lists that are not empty. Conditions and indexes
are added, all else is replaced.

* `Query.default` — what a scan asks for when nothing is said
* `Query.Call` — a call with its arguments, `Query.apply` — its effect
-/

namespace MarketScan

/-! ## Parts of a query -/

/-- Explicit tickers, and the indexes whose members are meant. -/
structure Symbols where
  tickers : Option (List String)
  /-- One list of indexes for each selection. -/
  indexes : List (List String)
deriving DecidableEq

namespace Symbols

def none : Symbols := ⟨.none, []⟩

/-- Whether nothing is selected. -/
def isEmpty (s : Symbols) : Bool := s.tickers.isNone && s.indexes.isEmpty

/-- A selection by index in a document. -/
def indexJson (values : List String) : Json :=
  .object [("type", .string "index"), ("values", .ofStrings values)]

def json (s : Symbols) : Json :=
  .object <|
    (match s.tickers with
      | some tickers => [("tickers", .ofStrings tickers)]
      | .none => []) ++
    if s.indexes.isEmpty then [] else [("groups", .array (s.indexes.map indexJson))]

end Symbols

inductive Direction where
  | ascending
  | descending
deriving DecidableEq

def Direction.code : Direction → String
  | .ascending => "asc"
  | .descending => "desc"

/-- The column that rows are ordered by. -/
structure Order where
  column : String
  direction : Direction
  nullsFirst : Option Bool
deriving DecidableEq

namespace Order

/-- By name, from A to Z. -/
def default : Order := ⟨"name", .ascending, none⟩

def json (o : Order) : Json :=
  .object <| [("sortBy", .string o.column), ("sortOrder", .string o.direction.code)] ++
    match o.nullsFirst with
    | some b => [("nullsFirst", .bool b)]
    | none => []

end Order

/-! ## Queries and calls -/

/-- What a scan asks for. -/
structure Query where
  markets : List String
  symbols : Symbols
  columns : List String
  filter : List Condition
  filterTree : Option FilterTree
  order : Order
  window : Window
  properties : List (String × Json)

namespace Query

def defaultMarket : String := "america"

def defaultColumns : List String := ["name", "close", "volume", "market_cap_basic"]

/-- The query of which nothing is said. -/
def default : Query where
  markets := [defaultMarket]
  symbols := .none
  columns := defaultColumns
  filter := []
  filterTree := none
  order := .default
  window := .default
  properties := []

/-- The market whose scan is asked for. -/
def primaryMarket (q : Query) : String := q.markets.headD defaultMarket

/-- The keys of a document that further properties cannot take. -/
def reservedKeys : List String :=
  ["markets", "symbols", "options", "columns", "filter", "filter2", "sort", "range"]

/-- Replaces the columns, unless none are given. -/
def select (columns : List String) (q : Query) : Query :=
  if columns.isEmpty then q else { q with columns }

/-- Replaces the markets, unless none are given. -/
def setMarkets (markets : List String) (q : Query) : Query :=
  if markets.isEmpty then q else { q with markets }

/-- Replaces the tickers, unless none are given. -/
def setTickers (tickers : List String) (q : Query) : Query :=
  if tickers.isEmpty then q else { q with symbols := { q.symbols with tickers := some tickers } }

/-- Adds a selection by index, unless no index is given. -/
def addIndexes (indexes : List String) (q : Query) : Query :=
  if indexes.isEmpty then q
  else { q with symbols := { q.symbols with indexes := q.symbols.indexes ++ [indexes] } }

/-- Adds conditions, all of which must hold. -/
def addConditions (conditions : List Condition) (q : Query) : Query :=
  { q with filter := q.filter ++ conditions }

/-- Replaces the filter tree. It is kept apart from the conditions. -/
def setFilterTree (tree : FilterTree) (q : Query) : Query :=
  { q with filterTree := some tree.asNode }

/-- Replaces the order. -/
def orderBy (column : String) (ascending nullsFirst : Bool) (q : Query) : Query :=
  { q with order := ⟨column, if ascending then .ascending else .descending, some nullsFirst⟩ }

/-- Asks for `n` rows. -/
def limit (n : UInt64) (q : Query) : Query := { q with window := q.window.limit n }

/-- Asks for the rows from `n` on. -/
def offset (n : UInt64) (q : Query) : Query := { q with window := q.window.offset n }

/-- Sets a further property, unless its key is reserved. -/
def setProperty (key : String) (value : Json) (q : Query) : Query :=
  if reservedKeys.contains key then q
  else { q with properties := Entries.insert key value q.properties }

/-- A call with its arguments. -/
inductive Call where
  | select (columns : List String)
  | setMarkets (markets : List String)
  | setTickers (tickers : List String)
  | addIndexes (indexes : List String)
  | addConditions (conditions : List Condition)
  | setFilterTree (tree : FilterTree)
  | orderBy (column : String) (ascending nullsFirst : Bool)
  | limit (n : UInt64)
  | offset (n : UInt64)
  | setProperty (key : String) (value : Json)

/-- The query after a call. -/
def apply (q : Query) : Call → Query
  | .select columns => q.select columns
  | .setMarkets markets => q.setMarkets markets
  | .setTickers tickers => q.setTickers tickers
  | .addIndexes indexes => q.addIndexes indexes
  | .addConditions conditions => q.addConditions conditions
  | .setFilterTree tree => q.setFilterTree tree
  | .orderBy column ascending nullsFirst => q.orderBy column ascending nullsFirst
  | .limit n => q.limit n
  | .offset n => q.offset n
  | .setProperty key value => q.setProperty key value

/-- The query after calls, made one after the other on the default query. -/
def ofCalls (calls : List Call) : Query := calls.foldl apply default

@[simp] theorem ofCalls_nil : ofCalls [] = default := rfl

theorem ofCalls_concat (calls : List Call) (c : Call) :
    ofCalls (calls ++ [c]) = (ofCalls calls).apply c := by
  simp [ofCalls]

end Query

end MarketScan
