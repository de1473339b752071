import MarketScan.Entries
import MarketScan.Reply.Basic

/-!
# Tables of named values

A table is a reply whose values are named by the columns that were asked for. Values and columns are
paired from the left as far as both go. A column that occurs twice keeps its first place and its last
value. The key `symbol` belongs to the ticker, so a column of that name is left out.

* `Reply.table` — the table of a reply
* `Table.json` — the table in a document
-/

namespace MarketScan

/-- The values of one row by name. -/
structure Record where
  symbol : String
  fields : List (String × Json)

/-- Records with the total count of the reply. -/
structure Table where
  totalCount : UInt64
  records : List Record

namespace Record

/-- The key of the ticker. -/
def symbolKey : String := "symbol"

/-- The value of a column. -/
def get? (r : Record) (column : String) : Option Json := Entries.get? column r.fields

def json (r : Record) : Json := .object ((symbolKey, .string r.symbol) :: r.fields)

/-- The values of a row, named by columns. -/
def ofRow (columns : List String) (row : Row) : Record where
  symbol := row.ticker
  fields := Entries.ofList ((columns.zip row.values).filter fun (column, _) => column ≠ symbolKey)

end Record

/-- The table of a reply. -/
def Reply.table (columns : List String) (r : Reply) : Table :=
  ⟨r.totalCount, r.rows.map (Record.ofRow columns)⟩

namespace Table

def json (t : Table) : Json :=
  .object [("totalCount", .ofUInt64 t.totalCount), ("data", .array (t.records.map Record.json))]

end Table

end MarketScan
