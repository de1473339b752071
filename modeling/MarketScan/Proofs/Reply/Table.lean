import MarketScan.Proofs.Entries
import MarketScan.Proofs.Json.Injective
import MarketScan.Reply.Table

/-!
# What a table shows of a reply

Columns and values are paired as far as both go, and only then is the column left out whose name belongs
to the ticker, so that what stands behind it keeps its value. Of a column that occurs twice the record
has the first place and the last value. Nothing in a record can stand in for its ticker, and the text of
a table is the text of no other.

* `Row.paired` — how many columns of a row have a value
* `Record.Names` — a record names the values of a row
* `Record.names_ofRow`, `Record.keys_json_ofRow` — every record of a row, and its keys in a document
* `Table.json_injective` — tables of one document are the same
* `Reply.table_names` — the table of a reply
-/

namespace MarketScan

/-- How many columns have a value in a row. -/
def Row.paired (columns : List String) (row : Row) : Nat := min columns.length row.values.length

namespace Record

/-- The record names the values of the row by the columns. -/
structure Names (columns : List String) (row : Row) (record : Record) : Prop where
  symbol : record.symbol = row.ticker
  /-- Each name once, where it occurs first. -/
  keys : Entries.keys record.fields =
    ((columns.take (row.paired columns)).filter (· ≠ symbolKey)).eraseDups
  /-- Under each name the value at the last place of that name, and under no other name a value. -/
  get?_eq_some_iff (column : String) (value : Json) : record.get? column = some value ↔
    column ≠ symbolKey ∧ ∃ i < row.paired columns,
      columns[i]? = some column ∧ row.values[i]? = some value ∧
        ∀ j, i < j → j < row.paired columns → columns[j]? ≠ some column

theorem keys_zip (columns : List String) (row : Row) :
    Entries.keys (columns.zip row.values) = columns.take (row.paired columns) := by
  rw [Entries.keys, List.zip_eq_zip_take_min, ← Row.paired, List.map_fst_zip]
  rw [List.length_take, List.length_take, Row.paired]
  omega

/-- Values are paired with the columns at their places. -/
theorem lastValue_zip_eq_some_iff {columns : List String} {row : Row} {column : String} {value : Json} :
    Entries.lastValue column (columns.zip row.values) = some value ↔
      ∃ i < row.paired columns, columns[i]? = some column ∧ row.values[i]? = some value ∧
        ∀ j, i < j → j < row.paired columns → columns[j]? ≠ some column := by
  simp only [Entries.lastValue_eq_some_iff, Ne, List.getElem?_zip_eq_some]
  constructor
  · rintro ⟨i, ⟨hcolumn, hvalue⟩, hlast⟩
    obtain ⟨hi, -⟩ := List.getElem?_eq_some_iff.mp hcolumn
    obtain ⟨hi', -⟩ := List.getElem?_eq_some_iff.mp hvalue
    refine ⟨i, lt_min hi hi', hcolumn, hvalue, fun j hij hj hlater => ?_⟩
    obtain ⟨later, hvalue'⟩ : ∃ later, row.values[j]? = some later :=
      ⟨_, List.getElem?_eq_getElem (hj.trans_le (min_le_right _ _))⟩
    exact hlast j later hij ⟨hlater, hvalue'⟩
  · rintro ⟨i, -, hcolumn, hvalue, hlast⟩
    refine ⟨i, ⟨hcolumn, hvalue⟩, fun j later hij ⟨hlater, hvalue'⟩ => ?_⟩
    obtain ⟨hj, -⟩ := List.getElem?_eq_some_iff.mp hlater
    obtain ⟨hj', -⟩ := List.getElem?_eq_some_iff.mp hvalue'
    exact hlast j hij (lt_min hj hj') hlater

/-- The fields of a record are the pairs left after the column of the ticker is taken out. -/
theorem fields_ofRow (columns : List String) (row : Row) :
    (ofRow columns row).fields =
      Entries.ofList ((columns.zip row.values).filter fun e => decide (e.1 ≠ symbolKey)) := rfl

theorem names_ofRow (columns : List String) (row : Row) : Names columns row (ofRow columns row) where
  symbol := rfl
  keys := by
    rw [fields_ofRow, Entries.keys_ofList, Entries.keys_filter (fun key => decide (key ≠ symbolKey)),
      keys_zip]
  get?_eq_some_iff column value := by
    have hfound : (ofRow columns row).get? column =
        if column ≠ symbolKey then Entries.lastValue column (columns.zip row.values) else none := by
      rw [get?, fields_ofRow, Entries.get?_ofList,
        Entries.lastValue_filter (fun key => decide (key ≠ symbolKey))]
      simp
    rw [hfound, ← lastValue_zip_eq_some_iff]
    split
    · next hcolumn => exact (and_iff_right hcolumn).symm
    · next hcolumn => exact iff_of_false nofun fun h => hcolumn h.1

theorem symbolKey_not_mem_keys (columns : List String) (row : Row) :
    symbolKey ∉ Entries.keys (ofRow columns row).fields := by
  rw [(names_ofRow columns row).keys, List.mem_eraseDups, List.mem_filter]
  simp

/-- **The ticker has its key for itself**, and no other key is repeated. -/
theorem keys_json_ofRow (columns : List String) (row : Row) :
    ∃ fields, (ofRow columns row).json = .object fields ∧ (Entries.keys fields).Nodup ∧
      Entries.get? symbolKey fields = some (.string row.ticker) :=
  ⟨_, rfl, List.nodup_cons.mpr ⟨symbolKey_not_mem_keys columns row, Entries.nodup_ofList _⟩,
    if_pos rfl⟩

theorem json_injective {r s : Record} (h : r.json = s.json) : r = s := by
  obtain ⟨symbol, fields⟩ := r
  obtain ⟨symbol', fields'⟩ := s
  simpa [json] using h

end Record

theorem Json.ofUInt64_injective {m n : UInt64} (h : Json.ofUInt64 m = Json.ofUInt64 n) : m = n := by
  have hwhole : Json.Whole.ofUInt64 m = Json.Whole.ofUInt64 n := by simpa [Json.ofUInt64] using h
  have hread := congrArg Json.Whole.toUInt64? hwhole
  rwa [Json.Whole.toUInt64?_ofUInt64, Json.Whole.toUInt64?_ofUInt64, Option.some_inj] at hread

namespace Table

theorem json_injective {t u : Table} (h : t.json = u.json) : t = u := by
  obtain ⟨totalCount, records⟩ := t
  obtain ⟨totalCount', records'⟩ := u
  simp only [json, Json.object.injEq, Json.array.injEq, List.cons.injEq, Prod.mk.injEq, true_and,
    and_true, List.map_inj_right fun _ _ => Record.json_injective] at h
  rw [Json.ofUInt64_injective h.1, h.2]

/-- What a table was written as, with or without blanks, no other table was written as. -/
theorem text_injective {t u : Table} (h : t.json.compact = u.json.compact ∨ t.json.pretty = u.json.pretty) :
    t = u := by
  rw [Json.compact_inj, Json.pretty_inj, or_self_iff] at h
  exact json_injective h

end Table

/-- **A table has one record for each row, which names its values**, and its ticker by a key that no other
field has. So it is known from its text. -/
theorem Reply.table_names (columns : List String) (r : Reply) :
    (r.table columns).totalCount = r.totalCount ∧
    List.Forall₂ (Record.Names columns) r.rows (r.table columns).records ∧
    (∀ record ∈ (r.table columns).records, ∃ fields, record.json = .object fields ∧
      (Entries.keys fields).Nodup ∧
        Entries.get? Record.symbolKey fields = some (.string record.symbol)) ∧
    ∀ t : Table, t.json.compact = (r.table columns).json.compact ∨
      t.json.pretty = (r.table columns).json.pretty → t = r.table columns := by
  refine ⟨rfl, ?_, fun record hrecord => ?_, fun t => Table.text_injective⟩
  · rw [Reply.table, List.forall₂_map_right_iff]
    exact List.forall₂_same.mpr fun row _ => Record.names_ofRow columns row
  · obtain ⟨row, -, rfl⟩ := List.mem_map.mp hrecord
    exact Record.keys_json_ofRow columns row

/-- The column of the ticker takes its value along, and a later value takes an earlier place. -/
example : (Record.ofRow ["close", "symbol", "volume", "close", "name"]
    ⟨"BTC", [.null, .bool true, .bool false, .string "last"]⟩).fields =
      [("close", .string "last"), ("volume", .bool false)] := rfl

end MarketScan
