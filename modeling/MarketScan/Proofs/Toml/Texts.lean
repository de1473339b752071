import MarketScan.Proofs.Entries
import MarketScan.Proofs.Toml.Lines
import MarketScan.Toml.Document

/-!
# Documents of texts

Texts under any keys, some at the top and others in tables, can be written as a document. Reading gives
back each text under its key, as long as no key is repeated where it stands.

* `Toml.Texts` — texts by their keys
* `Texts.write` — the document
* `Texts.sections?_write` — its sections
* `Texts.parse_write` — what is read from it
-/

namespace MarketScan.Toml

/-- Texts by their keys, at the top and in tables. -/
structure Texts where
  top : List (String × String)
  tables : List (String × List (String × String))

/-- The value of a text. -/
def Value.ofText (text : String) : Value := .scalar (.text text)

namespace Texts

open Entries (mapValues)

/-- The text of a table with its header. -/
def writeTable (t : String × List (String × String)) : List Char :=
  writeHeader t.1 ++ t.2.flatMap writePair

def write (d : Texts) : String :=
  String.ofList (d.top.flatMap writePair ++ d.tables.flatMap writeTable)

/-- The value of a table. -/
def tableValue (es : List (String × String)) : Value := .table .header (mapValues .ofText es)

def entries (d : Texts) : List (String × Value) :=
  mapValues .ofText d.top ++ mapValues tableValue d.tables

/-- No key is repeated where it stands. -/
structure Distinct (d : Texts) : Prop where
  top : (Entries.keys d.top ++ Entries.keys d.tables).Nodup
  tables : ∀ t ∈ d.tables, (Entries.keys t.2).Nodup

/-! ### Tokens and lines -/

def tableTokens (t : String × List (String × String)) : List Token :=
  headerTokens t.1 ++ t.2.flatMap pairTokens

def tableLines (t : String × List (String × String)) : List Line :=
  headerLine t.1 :: t.2.map pairLine

/-- What is read item by item is read for any number of items. -/
theorem read_flatMap {α σ τ : Type} (read : List σ → Option (List τ)) {f : α → List σ}
    {g : α → List τ} (h : ∀ a s ts, read s = some ts → read (f a ++ s) = some (g a ++ ts))
    (as : List α) {s : List σ} {ts : List τ} (hs : read s = some ts) :
    read (as.flatMap f ++ s) = some (as.flatMap g ++ ts) := by
  induction as with
  | nil => exact hs
  | cons a as ih =>
    rw [List.flatMap_cons, List.flatMap_cons, List.append_assoc, List.append_assoc]
    exact h a _ _ ih

theorem scan?_pairs (es : List (String × String)) {s : List Char} {ts : List Token}
    (h : Token.scan? s = some ts) :
    Token.scan? (es.flatMap writePair ++ s) = some (es.flatMap pairTokens ++ ts) :=
  read_flatMap Token.scan? (f := writePair) (fun e _ _ h => Token.scan?_writePair h e) es h

theorem lines?_pairs (es : List (String × String)) {ts : List Token} {lines : List Line}
    (h : lines? ts = some lines) :
    lines? (es.flatMap pairTokens ++ ts) = some (es.map pairLine ++ lines) := by
  rw [List.map_eq_flatMap]
  exact read_flatMap lines? (f := pairTokens) (fun e _ _ h => lines?_pairTokens h e) es h

theorem scan?_tables (tables : List (String × List (String × String))) :
    Token.scan? (tables.flatMap writeTable) = some (tables.flatMap tableTokens) := by
  have htable (t : String × List (String × String)) (s : List Char) (ts : List Token)
      (h : Token.scan? s = some ts) :
      Token.scan? (writeTable t ++ s) = some (tableTokens t ++ ts) := by
    rw [writeTable, tableTokens, List.append_assoc, List.append_assoc]
    exact Token.scan?_writeHeader (scan?_pairs t.2 h) t.1
  simpa using read_flatMap Token.scan? htable tables (s := []) rfl

theorem lines?_tables (tables : List (String × List (String × String))) :
    lines? (tables.flatMap tableTokens) = some (tables.flatMap tableLines) := by
  have htable (t : String × List (String × String)) (ts : List Token) (lines : List Line)
      (h : lines? ts = some lines) : lines? (tableTokens t ++ ts) = some (tableLines t ++ lines) := by
    rw [tableTokens, List.append_assoc]
    exact lines?_headerTokens (lines?_pairs t.2 h) t.1
  simpa using read_flatMap lines? htable tables (s := []) rfl

/-! ### Sections -/

/-- A text under a key, as it is written. -/
def pair (e : String × String) : Key × Item := ([.text e.1], .scalar (some (.text e.2)))

def tableSection (t : String × List (String × String)) : Section :=
  ⟨some (.table [.text t.1]), t.2.map pair⟩

theorem gather_pairs (es : List (String × String)) (lines : List Line) :
    Section.gather (es.map pairLine ++ lines) =
      (es.map pair ++ (Section.gather lines).1, (Section.gather lines).2) := by
  induction es with
  | nil => rfl
  | cons e es ih =>
    show Section.gather (pairLine e :: (es.map pairLine ++ lines)) = _
    rw [pairLine, Section.gather, ih]
    rfl

theorem gather_tables (tables : List (String × List (String × String))) :
    Section.gather (tables.flatMap tableLines) = ([], tables.map tableSection) := by
  induction tables with
  | nil => rfl
  | cons t tables ih =>
    show Section.gather (headerLine t.1 :: (t.2.map pairLine ++ tables.flatMap tableLines)) = _
    rw [headerLine, Section.gather, gather_pairs, ih, List.append_nil]
    rfl

end Texts

theorem dropMark_of_head?_ne {s : List Char} (h : s.head? ≠ some '\uFEFF') : dropMark s = s := by
  cases s with
  | nil => rfl
  | cons c s =>
    unfold dropMark
    split
    · next heq =>
      cases heq
      exact absurd rfl h
    · rfl

theorem head?_writeKey (key : String) (s : List Char) : (writeKey key ++ s).head? ≠ some '\uFEFF' := by
  unfold writeKey
  split
  · next hbare =>
    obtain ⟨c, cs, hkey, hall⟩ := exists_of_isBareWord hbare
    rw [hkey]
    rintro ⟨⟩
    have hmark := hall '\uFEFF' List.mem_cons_self
    revert hmark
    decide
  · rw [Quoted.write_append]
    rintro ⟨⟩

namespace Texts

open Entries (mapValues)

/-- A written text begins with no byte order mark. -/
theorem dropMark_write (d : Texts) : dropMark d.write.toList = d.write.toList := by
  refine dropMark_of_head?_ne ?_
  obtain ⟨top, tables⟩ := d
  rw [write, String.toList_ofList]
  cases top with
  | cons e top =>
    rw [List.flatMap_cons, writePair]
    simp only [List.append_assoc]
    exact head?_writeKey e.1 _
  | nil =>
    cases tables with
    | nil =>
      rintro ⟨⟩
    | cons t tables =>
      show some '[' ≠ some '\uFEFF'
      decide

theorem sections?_write (d : Texts) :
    sections? d.write = some (⟨none, d.top.map pair⟩ :: d.tables.map tableSection) := by
  have hscan := scan?_pairs d.top (scan?_tables d.tables)
  have hlines := lines?_pairs d.top (lines?_tables d.tables)
  rw [lines?] at hlines
  rw [sections?, dropMark_write, write, String.toList_ofList, hscan]
  show Section.ofTokens? _ = _
  rw [Section.ofTokens?, hlines]
  show some (_ :: _) = _
  rw [gather_pairs, gather_tables, List.append_nil]

/-! ### Tables -/

theorem assign_text {t : Table} {key : String} (h : key ∉ Entries.keys t.entries) (v : Value) :
    t.assign [] key v = .ok { t with entries := t.entries ++ [(key, v)] } := by
  have hget : t.get? key = none := Entries.get?_eq_none_iff.mpr h
  show t.add key v = _
  rw [Table.add, hget]
  show Except.ok (t.set key v) = _
  rw [Table.set, Entries.insert_of_not_mem h]

/-- One more of several new keys. -/
theorem nodup_keys_concat {α : Type} {es : List (String × α)} {key : String} {others : List String}
    (h : (Entries.keys es ++ key :: others).Nodup) (v : α) :
    key ∉ Entries.keys es ∧ (Entries.keys (es ++ [(key, v)]) ++ others).Nodup := by
  constructor
  · exact fun hmem => (List.nodup_append.mp h).2.2 key hmem key List.mem_cons_self rfl
  · have hkeys : Entries.keys (es ++ [(key, v)]) = Entries.keys es ++ [key] := by simp [Entries.keys]
    rwa [hkeys, List.append_assoc]

theorem read_key (key : String) : Key.read [.text key] = .ok ([], key) := rfl

/-- Texts under new keys come after what is there. -/
theorem assignPairs_texts {es : List (String × String)} {t : Table}
    (h : (Entries.keys t.entries ++ Entries.keys es).Nodup) :
    assignPairs t (es.map pair) = .ok { t with entries := t.entries ++ mapValues .ofText es } := by
  induction es generalizing t with
  | nil =>
    show Except.ok t = _
    rw [mapValues, List.map_nil, List.append_nil]
  | cons e es ih =>
    obtain ⟨hnew, hrest⟩ := nodup_keys_concat h (.ofText e.2)
    show assignPairs t (([.text e.1], .scalar (some (.text e.2))) :: es.map pair) = _
    rw [assignPairs, read_key, Item.read]
    show (t.assign [] e.1 (.ofText e.2) >>= fun t => assignPairs t (es.map pair)) = _
    rw [assign_text hnew]
    show assignPairs ⟨t.origin, t.entries ++ [(e.1, .ofText e.2)]⟩ (es.map pair) = _
    rw [ih hrest, List.append_assoc]
    rfl

theorem addSection_table {t : Table} {table : String × List (String × String)}
    (hkey : table.1 ∉ Entries.keys t.entries) (h : (Entries.keys table.2).Nodup) :
    t.addSection (tableSection table) =
      .ok { t with entries := t.entries ++ [(table.1, tableValue table.2)] } := by
  have hget : t.get? table.1 = none := Entries.get?_eq_none_iff.mpr hkey
  have hfill := assignPairs_texts (t := ⟨.header, []⟩) h
  show (Key.read [.text table.1] >>= fun key => t.fillTable key.1 key.2 _) = _
  rw [read_key]
  show t.fillTable [] table.1 (assignPairs · (table.2.map pair)) = _
  rw [Table.fillTable, Table.alter, hget]
  dsimp only
  rw [hfill]
  show Except.ok (t.set table.1 _) = _
  rw [Table.set, Entries.insert_of_not_mem hkey]
  rfl

theorem foldlM_addSection {tables : List (String × List (String × String))} {t : Table}
    (hkeys : (Entries.keys t.entries ++ Entries.keys tables).Nodup)
    (h : ∀ table ∈ tables, (Entries.keys table.2).Nodup) :
    (tables.map tableSection).foldlM Table.addSection t =
      .ok { t with entries := t.entries ++ mapValues tableValue tables } := by
  induction tables generalizing t with
  | nil =>
    show Except.ok t = _
    rw [mapValues, List.map_nil, List.append_nil]
  | cons table tables ih =>
    obtain ⟨htable, htables⟩ := List.forall_mem_cons.mp h
    obtain ⟨hnew, hrest⟩ := nodup_keys_concat hkeys (tableValue table.2)
    rw [List.map_cons, List.foldlM_cons, addSection_table hnew htable]
    show (tables.map tableSection).foldlM Table.addSection _ = _
    rw [ih hrest htables, List.append_assoc]
    rfl

/-- **A document of texts is read back.** -/
theorem parse_write {d : Texts} (h : d.Distinct) : parse d.write = .ok d.entries := by
  have hparts := List.nodup_append.mp h.top
  have htop : Table.root.addSection ⟨none, d.top.map pair⟩ =
      .ok ⟨.header, mapValues .ofText d.top⟩ :=
    assignPairs_texts (t := .root) hparts.1
  have hkeys : (Entries.keys (mapValues Value.ofText d.top) ++ Entries.keys d.tables).Nodup := by
    rw [Entries.keys_mapValues]
    exact h.top
  rw [parse, sections?_write]
  dsimp only
  rw [List.foldlM_cons, htop]
  show ((d.tables.map tableSection).foldlM Table.addSection _ >>= _) = _
  rw [foldlM_addSection hkeys h.tables]
  rfl

end Texts

end MarketScan.Toml
