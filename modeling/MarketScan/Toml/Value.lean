import MarketScan.Entries
import MarketScan.Numeric.Decimal

/-!
# TOML values and tables

The values of a TOML document, and the rules by which keys and headers put them into tables.

A table knows how it came about, because that decides who may still add to it: a header opens a table
once, dotted keys may add to a table that has no header of its own and make it theirs, and an inline
table is closed.

* `Table.assign` — the effect of a key and its value
* `Table.fillTable`, `Table.addElement` — the effect of the two kinds of headers
-/

namespace MarketScan.Toml

/-- Why a text is not a document. -/
inductive Fault where
  /-- It is not written by the rules. -/
  | unreadable
  /-- A key has too many parts. -/
  | longKey
deriving DecidableEq

/-- A number as it is written. It may be too large for whoever reads it, or not be one at all. -/
inductive Numeral where
  /-- A base, and a sign and digits of the base without the underscores between them. -/
  | whole (base : Nat) (text : List Char)
  /-- A number with a fraction or an exponent. -/
  | decimal (negative : Bool) (d : Numeric.Decimal)
  | infinite (negative : Bool)
  | nan
deriving DecidableEq

/-- A value without parts. A date or time is held by its text in normal form. -/
inductive Scalar where
  | text (s : String)
  | number (n : Numeral)
  | boolean (b : Bool)
  | moment (text : String)
deriving DecidableEq

/-- How a table came about. -/
inductive Origin where
  /-- By a header of its own; the document itself counts as such. -/
  | header
  /-- By the header of a table inside it. -/
  | implied
  /-- By a dotted key, or by headers of tables inside it before a dotted key led through it. -/
  | dotted
  /-- Between braces. -/
  | inline
deriving DecidableEq

inductive Value where
  | scalar (s : Scalar)
  /-- An array between brackets, or one that headers add tables to. -/
  | array (byHeaders : Bool) (items : List Value)
  | table (origin : Origin) (entries : List (String × Value))

/-- A table with how it came about. -/
structure Table where
  origin : Origin
  entries : List (String × Value)

namespace Table

/-- The table of a document before its first line. -/
def root : Table := ⟨.header, []⟩

def toValue (t : Table) : Value := .table t.origin t.entries

def get? (key : String) (t : Table) : Option Value := Entries.get? key t.entries

def set (key : String) (v : Value) (t : Table) : Table :=
  { t with entries := Entries.insert key v t.entries }

/--
Changes the table at a path, and makes the tables on the way that are not there. A header passes
through any table but an inline one. A dotted key passes only through tables that have no header of
their own, and makes them its own. Both pass through the last table of an array that headers make.
-/
def alter (byKey : Bool) (change : Table → Except Fault Table) :
    List String → Table → Except Fault Table
  | [], t => change t
  | key :: path, t =>
    match t.get? key with
    | none => do
      let inner ← alter byKey change path ⟨if byKey then .dotted else .implied, []⟩
      .ok (t.set key inner.toValue)
    | some (.table origin entries) =>
      if origin = .inline || (byKey && origin = .header) then .error .unreadable
      else do
        let inner ← alter byKey change path ⟨if byKey then .dotted else origin, entries⟩
        .ok (t.set key inner.toValue)
    | some (.array true items) =>
      match items.getLast? with
      | some (.table origin entries) => do
        let inner ← alter byKey change path ⟨origin, entries⟩
        .ok (t.set key (.array true (items.dropLast ++ [inner.toValue])))
      | _ => .error .unreadable
    | some _ => .error .unreadable

/-- The table with one more key, which must be new. -/
def add (key : String) (v : Value) (t : Table) : Except Fault Table :=
  match t.get? key with
  | none => .ok (t.set key v)
  | some _ => .error .unreadable

/-- The effect of a dotted key and its value. The last part of a key that has dots goes into a table
that dotted keys made. -/
def assign (path : List String) (key : String) (v : Value) (t : Table) : Except Fault Table :=
  alter true
    (fun inner =>
      if path.isEmpty || inner.origin = .dotted then inner.add key v else .error .unreadable) path t

/-- The effect of a header and what stands below it. The table is new, or was only implied before;
`fill` adds what stands below the header. -/
def fillTable (path : List String) (key : String) (fill : Table → Except Fault Table) (t : Table) :
    Except Fault Table :=
  alter false
    (fun outer => match outer.get? key with
      | none => do .ok (outer.set key (← fill ⟨.header, []⟩).toValue)
      | some (.table .implied entries) => do .ok (outer.set key (← fill ⟨.header, entries⟩).toValue)
      | some _ => .error .unreadable) path t

/-- The effect of a header in double brackets: one more table in an array of such. -/
def addElement (path : List String) (key : String) (t : Table) (element : Table) :
    Except Fault Table :=
  alter false
    (fun outer => match outer.get? key with
      | none => .ok (outer.set key (.array true [element.toValue]))
      | some (.array true items) => .ok (outer.set key (.array true (items ++ [element.toValue])))
      | some _ => .error .unreadable) path t

end Table

end MarketScan.Toml
