import MarketScan.Toml.Section

/-!
# Reading TOML

`Toml.parse` reads a TOML 1.1 document into its table. A byte order mark at the start is skipped.
Whether the text is built by the rules is settled for all of it before anything else. Then keys and
values are read in their order, and the first fault counts.

* `Item.read`, `Toml.assignPairs` — values, and keys with their values
* `Table.addSection` — sections
-/

namespace MarketScan.Toml

/-! ## Keys -/

/-- How many parts a key may have. -/
def maxKeyParts : Nat := 80

/-- The text of a part of a key. -/
def Part.read : Part → Except Fault String
  | .text s => .ok s
  | .unreadable => .error .unreadable
  | .missing => .error .unreadable

/-- A key by all its parts but the last, and the last. That it has too many of them counts after
what is wrong with any of them. -/
def Key.read (key : Key) : Except Fault (List String × String) := do
  let parts ← key.mapM Part.read
  if maxKeyParts < parts.length then .error .longKey
  else match parts.getLast? with
    | some last => .ok (parts.dropLast, last)
    | none => .error .unreadable

/-! ## Values -/

mutual

/-- The value that is written. -/
def Item.read : Item → Except Fault Value
  | .scalar (some x) => .ok (.scalar x)
  | .scalar none => .error .unreadable
  | .array items => do .ok (.array false (← readItems items))
  | .table pairs => do .ok (← assignPairs ⟨.inline, []⟩ pairs).toValue

/-- The values that are written, in their order. -/
def readItems : List Item → Except Fault (List Value)
  | [] => .ok []
  | item :: items => do
    let x ← item.read
    .ok (x :: (← readItems items))

/-- The table after keys and their values. -/
def assignPairs (t : Table) : List (Key × Item) → Except Fault Table
  | [] => .ok t
  | (key, item) :: pairs => do
    let (path, last) ← Key.read key
    let x ← item.read
    assignPairs (← t.assign path last x) pairs

end

/-! ## Documents -/

/-- The table of a document after one more section. -/
def Table.addSection (t : Table) (s : Section) : Except Fault Table :=
  match s.header with
  | none => assignPairs t s.pairs
  | some (.table key) => do
    let (path, last) ← Key.read key
    t.fillTable path last (assignPairs · s.pairs)
  | some (.element key) => do
    let (path, last) ← Key.read key
    t.addElement path last (← assignPairs ⟨.header, []⟩ s.pairs)

/-- The text without a byte order mark at its start. -/
def dropMark : List Char → List Char
  | '\uFEFF' :: s => s
  | s => s

/-- The sections of a text, if it is built by the rules. -/
def sections? (text : String) : Option (List Section) := do
  Section.ofTokens? (← Token.scan? (dropMark text.toList))

/-- The entries of a document. -/
def parse (text : String) : Except Fault (List (String × Value)) :=
  match sections? text with
  | none => .error .unreadable
  | some sections => do .ok (← sections.foldlM Table.addSection .root).entries

end MarketScan.Toml
