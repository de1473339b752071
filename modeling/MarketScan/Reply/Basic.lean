import MarketScan.Json.Printer

/-!
# Replies of a scan

A reply holds a total count and rows, each with a ticker and values in the order of the columns that
were asked for. `Reply.ofJson` reads one from a JSON value.

A reply and a row are objects, of which other keys are skipped, or arrays of their parts in order.
The rows, and the values of a row, may be left out. What is wrong first in document order is what is
reported: a part of the wrong kind before anything that is missing or too much.

* `Reply.ofJson`, `Reply.json` — reading and writing
* `Reply.Mismatch` — why a value is not a reply
-/

namespace MarketScan

/-- A ticker and its values. -/
structure Row where
  ticker : String
  values : List Json

/-- What a scan answers. -/
structure Reply where
  totalCount : UInt64
  rows : List Row

namespace Reply

/-! ## What may be wrong -/

/-- What was expected at a place. -/
inductive Expected where
  | reply
  | row
  | count
  | sequence
  | text
deriving DecidableEq

def Expected.words : Expected → String
  | .reply => "struct ScanResponse"
  | .row => "struct ScanRow"
  | .count => "u64"
  | .sequence => "a sequence"
  | .text => "a string"

/-- Why a value is not a reply. -/
inductive Mismatch where
  /-- A value of the wrong kind. -/
  | wrongKind (found : Json) (expected : Expected)
  /-- A whole number that is no count. -/
  | wrongNumber (n : Json.Whole) (expected : Expected)
  /-- An array without parts, where two are expected. -/
  | noParts (expected : Expected)
  /-- An array of more parts than two. -/
  | surplus (length : Nat)
  /-- An object without a key. -/
  | missing (key : String)

/-- The words for a mismatch. -/
def Mismatch.message : Mismatch → String
  | .wrongKind found expected => s!"invalid type: {found.describe}, expected {expected.words}"
  | .wrongNumber n expected =>
    s!"invalid value: integer `{String.ofList n.write}`, expected {expected.words}"
  | .noParts expected => s!"invalid length 0, expected {expected.words} with 2 elements"
  | .surplus length => s!"invalid length {length}, expected fewer elements in array"
  | .missing key => s!"missing field `{key}`"

/-! ## Reading -/

/-- A string. -/
def readText : Json → Except Mismatch String
  | .string s => .ok s
  | found => .error (.wrongKind found .text)

/-- An array. -/
def readSequence : Json → Except Mismatch (List Json)
  | .array items => .ok items
  | found => .error (.wrongKind found .sequence)

/-- A whole number without sign. -/
def readCount : Json → Except Mismatch UInt64
  | .number (.whole n) =>
    match n.toUInt64? with
    | some count => .ok count
    | none => .error (.wrongNumber n .count)
  | found => .error (.wrongKind found .count)

/-- A field of an object taken in: each of the two parts is read where it stands, and any other field
is skipped. -/
def takeField {α β : Type} (keys : String × String) (first : Json → Except Mismatch α)
    (second : Json → Except Mismatch (List β)) (parts : Option α × Option (List β))
    (field : String × Json) : Except Mismatch (Option α × Option (List β)) :=
  if field.1 = keys.1 then do .ok (some (← first field.2), parts.2)
  else if field.1 = keys.2 then do .ok (parts.1, some (← second field.2))
  else .ok parts

/-- Two parts of which the second may be left out, read by `first` and `second`. As an object they
have the keys of `keys`. -/
def readParts {α β : Type} (expected : Expected) (keys : String × String)
    (first : Json → Except Mismatch α) (second : Json → Except Mismatch (List β)) :
    Json → Except Mismatch (α × List β)
  | .array [] => .error (.noParts expected)
  | .array [a] => do .ok (← first a, [])
  | .array (a :: b :: more) => do
    let x ← first a
    let y ← second b
    if more.isEmpty then .ok (x, y) else .error (.surplus (more.length + 2))
  | .object fields => do
    let (x?, y?) ← fields.foldlM (takeField keys first second) (none, none)
    match x? with
    | some x => .ok (x, y?.getD [])
    | none => .error (.missing keys.1)
  | found => .error (.wrongKind found expected)

/-- One row. -/
def readRow (j : Json) : Except Mismatch Row := do
  let (ticker, values) ← readParts .row ("s", "d") readText readSequence j
  .ok ⟨ticker, values⟩

/-- The rows of a reply. -/
def readRows (j : Json) : Except Mismatch (List Row) := do
  (← readSequence j).mapM readRow

/-- The reply that a JSON value holds. -/
def ofJson (j : Json) : Except Mismatch Reply := do
  let (totalCount, rows) ← readParts .reply ("totalCount", "data") readCount readRows j
  .ok ⟨totalCount, rows⟩

/-! ## Writing -/

def rowJson (r : Row) : Json := .object [("s", .string r.ticker), ("d", .array r.values)]

/-- The reply as an object. -/
def json (r : Reply) : Json :=
  .object [("totalCount", .ofUInt64 r.totalCount), ("data", .array (r.rows.map rowJson))]

end Reply

end MarketScan
