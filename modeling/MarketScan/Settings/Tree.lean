import MarketScan.Entries
import MarketScan.Numeric.Layout
import MarketScan.Settings.KeyPath
import MarketScan.Text.Quoted
import MarketScan.Toml.Value

/-!
# Trees of settings

What the sources of settings say, laid over each other. A table is merged into a table key by key;
any other value replaces what was there. A value remembers the file it came from, but a table that
results from merging belongs to no file.

* `Node.overlay` — a node laid over another
* `Node.place` — a node put at a key path
* `Node.ofToml` — the node of a TOML value, whose numbers must fit into 64 bits
* `Scalar.toText` — the text that a scalar gives to a text setting
-/

namespace MarketScan.Settings

open Numeric (Layout)

/-- A value of a setting without parts. -/
inductive Scalar where
  | text (s : String)
  | integer (n : Int)
  | float (x : Numeric.Extended)
  | boolean (b : Bool)

namespace Scalar

/-- Numbers in a text setting have all their digits and no needless point. -/
def plainLayout : Layout := ⟨.upward, fun _ => true, false⟩

/-- Numbers in a message keep a point. -/
def pointedLayout : Layout := ⟨.upward, fun _ => true, true⟩

/-- The text that a scalar gives to a text setting. -/
def toText : Scalar → String
  | .text s => s
  | .integer n => toString n
  | .float x => String.ofList (plainLayout.writeExtended x)
  | .boolean b => toString b

/-- What a message calls a scalar. -/
def describe : Scalar → String
  | .text s => s!"string {Text.quote s}"
  | .integer n => s!"integer `{n}`"
  | .float x => s!"floating point `{String.ofList (pointedLayout.writeExtended x)}`"
  | .boolean b => s!"boolean `{b}`"

end Scalar

/-- What is known of a setting. The items of a sequence are no setting and not kept. -/
inductive Node where
  | scalar (s : Scalar) (file : Option String)
  | sequence (file : Option String)
  | table (entries : List (String × Node))

namespace Node

/-- The file that a node comes from. -/
def file? : Node → Option String
  | .scalar _ file => file
  | .sequence file => file
  | .table _ => none

/-- The entries of a table; any other node has none. -/
def entriesOf : Option Node → List (String × Node)
  | some (.table es) => es
  | _ => []

/-! ## Merging -/

mutual

/-- A node laid over another. -/
def overlay (old : Option Node) : Node → Node
  | .table es => .table (overlayEntries (entriesOf old) es)
  | n => n

/-- Entries laid over entries. -/
def overlayEntries (old : List (String × Node)) : List (String × Node) → List (String × Node)
  | [] => old
  | (key, n) :: es =>
    overlayEntries (Entries.insert key (overlay (Entries.get? key old) n) old) es

end

/-- A node put at the end of some steps. Tables and sequences on the way are made where they are not
there, in place of whatever else is. -/
def place (n : Node) : List Segment → Option Node → Node
  | [], old => overlay old n
  | .key key :: path, old =>
    let es := entriesOf old
    .table (Entries.insert key (place n path (Entries.get? key es)) es)
  | .index :: _, some (.sequence file) => .sequence file
  | .index :: _, _ => .sequence none

/-- Entries with a node put at a path. -/
def placeAt (path : KeyPath) (n : Node) (es : List (String × Node)) : List (String × Node) :=
  Entries.insert path.root (place n path.segments (Entries.get? path.root es)) es

/-- Entries with further ones, each put at the path that its name is. -/
def placeAll (named : List (String × Node)) (es : List (String × Node)) : List (String × Node) :=
  named.foldl (fun es (name, n) => placeAt (.read name) n es) es

/-! ## From TOML -/

/-- Why a numeral gives no number of 64 bits. -/
inductive Misfit where
  /-- A whole number without a digit after the mark of its base. -/
  | empty
  /-- A character that is no digit of the base. -/
  | noDigit
  | tooLarge
  | tooSmall
  /-- A number with a fraction or an exponent beyond the finite ones. -/
  | infinite
deriving DecidableEq

/-- The value of a digit of a base; beyond nine there are letters in either case. -/
def digit? (base : Nat) (c : Char) : Option Nat :=
  let value :=
    if c.isDigit then c.toNat - '0'.toNat
    else if 'a' ≤ c && c ≤ 'z' then c.toNat - 'a'.toNat + 10
    else if 'A' ≤ c && c ≤ 'Z' then c.toNat - 'A'.toNat + 10
    else base
  if value < base then some value else none

/-- A whole number continued by digits. The first character that is no digit or with which the number
leaves the 64 bits with sign is what counts. -/
def readDigits (base : Nat) (negative : Bool) : Int → List Char → Except Misfit Int
  | n, [] => .ok n
  | n, c :: s =>
    match digit? base c with
    | none => .error .noDigit
    | some d =>
      let n := if negative then base * n - d else base * n + d
      if 9223372036854775807 < n then .error .tooLarge
      else if n < -9223372036854775808 then .error .tooSmall
      else readDigits base negative n s

/-- A whole number. -/
def readWhole (base : Nat) : List Char → Except Misfit Int
  | [] => .error .empty
  | ['+'] => .error .noDigit
  | ['-'] => .error .noDigit
  | '+' :: s => readDigits base false 0 s
  | '-' :: s => readDigits base true 0 s
  | s => readDigits base false 0 s

/-- Entries in the order of their names. -/
def sortEntries {α : Type} (es : List (String × α)) : List (String × α) :=
  es.mergeSort fun a b => a.1 ≤ b.1

/-- The entries if all could be made, else the first failure. -/
def collect {α ε : Type} : List (String × Except ε α) → Except ε (List (String × α))
  | [] => .ok []
  | (key, x) :: es => do
    let x ← x
    .ok ((key, x) :: (← collect es))

/-- The scalar of a numeral. -/
def ofNumeral : Toml.Numeral → Except Misfit Scalar
  | .whole base text => do .ok (.integer (← readWhole base text))
  | .decimal negative d =>
    match d.nearest? negative with
    | some x => .ok (.float (.finite x))
    | none => .error .infinite
  | .infinite negative => .ok (.float (.infinite negative))
  | .nan => .ok (.float .nan)

/-- A scalar of a TOML value. A date or time becomes its text. -/
def ofTomlScalar : Toml.Scalar → Except Misfit Scalar
  | .text s => .ok (.text s)
  | .moment s => .ok (.text s)
  | .boolean b => .ok (.boolean b)
  | .number n => ofNumeral n

mutual

/-- The node of a TOML value. Where several numbers do not fit, the first in the order of keys
counts. -/
def ofToml (file : Option String) : Toml.Value → Except Misfit Node
  | .scalar s => do .ok (.scalar (← ofTomlScalar s) file)
  | .array _ items => do
    checkItems file items
    .ok (.sequence file)
  | .table _ es => do .ok (.table (← collect (sortEntries (ofTomlEntries file es))))

/-- Whether all items of an array fit. -/
def checkItems (file : Option String) : List Toml.Value → Except Misfit Unit
  | [] => .ok ()
  | x :: xs => do
    let _ ← ofToml file x
    checkItems file xs

/-- The nodes of entries, each for itself. -/
def ofTomlEntries (file : Option String) :
    List (String × Toml.Value) → List (String × Except Misfit Node)
  | [] => []
  | (key, x) :: es => (key, ofToml file x) :: ofTomlEntries file es

end

/-! ## In messages -/

/-- What a message calls a node. -/
def describe : Node → String
  | .scalar s _ => s.describe
  | .sequence _ => "sequence"
  | .table _ => "map"

end Node

end MarketScan.Settings
