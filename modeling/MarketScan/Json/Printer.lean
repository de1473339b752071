import MarketScan.Json.Basic
import MarketScan.Text.Quoted

/-!
# JSON text

Writing a value as JSON text. One writer serves both forms: a `Spacing` says what stands before an
item and after a colon, which is nothing in the compact form.

* `Json.compact` — no blanks
* `Json.pretty` — one item a line, two spaces a level
* `Json.escapeChar` — inside a string only the quotation mark, the backslash and the characters below
  U+0020 are escaped
-/

namespace MarketScan.Json

open Numeric (Layout)

/-! ## Strings and numbers -/

/-- A character inside a string. -/
def escapeChar (c : Char) : List Char :=
  match c with
  | '"' => ['\\', '"']
  | '\\' => ['\\', '\\']
  | '\x08' => ['\\', 'b']
  | '\t' => ['\\', 't']
  | '\n' => ['\\', 'n']
  | '\x0c' => ['\\', 'f']
  | '\r' => ['\\', 'r']
  | c =>
    if c.toNat < 32 then
      ['\\', 'u', '0', '0', Nat.digitChar (c.toNat / 16), Nat.digitChar (c.toNat % 16)]
    else [c]

/-- A string with its quotation marks. -/
def writeString (s : String) : List Char := '"' :: s.toList.flatMap escapeChar ++ ['"']

/-- Floating numbers keep a point between `10 ^ -5` and `10 ^ 16`, and are written with an exponent
outside. -/
def floatLayout : Layout := ⟨.even, fun e => -5 ≤ e && e < 16, true⟩

/-- A whole number in decimal digits. -/
def Whole.write (n : Whole) : List Char :=
  if n.value < 0 then '-' :: Numeric.digits n.value.natAbs else Numeric.digits n.value.toNat

/-- A number as it stands in a text. -/
def Number.write : Json.Number → List Char
  | .whole n => n.write
  | .float x => floatLayout.write x

/-! ## Values -/

/-- Where blanks stand. -/
structure Spacing where
  /-- What stands before an item, or a closing bracket, at a level. -/
  line : Nat → List Char
  /-- What stands between a colon and the value. -/
  afterColon : List Char

namespace Spacing

def none : Spacing := ⟨fun _ => [], []⟩

def indented : Spacing := ⟨fun level => '\n' :: List.replicate (2 * level) ' ', [' ']⟩

end Spacing

mutual

/-- A value at a level of nesting, before the text that follows it. -/
def write (S : Spacing) (level : Nat) : Json → List Char → List Char
  | .null, rest => ['n', 'u', 'l', 'l'] ++ rest
  | .bool true, rest => ['t', 'r', 'u', 'e'] ++ rest
  | .bool false, rest => ['f', 'a', 'l', 's', 'e'] ++ rest
  | .number n, rest => n.write ++ rest
  | .string s, rest => writeString s ++ rest
  | .array [], rest => '[' :: ']' :: rest
  | .array (item :: items), rest =>
    '[' :: S.line (level + 1) ++ write S (level + 1) item (writeItems S level items rest)
  | .object [], rest => '{' :: '}' :: rest
  | .object ((key, value) :: fields), rest =>
    '{' :: S.line (level + 1) ++ writeString key ++ ':' :: S.afterColon ++
      write S (level + 1) value (writeFields S level fields rest)

/-- The items after the first one, and the closing bracket. -/
def writeItems (S : Spacing) (level : Nat) : List Json → List Char → List Char
  | [], rest => S.line level ++ ']' :: rest
  | item :: items, rest =>
    ',' :: S.line (level + 1) ++ write S (level + 1) item (writeItems S level items rest)

/-- The fields after the first one, and the closing brace. -/
def writeFields (S : Spacing) (level : Nat) : List (String × Json) → List Char → List Char
  | [], rest => S.line level ++ '}' :: rest
  | (key, value) :: fields, rest =>
    ',' :: S.line (level + 1) ++ writeString key ++ ':' :: S.afterColon ++
      write S (level + 1) value (writeFields S level fields rest)

end

/-- The text without blanks. -/
def compact (j : Json) : String := String.ofList (write .none 0 j [])

/-- The text with one item a line. -/
def pretty (j : Json) : String := String.ofList (write .indented 0 j [])

/-! ## Naming a value in a message -/

/-- What a message calls a value: scalars with their text, arrays and objects by their kind. -/
def describe : Json → String
  | .null => "null"
  | .bool b => s!"boolean `{b}`"
  | .number (.whole n) => s!"integer `{String.ofList n.write}`"
  | .number (.float x) => s!"floating point `{String.ofList (floatLayout.write x)}`"
  | .string s => s!"string {Text.quote s}"
  | .array _ => "sequence"
  | .object _ => "map"

end MarketScan.Json
