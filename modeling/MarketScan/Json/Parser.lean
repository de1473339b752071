import MarketScan.Json.Basic

/-!
# Reading JSON text

`Json.parse` reads one value and refuses whatever else stands in the text. An object that repeats a
name keeps its first place and its last value. Arrays and objects may lie inside each other
`maxNesting` deep.

A refusal has a cause and a place. The place is counted in bytes of UTF-8: the line, from one, and the
bytes of that line up to and with the one at which reading stopped.

Numbers are read as whole numbers where they can be. A number with a point or an exponent, or out of
range, is read by its first digits: as many as fit into 64 bits give a coefficient, which is then
scaled (`Numeric.Decimal.scaled?`).

* `Grammar.value`, `Grammar.items`, `Grammar.members` — the grammar, over the characters that are left
* `Json.parse` — a whole text
-/

namespace MarketScan.Json

open Numeric (Decimal Binary64)

/-! ## Refusals -/

/-- Why a text is not JSON. -/
inductive Cause where
  | endInList
  | endInObject
  | endInString
  | endBeforeValue
  | noColon
  | noCommaInList
  | noCommaInObject
  | unknownWord
  | noValue
  | badEscape
  | badNumber
  | numberTooLarge
  | loneSurrogate
  | openSurrogate
  | controlCharacter
  | keyNotString
  | trailingComma
  | trailingText
  | tooDeep
deriving DecidableEq

/-- The words for a cause. -/
def Cause.message : Cause → String
  | .endInList => "EOF while parsing a list"
  | .endInObject => "EOF while parsing an object"
  | .endInString => "EOF while parsing a string"
  | .endBeforeValue => "EOF while parsing a value"
  | .noColon => "expected `:`"
  | .noCommaInList => "expected `,` or `]`"
  | .noCommaInObject => "expected `,` or `\x7d`"
  | .unknownWord => "expected ident"
  | .noValue => "expected value"
  | .badEscape => "invalid escape"
  | .badNumber => "invalid number"
  | .numberTooLarge => "number out of range"
  | .loneSurrogate => "lone leading surrogate in hex escape"
  | .openSurrogate => "unexpected end of hex escape"
  | .controlCharacter => "control character (\\u0000-\\u001F) found while parsing a string"
  | .keyNotString => "key must be a string"
  | .trailingComma => "trailing comma"
  | .trailingText => "trailing characters"
  | .tooDeep => "recursion limit exceeded"

/-- A cause, the characters that are left, and how many bytes of them were still looked at. -/
structure Refusal where
  cause : Cause
  rest : List Char
  ahead : Nat

/-- A cause with its place. -/
structure SyntaxError where
  cause : Cause
  line : Nat
  column : Nat
deriving DecidableEq

def SyntaxError.message (e : SyntaxError) : String :=
  s!"{e.cause.message} at line {e.line} column {e.column}"

/-- How many bytes a text takes in UTF-8. -/
def byteCount (s : List Char) : Nat := s.foldl (fun n c => n + c.utf8Size) 0

/-- The line and column after so many bytes of a text, counted on from a line and column. -/
def placeAfter (bytes line column : Nat) : List Char → Nat × Nat
  | [] => (line, column)
  | c :: cs =>
    if bytes < c.utf8Size then (line, column + bytes)
    else if c = '\n' then placeAfter (bytes - 1) (line + 1) 0 cs
    else placeAfter (bytes - c.utf8Size) line (column + c.utf8Size) cs

/-- The place of a refusal in the whole text. -/
def Refusal.locate (text : List Char) (r : Refusal) : SyntaxError :=
  let (line, column) := placeAfter (byteCount text - byteCount r.rest + r.ahead) 1 0 text
  ⟨r.cause, line, column⟩

namespace Grammar

/-- A refusal before the characters that are left. -/
def refuse {α : Type} (cause : Cause) (rest : List Char) : Except Refusal α :=
  .error ⟨cause, rest, 0⟩

/-- A refusal of the next byte. -/
def refuseNext {α : Type} (cause : Cause) (rest : List Char) : Except Refusal α :=
  .error ⟨cause, rest, 1⟩

/-! ## Blanks and words -/

def isBlank (c : Char) : Bool := c = ' ' || c = '\n' || c = '\t' || c = '\r'

def skipBlanks (s : List Char) : List Char := s.dropWhile isBlank

/-- The rest of a word whose first letter is read. -/
def word (j : Json) : List Char → List Char → Except Refusal (Json × List Char)
  | [], s => .ok (j, s)
  | _ :: _, [] => refuse .endBeforeValue []
  | w :: ws, c :: s => if c = w then word j ws s else refuseNext .unknownWord (c :: s)

/-! ## Strings -/

/-- The value of a hexadecimal digit. -/
def hexValue? (c : Char) : Option Nat :=
  if '0' ≤ c ∧ c ≤ '9' then some (c.toNat - '0'.toNat)
  else if 'a' ≤ c ∧ c ≤ 'f' then some (c.toNat - 'a'.toNat + 10)
  else if 'A' ≤ c ∧ c ≤ 'F' then some (c.toNat - 'A'.toNat + 10)
  else none

/-- The number that four hexadecimal digits give. -/
def hexQuad? (a b c d : Char) : Option Nat := do
  some ((((← hexValue? a) * 16 + (← hexValue? b)) * 16 + (← hexValue? c)) * 16 + (← hexValue? d))

/-- Four hexadecimal digits were wanted and are not there: less than four bytes are left, or four
bytes that are no digits. -/
def refuseHex {α : Type} (s : List Char) : Except Refusal α :=
  if byteCount s < 4 then refuse .endInString [] else .error ⟨.badEscape, s, 4⟩

def isHighSurrogate (n : Nat) : Bool := 0xD800 ≤ n && n ≤ 0xDBFF

def isLowSurrogate (n : Nat) : Bool := 0xDC00 ≤ n && n ≤ 0xDFFF

/-- The character of two surrogates. -/
def joinSurrogates (high low : Nat) : Char :=
  Char.ofNat ((high - 0xD800) * 0x400 + (low - 0xDC00) + 0x10000)

/-- What a backslash and one further character stand for. -/
def shortEscape? : Char → Option Char
  | '"' => some '"'
  | '\\' => some '\\'
  | '/' => some '/'
  | 'b' => some '\x08'
  | 'f' => some '\x0c'
  | 'n' => some '\n'
  | 'r' => some '\r'
  | 't' => some '\t'
  | _ => none

/-- What is wrong after a high surrogate that no low one follows. -/
def refuseSurrogate {α : Type} : List Char → Except Refusal α
  | [] => refuse .endInString []
  | ['\\'] => refuse .endInString []
  | '\\' :: 'u' :: s => refuseHex s
  | '\\' :: s => refuseNext .openSurrogate s
  | s => refuseNext .openSurrogate s

/-- The rest of a string after its opening quotation mark. -/
def stringTail : List Char → Except Refusal (List Char × List Char)
  | [] => refuse .endInString []
  | '"' :: s => .ok ([], s)
  | '\\' :: 'u' :: a :: b :: c :: d :: s =>
    match hexQuad? a b c d with
    | none => refuseHex (a :: b :: c :: d :: s)
    | some n =>
      if isLowSurrogate n then refuse .loneSurrogate s
      else if isHighSurrogate n then
        match s with
        | '\\' :: 'u' :: e :: f :: g :: h :: s =>
          match hexQuad? e f g h with
          | none => refuseHex (e :: f :: g :: h :: s)
          | some m =>
            if isLowSurrogate m then
              (stringTail s).map fun (cs, rest) => (joinSurrogates n m :: cs, rest)
            else refuse .loneSurrogate s
        | s => refuseSurrogate s
      else (stringTail s).map fun (cs, rest) => (Char.ofNat n :: cs, rest)
  | '\\' :: 'u' :: s => refuseHex s
  | '\\' :: c :: s =>
    match shortEscape? c with
    | some e => (stringTail s).map fun (cs, rest) => (e :: cs, rest)
    | none => refuseNext .badEscape (c :: s)
  | c :: s =>
    if c = '\\' then refuse .endInString []
    else if c.toNat < 32 then refuseNext .controlCharacter (c :: s)
    else (stringTail s).map fun (cs, rest) => (c :: cs, rest)

/-- A string after its opening quotation mark. -/
def string (s : List Char) : Except Refusal (String × List Char) :=
  (stringTail s).map fun (cs, rest) => (String.ofList cs, rest)

/-! ## Numbers -/

/-- The bound on a coefficient. -/
def maxCoefficient : Nat := 18446744073709551615

/-- The bound on the digits of an exponent. -/
def maxExponent : Nat := 2147483647

/-- Takes in digits as long as the number they make does not pass the bound; the number, and the
digits left over. -/
def gather (bound : Nat) (n : Nat) : List Char → Nat × List Char
  | [] => (n, [])
  | c :: cs =>
    let next := 10 * n + (c.toNat - '0'.toNat)
    if next ≤ bound then gather bound next cs else (n, c :: cs)

/-- The floating number of a coefficient and a power of ten. -/
def float (negative : Bool) (coefficient : Nat) (exponent : Int) (rest : List Char) :
    Except Refusal (Json × List Char) :=
  match Decimal.scaled? negative ⟨coefficient, exponent⟩ with
  | some x => .ok (.number (.float x), rest)
  | none => refuse .numberTooLarge rest

/-- Goes on with the digits that come next, of which there must be one, and with what follows them. -/
def withDigits {α : Type} (f : List Char → List Char → Except Refusal α) (s : List Char) :
    Except Refusal α :=
  match s with
  | [] => refuse .endBeforeValue []
  | c :: _ =>
    if c.isDigit then f (s.takeWhile Char.isDigit) (s.dropWhile Char.isDigit)
    else refuseNext .badNumber s

/-- Whether an exponent goes down, and what follows its sign. -/
def exponentSign : List Char → Bool × List Char
  | '+' :: s => (false, s)
  | '-' :: s => (true, s)
  | s => (false, s)

/-- The number with the exponent of these digits. An exponent that is far too large is given up at the
digit that makes it so. -/
def afterExponent (negative : Bool) (coefficient : Nat) (base : Int) (down : Bool)
    (digits rest : List Char) : Except Refusal (Json × List Char) :=
  match gather maxExponent 0 digits with
  | (n, []) => float negative coefficient (if down then base - n else base + n) rest
  | (_, _ :: left) =>
    if coefficient = 0 || down then .ok (.number (.float (.zero negative)), rest)
    else refuse .numberTooLarge (left ++ rest)

/-- An exponent after its letter, and with it the number. -/
def exponent (negative : Bool) (coefficient : Nat) (base : Int) (s : List Char) :
    Except Refusal (Json × List Char) :=
  withDigits (afterExponent negative coefficient base (exponentSign s).1) (exponentSign s).2

/-- The number with these digits after the point. -/
def afterFraction (negative : Bool) (coefficient dropped : Nat) (digits rest : List Char) :
    Except Refusal (Json × List Char) :=
  let (coefficient, left) := gather maxCoefficient coefficient digits
  let base : Int := dropped - (digits.length - left.length : Nat)
  match rest with
  | 'e' :: s | 'E' :: s => exponent negative coefficient base s
  | rest => float negative coefficient base rest

/-- A number without point and exponent. -/
def wholeOrFloat (negative : Bool) (coefficient : Nat) (dropped : Nat) (rest : List Char) :
    Except Refusal (Json × List Char) :=
  let value : Int := if negative then -coefficient else coefficient
  match Whole.ofInt? value with
  | some n =>
    if dropped = 0 ∧ (negative → coefficient ≠ 0) then .ok (.number (.whole n), rest)
    else float negative coefficient dropped rest
  | none => float negative coefficient dropped rest

/-- The number with these digits before the point. -/
def afterWhole (negative : Bool) (digits rest : List Char) : Except Refusal (Json × List Char) :=
  let (coefficient, dropped) := gather maxCoefficient 0 digits
  match rest with
  | '.' :: s => withDigits (afterFraction negative coefficient dropped.length) s
  | 'e' :: s | 'E' :: s => exponent negative coefficient dropped.length s
  | rest => wholeOrFloat negative coefficient dropped.length rest

/-- Whether a digit follows a zero in front. -/
def hasLeadingZero : List Char → Bool
  | '0' :: c :: _ => c.isDigit
  | _ => false

/-- A number after its sign. -/
def number (negative : Bool) (s : List Char) : Except Refusal (Json × List Char) :=
  if hasLeadingZero s then refuseNext .badNumber (s.drop 1) else withDigits (afterWhole negative) s

/-! ## Values -/

mutual

/-- A value, and the characters after it. `room` more arrays and objects may be opened inside each
other; `fuel` bounds the steps, of which a character needs at most two. -/
def value : Nat → Nat → List Char → Except Refusal (Json × List Char)
  | 0, _, s => refuse .endBeforeValue s
  | fuel + 1, room, s =>
    match skipBlanks s with
    | [] => refuse .endBeforeValue []
    | 'n' :: s => word .null ['u', 'l', 'l'] s
    | 't' :: s => word (.bool true) ['r', 'u', 'e'] s
    | 'f' :: s => word (.bool false) ['a', 'l', 's', 'e'] s
    | '-' :: s => number true s
    | '"' :: s => (string s).map fun (text, rest) => (.string text, rest)
    | '[' :: s =>
      if room = 0 then refuseNext .tooDeep ('[' :: s)
      else match skipBlanks s with
        | [] => refuse .endInList []
        | ']' :: s => .ok (.array [], s)
        | s => (items fuel (room - 1) s).map fun (js, rest) => (.array js, rest)
    | '{' :: s =>
      if room = 0 then refuseNext .tooDeep ('{' :: s)
      else match skipBlanks s with
        | [] => refuse .endInObject []
        | '}' :: s => .ok (.object [], s)
        | s => (members fuel (room - 1) s).map fun (fs, rest) => (.object (Entries.ofList fs), rest)
    | c :: s => if c.isDigit then number false (c :: s) else refuseNext .noValue (c :: s)

/-- The items of an array from the next one on, and the closing bracket. -/
def items : Nat → Nat → List Char → Except Refusal (List Json × List Char)
  | 0, _, s => refuse .endInList s
  | fuel + 1, room, s => do
    let (item, s) ← value fuel room s
    match skipBlanks s with
    | [] => refuse .endInList []
    | ']' :: s => .ok ([item], s)
    | ',' :: s =>
      match skipBlanks s with
      | [] => refuse .endBeforeValue []
      | ']' :: s => refuseNext .trailingComma (']' :: s)
      | s => (items fuel room s).map fun (js, rest) => (item :: js, rest)
    | s => refuseNext .noCommaInList s

/-- The members of an object from the next name on, and the closing brace. -/
def members : Nat → Nat → List Char → Except Refusal (List (String × Json) × List Char)
  | 0, _, s => refuse .endInObject s
  | fuel + 1, room, s =>
    match s with
    | '"' :: s => do
      let (key, s) ← string s
      match skipBlanks s with
      | [] => refuse .endInObject []
      | ':' :: s =>
        let (item, s) ← value fuel room s
        match skipBlanks s with
        | [] => refuse .endInObject []
        | '}' :: s => .ok ([(key, item)], s)
        | ',' :: s =>
          match skipBlanks s with
          | [] => refuse .endBeforeValue []
          | '}' :: s => refuseNext .trailingComma ('}' :: s)
          | s => (members fuel room s).map fun (fs, rest) => ((key, item) :: fs, rest)
        | s => refuseNext .noCommaInObject s
      | s => refuseNext .noColon s
    | s => refuseNext .keyNotString s

end

end Grammar

/-! ## Texts -/

/-- How many arrays and objects a text may open inside each other. -/
def maxNesting : Nat := 127

/-- A text that holds one value and nothing else, with a bound on its nesting. -/
def parseWithin (room : Nat) (text : List Char) : Except SyntaxError Json :=
  match Grammar.value (2 * text.length + 1) room text with
  | .error r => .error (r.locate text)
  | .ok (j, s) =>
    match Grammar.skipBlanks s with
    | [] => .ok j
    | s => .error (Refusal.locate text ⟨.trailingText, s, 1⟩)

/-- A text that holds one value and nothing else. -/
def parse (text : String) : Except SyntaxError Json := parseWithin maxNesting text.toList

end MarketScan.Json
