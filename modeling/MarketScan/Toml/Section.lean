import MarketScan.Toml.Scalar
import MarketScan.Toml.Token

/-!
# Sections of a TOML text

A document is a list of sections: a header with the keys and values below it, where the first section
has no header. This is how a text is built, before anything is said of what its keys and values mean.
A part of a key or a scalar that is missing or cannot be read has a place in it all the same.

Arrays and inline tables may lie inside each other `maxNesting` deep.

* `Section.ofTokens?`
-/

namespace MarketScan.Toml

/-- A part of a key as it is written. -/
inductive Part where
  | text (s : String)
  | unreadable
  | missing
deriving DecidableEq

/-- A key by its parts, of which there is at least one. -/
abbrev Key := List Part

/-- A value as it is written; the scalar is `none` when it is missing or cannot be read. -/
inductive Item where
  | scalar (x : Option Scalar)
  | array (items : List Item)
  | table (pairs : List (Key × Item))

inductive Header where
  /-- A header in single brackets. -/
  | table (key : Key)
  /-- A header in double brackets. -/
  | element (key : Key)

/-- A header and the keys and values below it. -/
structure Section where
  header : Option Header
  pairs : List (Key × Item)

/-! ## Keys -/

def isBareKey (c : Char) : Bool := c.isAlphanum || c = '_' || c = '-'

/-- The part of a key that a bare text is. -/
def Part.ofBare (cs : List Char) : Part :=
  if cs.all isBareKey then .text (String.ofList cs) else .unreadable

/-- The part of a key that a quoted string is. -/
def Part.ofQuoted (text : Option String) (overLines : Bool) : Part :=
  match text with
  | some s => if overLines then .unreadable else .text s
  | none => .unreadable

/-- The parts of a key from the next one on, of which `part` may be read already, and what follows.
Blanks may stand around its dots. -/
def keyFrom : Option Part → List Token → Key × List Token
  | part, .blank _ :: ts => keyFrom part ts
  | part, .dot :: ts =>
    let (parts, rest) := keyFrom none ts
    (part.getD .missing :: parts, rest)
  | none, .bare cs :: ts => keyFrom (some (.ofBare cs)) ts
  | none, .quoted text overLines :: ts => keyFrom (some (.ofQuoted text overLines)) ts
  | part, ts => ([part.getD .missing], ts)

/-- Whether a token may begin a key. An equals sign begins an empty one. -/
def Token.beginsKey : Token → Bool
  | .dot => true
  | .equals => true
  | .bare _ => true
  | .quoted _ _ => true
  | _ => false

/-- A key that stands before an equals sign. -/
def keyAt? (ts : List Token) : Option (Key × List Token) :=
  if ts.head?.any Token.beginsKey then some (keyFrom none ts) else none

/-! ## Values -/

/-- The text of a scalar without quotation marks, and what follows it: bare texts and dots, and blanks
before bare texts. -/
def bareRun : List Token → List Char × List Token
  | .bare cs :: ts =>
    let (more, rest) := bareRun ts
    (cs ++ more, rest)
  | .dot :: ts =>
    let (more, rest) := bareRun ts
    ('.' :: more, rest)
  | .blank b :: .bare cs :: ts =>
    let (more, rest) := bareRun ts
    (b ++ cs ++ more, rest)
  | ts => ([], ts)

mutual

/-- A value, and what follows it. `room` more arrays and inline tables may be opened inside each
other; `fuel` bounds the steps. -/
def item? : Nat → Nat → List Token → Option (Item × List Token)
  | 0, _, _ => none
  | fuel + 1, room, ts =>
    match ts with
    | .quoted text _ :: ts => some (.scalar (text.map .text), ts)
    | .openBracket :: ts =>
      if room = 0 then none
      else (items? fuel (room - 1) (Token.dropGaps ts)).map fun (xs, rest) => (.array xs, rest)
    | .openBrace :: ts =>
      if room = 0 then none
      else (pairs? fuel (room - 1) (Token.dropGaps ts)).map fun (ps, rest) => (.table ps, rest)
    | .bare cs :: ts =>
      let (cs, rest) := bareRun (.bare cs :: ts)
      some (.scalar (Scalar.read? cs), rest)
    | .dot :: ts =>
      let (cs, rest) := bareRun (.dot :: ts)
      some (.scalar (Scalar.read? cs), rest)
    | _ => none

/-- The items of an array from the next one on, and what follows the closing bracket. A comma may
stand before it. -/
def items? : Nat → Nat → List Token → Option (List Item × List Token)
  | 0, _, _ => none
  | fuel + 1, room, ts =>
    match ts with
    | .closeBracket :: ts => some ([], ts)
    | ts => do
      let (item, ts) ← item? fuel room ts
      match Token.dropGaps ts with
      | .closeBracket :: ts => some ([item], ts)
      | .comma :: ts =>
        let (items, ts) ← items? fuel room (Token.dropGaps ts)
        some (item :: items, ts)
      | _ => none

/-- The pairs of an inline table from the next one on, and what follows the closing brace. A comma
may stand before it, and lines may end on both sides of the equals sign. The last pair may miss its
value, and the equals sign as well. -/
def pairs? : Nat → Nat → List Token → Option (List (Key × Item) × List Token)
  | 0, _, _ => none
  | fuel + 1, room, ts =>
    match ts with
    | .closeBrace :: ts => some ([], ts)
    | ts => do
      let (key, ts) ← keyAt? ts
      match Token.dropGaps ts with
      | .closeBrace :: ts => some ([(key, .scalar none)], ts)
      | .equals :: ts =>
        match Token.dropGaps ts with
        | .closeBrace :: ts => some ([(key, .scalar none)], ts)
        | ts =>
          let (item, ts) ← item? fuel room ts
          match Token.dropGaps ts with
          | .closeBrace :: ts => some ([(key, item)], ts)
          | .comma :: ts =>
            let (pairs, ts) ← pairs? fuel room (Token.dropGaps ts)
            some ((key, item) :: pairs, ts)
          | _ => none
      | _ => none

end

/-- How many arrays and inline tables may lie inside each other. -/
def maxNesting : Nat := 80

/-! ## Lines -/

/-- What a line says. -/
inductive Line where
  | header (h : Header)
  | pair (key : Key) (item : Item)

/-- Whether a line ends here. -/
def endsLine (ts : List Token) : Bool :=
  match Token.dropBlank ts with
  | [] => true
  | .lineEnd :: _ => true
  | _ => false

/-- The tokens from the next line end on. -/
def dropLine (ts : List Token) : List Token :=
  ts.dropWhile fun
    | .lineEnd => false
    | _ => true

/-- What follows a header, from behind its key on. It is closed by one bracket, or by two when it is
that of an element. Where there is none and the last part of the key is missing, the rest of the line
does not count. -/
def closeHeader? (element : Bool) (key : Key) : List Token → Option (List Token)
  | .closeBracket :: .closeBracket :: ts => if element then some ts else some (.closeBracket :: ts)
  | .closeBracket :: ts => if element then none else some ts
  | ts => if key.getLast? = some .missing then some (dropLine ts) else none

/-- The value of a pair, which may be missing at the end of a line. -/
def valueAt? (ts : List Token) : Option (Item × List Token) :=
  if endsLine ts then some (.scalar none, ts)
  else item? (2 * ts.length + 1) maxNesting (Token.dropBlank ts)

/-- The header or pair that a line begins with, and what follows it. -/
def Line.read? : List Token → Option (Line × List Token)
  | .openBracket :: .openBracket :: ts => do
    let (key, ts) := keyFrom none ts
    some (.header (.element key), ← closeHeader? true key ts)
  | .openBracket :: ts => do
    let (key, ts) := keyFrom none ts
    some (.header (.table key), ← closeHeader? false key ts)
  | ts => do
    match ← keyAt? ts with
    | (key, .equals :: ts) =>
      let (item, ts) ← valueAt? ts
      some (.pair key item, ts)
    | _ => none

/-- All lines that are left, in at most so many steps. -/
def linesWithin : Nat → List Token → Option (List Line)
  | fuel, ts =>
    match fuel, Token.dropGaps ts with
    | _, [] => some []
    | 0, _ => none
    | fuel + 1, ts => do
      let (line, ts) ← Line.read? ts
      if endsLine ts then some (line :: (← linesWithin fuel ts)) else none

namespace Section

/-- The pairs up to the next header, and the sections from there on. -/
def gather : List Line → List (Key × Item) × List Section
  | [] => ([], [])
  | .pair key item :: lines =>
    let (pairs, sections) := gather lines
    ((key, item) :: pairs, sections)
  | .header h :: lines =>
    let (pairs, sections) := gather lines
    ([], ⟨some h, pairs⟩ :: sections)

/-- The sections of a text. -/
def ofTokens? (ts : List Token) : Option (List Section) := do
  let (pairs, sections) := gather (← linesWithin ts.length ts)
  some (⟨none, pairs⟩ :: sections)

end Section

end MarketScan.Toml
