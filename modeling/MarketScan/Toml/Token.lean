import MarketScan.Toml.Quoted

/-!
# Tokens of TOML

A text is cut into marks, blanks, line ends, quoted strings and bare texts. A comment belongs to the
line end after it. A quoted string that cannot be read is a token all the same, so that the cut does
not depend on what strings hold.

* `Token.scan?`
-/

namespace MarketScan.Toml

inductive Token where
  | dot
  | equals
  | comma
  | openBracket
  | closeBracket
  | openBrace
  | closeBrace
  | blank (text : List Char)
  | lineEnd
  /-- A quoted string, `none` when it cannot be read, and whether it may go over several lines. -/
  | quoted (text : Option String) (overLines : Bool)
  /-- Any other characters. A quotation mark may stand among them, but not first. -/
  | bare (text : List Char)

namespace Token

def isBlank (c : Char) : Bool := c = ' ' || c = '\t'

/-- The token that is a mark of one character. -/
def mark? : Char → Option Token
  | '.' => some .dot
  | '=' => some .equals
  | ',' => some .comma
  | '[' => some .openBracket
  | ']' => some .closeBracket
  | '{' => some .openBrace
  | '}' => some .closeBrace
  | _ => none

/-- Whether a bare text ends before a character. -/
def endsBare (c : Char) : Bool :=
  (mark? c).isSome || isBlank c || c = '#' || c = '\r' || c = '\n'

/-- Whether a comment may end here: before a line end, or with the text. -/
def endsComment : List Char → Bool
  | [] => true
  | '\n' :: _ => true
  | '\r' :: '\n' :: _ => true
  | _ => false

/-- The first token of a text that begins with `c`, and what follows it. -/
def next? (c : Char) (s : List Char) : Option (Token × List Char) :=
  if let some t := mark? c then some (t, s)
  else if isBlank c then some (.blank (c :: s.takeWhile isBlank), s.dropWhile isBlank)
  else if c = '\n' then some (.lineEnd, s)
  else if c = '\r' then
    match s with
    | '\n' :: s => some (.lineEnd, s)
    | _ => none
  else if c = '"' || c = '\'' then
    let overLines := Quoted.opensLines (c :: s)
    match Quoted.read? (c :: s) with
    | some (text, rest) => some (.quoted (some text) overLines, rest)
    | none => some (.quoted none overLines, Quoted.skip (c :: s))
  else some (.bare (c :: s.takeWhile (!endsBare ·)), s.dropWhile (!endsBare ·))

/-- The tokens of a text, in at most so many steps. Comments are left out; no control may stand in
them, and none may stand alone outside strings. -/
def scanWithin : Nat → List Char → Option (List Token)
  | _, [] => some []
  | 0, _ => none
  | fuel + 1, '#' :: s =>
    let rest := s.dropWhile Quoted.isText
    if endsComment rest then scanWithin fuel rest else none
  | fuel + 1, c :: s => do
    let (t, rest) ← next? c s
    some (t :: (← scanWithin fuel rest))

/-- The tokens of a text. -/
def scan? (s : List Char) : Option (List Token) := scanWithin s.length s

/-- Whether a token only separates others. -/
def isGap : Token → Bool
  | .blank _ => true
  | .lineEnd => true
  | _ => false

/-- The tokens without those at the start that only separate. -/
def dropGaps (ts : List Token) : List Token := ts.dropWhile isGap

/-- The tokens without a blank at the start. -/
def dropBlank : List Token → List Token
  | .blank _ :: ts => ts
  | ts => ts

end Token

end MarketScan.Toml
