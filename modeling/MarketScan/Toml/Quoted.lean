import MarketScan.Toml.Value

/-!
# Quoted strings

The four kinds of quoted strings, told apart by their mark, by whether a backslash escapes and by
whether they may go over several lines. A string over several lines ends at three marks in a row; one
or two more marks before them belong to the string.

Reading is a walk over the characters with a `Mode`; `step` says what a character does in a mode.

* `Quoted.read?` — a quoted string and what follows it
* `Quoted.skip` — what follows a quoted string that cannot be read
-/

namespace MarketScan.Toml.Quoted

/-- A kind of quoted string. -/
structure Kind where
  mark : Char
  escapes : Bool
  lines : Bool

/-- Where the walk stands. -/
inductive Mode where
  | plain
  /-- After so many marks in a row. -/
  | marks (count : Nat)
  /-- After a backslash. -/
  | escaped
  /-- In an escape by number, with so many digits to come. -/
  | number (left value : Nat)
  /-- After a backslash and blanks; whether the line has ended yet. -/
  | skipping (ended : Bool)
  /-- After a carriage return, with the mode to go back to. -/
  | returned (skips : Bool)

/-- What a character does. -/
inductive Action where
  /-- Text for the string, and the mode after it. -/
  | go (text : List Char) (next : Mode)
  /-- Text, and the end of the string after the character. -/
  | stop (text : List Char)
  /-- Text, and the end of the string before the character. -/
  | stopBefore (text : List Char)
  | fail

/-- Characters that stand for themselves: all but controls, of which the tab is allowed. -/
def isText (c : Char) : Bool := c = '\t' || (32 ≤ c.toNat && c.toNat ≠ 127)

/-- What a backslash and one further character stand for. -/
def shortEscape? : Char → Option Char
  | 'b' => some '\x08'
  | 't' => some '\t'
  | 'n' => some '\n'
  | 'f' => some '\x0c'
  | 'r' => some '\r'
  | 'e' => some '\x1b'
  | '"' => some '"'
  | '\\' => some '\\'
  | _ => none

/-- The value of a hexadecimal digit. -/
def hexValue? (c : Char) : Option Nat :=
  if '0' ≤ c ∧ c ≤ '9' then some (c.toNat - '0'.toNat)
  else if 'a' ≤ c ∧ c ≤ 'f' then some (c.toNat - 'a'.toNat + 10)
  else if 'A' ≤ c ∧ c ≤ 'F' then some (c.toNat - 'A'.toNat + 10)
  else none

/-- A character of the text, put after `before`. -/
def stepPlain (K : Kind) (before : List Char) (c : Char) : Action :=
  if c = K.mark then if K.lines then .go before (.marks 1) else .stop before
  else if c = '\\' && K.escapes then .go before .escaped
  else if c = '\n' && K.lines then .go (before ++ ['\n']) .plain
  else if c = '\r' && K.lines then .go before (.returned false)
  else if isText c then .go (before ++ [c]) .plain
  else .fail

/-- A character after a backslash. -/
def stepEscaped (K : Kind) (c : Char) : Action :=
  if c = 'x' then .go [] (.number 2 0)
  else if c = 'u' then .go [] (.number 4 0)
  else if c = 'U' then .go [] (.number 8 0)
  else if K.lines && (c = ' ' || c = '\t') then .go [] (.skipping false)
  else if K.lines && c = '\n' then .go [] (.skipping true)
  else if K.lines && c = '\r' then .go [] (.returned true)
  else match shortEscape? c with
    | some e => .go [e] .plain
    | none => .fail

/-- A digit of an escape by number; the number must be that of a character. -/
def stepNumber (left value : Nat) (c : Char) : Action :=
  match hexValue? c with
  | none => .fail
  | some digit =>
    let value := 16 * value + digit
    if 1 < left then .go [] (.number (left - 1) value)
    else if value.isValidChar then .go [Char.ofNat value] .plain
    else .fail

/-- What a character does in a mode. -/
def step (K : Kind) : Mode → Char → Action
  | .plain, c => stepPlain K [] c
  | .marks count, c =>
    if c = K.mark && count < 5 then .go [] (.marks (count + 1))
    else if count < 3 then stepPlain K (List.replicate count K.mark) c
    else .stopBefore (List.replicate (count - 3) K.mark)
  | .escaped, c => stepEscaped K c
  | .number left value, c => stepNumber left value c
  | .skipping ended, c =>
    if c = ' ' || c = '\t' then .go [] (.skipping ended)
    else if c = '\n' then .go [] (.skipping true)
    else if c = '\r' then .go [] (.returned true)
    else if ended then stepPlain K [] c
    else .fail
  | .returned skips, c =>
    if c ≠ '\n' then .fail
    else if skips then .go [] (.skipping true)
    else .go ['\r', '\n'] .plain

/-- The rest of a string, and what follows it. -/
def walk (K : Kind) : Mode → List Char → Option (List Char × List Char)
  | .marks count, [] => if count < 3 then none else some (List.replicate (count - 3) K.mark, [])
  | _, [] => none
  | m, c :: s =>
    match step K m c with
    | .go text next => (walk K next s).map fun (cs, rest) => (text ++ cs, rest)
    | .stop text => some (text, s)
    | .stopBefore text => some (text, c :: s)
    | .fail => none

/-- The text without a line end at its start. -/
def dropLineEnd : List Char → List Char
  | '\n' :: s => s
  | '\r' :: '\n' :: s => s
  | s => s

/-- A string that stays on its line. -/
def readLine? : List Char → Option (String × List Char)
  | '"' :: s => (walk ⟨'"', true, false⟩ .plain s).map fun (cs, rest) => (String.ofList cs, rest)
  | '\'' :: s => (walk ⟨'\'', false, false⟩ .plain s).map fun (cs, rest) => (String.ofList cs, rest)
  | _ => none

/-- A string of any kind. A line end right after three opening marks is dropped. -/
def read? : List Char → Option (String × List Char)
  | '"' :: '"' :: '"' :: s =>
    (walk ⟨'"', true, true⟩ .plain (dropLineEnd s)).map fun (cs, rest) => (String.ofList cs, rest)
  | '\'' :: '\'' :: '\'' :: s =>
    (walk ⟨'\'', false, true⟩ .plain (dropLineEnd s)).map fun (cs, rest) => (String.ofList cs, rest)
  | s => readLine? s

/-! ## Strings that cannot be read -/

/-- What follows a string that stays on its line: it ends at its mark or else with the line. A
backslash hides a mark or a backslash. -/
def skipLine (K : Kind) : Bool → List Char → List Char
  | _, [] => []
  | escaped, c :: s =>
    if escaped && (c = '\\' || c = K.mark) then skipLine K false s
    else if c = '\n' then c :: s
    else if c = K.mark then s
    else skipLine K (K.escapes && c = '\\') s

/-- What follows a string over several lines, after `count` marks in a row. It ends after three to
five marks or else with the text. -/
def skipLines (K : Kind) : Bool → Nat → List Char → List Char
  | _, _, [] => []
  | escaped, count, c :: s =>
    if 3 ≤ count then if c = K.mark && count < 5 then skipLines K false (count + 1) s else c :: s
    else if escaped && (c = '\\' || c = K.mark) then skipLines K false 0 s
    else if c = K.mark then skipLines K false (count + 1) s
    else skipLines K (K.escapes && c = '\\') 0 s

/-- Whether a text begins with three marks. -/
def opensLines : List Char → Bool
  | '"' :: '"' :: '"' :: _ => true
  | '\'' :: '\'' :: '\'' :: _ => true
  | _ => false

/-- What follows a string of any kind. -/
def skip : List Char → List Char
  | '"' :: '"' :: '"' :: s => skipLines ⟨'"', true, true⟩ false 0 s
  | '\'' :: '\'' :: '\'' :: s => skipLines ⟨'\'', false, true⟩ false 0 s
  | '"' :: s => skipLine ⟨'"', true, false⟩ false s
  | '\'' :: s => skipLine ⟨'\'', false, false⟩ false s
  | s => s

end MarketScan.Toml.Quoted
