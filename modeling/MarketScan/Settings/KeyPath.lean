/-!
# Key paths

A name of a setting may be a path: a word, then further words after dots and indexes in brackets, as
in `cookies.session` or `hosts[0]`. A name that is no path stands for itself.

* `KeyPath.read` — the path of a name
-/

namespace MarketScan.Settings

/-- A step into a table or an array. -/
inductive Segment where
  | key (name : String)
  | index
deriving DecidableEq

/-- A name at the top, and the steps from there. -/
structure KeyPath where
  root : String
  segments : List Segment
deriving DecidableEq

namespace KeyPath

def isWordChar (c : Char) : Bool := c.isAlphanum || c = '_' || c = '-'

def isBlank (c : Char) : Bool := c = ' ' || c = '\t'

/-- The greatest number that an index may be away from zero, upward and downward. -/
def maxIndex : Nat := 9223372036854775807

/-- What follows an index and its closing bracket. -/
def index? (s : List Char) : Option (List Char) :=
  let s := s.dropWhile isBlank
  let (negative, s) := match s with
    | '-' :: s => (true, s)
    | s => (false, s)
  let ds := s.takeWhile Char.isDigit
  let n := ds.foldl (fun n c => 10 * n + (c.toNat - '0'.toNat)) 0
  if ds.isEmpty || maxIndex + (if negative then 1 else 0) < n then none
  else match (s.dropWhile Char.isDigit).dropWhile isBlank with
    | ']' :: s => some s
    | _ => none

/-- The steps after the first word. -/
def segments? : Nat → List Char → Option (List Segment)
  | _, [] => some []
  | 0, _ => none
  | fuel + 1, '.' :: s =>
    let word := s.takeWhile isWordChar
    if word.isEmpty then none
    else (segments? fuel (s.dropWhile isWordChar)).map (.key (String.ofList word) :: ·)
  | fuel + 1, '[' :: s => do
    let path ← segments? fuel (← index? s)
    some (.index :: path)
  | _, _ => none

/-- The path of a name, if it is one. -/
def read? (name : String) : Option KeyPath :=
  let s := name.toList
  let word := s.takeWhile isWordChar
  if word.isEmpty then none
  else (segments? s.length (s.dropWhile isWordChar)).map (⟨String.ofList word, ·⟩)

/-- The path of a name; a name that is none stands for itself. -/
def read (name : String) : KeyPath := (read? name).getD ⟨name, []⟩

end KeyPath

end MarketScan.Settings
