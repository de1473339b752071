import MarketScan.Settings.Basic

/-!
# Loading settings

Settings from a file and the environment, both of them given as lists of names and texts.

A file that is asked for by a path is the file of that path, or else the one with `.toml` after it;
there need not be any. A byte order mark before its text does not count. A variable of the
environment counts when its name begins with `SCREENER_`, in any case of letters. The rest of the
name, in small letters, is the path of a setting, where two underscores stand for a dot.

* `Settings.load`
-/

namespace MarketScan.Settings

/-! ## Files -/

/-- Files of the current directory by name, with their texts. -/
abbrev Files := List (String × String)

/-- The parts of a path between slashes. -/
def pathParts : List Char → List (List Char)
  | [] => [[]]
  | c :: s =>
    match pathParts s with
    | [] => [[c]]
    | part :: parts => if c = '/' then [] :: part :: parts else (c :: part) :: parts

/-- Whether a part of a path stays where it is. -/
def staysHere (part : List Char) : Bool := part.isEmpty || part = ['.']

/-- Whether a part of a path leads upward. -/
def leadsUp (part : List Char) : Bool := part = ['.', '.']

/-- Whether a name has an ending, which is what follows its last dot. A dot at its start begins no
ending. -/
def hasEnding (name : List Char) : Bool := name.tail.contains '.'

/--
The file of a path: its name, and its text. A path that begins with a slash or goes upward leads out
of the directory. One that ends in a slash or in a part that stays where it is names a directory, so
it leads to no file but to the one with `.toml` after its last name, if that has no ending yet.
-/
def fileAt? (files : Files) (path : String) : Option (String × String) :=
  let parts := pathParts path.toList
  let steps := parts.filter (!staysHere ·)
  let name := String.ofList (['/'].intercalate steps)
  let namesFile := !parts.getLast?.any staysHere
  let lookUp (name : String) := (Entries.get? name files).map (name, ·)
  if path.toList.head? = some '/' || parts.any leadsUp then none
  else match steps.getLast? with
    | none => none
    | some last =>
      (if namesFile then lookUp name else none) <|>
      (if namesFile || !hasEnding last then lookUp (name ++ ".toml") else none)

/-- The file that settings are read from when none is named. -/
def defaultFile : String := "screener.toml"

/-! ## The environment -/

/-- Variables by name, with their values. -/
abbrev Environment := List (String × String)

/-- A letter in small. Beyond ASCII only the Kelvin sign has a small letter that a path may hold. -/
def lowerChar (c : Char) : Char := if c = '\u212A' then 'k' else c.toLower

/-- What the names of variables begin with. -/
def variableMark : List Char := "screener_".toList

/-- Two underscores, from the left on, become a dot. -/
def dotted : List Char → List Char
  | '_' :: '_' :: s => '.' :: dotted s
  | c :: s => c :: dotted s
  | [] => []

/-- The setting that a variable names. -/
def settingName? (variableName : String) : Option String :=
  let s := variableName.toList.map lowerChar
  if variableMark.isPrefixOf s then some (String.ofList (dotted (s.drop variableMark.length)))
  else none

/-- The named nodes of the environment, in the order of their names. -/
def readEnvironment (env : Environment) : List (String × Node) :=
  Node.sortEntries <| Entries.ofList <| env.filterMap fun (name, value) =>
    (settingName? name).map fun setting => (setting, .scalar (.text value) none)

/-! ## Both -/

/-- The named nodes of the file of a path, if there is such a file. -/
def readFile (files : Files) (path : String) : Except Fault (List (String × Node)) :=
  match fileAt? files path with
  | none => .ok []
  | some (name, text) => readToml (some name) (String.ofList (Toml.dropMark text.toList))

/-- The settings of a file and the environment, which is laid over the file. -/
def load (files : Files) (path : Option String) (env : Environment) : Except Fault Settings := do
  let named ← readFile files (path.getD defaultFile)
  ofTree (Node.placeAll (readEnvironment env) (Node.placeAll named []))

end MarketScan.Settings
