import MarketScan.Settings.Cookies
import MarketScan.Settings.Tree
import MarketScan.Toml.Document

/-!
# Settings

Where scans are sent, how the sender names itself, and the cookies that go along. Settings are laid
over each other: defaults, then a TOML document, then the environment.

* `Settings.ofToml` — settings from a TOML text alone
* `Settings.ofTree` — settings from merged sources
* `Settings.scanUrl` — where the scan of a market is sent
-/

namespace MarketScan

/-- Where and how scans are sent. -/
structure Settings where
  baseUrl : String
  userAgent : String
  cookies : Cookies
deriving DecidableEq

namespace Settings

/-- The settings of which nothing is said. -/
def default : Settings where
  baseUrl := "https://scanner.tradingview.com"
  userAgent := "screener/0.1.0"
  cookies := .none

/-- Where the scan of a market is sent; slashes at the end of the base do not count. -/
def scanUrl (market : String) (s : Settings) : String :=
  let base := (s.baseUrl.toList.reverse.dropWhile (· = '/')).reverse
  String.ofList base ++ "/" ++ market ++ "/scan"

/-! ## What may be wrong -/

/-- Why sources give no settings. -/
inductive Fault where
  /-- A text that is not TOML. -/
  | unreadable
  /-- A key with too many parts, in a file or in a text of its own. -/
  | longKey (file : Option String)
  /-- A number that is none of 64 bits. -/
  | misfit (m : Node.Misfit) (file : Option String)
  /-- A value of the wrong kind for its key. -/
  | wrongKind (found : Node) (expected : String) (key : String) (file : Option String)
  /-- A fault told by someone else. -/
  | reported (text : String)

/-- The name of a file at the end of a message. -/
def inFile : Option String → String
  | some file => s!" in {file}"
  | none => ""

def misfitWords : Node.Misfit → String
  | .empty => "cannot parse integer from empty string"
  | .noDigit => "invalid digit found in string"
  | .tooLarge => "number too large to fit in target type"
  | .tooSmall => "number too small to fit in target type"
  | .infinite => "floating-point number overflowed"

/-- The words for a fault. -/
def Fault.message : Fault → String
  | .unreadable => "the text is not TOML"
  | .longKey file => "recursion limit\n" ++ inFile file
  | .misfit m file => misfitWords m ++ inFile file
  | .wrongKind found expected key file =>
    s!"invalid type: {found.describe}, expected {expected} for key `{key}`{inFile file}"
  | .reported text => text

/-- The fault of a text that is no document. -/
def Fault.ofToml (file : Option String) : Toml.Fault → Fault
  | .unreadable => .unreadable
  | .longKey => .longKey file

/-! ## From merged sources -/

/-- The text of a setting. -/
def textAt (key : String) : Node → Except Fault String
  | .scalar s _ => .ok s.toText
  | n => .error (.wrongKind n "a string" key n.file?)

/-- The key of a cookie: a dot comes before its name unless the name is empty or begins with a
bracket. -/
def cookieKey (name : String) : String :=
  match name.toList with
  | [] => "cookies"
  | '[' :: _ => "cookies" ++ name
  | _ => "cookies." ++ name

/-- The cookies of entries. -/
def readCookies (es : List (String × Node)) : Except Fault Cookies := do
  let pairs ← (Node.sortEntries es).mapM fun (name, n) => do
    .ok (name, ← textAt (cookieKey name) n)
  .ok (.ofList pairs)

/-- A text setting, or what holds when nothing is said of it. -/
def textOr (key : String) (default : String) (es : List (String × Node)) : Except Fault String :=
  match Entries.get? key es with
  | some n => textAt key n
  | none => .ok default

/-- The settings that merged sources give. Keys that mean nothing are skipped. -/
def ofTree (es : List (String × Node)) : Except Fault Settings := do
  let baseUrl ← textOr "base_url" default.baseUrl es
  let userAgent ← textOr "user_agent" default.userAgent es
  let cookies ← match Entries.get? "cookies" es with
    | none => .ok .none
    | some (.table cookies) => readCookies cookies
    | some n => .error (.wrongKind n "a map" "cookies" none)
  .ok ⟨baseUrl, userAgent, cookies⟩

/-! ## From one text -/

/-- The named nodes of a TOML text, in the order of their names. -/
def readToml (file : Option String) (text : String) : Except Fault (List (String × Node)) := do
  let entries ← (Toml.parse text).mapError (.ofToml file)
  (Node.collect (Node.sortEntries (Node.ofTomlEntries file entries))).mapError (.misfit · file)

/-- The settings of a TOML text alone. -/
def ofToml (text : String) : Except Fault Settings := do
  ofTree (Node.placeAll (← readToml none text) [])

end Settings

end MarketScan
