import MarketScan.Json.Printer

/-!
# Closed vocabularies of codes

A vocabulary gives each of finitely many terms the code that stands for it in a document. A document
holds a code as a string, or as the only key of an object whose value is null.

* `Vocabulary.find?` — the term of a code
* `Vocabulary.ofJson` — the term of a JSON value
-/

namespace MarketScan

/-- Terms, in the order messages list them, and their codes. -/
structure Vocabulary (α : Type) where
  terms : List α
  code : α → String

namespace Vocabulary

variable {α : Type}

/-- Why a JSON value is not a code. -/
inductive Refusal where
  /-- Neither a string nor an object. -/
  | notCode (found : Json)
  /-- An object that has not exactly one key. -/
  | notSingle
  /-- A code that is not in the vocabulary. -/
  | unknown (code : String) (known : List String)
  /-- A known code as a key, with a value other than null. -/
  | notBare (value : Json)

/-- A choice of codes in words. -/
def choice : List String → String
  | [] => "there are no variants"
  | [a] => s!"expected `{a}`"
  | [a, b] => s!"expected `{a}` or `{b}`"
  | codes => "expected one of " ++ ", ".intercalate (codes.map fun c => s!"`{c}`")

/-- The words for a refusal. -/
def Refusal.message : Refusal → String
  | .notCode found => s!"invalid type: {found.describe}, expected string or map"
  | .notSingle => "invalid value: map, expected map with a single key"
  | .unknown code known => s!"unknown variant `{code}`, {choice known}"
  | .notBare value => s!"invalid type: {value.describe}, expected unit"

/-- The codes of all terms. -/
def codes (V : Vocabulary α) : List String := V.terms.map V.code

/-- The term of a code. -/
def find? (V : Vocabulary α) (code : String) : Option α := V.terms.find? fun t => V.code t == code

/-- The term of a code, or the refusal of an unknown one. -/
def ofCode (V : Vocabulary α) (code : String) : Except Refusal α :=
  match V.find? code with
  | some t => .ok t
  | none => .error (.unknown code V.codes)

/-- The term that a JSON value stands for. -/
def ofJson (V : Vocabulary α) : Json → Except Refusal α
  | .string code => V.ofCode code
  | .object [(code, value)] => do
    let t ← V.ofCode code
    match value with
    | .null => .ok t
    | value => .error (.notBare value)
  | .object _ => .error .notSingle
  | found => .error (.notCode found)

/-- A term as a document holds it. -/
def json (V : Vocabulary α) (t : α) : Json := .string (V.code t)

end Vocabulary

end MarketScan
