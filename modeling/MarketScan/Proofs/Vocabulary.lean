import MarketScan.Filter.Comparison
import MarketScan.Proofs.Except

/-!
# What is read as a term

A value is read as a term when it holds the code of the term, as a string or as the only key of an
object with null under it. A term is printed as a word, from a table apart from that of the codes. For
both vocabularies of a filter the two tables agree, so reading and writing undo each other.

* `Json.HoldsCode` — the two ways in which a value holds a code
* `Vocabulary.ofJson_eq_ok_iff` — what is read as which term
* `Vocabulary.exact_codes` — the codes of comparisons and connectives
-/

namespace MarketScan

/-- A value that holds a code. -/
inductive Json.HoldsCode (code : String) : Json → Prop where
  | text : HoldsCode code (.string code)
  | key : HoldsCode code (.object [(code, .null)])

theorem Json.HoldsCode.eq {j : Json} {code code' : String} (h : j.HoldsCode code)
    (h' : j.HoldsCode code') : code = code' := by
  cases h <;> cases h' <;> rfl

namespace Vocabulary

variable {α : Type} {V : Vocabulary α}

/-! ## Reading -/

/-- What is found by a code has that code. -/
theorem code_of_find? {code : String} {t : α} (h : V.find? code = some t) : V.code t = code :=
  beq_iff_eq.mp (List.find?_some (p := fun t => V.code t == code) h)

theorem ofCode_eq_ok_iff (hfind : ∀ t, V.find? (V.code t) = some t) {code : String} {t : α} :
    V.ofCode code = .ok t ↔ V.code t = code := by
  rw [ofCode]
  constructor
  · intro h
    cases hcode : V.find? code with
    | none =>
      rw [hcode] at h
      cases h
    | some t' =>
      rw [hcode] at h
      cases h
      exact code_of_find? hcode
  · rintro rfl
    rw [hfind]

/-- **A value is read as a term exactly when it holds the code of the term.** -/
theorem ofJson_eq_ok_iff (hfind : ∀ t, V.find? (V.code t) = some t) {j : Json} {t : α} :
    V.ofJson j = .ok t ↔ j.HoldsCode (V.code t) := by
  match j with
  | .string code =>
    rw [ofJson, ofCode_eq_ok_iff hfind]
    constructor
    · rintro rfl
      exact .text
    · rintro ⟨⟩
      rfl
  | .object [(code, value)] =>
    rw [ofJson, bind_eq_ok_iff]
    simp only [ofCode_eq_ok_iff hfind]
    constructor
    · rintro ⟨t', rfl, hvalue⟩
      -- a value other than null is refused although its key is a code
      cases value with
      | null =>
        cases hvalue
        exact .key
      | _ => cases hvalue
    · rintro ⟨⟩
      exact ⟨t, rfl, rfl⟩
  | .null | .bool _ | .number _ | .array _ | .object [] | .object (_ :: _ :: _) => exact ⟨nofun, nofun⟩

/-- A term is read back from its code. -/
theorem ofJson_json (hfind : ∀ t, V.find? (V.code t) = some t) (t : α) : V.ofJson (V.json t) = .ok t :=
  (ofJson_eq_ok_iff hfind).mpr .text

/-- Terms that are found by their codes have codes of their own. -/
theorem code_injective (hfind : ∀ t, V.find? (V.code t) = some t) : Function.Injective V.code := by
  intro t u h
  have hu := hfind u
  rw [← h, hfind t] at hu
  exact Option.some.inj hu

theorem json_injective (hfind : ∀ t, V.find? (V.code t) = some t) : Function.Injective V.json :=
  fun _ _ h => code_injective hfind (Json.string.inj h)

/-- The codes are those of the terms that are found by them. -/
theorem mem_codes_iff (hfind : ∀ t, V.find? (V.code t) = some t) {code : String} :
    code ∈ V.codes ↔ ∃ t, V.code t = code := by
  rw [codes, List.mem_map]
  constructor
  · rintro ⟨t, -, ht⟩
    exact ⟨t, ht⟩
  · rintro ⟨t, ht⟩
    exact ⟨t, List.mem_of_find?_eq_some (hfind t), ht⟩

/-! ## Words -/

/-- Terms are read from the values that hold one of the codes, and printed and written as the code that
they are read from. -/
structure Exact [ToString α] (V : Vocabulary α) (word : α → String) (codes : List String) : Prop where
  isOk_iff (j : Json) : (∃ t, V.ofJson j = .ok t) ↔ ∃ code ∈ codes, j.HoldsCode code
  written (j : Json) (t : α) (code : String) : V.ofJson j = .ok t → j.HoldsCode code →
    word t = code ∧ toString t = code ∧ V.json t = .string code
  read (t : α) : V.ofJson (V.json t) = .ok t
  word_injective : Function.Injective word

theorem exact_of_word_eq [ToString α] {word : α → String} (hfind : ∀ t, V.find? (V.code t) = some t)
    (hword : ∀ t, word t = V.code t) (htext : ∀ t : α, toString t = word t) :
    V.Exact word V.codes := by
  constructor
  case isOk_iff =>
    intro j
    simp only [ofJson_eq_ok_iff hfind, mem_codes_iff hfind]
    constructor
    · rintro ⟨t, ht⟩
      exact ⟨V.code t, ⟨t, rfl⟩, ht⟩
    · rintro ⟨_, ⟨t, rfl⟩, ht⟩
      exact ⟨t, ht⟩
  case written =>
    intro j t code hread hcode
    obtain rfl := ((ofJson_eq_ok_iff hfind).mp hread).eq hcode
    exact ⟨hword t, (htext t).trans (hword t), rfl⟩
  case read => exact ofJson_json hfind
  case word_injective =>
    obtain rfl : word = V.code := funext hword
    exact code_injective hfind

end Vocabulary

theorem Comparison.word_eq_code (c : Comparison) : c.word = c.code := by
  cases c <;> rfl

theorem Connective.word_eq_code (c : Connective) : c.word = c.code := by
  cases c <;> rfl

namespace Vocabulary

/-- **Comparisons and connectives are read from their codes alone, and told as what they are read
from.** A code is a string or the only key of an object with null under it, every character of it
counts, and no two terms share one. -/
theorem exact_codes :
    Comparison.vocabulary.Exact Comparison.word
      ["greater", "egreater", "less", "eless", "equal", "nequal", "in_range", "not_in_range",
        "in_day_range", "in_week_range", "in_month_range", "above%", "below%", "in_range%",
        "not_in_range%", "crosses", "crosses_above", "crosses_below", "match", "nmatch", "has",
        "has_none_of", "empty", "nempty"] ∧
    Connective.vocabulary.Exact Connective.word ["and", "or"] :=
  ⟨exact_of_word_eq Comparison.find?_code Comparison.word_eq_code fun _ => rfl,
    exact_of_word_eq Connective.find?_code Connective.word_eq_code fun _ => rfl⟩

/-- A code with a value under it other than null is refused for the value. -/
example : Comparison.vocabulary.ofJson (.object [("in_range%", .bool true)]) =
    .error (.notBare (.bool true)) := rfl

end Vocabulary

end MarketScan
