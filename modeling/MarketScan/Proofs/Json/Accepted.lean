import MarketScan.Proofs.Json.Float
import MarketScan.Proofs.Json.RoundTrip

/-!
# What is written is read

The text of any value is read, unless the value is nested too deep. Floating numbers and repeated keys are
no hindrance, though what is read may then be another value: a number near to the written one, or an
object with the last of the fields of one name.

* `Json.exists_readsAs` — every value is read as some value
* `Json.exists_parse_compact_iff` — the whole text
-/

namespace MarketScan.Json

open Grammar
open Numeric (Binary64 Layout)

variable {S : Spacing}

/-- A floating number is read as a floating number. -/
theorem exists_readsAs_float (x : Binary64) :
    ∃ y, ReadsAs S (.number (.float x)) (.number (.float y)) := by
  obtain ⟨y, hy⟩ := exists_number_body x
  refine ⟨y, readsAs_of_steps fun level fuel room rest hrest _ => ?_⟩
  have hread : value (fuel + 1) room (floatLayout.write x ++ rest) = .ok (.number (.float y), rest) := by
    have hbody := hy rest hrest
    rw [Layout.write_eq]
    cases hneg : x.negative with
    | true =>
      rw [hneg] at hbody
      rw [if_pos rfl, List.append_assoc, List.singleton_append, value, skipBlanks_cons (by decide)]
      exact hbody
    | false =>
      rw [hneg] at hbody
      obtain ⟨c, t, hopens, hc⟩ := (Layout.isNumeral_body (L := floatLayout) rfl x).opens
      rw [if_neg Bool.false_ne_true, List.nil_append]
      rw [hopens] at hbody ⊢
      exact (value_digit hc fuel room _).trans hbody
  rw [show write S level (.number (.float x)) rest = floatLayout.write x ++ rest from rfl, hread]
  exact .whole (Nat.zero_le room)

theorem exists_forall₂ {α β : Type} {R : α → β → Prop} {l : List α} (h : ∀ a ∈ l, ∃ b, R a b) :
    ∃ l', List.Forall₂ R l l' := by
  induction l with
  | nil => exact ⟨[], .nil⟩
  | cons a l ih =>
    obtain ⟨⟨b, hb⟩, hl⟩ := List.forall_mem_cons.mp h
    obtain ⟨l', hl'⟩ := ih hl
    exact ⟨b :: l', .cons hb hl'⟩

/-- **Every value is read as some value.** -/
theorem exists_readsAs (hS : S.IsBlank) (j : Json) : ∃ k, ReadsAs S j k := by
  induction j using Json.induction with
  | null => exact ⟨_, readsAs_null⟩
  | bool b => exact ⟨_, readsAs_bool b⟩
  | number n =>
    cases n with
    | whole n => exact ⟨_, readsAs_whole n⟩
    | float x =>
      obtain ⟨y, hy⟩ := exists_readsAs_float (S := S) x
      exact ⟨_, hy⟩
  | string s => exact ⟨_, readsAs_string s⟩
  | array items ih =>
    obtain ⟨items', hall⟩ := exists_forall₂ ih
    exact ⟨_, readsAs_array hS hall⟩
  | object fields ih =>
    obtain ⟨fields', hall⟩ := exists_forall₂ (R := FieldReadsAs S) fun e he =>
      let ⟨k, hk⟩ := ih e he
      ⟨(e.1, k), rfl, hk⟩
    exact ⟨_, readsAs_object hS hall⟩

/-- A text is refused for the nesting of its value and for nothing else. -/
theorem parse_compact_of_lt {j : Json} (hdeep : maxNesting < j.nesting) :
    ∃ e, parse j.compact = .error e ∧ e.cause = .tooDeep := by
  obtain ⟨k, hk⟩ := exists_readsAs Spacing.isBlank_none j
  rw [parse, compact, String.toList_ofList]
  exact parseWithin_of_readsAs_of_lt hk hdeep

/-- **A text is read exactly when its value is not nested too deep.** -/
theorem exists_parse_compact_iff {j : Json} :
    (∃ k, parse j.compact = .ok k) ↔ j.nesting ≤ maxNesting := by
  constructor
  · rintro ⟨k, hk⟩
    by_contra hdeep
    obtain ⟨e, he, -⟩ := parse_compact_of_lt (Nat.lt_of_not_le hdeep)
    rw [hk] at he
    cases he
  · intro hfits
    obtain ⟨k, hk⟩ := exists_readsAs Spacing.isBlank_none j
    rw [parse, compact, String.toList_ofList]
    exact ⟨k, parseWithin_of_readsAs hk hfits⟩

end MarketScan.Json
