import MarketScan.Proofs.Json.RoundTrip
import MarketScan.Proofs.Query.Contents

/-!
# Documents are read back from their text

The text that a query sends says the whole document, for whoever reads it with the grammar that
replies are read with. The writer does not look at the nesting and the reader allows no more than
`Json.maxNesting`, so a text may be sent that would not be read.

* `Query.parse_text` — when the document is read back, and what happens when it is not
-/

namespace MarketScan.Query

variable {q : Query}

/-- A document with whole numbers is read back from its text where it fits. -/
theorem parseWithin_text (hq : q.Reachable) (hint : q.Holds Json.Integral) {room : Nat}
    (hfits : q.document.json.nesting ≤ room) :
    Json.parseWithin room q.text.toList = .ok q.document.json := by
  have hdoc := hq.holds_json Json.hereditary_integral hint
  rw [text, Json.compact, String.toList_ofList]
  exact Json.parseWithin_write Json.Spacing.isBlank_none hdoc hq.keysDistinct hfits

theorem parseWithin_text_of_lt (hq : q.Reachable) (hint : q.Holds Json.Integral) {room : Nat}
    (hdeep : room < q.document.json.nesting) :
    ∃ e, Json.parseWithin room q.text.toList = .error e ∧ e.cause = .tooDeep := by
  have hdoc := hq.holds_json Json.hereditary_integral hint
  rw [text, Json.compact, String.toList_ofList]
  exact Json.parseWithin_write_of_lt Json.Spacing.isBlank_none hdoc hq.keysDistinct hdeep

/-- **The text of a query is read back as its document when that is nested at most 127 deep, and
refused for its nesting when it is nested deeper.** -/
theorem parse_text (hq : q.Reachable) (hint : q.Holds Json.Integral) :
    (Json.parse q.text = .ok q.document.json ↔ q.document.json.nesting ≤ 127) ∧
      (127 < q.document.json.nesting →
        ∃ e, Json.parse q.text = .error e ∧
          e.message = s!"recursion limit exceeded at line {e.line} column {e.column}") := by
  have hrefused : 127 < q.document.json.nesting →
      ∃ e, Json.parse q.text = .error e ∧ e.cause = .tooDeep :=
    parseWithin_text_of_lt hq hint
  refine ⟨⟨fun hread => ?_, fun hfits => parseWithin_text hq hint hfits⟩, fun hdeep => ?_⟩
  · by_contra hdeep
    obtain ⟨e, he, -⟩ := hrefused (by omega)
    rw [hread] at he
    cases he
  · obtain ⟨e, he, hcause⟩ := hrefused hdeep
    refine ⟨e, he, ?_⟩
    rw [Json.SyntaxError.message, hcause]
    rfl

/-! ## On both sides of the bound -/

/-- A value inside `n` arrays. -/
def tower (j : Json) (n : Nat) : Json := Nat.repeat (fun j => .array [j]) n j

theorem holds_tower {p : Json → Prop} (hp : Json.Hereditary p) {j : Json} (h : p j) (n : Nat) :
    p (tower j n) := by
  induction n with
  | zero => exact h
  | succ n ih => exact hp.array (List.forall_mem_singleton.mpr ih)

/-- Calls that make use of all sorts of operands, and set a property to a tower. -/
def towerCalls (n : Nat) : List Call :=
  [.addConditions [⟨"close", .greater, some (.field "open")⟩, ⟨"sector", .empty, none⟩,
    ⟨"name", .like, some (.list [.value (.string "\x22\\\n\x01é"), .value .null])⟩],
   .setFilterTree (.node .or [.node .and [],
    .leaf ⟨"volume", .inRange, some (.range (.ofInt64 (-5)) (.ofUInt64 18446744073709551615))⟩]),
   .setProperty "tower" (.object [("base", tower (.bool true) n), ("", .object [])])]

theorem holds_towerCalls {p : Json → Prop} (hp : Json.Hereditary p) (hnull : p .null) (n : Nat) :
    ∀ c ∈ towerCalls n, c.Holds p := by
  have htower : p (tower (.bool true) n) := holds_tower hp (hp.bool true) n
  have hempty : p (.object []) := hp.object .nil nofun
  have hkeys : ["base", ""].Nodup := by decide
  have hproperty : p (.object [("base", tower (.bool true) n), ("", .object [])]) := by
    refine hp.object hkeys fun e he => ?_
    rcases List.mem_pair.mp he with rfl | rfl
    · exact htower
    · exact hempty
  simp [towerCalls, Call.Holds, Condition.Holds, Operand.Holds, Operand.HoldsItems, FilterTree.Holds,
    FilterTree.HoldsAll, Operand.ofInt64, Operand.ofUInt64, Json.ofUInt64, hp.string, hp.whole, hnull,
    hproperty]

theorem reachable_towerCalls (n : Nat) : (ofCalls (towerCalls n)).Reachable :=
  ⟨towerCalls n, holds_towerCalls Json.hereditary_keysDistinct trivial n, rfl⟩

theorem integral_towerCalls (n : Nat) : (ofCalls (towerCalls n)).Holds Json.Integral :=
  holds_ofCalls (holds_towerCalls Json.hereditary_integral trivial n)

/-- The document and the property add two levels to a tower: 125 arrays are read back and one more is
too many. -/
theorem parse_text_towerCalls :
    Json.parse (ofCalls (towerCalls 125)).text = .ok (ofCalls (towerCalls 125)).document.json ∧
      ∃ e, Json.parse (ofCalls (towerCalls 126)).text = .error e ∧
        e.message = s!"recursion limit exceeded at line {e.line} column {e.column}" := by
  have hfits : (ofCalls (towerCalls 125)).document.json.nesting ≤ 127 := by decide +kernel
  have hdeep : 127 < (ofCalls (towerCalls 126)).document.json.nesting := by decide +kernel
  exact ⟨(parse_text (reachable_towerCalls 125) (integral_towerCalls 125)).1.mpr hfits,
    (parse_text (reachable_towerCalls 126) (integral_towerCalls 126)).2 hdeep⟩

end MarketScan.Query
