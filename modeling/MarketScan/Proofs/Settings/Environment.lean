import MarketScan.Proofs.Settings.Tree
import Mathlib.Data.Bool.AllAny

/-!
# Variables that settings come from

A variable counts for the settings exactly when its name begins with `SCREENER_`, in any case of
letters. All others might as well not be set.

* `Settings.IsMarked` — how the name of such a variable begins
* `Settings.readEnvironment_filter` — the other variables change nothing
-/

namespace MarketScan.Settings

/-! ## Letters in small and in capitals -/

theorem toNat_toLower (c : Char) :
    c.toLower.toNat = if 65 ≤ c.toNat ∧ c.toNat ≤ 90 then c.toNat + 32 else c.toNat := by
  unfold Char.toLower
  split
  · next h =>
    rw [ge_iff_le, UInt32.le_iff_toNat_le, UInt32.le_iff_toNat_le] at h
    have hletter : 65 ≤ c.toNat ∧ c.toNat ≤ 90 := h
    rw [if_pos hletter]
    show (c.val + ('a'.val - 'A'.val)).toNat = _
    rw [UInt32.toNat_add]
    show (c.toNat + 32) % _ = _
    omega
  · next h =>
    rw [ge_iff_le, UInt32.le_iff_toNat_le, UInt32.le_iff_toNat_le] at h
    exact (if_neg h).symm

theorem toNat_toUpper (c : Char) :
    c.toUpper.toNat = if 97 ≤ c.toNat ∧ c.toNat ≤ 122 then c.toNat - 32 else c.toNat := by
  unfold Char.toUpper
  split
  · next h =>
    rw [UInt32.le_iff_toNat_le, UInt32.le_iff_toNat_le] at h
    have hletter : 97 ≤ c.toNat ∧ c.toNat ≤ 122 := h
    rw [if_pos hletter]
    show (c.val + ('A'.val - 'a'.val)).toNat = _
    rw [UInt32.toNat_add]
    show (c.toNat + 4294967264) % _ = _
    omega
  · next h =>
    rw [UInt32.le_iff_toNat_le, UInt32.le_iff_toNat_le] at h
    exact (if_neg h).symm

theorem toNat_lowerChar (c : Char) :
    (lowerChar c).toNat = if 65 ≤ c.toNat ∧ c.toNat ≤ 90 then c.toNat + 32
      else if c.toNat = 8490 then 107 else c.toNat := by
  unfold lowerChar
  split
  · next h =>
    rw [h]
    decide
  · next h =>
    have hkelvin : c.toNat ≠ 8490 := fun hc => h (Char.toNat_inj.mp hc)
    rw [toNat_toLower, if_neg hkelvin]

/-- No character of the mark has a small letter beyond ASCII. -/
theorem lowerChar_eq_iff {m : Char} (hm : m ∈ variableMark) (c : Char) :
    lowerChar c = m ↔ c.toUpper = m.toUpper := by
  have hrange : ∀ m ∈ variableMark, m.toNat = 95 ∨ 97 ≤ m.toNat ∧ m.toNat ≤ 122 ∧ m.toNat ≠ 107 :=
    List.all_iff_forall_prop.mp (by decide)
  have hm := hrange m hm
  rw [← Char.toNat_inj, ← Char.toNat_inj, toNat_lowerChar, toNat_toUpper, toNat_toUpper]
  split_ifs <;> omega

/-! ## Marked names -/

/-- The name of a variable that settings may come from begins with `SCREENER_`, in any case of
letters. -/
def IsMarked (variableName : String) : Prop :=
  (variableName.toList.take 9).map Char.toUpper = "SCREENER_".toList

instance : DecidablePred IsMarked := fun _ => inferInstanceAs (Decidable (_ = _))

theorem map_lowerChar_eq_iff {mark : List Char} (hmark : ∀ m ∈ mark, m ∈ variableMark)
    (s : List Char) : s.map lowerChar = mark ↔ s.map Char.toUpper = mark.map Char.toUpper := by
  induction s generalizing mark with
  | nil => cases mark <;> simp
  | cons c s ih =>
    cases mark with
    | nil => simp
    | cons m mark =>
      obtain ⟨hm, hrest⟩ := List.forall_mem_cons.mp hmark
      simp only [List.map_cons, List.cons.injEq, lowerChar_eq_iff hm, ih hrest]

/-- A marked name is the mark and the name of a setting. -/
theorem isMarked_iff_isPrefixOf {variableName : String} :
    IsMarked variableName ↔ variableMark.isPrefixOf (variableName.toList.map lowerChar) = true := by
  have hmark : "SCREENER_".toList = variableMark.map Char.toUpper := by decide
  rw [IsMarked, hmark, ← map_lowerChar_eq_iff (fun _ => id), List.map_take, List.isPrefixOf_iff_prefix,
    List.prefix_iff_eq_take]
  exact eq_comm

theorem settingName?_eq_none_iff {variableName : String} :
    settingName? variableName = none ↔ ¬IsMarked variableName := by
  rw [isMarked_iff_isPrefixOf]
  unfold settingName?
  dsimp only
  split
  · next h => simp [h]
  · next h => simp [h]

/-- The setting that a variable says something of, and what it says. -/
def said? (v : String × String) : Option (String × String) := (settingName? v.1).map (·, v.2)

theorem readEnvironment_eq (env : Environment) :
    readEnvironment env =
      Entries.mapValues (textNode none) (Node.sortEntries (Entries.ofList (env.filterMap said?))) := by
  rw [← Node.sortEntries_mapValues, ← Entries.ofList_mapValues, Entries.mapValues, List.map_filterMap]
  unfold readEnvironment said?
  simp only [Option.map_map]
  rfl

theorem said?_of_not_isMarked {v : String × String} (h : ¬IsMarked v.1) : said? v = none := by
  rw [said?, settingName?_eq_none_iff.mpr h]
  rfl

/-- **Variables that are not marked change nothing.** -/
theorem readEnvironment_filter (env : Environment) :
    readEnvironment (env.filter fun v => IsMarked v.1) = readEnvironment env := by
  rw [readEnvironment_eq, readEnvironment_eq, List.filterMap_filter]
  congr 4
  funext v
  split
  · rfl
  · next h =>
    have hunmarked : ¬IsMarked v.1 := by simpa using h
    rw [said?_of_not_isMarked hunmarked]

theorem readEnvironment_of_unmarked {env : Environment} (h : ∀ v ∈ env, ¬IsMarked v.1) :
    readEnvironment env = [] := by
  have hnone : env.filterMap said? = [] := by
    rw [List.filterMap_eq_nil_iff]
    exact fun v hv => said?_of_not_isMarked (h v hv)
  rw [readEnvironment_eq, hnone]
  simp [Entries.ofList, Node.sortEntries, Entries.mapValues]

end MarketScan.Settings
