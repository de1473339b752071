import MarketScan.Proofs.Entries
import MarketScan.Proofs.Except
import MarketScan.Toml.Document

/-!
# No table of a document repeats a key

Keys are put into tables by `Table.set` alone, which takes the place of a key that is there. So whatever
the rules for keys and headers are, no table holds a key twice, however deep it lies.

* `Toml.Distinct` — a value without repeated keys
* `Table.distinct_alter` — a change at a path, if what it does there repeats none
* `Item.distinct_read`, `Toml.distinct_assignPairs` — values, and keys with their values
* `Toml.distinct_parse` — documents
-/

namespace MarketScan.Toml

/-- No table anywhere in the value repeats a key. -/
inductive Distinct : Value → Prop where
  | scalar (s : Scalar) : Distinct (.scalar s)
  | array {byHeaders : Bool} {items : List Value} (h : ∀ v ∈ items, Distinct v) :
      Distinct (.array byHeaders items)
  | table {origin : Origin} {entries : List (String × Value)} (hkeys : (Entries.keys entries).Nodup)
      (h : ∀ e ∈ entries, Distinct e.2) : Distinct (.table origin entries)

namespace Table

variable {t t' : Table} {key : String} {v : Value}

theorem distinct_empty (origin : Origin) : Distinct (toValue ⟨origin, []⟩) := .table .nil nofun

/-- How a table came about does not matter. -/
theorem distinct_origin {origin origin' : Origin} {entries : List (String × Value)}
    (h : Distinct (.table origin entries)) : Distinct (.table origin' entries) := by
  cases h with
  | table hkeys h => exact .table hkeys h

theorem distinct_get? (ht : Distinct t.toValue) (h : t.get? key = some v) : Distinct v := by
  cases ht with
  | table _ hall => exact hall (key, v) (Entries.mem_of_get? h)

theorem distinct_set (ht : Distinct t.toValue) (hv : Distinct v) (key : String) :
    Distinct (t.set key v).toValue := by
  cases ht with
  | table hkeys hall =>
    refine .table (Entries.nodup_insert key v hkeys) fun e he => ?_
    rcases Entries.mem_insert he with rfl | hmem
    · exact hv
    · exact hall e hmem

/-- An array with one more item, or with another last one. -/
theorem distinct_concat {items : List Value} (hitems : ∀ w ∈ items, Distinct w) (hv : Distinct v) :
    Distinct (.array true (items ++ [v])) := by
  refine .array fun w hw => ?_
  rcases List.mem_append.mp hw with hw | hw
  · exact hitems w hw
  · rw [List.mem_singleton.mp hw]
    exact hv

/-- A change that leads from tables without repeated keys to such. -/
def Keeps (change : Table → Except Fault Table) : Prop :=
  ∀ t t', Distinct t.toValue → change t = .ok t' → Distinct t'.toValue

/-- **A change at a path repeats no key** if what it does there repeats none. -/
theorem distinct_alter (byKey : Bool) {change : Table → Except Fault Table} (hchange : Keeps change)
    (path : List String) : Keeps (alter byKey change path) := by
  induction path with
  | nil => exact hchange
  | cons key path ih =>
    intro t t' ht h
    rw [alter] at h
    cases hget : t.get? key with
    | none =>
      rw [hget] at h
      obtain ⟨inner, hinner, ⟨⟩⟩ := bind_eq_ok_iff.mp h
      exact distinct_set ht (ih _ _ (distinct_empty _) hinner) key
    | some v =>
      have hv : Distinct v := distinct_get? ht hget
      rw [hget] at h
      cases v with
      | scalar s => cases h
      | table origin entries =>
        dsimp only at h
        split at h
        · cases h
        · obtain ⟨inner, hinner, ⟨⟩⟩ := bind_eq_ok_iff.mp h
          exact distinct_set ht (ih _ _ (distinct_origin hv) hinner) key
      | array byHeaders items =>
        cases byHeaders with
        | false => cases h
        | true =>
          cases hv with
          | array hitems =>
            -- the last table of the array is changed
            cases hlast : items.getLast? with
            | none =>
              dsimp only at h
              rw [hlast] at h
              cases h
            | some last =>
              dsimp only at h
              rw [hlast] at h
              cases last with
              | scalar s => cases h
              | array byHeaders items => cases h
              | table origin entries =>
                obtain ⟨inner, hinner, ⟨⟩⟩ := bind_eq_ok_iff.mp h
                have hold := hitems _ (List.mem_of_getLast? hlast)
                have hothers : ∀ w ∈ items.dropLast, Distinct w := fun w hw =>
                  hitems w (List.dropLast_subset items hw)
                have hnew := ih ⟨origin, entries⟩ inner hold hinner
                exact distinct_set ht (distinct_concat hothers hnew) key

theorem distinct_add (hv : Distinct v) (key : String) : Keeps (add key v) := by
  intro t t' ht h
  rw [add] at h
  split at h
  · cases h
    exact distinct_set ht hv key
  · cases h

theorem distinct_assign (hv : Distinct v) (path : List String) (key : String) :
    Keeps (assign path key v) := by
  refine distinct_alter true (fun t t' ht h => ?_) path
  split at h
  · exact distinct_add hv key t t' ht h
  · cases h

theorem distinct_fillTable {fill : Table → Except Fault Table} (hfill : Keeps fill)
    (path : List String) (key : String) : Keeps (fillTable path key fill) := by
  refine distinct_alter false (fun t t' ht h => ?_) path
  split at h
  · obtain ⟨inner, hinner, ⟨⟩⟩ := bind_eq_ok_iff.mp h
    exact distinct_set ht (hfill _ _ (distinct_empty _) hinner) key
  · next hget =>
    obtain ⟨inner, hinner, ⟨⟩⟩ := bind_eq_ok_iff.mp h
    exact distinct_set ht (hfill _ _ (distinct_origin (distinct_get? ht hget)) hinner) key
  · cases h

theorem distinct_addElement {element : Table} (helement : Distinct element.toValue)
    (path : List String) (key : String) :
    Keeps fun t => addElement path key t element := by
  refine distinct_alter false (fun t t' ht h => ?_) path
  split at h
  · cases h
    have hone : Distinct (.array true ([] ++ [element.toValue])) := distinct_concat nofun helement
    exact distinct_set ht hone key
  · next hget =>
    cases h
    cases distinct_get? ht hget with
    | array hitems => exact distinct_set ht (distinct_concat hitems helement) key
  · cases h

end Table

/-! ## Values -/

mutual

theorem Item.distinct_read : ∀ (item : Item) (v : Value), item.read = .ok v → Distinct v
  | .scalar (some x), v, h => by
    cases h
    exact .scalar x
  | .scalar none, v, h => by cases h
  | .array items, v, h => by
    rw [Item.read] at h
    obtain ⟨vs, hvs, ⟨⟩⟩ := bind_eq_ok_iff.mp h
    exact .array (distinct_readItems items vs hvs)
  | .table pairs, v, h => by
    rw [Item.read] at h
    obtain ⟨t, ht, ⟨⟩⟩ := bind_eq_ok_iff.mp h
    exact distinct_assignPairs pairs _ t (Table.distinct_empty _) ht

theorem distinct_readItems : ∀ (items : List Item) (vs : List Value),
    readItems items = .ok vs → ∀ v ∈ vs, Distinct v
  | [], vs, h => by
    cases h
    exact nofun
  | item :: items, vs, h => by
    rw [readItems] at h
    obtain ⟨x, hx, h⟩ := bind_eq_ok_iff.mp h
    obtain ⟨xs, hxs, ⟨⟩⟩ := bind_eq_ok_iff.mp h
    exact List.forall_mem_cons.mpr ⟨item.distinct_read x hx, distinct_readItems items xs hxs⟩

theorem distinct_assignPairs : ∀ (pairs : List (Key × Item)) (t t' : Table),
    Distinct t.toValue → assignPairs t pairs = .ok t' → Distinct t'.toValue
  | [], t, t', ht, h => by
    cases h
    exact ht
  | (key, item) :: pairs, t, t', ht, h => by
    rw [assignPairs] at h
    obtain ⟨⟨path, last⟩, -, h⟩ := bind_eq_ok_iff.mp h
    obtain ⟨x, hx, h⟩ := bind_eq_ok_iff.mp h
    obtain ⟨t₁, ht₁, h⟩ := bind_eq_ok_iff.mp h
    have hx' : Distinct x := item.distinct_read x hx
    exact distinct_assignPairs pairs t₁ t' (Table.distinct_assign hx' path last t t₁ ht ht₁) h

end

/-! ## Documents -/

theorem Table.distinct_addSection (s : Section) : Keeps fun t => t.addSection s := by
  intro t t' ht h
  unfold addSection at h
  split at h
  · exact distinct_assignPairs s.pairs t t' ht h
  · obtain ⟨⟨path, last⟩, -, h⟩ := bind_eq_ok_iff.mp h
    exact distinct_fillTable (distinct_assignPairs s.pairs) path last t t' ht h
  · obtain ⟨⟨path, last⟩, -, h⟩ := bind_eq_ok_iff.mp h
    obtain ⟨element, helement, h⟩ := bind_eq_ok_iff.mp h
    have hdistinct := distinct_assignPairs s.pairs _ element (distinct_empty _) helement
    exact distinct_addElement hdistinct path last t t' ht h

theorem Table.distinct_addSections (sections : List Section) :
    Keeps fun t => sections.foldlM Table.addSection t := by
  induction sections with
  | nil =>
    intro t t' ht h
    cases h
    exact ht
  | cons s sections ih =>
    intro t t' ht h
    obtain ⟨t₁, ht₁, h⟩ := bind_eq_ok_iff.mp h
    exact ih t₁ t' (distinct_addSection s t t₁ ht ht₁) h

/-- **No table of a document repeats a key.** -/
theorem distinct_parse {text : String} {entries : List (String × Value)}
    (h : parse text = .ok entries) : Distinct (.table .header entries) := by
  rw [parse] at h
  split at h
  · cases h
  · next sections _ =>
    obtain ⟨t, ht, ⟨⟩⟩ := bind_eq_ok_iff.mp h
    have hroot := Table.distinct_addSections sections _ t (Table.distinct_empty .header) ht
    exact Table.distinct_origin hroot

end MarketScan.Toml
