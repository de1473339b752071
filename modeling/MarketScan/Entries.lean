/-!
# Named entries in insertion order

A list of name and value pairs where a name occurs once. A name that is set again keeps its place
and takes the new value (`Entries.insert`), so the order is that of first occurrence.

* `Entries.get?_insert` — what is found after an insertion
* `Entries.nodup_ofList` — names are distinct
* `Entries.ofList_eq_self` — pairs of distinct names are kept as they are
-/

namespace MarketScan.Entries

variable {α : Type}

/-- The names, in order. -/
def keys (es : List (String × α)) : List String := es.map (·.1)

/-- The value of a name. -/
def get? (key : String) : List (String × α) → Option α
  | [] => none
  | (k, v) :: es => if k = key then some v else get? key es

/-- Sets a name: in its place if it is there, else at the end. -/
def insert (key : String) (value : α) : List (String × α) → List (String × α)
  | [] => [(key, value)]
  | (k, v) :: es => if k = key then (key, value) :: es else (k, v) :: insert key value es

/-- All pairs set one after the other. -/
def ofList (pairs : List (String × α)) : List (String × α) :=
  pairs.foldl (fun es (key, value) => insert key value es) []

@[simp] theorem keys_nil : keys ([] : List (String × α)) = [] := rfl

@[simp] theorem keys_cons (e : String × α) (es : List (String × α)) :
    keys (e :: es) = e.1 :: keys es := rfl

theorem get?_insert (key k : String) (value : α) (es : List (String × α)) :
    get? k (insert key value es) = if k = key then some value else get? k es := by
  induction es with
  | nil => by_cases h : key = k <;> simp [insert, get?, h, eq_comm]
  | cons e es ih => grind [insert, get?]

/-- Setting a name adds it at the end unless it is there. -/
theorem keys_insert (key : String) (value : α) (es : List (String × α)) :
    keys (insert key value es) = if key ∈ keys es then keys es else keys es ++ [key] := by
  induction es with
  | nil => simp [insert]
  | cons e es ih => grind [insert, keys_cons]

theorem nodup_insert (key : String) (value : α) {es : List (String × α)} (h : (keys es).Nodup) :
    (keys (insert key value es)).Nodup := by
  rw [keys_insert]
  split
  · exact h
  · next hk =>
    refine List.nodup_append.2 ⟨h, by simp, fun a ha b hb hab => ?_⟩
    rw [List.mem_singleton] at hb
    exact hk (hb ▸ hab ▸ ha)

theorem insert_of_not_mem {key : String} {es : List (String × α)} (h : key ∉ keys es) (value : α) :
    insert key value es = es ++ [(key, value)] := by
  induction es with
  | nil => rfl
  | cons e es ih =>
    obtain ⟨k, v⟩ := e
    rw [keys_cons, List.mem_cons, not_or] at h
    rw [insert, if_neg (Ne.symm h.1), ih h.2, List.cons_append]

theorem nodup_ofList (pairs : List (String × α)) : (keys (ofList pairs)).Nodup := by
  suffices h : ∀ es : List (String × α), (keys es).Nodup →
      (keys (pairs.foldl (fun es (key, value) => insert key value es) es)).Nodup from h [] .nil
  induction pairs with
  | nil => exact fun _ h => h
  | cons e pairs ih => exact fun es h => ih _ (nodup_insert e.1 e.2 h)

/-- Pairs of distinct names are kept as they are. -/
theorem ofList_eq_self {pairs : List (String × α)} (h : (keys pairs).Nodup) :
    ofList pairs = pairs := by
  suffices hs : ∀ es : List (String × α), (keys (es ++ pairs)).Nodup →
      pairs.foldl (fun es (key, value) => insert key value es) es = es ++ pairs from hs [] h
  clear h
  induction pairs with
  | nil => simp
  | cons e pairs ih =>
    intro es hes
    have he : e.1 ∉ keys es := by
      intro hm
      rw [keys, List.map_append, List.nodup_append] at hes
      exact hes.2.2 _ hm _ (by simp) rfl
    have hcat : es ++ [e] ++ pairs = es ++ e :: pairs := by simp
    show pairs.foldl _ (insert e.1 e.2 es) = _
    rw [insert_of_not_mem he, ih _ (by rw [hcat]; exact hes), hcat]

theorem get?_eq_none_iff {key : String} {es : List (String × α)} :
    get? key es = none ↔ key ∉ keys es := by
  induction es with
  | nil => simp [get?]
  | cons e es ih => grind [get?, keys_cons]

end MarketScan.Entries
