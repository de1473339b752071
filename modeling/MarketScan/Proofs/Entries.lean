import MarketScan.Entries
import Mathlib.Data.List.Induction

/-!
# What setting names leaves behind

Pairs set one after the other leave each name at the place of its first pair with the value of its
last one. Names that are distinct, their order and what is found under them make up the whole list.

* `Entries.ofList_eq_latest` — the entries that pairs leave
* `Entries.eq_filterMap_keys` — entries are known by their names and what is found under them
-/

namespace MarketScan.Entries

variable {α : Type}

/-- The value of the last pair with a name. -/
def lastValue (key : String) (pairs : List (String × α)) : Option α := get? key pairs.reverse

/-- Each name with its last value, in the order of the first pairs. -/
def latest (pairs : List (String × α)) : List (String × α) :=
  (keys pairs).eraseDups.filterMap fun key => (lastValue key pairs).map (key, ·)

/-! ## Pairs set one after the other -/

theorem ofList_concat (pairs : List (String × α)) (e : String × α) :
    ofList (pairs ++ [e]) = insert e.1 e.2 (ofList pairs) := by
  rw [ofList, List.foldl_append]
  rfl

theorem keys_ofList (pairs : List (String × α)) : keys (ofList pairs) = (keys pairs).eraseDups := by
  induction pairs using List.reverseRecOn with
  | nil => rfl
  | append_singleton pairs e ih =>
    have hkeys : keys (pairs ++ [e]) = keys pairs ++ [e.1] := by simp [keys]
    rw [ofList_concat, keys_insert, ih, hkeys, List.eraseDups_append]
    by_cases h : e.1 ∈ keys pairs <;> simp [List.removeAll, h, List.eraseDups_cons]

theorem get?_ofList (key : String) (pairs : List (String × α)) :
    get? key (ofList pairs) = lastValue key pairs := by
  induction pairs using List.reverseRecOn with
  | nil => rfl
  | append_singleton pairs e ih =>
    rw [ofList_concat, get?_insert, ih, lastValue, lastValue, List.reverse_concat, get?]
    simp only [eq_comm]

/-- Setting a name brings in no entry but its own. -/
theorem mem_insert {key : String} {value : α} {es : List (String × α)} {e : String × α}
    (h : e ∈ insert key value es) : e = (key, value) ∨ e ∈ es := by
  induction es with
  | nil => exact .inl (List.mem_singleton.mp h)
  | cons e' es ih =>
    rw [insert] at h
    split at h
    · rcases List.mem_cons.mp h with rfl | hmem
      · exact .inl rfl
      · exact .inr (List.mem_cons_of_mem _ hmem)
    · rcases List.mem_cons.mp h with rfl | hmem
      · exact .inr List.mem_cons_self
      · exact (ih hmem).imp_right (List.mem_cons_of_mem _)

theorem mem_of_mem_ofList {pairs : List (String × α)} {e : String × α} (h : e ∈ ofList pairs) :
    e ∈ pairs := by
  induction pairs using List.reverseRecOn with
  | nil => exact h
  | append_singleton pairs last ih =>
    rw [ofList_concat] at h
    rcases mem_insert h with rfl | h
    · exact List.mem_append_right pairs List.mem_cons_self
    · exact List.mem_append_left _ (ih h)

theorem lastValue_concat (key : String) (pairs : List (String × α)) (e : String × α) :
    lastValue key (pairs ++ [e]) = if e.1 = key then some e.2 else lastValue key pairs := by
  rw [lastValue, lastValue, List.reverse_concat, get?]

/-- What an entry says of a name. -/
def valueOf? (key : String) (e : String × α) : Option α := if e.1 = key then some e.2 else none

theorem lastValue_eq_getLast? (key : String) (pairs : List (String × α)) :
    lastValue key pairs = (pairs.filterMap (valueOf? key)).getLast? := by
  induction pairs using List.reverseRecOn with
  | nil => rfl
  | append_singleton pairs e ih =>
    rw [lastValue_concat, ih, List.filterMap_append]
    by_cases h : e.1 = key <;> simp [valueOf?, h]

theorem getElem?_concat_eq_some_iff {pairs : List (String × α)} {e x : String × α} {i : Nat} :
    (pairs ++ [e])[i]? = some x ↔ pairs[i]? = some x ∨ i = pairs.length ∧ e = x := by
  rcases Nat.lt_trichotomy i pairs.length with hi | rfl | hi
  · rw [List.getElem?_append_left hi]
    exact (or_iff_left fun h => Nat.ne_of_lt hi h.1).symm
  · simp
  · have hlength : (pairs ++ [e]).length ≤ i := by
      rw [List.length_append]
      exact hi
    rw [List.getElem?_eq_none hlength, List.getElem?_eq_none (Nat.le_of_lt hi)]
    simp [Nat.ne_of_gt hi]

/-- The last value of a name stands at a place behind which the name does not occur. -/
theorem lastValue_eq_some_iff {key : String} {value : α} {pairs : List (String × α)} :
    lastValue key pairs = some value ↔
      ∃ i : Nat, pairs[i]? = some (key, value) ∧
        ∀ (j : Nat) (later : α), i < j → pairs[j]? ≠ some (key, later) := by
  induction pairs using List.reverseRecOn with
  | nil => simp [lastValue, get?]
  | append_singleton pairs e ih =>
    rw [lastValue_concat]
    simp only [Ne, getElem?_concat_eq_some_iff]
    by_cases hkey : e.1 = key
    · rw [if_pos hkey]
      have hlast : e = (key, e.2) := hkey ▸ rfl
      constructor
      · intro h
        have he : e = (key, value) := hlast.trans (congrArg _ (Option.some.inj h))
        refine ⟨pairs.length, .inr ⟨rfl, he⟩, fun j later hj => ?_⟩
        rw [List.getElem?_eq_none (Nat.le_of_lt hj)]
        rintro (⟨⟨⟩⟩ | ⟨rfl, -⟩)
        exact Nat.lt_irrefl _ hj
      · rintro ⟨i, hi | ⟨rfl, rfl⟩, hbehind⟩
        · obtain ⟨hlt, -⟩ := List.getElem?_eq_some_iff.mp hi
          exact absurd (.inr ⟨rfl, hlast⟩) (hbehind pairs.length e.2 hlt)
        · rfl
    · rw [if_neg hkey, ih]
      have hne (i : Nat) (x : α) : ¬(i = pairs.length ∧ e = (key, x)) := fun h => hkey (h.2 ▸ rfl)
      simp only [hne, or_false]

theorem keys_filter (p : String → Bool) (es : List (String × α)) :
    keys (es.filter fun e => p e.1) = (keys es).filter p := by
  rw [keys, keys, List.filter_map]
  rfl

theorem get?_filter (p : String → Bool) (key : String) (es : List (String × α)) :
    get? key (es.filter fun e => p e.1) = if p key then get? key es else none := by
  induction es with
  | nil => simp [get?]
  | cons e es ih =>
    rw [List.filter_cons]
    by_cases hkey : e.1 = key
    · subst hkey
      by_cases he : p e.1
      · rw [if_pos he, if_pos he, get?, get?, if_pos rfl, if_pos rfl]
      · rw [if_neg he, ih]
        simp [he]
    · rw [get?, if_neg hkey, ← ih]
      split
      · rw [get?, if_neg hkey]
      · rfl

theorem lastValue_filter (p : String → Bool) (key : String) (pairs : List (String × α)) :
    lastValue key (pairs.filter fun e => p e.1) = if p key then lastValue key pairs else none := by
  rw [lastValue, ← List.filter_reverse, get?_filter, lastValue]

/-! ## Entries by name -/

/-- Under the name of an entry that entry is found, as no other has its name. -/
theorem get?_of_mem {es : List (String × α)} (hd : (keys es).Nodup) {e : String × α} (he : e ∈ es) :
    get? e.1 es = some e.2 := by
  induction es with
  | nil => simp at he
  | cons e' es ih =>
    obtain ⟨hnot, hes⟩ := List.nodup_cons.mp hd
    rcases List.mem_cons.mp he with rfl | hmem
    · exact if_pos rfl
    · have hkey : e.1 ∈ keys es := List.mem_map_of_mem hmem
      have hne : e'.1 ≠ e.1 := by
        intro h
        refine hnot ?_
        show e'.1 ∈ keys es
        rw [h]
        exact hkey
      rw [get?, if_neg hne, ih hes hmem]

theorem get?_append (key : String) (es fs : List (String × α)) :
    get? key (es ++ fs) = (get? key es).or (get? key fs) := by
  induction es with
  | nil => exact (Option.none_or ..).symm
  | cons e es ih =>
    rw [List.cons_append, get?, get?, ih]
    split <;> rfl

/-- What is found under a name is an entry of that name. -/
theorem mem_of_get? {key : String} {value : α} {es : List (String × α)}
    (h : get? key es = some value) : (key, value) ∈ es := by
  induction es with
  | nil => cases h
  | cons e es ih =>
    rw [get?] at h
    split at h
    · next hkey =>
      cases h
      exact hkey ▸ List.mem_cons_self
    · exact List.mem_cons_of_mem _ (ih h)

/-- Entries are rebuilt from their names by what gives each name its entry. -/
theorem filterMap_keys {f : String → Option (String × α)} {es : List (String × α)}
    (h : ∀ e ∈ es, f e.1 = some e) : (keys es).filterMap f = es := by
  induction es with
  | nil => rfl
  | cons e es ih =>
    have hes : ∀ e' ∈ es, f e'.1 = some e' := fun e' he' => h e' (List.mem_cons_of_mem _ he')
    rw [keys_cons, List.filterMap_cons, h e List.mem_cons_self, ih hes]

/-- Entries with distinct names are known by their names and what is found under them. -/
theorem eq_filterMap_keys {es : List (String × α)} (hd : (keys es).Nodup) :
    es = (keys es).filterMap fun key => (get? key es).map (key, ·) := by
  refine (filterMap_keys fun e he => ?_).symm
  rw [get?_of_mem hd he]
  rfl

/-- **Pairs leave each name where it was first set, with the value that it was last set to.** -/
theorem ofList_eq_latest (pairs : List (String × α)) : ofList pairs = latest pairs := by
  rw [eq_filterMap_keys (nodup_ofList pairs), keys_ofList, latest]
  simp only [get?_ofList]

/-- Where names are distinct, what is found under them does not depend on the order. -/
theorem get?_perm {es fs : List (String × α)} (h : es.Perm fs) (hd : (keys es).Nodup) (key : String) :
    get? key fs = get? key es := by
  have hfs : (keys fs).Nodup := (h.map Prod.fst).nodup_iff.mp hd
  cases hes : get? key es with
  | none =>
    have hnot : key ∉ keys fs := fun hk =>
      get?_eq_none_iff.mp hes ((h.map Prod.fst).mem_iff.mpr hk)
    exact get?_eq_none_iff.mpr hnot
  | some a =>
    have hmem : (key, a) ∈ fs := h.mem_iff.mp (mem_of_get? hes)
    exact get?_of_mem hfs hmem

theorem lastValue_of_nodup {es : List (String × α)} (hd : (keys es).Nodup) (key : String) :
    lastValue key es = get? key es := get?_perm (List.reverse_perm es).symm hd key

/-! ## Changing the values -/

variable {β : Type}

/-- The entries with a function on their values. -/
def mapValues (f : α → β) (es : List (String × α)) : List (String × β) :=
  es.map fun e => (e.1, f e.2)

@[simp] theorem keys_mapValues (f : α → β) (es : List (String × α)) :
    keys (mapValues f es) = keys es := by
  simp [keys, mapValues]

@[simp] theorem get?_mapValues (f : α → β) (key : String) (es : List (String × α)) :
    get? key (mapValues f es) = (get? key es).map f := by
  induction es with
  | nil => rfl
  | cons e es ih =>
    show get? key ((e.1, f e.2) :: mapValues f es) = _
    rw [get?, get?, ih]
    split <;> rfl

theorem mapValues_insert (f : α → β) (key : String) (value : α) (es : List (String × α)) :
    mapValues f (insert key value es) = insert key (f value) (mapValues f es) := by
  induction es with
  | nil => rfl
  | cons e es ih =>
    show mapValues f (insert key value (e :: es)) = insert key (f value) ((e.1, f e.2) :: mapValues f es)
    rw [insert, insert]
    split
    · rfl
    · rw [← ih]
      rfl

theorem ofList_mapValues (f : α → β) (pairs : List (String × α)) :
    ofList (mapValues f pairs) = mapValues f (ofList pairs) := by
  induction pairs using List.reverseRecOn with
  | nil => rfl
  | append_singleton pairs e ih =>
    have hconcat : mapValues f (pairs ++ [e]) = mapValues f pairs ++ [(e.1, f e.2)] := List.map_append
    rw [hconcat, ofList_concat, ofList_concat, mapValues_insert, ih]

end MarketScan.Entries
