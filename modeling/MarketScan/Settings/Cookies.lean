/-!
# Cookies

Named values in strictly increasing order of their names, by code point. All of them go into one
header.

* `Cookies.insert`, `Cookies.ofList` — a name that is set again takes the new value
* `Cookies.header?` — the text of the header, if there are cookies
-/

namespace MarketScan

/-- Cookies by name, in the order of the names. -/
structure Cookies where
  entries : List (String × String)
  sorted : (entries.map (·.1)).Pairwise (· < ·)
deriving DecidableEq

namespace Cookies

/-- No cookies. -/
def none : Cookies := ⟨[], .nil⟩

/-- The entries with one more, in its place. -/
def insertEntry (name value : String) : List (String × String) → List (String × String)
  | [] => [(name, value)]
  | (n, v) :: es =>
    if name < n then (name, value) :: (n, v) :: es
    else if name = n then (name, value) :: es
    else (n, v) :: insertEntry name value es

theorem mem_keys_insertEntry {name value n : String} {es : List (String × String)} :
    n ∈ (insertEntry name value es).map (·.1) ↔ n = name ∨ n ∈ es.map (·.1) := by
  induction es with
  | nil => simp [insertEntry]
  | cons e es ih => grind [insertEntry]

theorem sorted_insertEntry (name value : String) {es : List (String × String)}
    (h : (es.map (·.1)).Pairwise (· < ·)) :
    ((insertEntry name value es).map (·.1)).Pairwise (· < ·) := by
  induction es with
  | nil => simp [insertEntry]
  | cons e es ih =>
    obtain ⟨n, v⟩ := e
    rw [List.map_cons, List.pairwise_cons] at h
    unfold insertEntry
    split
    · next hlt =>
      simp only [List.map_cons, List.pairwise_cons, List.mem_cons, forall_eq_or_imp]
      exact ⟨⟨hlt, fun a ha => String.lt_trans hlt (h.1 a ha)⟩, h.1, h.2⟩
    · split
      · next heq => subst heq; simpa using h
      · next hlt heq =>
        have hgt : n < name := by
          rcases Std.lt_trichotomy name n with h | h | h
          · exact absurd h hlt
          · exact absurd h heq
          · exact h
        rw [List.map_cons, List.pairwise_cons]
        refine ⟨fun a ha => ?_, ih h.2⟩
        rcases mem_keys_insertEntry.1 ha with rfl | ha
        · exact hgt
        · exact h.1 a ha

/-- The cookies with one more. -/
def insert (name value : String) (c : Cookies) : Cookies :=
  ⟨insertEntry name value c.entries, sorted_insertEntry name value c.sorted⟩

/-- All pairs set one after the other. -/
def ofList (pairs : List (String × String)) : Cookies :=
  pairs.foldl (fun c (name, value) => c.insert name value) none

/-- The text of the header that holds every cookie. -/
def header? (c : Cookies) : Option String :=
  if c.entries.isEmpty then .none
  else some ("; ".intercalate (c.entries.map fun (name, value) => name ++ "=" ++ value))

end Cookies

end MarketScan
