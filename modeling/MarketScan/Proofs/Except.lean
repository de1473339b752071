import Mathlib.Data.List.Forall2

/-!
# Steps that may fail

When steps one after the other succeed, each of them does. When they fail, the first fault is why.

* `bind_eq_ok_iff`, `bind_eq_error_iff` — two steps
* `mapM_eq_ok_iff` — one step for each item of a list
* `FirstBad` — the first item that is bad, and the steps that fail for it
* `mapError_bind`, `mapError_mapM` — steps whose faults are told in other words
* `FailsFor` — the faults of a step, in their order
-/

namespace MarketScan

variable {ε α β : Type}

theorem bind_eq_ok_iff {x : Except ε α} {f : α → Except ε β} {b : β} :
    (x >>= f) = .ok b ↔ ∃ a, x = .ok a ∧ f a = .ok b := by
  cases x with
  | error e => exact ⟨nofun, nofun⟩
  | ok a =>
    constructor
    · exact fun h => ⟨a, rfl, h⟩
    · rintro ⟨_, ⟨⟩, h⟩
      exact h

theorem mapM_eq_ok_iff {f : α → Except ε β} {xs : List α} {ys : List β} :
    xs.mapM f = .ok ys ↔ List.Forall₂ (fun x y => f x = .ok y) xs ys := by
  induction xs generalizing ys with
  | nil =>
    rw [List.mapM_nil, List.forall₂_nil_left_iff]
    constructor
    · rintro ⟨⟩
      rfl
    · rintro rfl
      rfl
  | cons x xs ih =>
    rw [List.mapM_cons, List.forall₂_cons_left_iff]
    simp only [bind_eq_ok_iff, ih]
    constructor
    · rintro ⟨y, hy, ys, hys, ⟨⟩⟩
      exact ⟨y, ys, hy, hys, rfl⟩
    · rintro ⟨y, ys, hy, hys, rfl⟩
      exact ⟨y, hy, ys, hys, rfl⟩

theorem bind_eq_error_iff {x : Except ε α} {f : α → Except ε β} {e : ε} :
    (x >>= f) = .error e ↔ x = .error e ∨ ∃ a, x = .ok a ∧ f a = .error e := by
  cases x with
  | error e' =>
    constructor
    · rintro ⟨⟩
      exact .inl rfl
    · rintro (⟨⟨⟩⟩ | ⟨a, ⟨⟩, -⟩)
      rfl
  | ok a =>
    constructor
    · exact fun h => .inr ⟨a, rfl, h⟩
    · rintro (⟨⟨⟩⟩ | ⟨_, ⟨⟩, h⟩)
      exact h

/-! ## The first fault of many steps -/

/-- An item is bad, and all items before it are good. -/
def FirstBad (Good Bad : α → Prop) (xs : List α) : Prop :=
  ∃ before x after, xs = before ++ x :: after ∧ (∀ y ∈ before, Good y) ∧ Bad x

section FirstBad

variable {Good Good' Bad Bad' : α → Prop} {x : α} {xs : List α}

theorem not_firstBad_nil : ¬FirstBad Good Bad [] := by
  rintro ⟨before, x, after, h, -⟩
  cases before <;> cases h

theorem firstBad_cons_iff :
    FirstBad Good Bad (x :: xs) ↔ Bad x ∨ Good x ∧ FirstBad Good Bad xs := by
  constructor
  · rintro ⟨before, x', after, h, hgood, hbad⟩
    cases before with
    | nil =>
      cases h
      exact .inl hbad
    | cons y before =>
      cases h
      obtain ⟨hy, hbefore⟩ := List.forall_mem_cons.mp hgood
      exact .inr ⟨hy, before, x', after, rfl, hbefore, hbad⟩
  · rintro (hbad | ⟨hx, before, x', after, rfl, hgood, hbad⟩)
    · exact ⟨[], x, xs, rfl, nofun, hbad⟩
    · exact ⟨x :: before, x', after, rfl, List.forall_mem_cons.mpr ⟨hx, hgood⟩, hbad⟩

theorem firstBad_congr (hgood : ∀ x ∈ xs, Good x ↔ Good' x) (hbad : ∀ x ∈ xs, Bad x ↔ Bad' x) :
    FirstBad Good Bad xs ↔ FirstBad Good' Bad' xs := by
  induction xs with
  | nil => exact iff_of_false not_firstBad_nil not_firstBad_nil
  | cons x xs ih =>
    obtain ⟨hx, hxs⟩ := List.forall_mem_cons.mp hgood
    obtain ⟨hx', hxs'⟩ := List.forall_mem_cons.mp hbad
    rw [firstBad_cons_iff, firstBad_cons_iff, hx, hx', ih hxs hxs']

end FirstBad

/-- A list of steps fails as the first of them does that fails. -/
theorem mapM_eq_error_iff {f : α → Except ε β} {xs : List α} {e : ε} :
    xs.mapM f = .error e ↔ FirstBad (fun x => ∃ y, f x = .ok y) (fun x => f x = .error e) xs := by
  induction xs with
  | nil => exact iff_of_false nofun not_firstBad_nil
  | cons x xs ih =>
    rw [List.mapM_cons, bind_eq_error_iff, firstBad_cons_iff, ← ih]
    refine or_congr_right ?_
    simp only [bind_eq_error_iff]
    constructor
    · rintro ⟨y, hy, hrest | ⟨ys, -, ⟨⟩⟩⟩
      exact ⟨⟨y, hy⟩, hrest⟩
    · rintro ⟨⟨y, hy⟩, hrest⟩
      exact ⟨y, hy, .inl hrest⟩

theorem exists_of_mapM_eq_error {f : α → Except ε β} {xs : List α} {e : ε}
    (h : xs.mapM f = .error e) : ∃ x ∈ xs, f x = .error e := by
  obtain ⟨before, x, after, rfl, -, hx⟩ := mapM_eq_error_iff.mp h
  exact ⟨x, List.mem_append_right before List.mem_cons_self, hx⟩

/-- So do steps that each go on from what the last one gave, when it is told by the items alone which of
them fail. -/
theorem foldlM_eq_error_iff {f : β → α → Except ε β} {Good : α → Prop} {Bad : α → ε → Prop}
    {xs : List α} (hgood : ∀ x ∈ xs, ∀ b, (∃ b', f b x = .ok b') ↔ Good x)
    (hbad : ∀ x ∈ xs, ∀ b e, f b x = .error e ↔ Bad x e) {b : β} {e : ε} :
    xs.foldlM f b = .error e ↔ FirstBad Good (fun x => Bad x e) xs := by
  induction xs generalizing b with
  | nil => exact iff_of_false nofun not_firstBad_nil
  | cons x xs ih =>
    obtain ⟨hx, hxs⟩ := List.forall_mem_cons.mp hgood
    obtain ⟨hx', hxs'⟩ := List.forall_mem_cons.mp hbad
    rw [List.foldlM_cons, bind_eq_error_iff, firstBad_cons_iff, hx', ← hx b]
    simp only [ih hxs hxs', exists_and_right]

/-- They succeed when none of the items fails. -/
theorem foldlM_isOk_iff {f : β → α → Except ε β} {Good : α → Prop} {xs : List α}
    (hgood : ∀ x ∈ xs, ∀ b, (∃ b', f b x = .ok b') ↔ Good x) {b : β} :
    (∃ b', xs.foldlM f b = .ok b') ↔ ∀ x ∈ xs, Good x := by
  induction xs generalizing b with
  | nil => exact iff_of_true ⟨b, rfl⟩ nofun
  | cons x xs ih =>
    obtain ⟨hx, hxs⟩ := List.forall_mem_cons.mp hgood
    simp only [List.foldlM_cons, bind_eq_ok_iff, List.forall_mem_cons]
    rw [exists_comm]
    simp only [exists_and_left, ih hxs, exists_and_right, hx]

/-! ## Faults in other words -/

variable {ε' : Type} {g : ε → ε'}

theorem mapError_bind {x : Except ε α} {f : α → Except ε β} :
    (x >>= f).mapError g = x.mapError g >>= fun a => (f a).mapError g := by
  cases x <;> rfl

theorem mapError_mapM {f : α → Except ε β} {xs : List α} :
    (xs.mapM f).mapError g = xs.mapM fun x => (f x).mapError g := by
  induction xs with
  | nil => rfl
  | cons x xs ih =>
    rw [List.mapM_cons, List.mapM_cons, mapError_bind]
    congr 1
    funext y
    rw [mapError_bind, ih]
    rfl

/-! ## Faults -/

/-- A step that fails for the first of its faults, and succeeds when there is none. -/
inductive FailsFor : Except ε α → List ε → Prop where
  | ok (a : α) : FailsFor (.ok a) []
  | error (e : ε) (es : List ε) : FailsFor (.error e) (e :: es)

namespace FailsFor

variable {x : Except ε α} {es es' : List ε}

theorem eq_error_iff (h : FailsFor x es) {e : ε} : x = .error e ↔ es.head? = some e := by
  cases h with
  | ok a => exact ⟨nofun, nofun⟩
  | error e' es => simp

theorem exists_ok_iff (h : FailsFor x es) : (∃ a, x = .ok a) ↔ es = [] := by
  cases h with
  | ok a => exact ⟨fun _ => rfl, fun _ => ⟨a, rfl⟩⟩
  | error e es => exact ⟨nofun, nofun⟩

theorem exists_error_iff (h : FailsFor x es) : (∃ e, x = .error e) ↔ es ≠ [] := by
  cases h with
  | ok a => exact ⟨nofun, fun h => absurd rfl h⟩
  | error e es => exact ⟨fun _ => List.cons_ne_nil e es, fun _ => ⟨e, rfl⟩⟩

/-- The faults of the first step come before those of the second. -/
theorem bind (h : FailsFor x es) {f : α → Except ε β} (hf : ∀ a, FailsFor (f a) es') :
    FailsFor (x >>= f) (es ++ es') := by
  cases h with
  | ok a => exact hf a
  | error e es => exact .error e (es ++ es')

/-- A step that ends in a value has the faults of what leads there. -/
theorem map (h : FailsFor x es) (f : α → β) : FailsFor (x >>= fun a => .ok (f a)) es := by
  cases h with
  | ok a => exact .ok (f a)
  | error e es => exact .error e es

theorem mapM {f : α → Except ε β} {g : α → List ε} {xs : List α}
    (h : ∀ x ∈ xs, FailsFor (f x) (g x)) : FailsFor (xs.mapM f) (xs.flatMap g) := by
  induction xs with
  | nil => exact .ok []
  | cons x xs ih =>
    obtain ⟨hx, hxs⟩ := List.forall_mem_cons.mp h
    rw [List.mapM_cons, List.flatMap_cons]
    exact hx.bind fun y => (ih hxs).map (y :: ·)

end FailsFor

end MarketScan
