import MarketScan.Proofs.Entries
import MarketScan.Proofs.Json.Shape
import Mathlib.Data.List.Forall2
import Mathlib.Data.List.Perm.Subperm

/-!
# Equality of JSON values

Objects are compared without regard to the order of their fields, so that equal values may be written
in different ways. Among values in which no object repeats a name this is an equivalence: two objects
are equal exactly when under every name both have equal values or neither has one, and said so the
comparison looks alike from both sides.

* `EquivalenceAt` — a comparison is reflexive, symmetric and transitive at a value, and passes this on to
  options, lists and entries
* `Json.same_object_iff` — objects by what is found under each name
* `Json.equivalenceAt` — the comparison of JSON values is an equivalence
-/

namespace MarketScan

variable {α β : Type} {p : α → Prop} {R : α → α → Prop} {q : β → Prop} {S : β → β → Prop}

/-! ## Equivalence at one value -/

/-- Among values with `p`, the comparison `R` is an equivalence as far as `a` goes. -/
structure EquivalenceAt (p : α → Prop) (R : α → α → Prop) (a : α) : Prop where
  refl : p a → R a a
  symm {b : α} : p a → p b → R a b → R b a
  trans {b c : α} : p a → p b → p c → R a b → R b c → R a c

namespace EquivalenceAt

theorem eq (a : α) : EquivalenceAt p Eq a where
  refl _ := rfl
  symm _ _ := Eq.symm
  trans _ _ _ := Eq.trans

theorem option {x : Option α} (h : ∀ a ∈ x, EquivalenceAt p R a) :
    EquivalenceAt (fun x => ∀ a ∈ x, p a) (Option.Rel R) x where
  refl hx := by
    cases x with
    | none => exact .none
    | some a => exact .some ((h a rfl).refl (hx a rfl))
  symm hx hy hxy := by
    cases hxy with
    | none => exact .none
    | some hab => exact .some ((h _ rfl).symm (hx _ rfl) (hy _ rfl) hab)
  trans hx hy hz hxy hyz := by
    cases hxy with
    | none => exact hyz
    | some hab =>
      cases hyz with
      | some hbc => exact .some ((h _ rfl).trans (hx _ rfl) (hy _ rfl) (hz _ rfl) hab hbc)

/-- Lists place by place. -/
theorem list {xs : List α} (h : ∀ a ∈ xs, EquivalenceAt p R a) :
    EquivalenceAt (fun xs => ∀ a ∈ xs, p a) (List.Forall₂ R) xs where
  refl hxs := List.forall₂_same.mpr fun a ha => (h a ha).refl (hxs a ha)
  symm hxs hys hxy := by
    induction hxy with
    | nil => exact .nil
    | cons hab _ ih =>
      obtain ⟨ha, hrest⟩ := List.forall_mem_cons.mp h
      obtain ⟨hpa, hpxs⟩ := List.forall_mem_cons.mp hxs
      obtain ⟨hpb, hpys⟩ := List.forall_mem_cons.mp hys
      exact .cons (ha.symm hpa hpb hab) (ih hrest hpxs hpys)
  trans {ys zs} hxs hys hzs hxy hyz := by
    induction hxy generalizing zs with
    | nil => exact hyz
    | cons hab _ ih =>
      cases hyz with
      | cons hbc hyz =>
        obtain ⟨ha, hrest⟩ := List.forall_mem_cons.mp h
        obtain ⟨hpa, hpxs⟩ := List.forall_mem_cons.mp hxs
        obtain ⟨hpb, hpys⟩ := List.forall_mem_cons.mp hys
        obtain ⟨hpc, hpzs⟩ := List.forall_mem_cons.mp hzs
        exact .cons (ha.trans hpa hpb hpc hab hbc) (ih hrest hpxs hpys hpzs hyz)

theorem prod {a : α} {b : β} (ha : EquivalenceAt p R a) (hb : EquivalenceAt q S b) :
    EquivalenceAt (fun x : α × β => p x.1 ∧ q x.2) (fun x y => R x.1 y.1 ∧ S x.2 y.2) (a, b) where
  refl h := ⟨ha.refl h.1, hb.refl h.2⟩
  symm h h' hab := ⟨ha.symm h.1 h'.1 hab.1, hb.symm h.2 h'.2 hab.2⟩
  trans h h' h'' hab hbc :=
    ⟨ha.trans h.1 h'.1 h''.1 hab.1 hbc.1, hb.trans h.2 h'.2 h''.2 hab.2 hbc.2⟩

/-- Values compared by what a function makes of them. -/
theorem comap {f : α → β} {a : α} (hp : ∀ a, p a → q (f a))
    (hR : ∀ a b, p a → p b → (R a b ↔ S (f a) (f b))) (h : EquivalenceAt q S (f a)) :
    EquivalenceAt p R a where
  refl ha := (hR _ _ ha ha).mpr (h.refl (hp _ ha))
  symm ha hb hab := (hR _ _ hb ha).mpr (h.symm (hp _ ha) (hp _ hb) ((hR _ _ ha hb).mp hab))
  trans ha hb hc hab hbc :=
    (hR _ _ ha hc).mpr
      (h.trans (hp _ ha) (hp _ hb) (hp _ hc) ((hR _ _ ha hb).mp hab) ((hR _ _ hb hc).mp hbc))

/-- A constructor `C` whose values are compared by their arguments, and with no others. -/
theorem constructed {C : α → β} {a : α} (hcases : ∀ {a b}, S (C a) b → ∃ a', b = C a')
    (hq : ∀ a, q (C a) → p a) (hS : ∀ a a', q (C a) → q (C a') → (S (C a) (C a') ↔ R a a'))
    (h : EquivalenceAt p R a) : EquivalenceAt q S (C a) where
  refl ha := (hS _ _ ha ha).mpr (h.refl (hq _ ha))
  symm ha hb hab := by
    obtain ⟨_, rfl⟩ := hcases hab
    exact (hS _ _ hb ha).mpr (h.symm (hq _ ha) (hq _ hb) ((hS _ _ ha hb).mp hab))
  trans ha hb hc hab hbc := by
    obtain ⟨_, rfl⟩ := hcases hab
    obtain ⟨_, rfl⟩ := hcases hbc
    exact (hS _ _ ha hc).mpr
      (h.trans (hq _ ha) (hq _ hb) (hq _ hc) ((hS _ _ ha hb).mp hab) ((hS _ _ hb hc).mp hbc))

end EquivalenceAt

/-! ## Comparisons that are computed -/

section Computed

variable {same : α → α → Bool}

/-- Lists compared place by place. -/
theorem forall₂_iff_of_eqns {sameAll : List α → List α → Bool} (nil : sameAll [] [] = true)
    (shorter : ∀ y ys, sameAll [] (y :: ys) = false) (longer : ∀ x xs, sameAll (x :: xs) [] = false)
    (cons : ∀ x xs y ys, sameAll (x :: xs) (y :: ys) = (same x y && sameAll xs ys)) (xs ys : List α) :
    sameAll xs ys = true ↔ List.Forall₂ (fun x y => same x y = true) xs ys := by
  induction xs generalizing ys with
  | nil =>
    rw [List.forall₂_nil_left_iff]
    cases ys with
    | nil => simp [nil]
    | cons y ys => simp [shorter]
  | cons x xs ih =>
    cases ys with
    | nil => simp [longer]
    | cons y ys => rw [cons, Bool.and_eq_true, ih, List.forall₂_cons]

/-- Values that may be missing, compared where both are there. -/
theorem rel_iff_of_eqns {sameOption : Option α → Option α → Bool}
    (neither : sameOption none none = true) (left : ∀ x, sameOption (some x) none = false)
    (right : ∀ y, sameOption none (some y) = false)
    (both : ∀ x y, sameOption (some x) (some y) = same x y) (x y : Option α) :
    sameOption x y = true ↔ Option.Rel (fun x y => same x y = true) x y := by
  constructor
  · intro h
    cases x <;> cases y
    · exact .none
    · simp [right] at h
    · simp [left] at h
    · exact .some ((both _ _).symm.trans h)
  · rintro (h | _)
    · exact (both _ _).trans h
    · exact neither

end Computed

/-! ## Entries without order -/

namespace Entries

/-- Under every name both have related values, or neither has one. -/
def Agree (R : α → α → Prop) (es fs : List (String × α)) : Prop :=
  ∀ key, Option.Rel R (get? key es) (get? key fs)

theorem Agree.insert {es fs : List (String × α)} (h : Agree R es fs) (key : String) {a b : α}
    (hab : R a b) : Agree R (insert key a es) (insert key b fs) := by
  intro k
  rw [get?_insert, get?_insert]
  split
  · exact .some hab
  · exact h k

/-- Agreement is an equivalence where the comparison of values is one. -/
theorem equivalenceAt_agree {es : List (String × α)} (h : ∀ e ∈ es, EquivalenceAt p R e.2) :
    EquivalenceAt (fun es => ∀ e ∈ es, p e.2) (Agree R) es := by
  have hfound {fs : List (String × α)} (hfs : ∀ e ∈ fs, p e.2) (key : String) :
      ∀ a ∈ get? key fs, p a := fun a ha => hfs _ (mem_of_get? ha)
  have hat (key : String) : EquivalenceAt (fun x => ∀ a ∈ x, p a) (Option.Rel R) (get? key es) :=
    .option fun a ha => h _ (mem_of_get? ha)
  constructor
  case refl => exact fun hes key => (hat key).refl (hfound hes key)
  case symm =>
    exact fun hes hfs hef key => (hat key).symm (hfound hes key) (hfound hfs key) (hef key)
  case trans =>
    exact fun hes hfs hgs hef hfg key =>
      (hat key).trans (hfound hes key) (hfound hfs key) (hfound hgs key) (hef key) (hfg key)

/-- Entries of distinct names agree if there are as many of them and each of the first has one of its
name among the second, with a related value. -/
theorem agree_iff {es fs : List (String × α)} (hes : (keys es).Nodup) (hfs : (keys fs).Nodup) :
    Agree R es fs ↔ es.length = fs.length ∧ ∀ e ∈ es, ∃ a, get? e.1 fs = some a ∧ R e.2 a := by
  have length_keys (gs : List (String × α)) : (keys gs).length = gs.length := List.length_map _
  constructor
  · intro h
    have hkeys (key : String) : key ∈ keys es ↔ key ∈ keys fs := by
      have hkey := h key
      rw [← not_iff_not, ← get?_eq_none_iff, ← get?_eq_none_iff]
      generalize get? key es = x, get? key fs = y at hkey
      cases hkey with
      | none => exact Iff.rfl
      | some _ => exact ⟨nofun, nofun⟩
    refine ⟨?_, fun e he => ?_⟩
    · rw [← length_keys, ← length_keys]
      exact ((List.perm_ext_iff_of_nodup hes hfs).mpr hkeys).length_eq
    · have hfound := h e.1
      rw [get?_of_mem hes he] at hfound
      generalize get? e.1 fs = found at hfound
      cases hfound with
      | some hR => exact ⟨_, rfl, hR⟩
  · rintro ⟨hlength, hfound⟩ key
    -- names of the first are names of the second, and there is no room for any other
    have hsubset : keys es ⊆ keys fs := by
      intro k hk
      obtain ⟨e, he, rfl⟩ := List.mem_map.mp hk
      obtain ⟨a, ha, -⟩ := hfound e he
      exact List.mem_map.mpr ⟨_, mem_of_get? ha, rfl⟩
    have hperm : (keys es).Perm (keys fs) := by
      refine (hes.subperm hsubset).perm_of_length_le (Nat.le_of_eq ?_)
      rw [length_keys, length_keys, hlength]
    cases hes' : get? key es with
    | none =>
      have hnot : key ∉ keys fs := fun hk => get?_eq_none_iff.mp hes' (hperm.mem_iff.mpr hk)
      rw [get?_eq_none_iff.mpr hnot]
      exact .none
    | some a =>
      obtain ⟨b, hb, hR⟩ := hfound _ (mem_of_get? hes')
      rw [hb]
      exact .some hR

end Entries

/-! ## JSON values -/

namespace Json

theorem sameItems_iff (xs ys : List Json) :
    sameItems xs ys = true ↔ List.Forall₂ (fun x y => x.same y = true) xs ys :=
  forall₂_iff_of_eqns rfl (fun _ _ => rfl) (fun _ _ => rfl) (fun _ _ _ _ => rfl) xs ys

theorem sameFields_iff (fs gs : List (String × Json)) :
    sameFields fs gs = true ↔
      ∀ e ∈ fs, ∃ value, Entries.get? e.1 gs = some value ∧ e.2.same value = true := by
  induction fs with
  | nil => simp [sameFields]
  | cons e fs ih =>
    rw [sameFields, Bool.and_eq_true, ih, List.forall_mem_cons]
    refine and_congr_left fun _ => ?_
    cases Entries.get? e.1 gs <;> simp

theorem same_array_iff {xs ys : List Json} :
    (array xs).same (.array ys) = true ↔ List.Forall₂ (fun x y => x.same y = true) xs ys := by
  rw [same, sameItems_iff]

/-- Objects are equal when under each name both have equal values or neither has one. -/
theorem same_object_iff {fs gs : List (String × Json)} (hfs : (Entries.keys fs).Nodup)
    (hgs : (Entries.keys gs).Nodup) :
    (object fs).same (.object gs) = true ↔
      Entries.Agree (fun x y : Json => x.same y = true) fs gs := by
  rw [same, Bool.and_eq_true, sameFields_iff, beq_iff_eq, Entries.agree_iff hfs hgs]

theorem Number.equivalenceAt (n : Number) :
    EquivalenceAt (fun _ => True) (fun m n : Number => m.same n = true) n where
  refl _ := by
    cases n with
    | whole n => exact beq_self_eq_true n
    | float x => exact x.same_refl
  symm {m} _ _ h := by
    cases n <;> cases m
    · exact beq_iff_eq.mpr (beq_iff_eq.mp h).symm
    · cases h
    · cases h
    · exact Numeric.Binary64.same_symm h
  trans {m l} _ _ _ h h' := by
    cases n <;> cases m
    · rwa [show _ = _ from beq_iff_eq.mp h]
    · cases h
    · cases h
    · cases l with
      | whole l => cases h'
      | float z => exact Numeric.Binary64.same_trans h h'

theorem ofOneKind_of_same {j k : Json} (h : j.same k = true) : OfOneKind j k := by
  cases j <;> cases k <;> first | constructor | cases h

/-- **Equality of JSON values is an equivalence** where no object repeats a name. -/
theorem equivalenceAt (j : Json) : EquivalenceAt KeysDistinct (fun j k => j.same k = true) j := by
  induction j using Json.induction with
  | null =>
    refine .constructed (C := fun _ : Unit => null) (R := Eq) (fun h => ?_) (fun _ => id)
      (fun _ _ _ _ => ⟨fun _ => rfl, fun _ => rfl⟩) (.eq ())
    cases ofOneKind_of_same h
    exact ⟨(), rfl⟩
  | bool b =>
    refine .constructed (C := bool) (fun h => ?_) (fun _ => id) (fun _ _ _ _ => beq_iff_eq) (.eq b)
    cases ofOneKind_of_same h
    exact ⟨_, rfl⟩
  | number n =>
    refine .constructed (C := number) (fun h => ?_) (fun _ => id) (fun _ _ _ _ => Iff.rfl)
      n.equivalenceAt
    cases ofOneKind_of_same h
    exact ⟨_, rfl⟩
  | string s =>
    refine .constructed (C := string) (fun h => ?_) (fun _ => id) (fun _ _ _ _ => beq_iff_eq) (.eq s)
    cases ofOneKind_of_same h
    exact ⟨_, rfl⟩
  | array items ih =>
    refine .constructed (C := array) (fun h => ?_) (fun _ => keysDistinct_array.mp)
      (fun _ _ _ _ => same_array_iff) (.list ih)
    cases ofOneKind_of_same h
    exact ⟨_, rfl⟩
  | object fields ih =>
    refine .constructed (C := object) (fun h => ?_) (fun _ h => (keysDistinct_object.mp h).2)
      (fun _ _ hfs hgs => same_object_iff (keysDistinct_object.mp hfs).1 (keysDistinct_object.mp hgs).1)
      (Entries.equivalenceAt_agree ih)
    cases ofOneKind_of_same h
    exact ⟨_, rfl⟩

end Json

end MarketScan
