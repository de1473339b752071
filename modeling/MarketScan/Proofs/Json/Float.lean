import MarketScan.Proofs.Json.Scalar
import MarketScan.Proofs.Numeric.Layout
import MarketScan.Proofs.Numeric.Shortest

/-!
# Floating numbers are read

The text of a floating number is read as a floating number, though not always as the same: the digits
give a coefficient, and the coefficient is scaled. A plain point divides, which is never too much. An
exponent gives the shortest decimal back, and that is scaled to a finite number.

* `Grammar.number_pointed`, `Grammar.number_scientific` — what the two layouts are read as
* `Grammar.exists_number_body` — the text of a floating number is read
-/

namespace MarketScan.Json.Grammar

open Numeric (Binary64 Decimal Layout)

/-! ## Plain numerals -/

section Plain

variable {d : Decimal} {whole fraction : List Char} (h : Layout.IsPointed d whole fraction)
include h

/-- Of a plain numeral only the digits before the point may begin with zero, and then it stands alone. -/
theorem eq_nil_of_whole_eq_zero_cons (hzero : d.coefficient = 0 → d.exponent = 0)
    {t : List Char} (ht : whole = '0' :: t) : t = [] := by
  rcases h.whole_cases with hwhole | ⟨-, s, hprefix⟩ | hwhole
  · rw [hwhole] at ht
    exact (List.cons.inj ht).2.symm
  · rw [ht, List.cons_append] at hprefix
    exact (List.append_eq_nil_iff.mp (eq_nil_of_digits_eq_zero_cons _ hprefix.symm)).1
  · obtain ⟨c, s, hdigits, -⟩ := exists_digits_eq_cons d.coefficient
    rw [hwhole, hdigits, List.cons_append] at ht
    obtain ⟨rfl, rfl⟩ := List.cons.inj ht
    obtain rfl := eq_nil_of_digits_eq_zero_cons _ hdigits
    have hnone : d.coefficient = 0 := by
      rw [← Nat.ofDigitChars_ten_toDigits (n := d.coefficient), ← Numeric.digits, hdigits]
      rfl
    rw [hzero hnone]
    rfl

/-- A plain numeral of a layout that ends at `10 ^ 16` has few digits. -/
theorem ofDigitChars_le (hcoefficient : d.coefficient ≤ 10 ^ 17)
    (hlead : d.leading < 16) : Nat.ofDigitChars 10 (whole ++ fraction) 0 ≤ 10 ^ 17 := by
  rw [h.coefficient]
  by_cases hneg : d.exponent < 0
  · have hnone : (d.exponent + 1).toNat = 0 := by omega
    rw [hnone, pow_zero, Nat.one_mul]
    exact hcoefficient
  · have hleading := Layout.leading_eq d
    have hpos : 0 < (Numeric.digits d.coefficient).length := Nat.length_toDigits_pos
    have hlt : d.coefficient < 10 ^ (Numeric.digits d.coefficient).length := by
      rw [← Nat.length_toDigits_le_iff (by decide) hpos, Numeric.digits]
    calc 10 ^ (d.exponent + 1).toNat * d.coefficient
        ≤ 10 ^ (d.exponent + 1).toNat * 10 ^ (Numeric.digits d.coefficient).length :=
          Nat.mul_le_mul_left _ hlt.le
      _ = 10 ^ ((d.exponent + 1).toNat + (Numeric.digits d.coefficient).length) := (pow_add ..).symm
      _ ≤ 10 ^ 17 := Nat.pow_le_pow_right (by decide) (by omega)

end Plain

/-! ## What the layouts are read as -/

theorem float_eq {negative : Bool} {d : Decimal} {x : Binary64}
    (h : Decimal.scaled? negative d = some x) (rest : List Char) :
    float negative d.coefficient d.exponent rest = .ok (.number (.float x), rest) := by
  rw [float, h]

section Number

variable {rest : List Char} (hrest : Delimited rest)
include hrest

theorem afterFraction_eq (negative : Bool) {n : Nat} {digits : List Char}
    (hmax : Nat.ofDigitChars 10 digits n ≤ maxCoefficient) :
    afterFraction negative n 0 digits rest =
      float negative (Nat.ofDigitChars 10 digits n) (-digits.length) rest := by
  rw [afterFraction, gather_eq digits n hmax]
  cases rest with
  | nil => simp
  | cons c rest =>
    obtain ⟨-, -, he, hE⟩ := hrest c rfl
    simp [he, hE]

/-- **Digits on both sides of a point.** -/
theorem number_pointed (negative : Bool) {whole fraction : List Char} (hwhole : whole ≠ [])
    (hfraction : fraction ≠ []) (hdigits : ∀ c ∈ whole ++ fraction, c.isDigit = true)
    (hzero : ∀ t, whole = '0' :: t → t = [])
    (hmax : Nat.ofDigitChars 10 (whole ++ fraction) 0 ≤ maxCoefficient) :
    number negative (whole ++ '.' :: (fraction ++ rest)) =
      float negative (Nat.ofDigitChars 10 (whole ++ fraction) 0) (-fraction.length) rest := by
  obtain ⟨hleft, hright⟩ := List.forall_mem_append.mp hdigits
  rw [Nat.ofDigitChars_append] at hmax ⊢
  have hgather := gather_eq whole 0 ((le_ofDigitChars fraction _).trans hmax)
  rw [number_run hleft (by rintro c ⟨⟩; rfl) negative hwhole hzero, afterWhole, hgather]
  show withDigits _ (fraction ++ rest) = _
  rw [withDigits_run hright (fun c hc => (hrest c hc).1) _ hfraction]
  exact afterFraction_eq hrest negative hmax

/-- An exponent, after its letter. -/
theorem exponent_eq (negative : Bool) (n : Nat) (base : Int) {lead : Int}
    (hlead : lead.natAbs ≤ maxExponent) :
    exponent negative n base
        ((if lead < 0 then '-' else '+') :: (Numeric.digits lead.natAbs ++ rest)) =
      float negative n (base + lead) rest := by
  obtain ⟨k, hk⟩ : ∃ k, lead.natAbs = k := ⟨_, rfl⟩
  have hgather : gather maxExponent 0 (Numeric.digits k) = (k, []) := gather_digits (hk ▸ hlead)
  have hsign : exponentSign ((if lead < 0 then '-' else '+') :: (Numeric.digits k ++ rest)) =
      (decide (lead < 0), Numeric.digits k ++ rest) := by
    by_cases hneg : lead < 0 <;> simp [hneg, exponentSign]
  have hsum : (if decide (lead < 0) = true then base - k else base + k) = base + lead := by
    by_cases hneg : lead < 0
    · rw [if_pos (decide_eq_true hneg)]
      omega
    · rw [if_neg fun h => hneg (of_decide_eq_true h)]
      omega
  rw [hk, exponent, hsign, withDigits_run (fun c => isDigit_of_mem_digits)
    (fun c hc => (hrest c hc).1) _ Nat.toDigits_ne_nil, afterExponent, hgather]
  exact congrArg (float negative n · rest) hsum

/-- **One digit before the point, and an exponent.** -/
theorem number_scientific (negative : Bool) {d : Decimal} (hmax : d.coefficient ≤ maxCoefficient)
    (hlead : d.leading.natAbs ≤ maxExponent) :
    number negative (Layout.scientific d ++ rest) =
      float negative d.coefficient d.exponent rest := by
  have hvalue : Nat.ofDigitChars 10 (Numeric.digits d.coefficient) 0 = d.coefficient :=
    Nat.ofDigitChars_ten_toDigits
  have hexponent := exponent_eq hrest negative d.coefficient
  have hdigits : ∀ c ∈ Numeric.digits d.coefficient, c.isDigit = true :=
    fun c => isDigit_of_mem_digits
  have hleading := Layout.leading_eq d
  simp only [Layout.scientific]
  rcases hd : Numeric.digits d.coefficient with _ | ⟨c, _ | ⟨c', t⟩⟩
  · exact absurd hd Nat.toDigits_ne_nil
  · rw [hd] at hvalue hdigits hleading
    have hgather := gather_eq [c] 0 (hvalue.trans_le hmax)
    have hsum : (0 : Int) + d.leading = d.exponent := by
      rw [hleading, List.length_singleton]
      omega
    rw [List.append_assoc, number_run hdigits (by rintro e ⟨⟩; rfl) negative (List.cons_ne_nil _ _)
      (fun t ht => (List.cons.inj ht).2.symm), afterWhole, hgather, hvalue, ← hsum]
    exact hexponent 0 hlead
  · rw [hd] at hvalue hdigits hleading
    obtain ⟨hfirst, hothers⟩ := List.forall_mem_cons.mp hdigits
    have hsplit : Nat.ofDigitChars 10 (c' :: t) (Nat.ofDigitChars 10 [c] 0) = d.coefficient := by
      rw [← Nat.ofDigitChars_append]
      exact hvalue
    have hgather := gather_eq (c' :: t) _ (hsplit.trans_le hmax)
    have hgather' := gather_eq [c] 0
      ((le_ofDigitChars (c' :: t) _).trans (hsplit.trans_le hmax))
    have hsum : -((c' :: t).length : Int) + d.leading = d.exponent := by
      rw [hleading, List.length_cons (a := c)]
      omega
    rw [hsplit] at hgather
    show number negative ([c] ++ '.' :: ((c' :: t) ++ 'e' :: _ ++ rest)) = _
    rw [number_run (List.forall_mem_singleton.mpr hfirst) (by rintro e ⟨⟩; rfl) negative
      (List.cons_ne_nil _ _) (fun t ht => (List.cons.inj ht).2.symm), afterWhole, hgather']
    show withDigits _ _ = _
    rw [List.append_assoc, withDigits_run hothers (by rintro e ⟨⟩; rfl) _ (List.cons_ne_nil _ _),
      List.length_nil, afterFraction, hgather, ← hsum]
    exact hexponent (-(c' :: t).length) hlead

end Number

/-! ## Texts -/

section Body

variable {x : Binary64}

/-- A plain numeral divides by a power of ten. -/
theorem exists_number_plain (hlead : (x.shortest .even).leading < 16) : ∃ y, ∀ rest, Delimited rest →
    number x.negative (floatLayout.plain (x.shortest .even) ++ rest) =
      .ok (.number (.float y), rest) := by
  obtain ⟨whole, fraction, htext, hpointed⟩ :=
    Layout.exists_plain_eq (L := floatLayout) rfl (x.shortest .even)
  have hle := ofDigitChars_le hpointed (x.coefficient_shortest_le .even) hlead
  have hmax : 10 ^ 17 ≤ maxCoefficient := by decide
  have hfraction : 0 < fraction.length := List.length_pos_iff.mpr hpointed.fraction_ne_nil
  obtain ⟨y, hy⟩ := Option.isSome_iff_exists.mp <| Decimal.isSome_scaled?_of_neg x.negative
    (d := ⟨Nat.ofDigitChars 10 (whole ++ fraction) 0, -fraction.length⟩)
    (Binary64.lt_lastBorder (hle.trans (by decide))) (Int.neg_neg_of_pos (by omega))
  refine ⟨y, fun rest hrest => ?_⟩
  rw [htext, List.append_assoc, List.cons_append, number_pointed hrest x.negative
    hpointed.whole_ne_nil hpointed.fraction_ne_nil hpointed.isDigit
    (fun t => eq_nil_of_whole_eq_zero_cons hpointed Binary64.exponent_shortest_eq_zero)
    (hle.trans hmax)]
  exact float_eq hy rest

/-- A numeral with an exponent gives the shortest decimal back. -/
theorem exists_number_scientific : ∃ y, ∀ rest, Delimited rest →
    number x.negative (Layout.scientific (x.shortest .even) ++ rest) =
      .ok (.number (.float y), rest) := by
  have hmax : 10 ^ 17 ≤ maxCoefficient := by decide
  have hlead : 500 ≤ maxExponent := by decide
  obtain ⟨y, hy⟩ := Option.isSome_iff_exists.mp x.isSome_scaled?_shortest
  refine ⟨y, fun rest hrest => ?_⟩
  rw [number_scientific hrest x.negative ((x.coefficient_shortest_le .even).trans hmax)
    ((x.natAbs_leading_shortest_le .even).trans hlead)]
  exact float_eq hy rest

end Body

/-- **The text of a floating number is read as a floating number.** -/
theorem exists_number_body (x : Binary64) : ∃ y, ∀ rest, Delimited rest →
    number x.negative (floatLayout.body x ++ rest) = .ok (.number (.float y), rest) := by
  by_cases hplain : floatLayout.positional (x.shortest .even).leading = true
  · have hbody : floatLayout.body x = floatLayout.plain (x.shortest .even) := if_pos hplain
    rw [hbody]
    exact exists_number_plain (of_decide_eq_true (Bool.and_eq_true_iff.mp hplain).2)
  · have hbody : floatLayout.body x = Layout.scientific (x.shortest .even) := if_neg hplain
    rw [hbody]
    exact exists_number_scientific

end MarketScan.Json.Grammar
