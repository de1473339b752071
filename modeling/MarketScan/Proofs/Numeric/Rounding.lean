import MarketScan.Proofs.Numeric.Interval

/-!
# Rounding to the nearest magnitude

A quotient is rounded to a number of spacings, and the spacing is the one that the quotient has. So it is
not below the lower border of its rank, and from one on it is moved upward by at most a part in `2 ^ 53`.
What is below the last border is rounded to a finite number, and so is what a finite number gives when it
is divided.

* `Format.exists_rank_eq` — what a rank is made of
* `Format.border_le_of_rank`, `Format.numerator_rank_mul_le` — how far rounding moves a quotient
* `Decimal.isSome_scaled?_of_neg` — a coefficient is divided by any power of ten
* `Decimal.isSome_scaled?_of_le_border` — it is multiplied as long as the product is not too near to
  the last border
-/

namespace MarketScan.Numeric

namespace Format

/-! ## The quotient that is rounded -/

theorem roundHalfEven_bounds (num : Nat) {den : Nat} (hden : 0 < den) :
    2 * (den * roundHalfEven num den) ≤ 2 * num + den ∧
      2 * num ≤ 2 * (den * roundHalfEven num den) + den := by
  have hrest := Nat.mod_lt num hden
  have hsplit := Nat.div_add_mod num den
  simp only [roundHalfEven]
  split
  · rw [Nat.mul_add]
    omega
  · omega

/-- The exponent of two in `floorLog2`, with both sides cleared of denominators. -/
theorem floorLog2_bounds {num den : Nat} (hnum : 0 < num) (hden : 0 < den) (up down : Nat)
    (h : floorLog2 num den = up - down) :
    2 ^ up * den ≤ num * 2 ^ down ∧ num * 2 ^ down < 2 ^ (up + 1) * den := by
  obtain ⟨lift, hlift⟩ : ∃ n, den.log2 + 1 = n := ⟨_, rfl⟩
  obtain ⟨quotient, hquotient⟩ : ∃ n, num * 2 ^ lift / den = n := ⟨_, rfl⟩
  have hdef : floorLog2 num den = (quotient.log2 : Int) - lift := by
    rw [floorLog2, hlift, Nat.pow_eq, hquotient]
  have hden_lt : den < 2 ^ lift := hlift ▸ Nat.lt_log2_self
  have hone : 1 ≤ quotient := by
    rw [← hquotient, Nat.one_le_div_iff hden]
    exact hden_lt.le.trans (Nat.le_mul_of_pos_left _ hnum)
  have hlow : 2 ^ quotient.log2 * den ≤ num * 2 ^ lift :=
    (Nat.mul_le_mul_right den (Nat.log2_self_le (by omega))).trans (hquotient ▸ Nat.div_mul_le_self _ _)
  have hhigh : num * 2 ^ lift < 2 ^ (quotient.log2 + 1) * den :=
    Nat.lt_mul_of_div_lt (hquotient ▸ Nat.lt_log2_self) hden
  -- both sides are compared after multiplication by `2 ^ lift`
  have hsum : quotient.log2 + down = up + lift := by omega
  have hpow : (2 : Nat) ^ quotient.log2 * 2 ^ down = 2 ^ up * 2 ^ lift := by
    rw [← pow_add, ← pow_add, hsum]
  have hpos : 0 < (2 : Nat) ^ lift := Nat.two_pow_pos lift
  have hdown : 0 < (2 : Nat) ^ down := Nat.two_pow_pos down
  constructor
  · refine Nat.le_of_mul_le_mul_right ?_ hpos
    calc 2 ^ up * den * 2 ^ lift
        = 2 ^ quotient.log2 * den * 2 ^ down := by rw [mul_right_comm, ← hpow, mul_right_comm]
      _ ≤ num * 2 ^ lift * 2 ^ down := Nat.mul_le_mul_right _ hlow
      _ = num * 2 ^ down * 2 ^ lift := mul_right_comm ..
  · refine Nat.lt_of_mul_lt_mul_right (a := 2 ^ lift) ?_
    calc num * 2 ^ down * 2 ^ lift
        = num * 2 ^ lift * 2 ^ down := mul_right_comm ..
      _ < 2 ^ (quotient.log2 + 1) * den * 2 ^ down := Nat.mul_lt_mul_of_pos_right hhigh hdown
      _ = 2 * den * (2 ^ quotient.log2 * 2 ^ down) := by ring
      _ = 2 * den * (2 ^ up * 2 ^ lift) := by rw [hpow]
      _ = 2 ^ (up + 1) * den * 2 ^ lift := by ring

/-! ## The rank of a quotient -/

section Rank

variable {F : Format}

/-- A significand in a spacing, which may be the one where the next spacing begins. -/
theorem numerator_eq {shift m : Nat} (hm : m ≤ 2 * F.binade) (hlow : shift = 0 ∨ F.binade ≤ m) :
    F.numerator (shift * F.binade + m) = m * 2 ^ shift := by
  have hpos := F.binade_pos
  rcases Nat.lt_or_ge m F.binade with hsmall | hlarge
  · obtain rfl : shift = 0 := by omega
    have hrank : 0 * F.binade + m = m + F.binade * 0 := by omega
    rw [hrank, numerator, significand_place hsmall, shift_place hsmall, if_pos rfl, Nat.pow_eq]
  rcases Nat.lt_or_eq_of_le hm with hinside | hlast
  · have hplace : m - F.binade < F.binade := by omega
    have hrank : shift * F.binade + m = m - F.binade + F.binade * (shift + 1) := by
      rw [Nat.mul_succ, Nat.mul_comm]
      omega
    have hsum : F.binade + (m - F.binade) = m := by omega
    rw [hrank, numerator, significand_place hplace, shift_place hplace, if_neg shift.succ_ne_zero,
      hsum, Nat.pow_eq, Nat.add_sub_cancel]
  · have hrank : shift * F.binade + m = 0 + F.binade * (shift + 2) := by
      rw [hlast]
      ring
    have hshift : shift + 2 - 1 = shift + 1 := rfl
    rw [hrank, numerator, significand_place hpos, shift_place hpos, if_neg (by omega), hshift, hlast,
      Nat.pow_eq, pow_succ]
    ring

/-- The significand and the spacing that a quotient is rounded to. -/
structure Rounds (F : Format) (num den shift m : Nat) : Prop where
  low : 2 * (den * 2 ^ shift * m) ≤ 2 * (num * 2 ^ F.granularity) + den * 2 ^ shift
  high : 2 * (num * 2 ^ F.granularity) ≤ 2 * (den * 2 ^ shift * m) + den * 2 ^ shift
  /-- Above the least spacing the quotient has all bits of a significand. -/
  full : shift = 0 ∨ F.binade * (den * 2 ^ shift) ≤ num * 2 ^ F.granularity
  significand_le : m ≤ 2 * F.binade

theorem Rounds.normal {num den shift m : Nat} (h : F.Rounds num den shift m) (hden : 0 < den) :
    shift = 0 ∨ F.binade ≤ m := by
  refine h.full.imp_right fun hfull => ?_
  have hunit : 0 < den * 2 ^ shift := Nat.mul_pos hden (Nat.two_pow_pos _)
  by_contra hlt
  have hnext : den * 2 ^ shift * (m + 1) ≤ F.binade * (den * 2 ^ shift) := by
    rw [Nat.mul_comm]
    exact Nat.mul_le_mul_right _ (by omega)
  have hhigh := h.high
  rw [Nat.mul_succ] at hnext
  omega

theorem two_mul_binade (hprecision : 0 < F.precision) : 2 * F.binade = 2 ^ F.precision := by
  obtain ⟨p, hp⟩ : ∃ p, F.precision = p + 1 := ⟨F.precision - 1, by omega⟩
  rw [binade, hp, Nat.add_sub_cancel, Nat.pow_eq, pow_succ, Nat.mul_comm]

/-- A quotient below the last significand of its spacing is not rounded beyond it. -/
theorem roundHalfEven_le {num den m : Nat} (hden : 0 < den) (h : num < den * m) :
    roundHalfEven num den ≤ m := by
  have hlow := (roundHalfEven_bounds num hden).1
  by_contra hlt
  have hnext : den * (m + 1) ≤ den * roundHalfEven num den := Nat.mul_le_mul_left den (by omega)
  rw [Nat.mul_succ] at hnext
  omega

/-- What a rank is made of. -/
theorem exists_rank_eq (hprecision : 0 < F.precision) {num den : Nat} (hnum : 0 < num)
    (hden : 0 < den) :
    ∃ shift m, F.rank num den = shift * F.binade + m ∧ F.Rounds num den shift m := by
  obtain ⟨lead, hlead⟩ : ∃ n, floorLog2 num den = n := ⟨_, rfl⟩
  obtain ⟨shift, hshift⟩ : ∃ n : Nat, (lead + 1 - F.precision + F.granularity).toNat = n := ⟨_, rfl⟩
  have hunit : 0 < den * 2 ^ shift := Nat.mul_pos hden (Nat.two_pow_pos _)
  have hbounds := roundHalfEven_bounds (num * 2 ^ F.granularity) hunit
  have hbinade := two_mul_binade hprecision
  refine ⟨shift, roundHalfEven (num * 2 ^ F.granularity) (den * 2 ^ shift), ?_, hbounds.1, hbounds.2,
    ?_, ?_⟩
  · rw [rank, if_neg hnum.ne', hlead, hshift]
    rfl
  · by_cases hzero : shift = 0
    · exact .inl hzero
    obtain ⟨hlow, -⟩ :=
      floorLog2_bounds hnum hden (F.precision - 1 + shift) F.granularity (by omega)
    refine .inr (le_of_eq_of_le ?_ hlow)
    rw [binade, Nat.pow_eq, pow_add]
    ring
  · refine roundHalfEven_le hunit ?_
    rw [hbinade]
    by_cases hzero : shift = 0
    · -- the quotient may be far below the least spacing
      obtain ⟨-, hhigh⟩ := floorLog2_bounds hnum hden (F.precision - 1)
        (F.granularity + (F.precision - 1 - lead - F.granularity).toNat) (by omega)
      rw [hzero, pow_zero, Nat.mul_one]
      calc num * 2 ^ F.granularity
          ≤ num * 2 ^ (F.granularity + (F.precision - 1 - lead - F.granularity).toNat) :=
            Nat.mul_le_mul_left num (Nat.pow_le_pow_right (by decide) (Nat.le_add_right _ _))
        _ < 2 ^ (F.precision - 1 + 1) * den := hhigh
        _ = den * 2 ^ F.precision := by rw [Nat.sub_add_cancel hprecision, Nat.mul_comm]
    · obtain ⟨-, hhigh⟩ :=
        floorLog2_bounds hnum hden (F.precision - 1 + shift) F.granularity (by omega)
      refine lt_of_lt_of_eq hhigh ?_
      have hexponent : F.precision - 1 + shift + 1 = shift + F.precision := by omega
      rw [hexponent, pow_add]
      ring

/-! ## Borders -/

section Border

variable (hprecision : 0 < F.precision) {num den : Nat} (hden : 0 < den)
include hprecision hden

/-- **A quotient is not below the lower border of its rank.** -/
theorem border_le_of_rank {r : Nat} (h : F.rank num den = r + 1) :
    F.border r * den ≤ 4 * (num * 2 ^ F.granularity) := by
  have hnum : 0 < num := by
    refine Nat.pos_of_ne_zero ?_
    rintro rfl
    cases h
  obtain ⟨shift, m, hrank, hrounds⟩ := F.exists_rank_eq hprecision hnum hden
  rw [h] at hrank
  have hlast := numerator_eq hrounds.significand_le (hrounds.normal hden)
  rw [← hrank] at hlast
  rw [border, hlast]
  by_cases hcarry : shift ≠ 0 ∧ m = F.binade
  · -- the quotient is not even below the magnitude itself
    have hbefore : F.numerator r ≤ m * 2 ^ shift := hlast ▸ (F.numerator_strictMono r.lt_succ_self).le
    calc 2 * (F.numerator r + m * 2 ^ shift) * den
        ≤ 2 * (m * 2 ^ shift + m * 2 ^ shift) * den := by gcongr
      _ = 4 * (F.binade * (den * 2 ^ shift)) := by
        rw [hcarry.2]
        ring
      _ ≤ 4 * (num * 2 ^ F.granularity) :=
        Nat.mul_le_mul_left 4 (hrounds.full.resolve_left hcarry.1)
  · have hnormal := hrounds.normal hden
    have hbinade := F.binade_pos
    obtain ⟨m, rfl⟩ : ∃ m', m = m' + 1 := by
      refine ⟨m - 1, ?_⟩
      rcases hnormal with rfl | hnormal <;> omega
    have hbefore : F.numerator r = m * 2 ^ shift := by
      have hr : r = shift * F.binade + m := by omega
      rw [hr]
      exact numerator_eq (by have := hrounds.significand_le; omega) (by omega)
    have hlow := hrounds.low
    rw [hbefore]
    have hsplit : 2 * (m * 2 ^ shift + (m + 1) * 2 ^ shift) * den + 2 * (den * 2 ^ shift) =
        2 * (2 * (den * 2 ^ shift * (m + 1))) := by ring
    omega

/-- A quotient below a border is rounded to a rank that is not beyond it. -/
theorem rank_le_of_lt_border {r : Nat} (h : 4 * (num * 2 ^ F.granularity) < F.border r * den) :
    F.rank num den ≤ r := by
  by_contra hlt
  obtain ⟨r', hr'⟩ : ∃ r', F.rank num den = r' + 1 := ⟨F.rank num den - 1, by omega⟩
  have hborder := F.border_le_of_rank hprecision hden hr'
  have hmono : F.border r ≤ F.border r' := F.border_strictMono.monotone (by omega)
  exact absurd h (Nat.not_lt.mpr ((Nat.mul_le_mul_right den hmono).trans hborder))

/-- **From one on a quotient is moved upward by at most half a spacing.** -/
theorem numerator_rank_mul_le (hle : den ≤ num) (hgranularity : F.precision - 1 ≤ F.granularity) :
    2 * F.binade * (F.numerator (F.rank num den) * den) ≤
      (2 * F.binade + 1) * (num * 2 ^ F.granularity) := by
  obtain ⟨shift, m, hrank, hrounds⟩ := F.exists_rank_eq hprecision (hden.trans_le hle) hden
  have hvalue : F.numerator (F.rank num den) = m * 2 ^ shift := by
    rw [hrank]
    exact numerator_eq hrounds.significand_le (hrounds.normal hden)
  have hspacing : F.binade * (den * 2 ^ shift) ≤ num * 2 ^ F.granularity := by
    rcases hrounds.full with rfl | hfull
    · rw [pow_zero, Nat.mul_one, Nat.mul_comm]
      exact Nat.mul_le_mul hle (Nat.pow_le_pow_right (by decide) hgranularity)
    · exact hfull
  rw [hvalue]
  calc 2 * F.binade * (m * 2 ^ shift * den)
      = F.binade * (2 * (den * 2 ^ shift * m)) := by ring
    _ ≤ F.binade * (2 * (num * 2 ^ F.granularity) + den * 2 ^ shift) :=
      Nat.mul_le_mul_left _ hrounds.low
    _ = 2 * F.binade * (num * 2 ^ F.granularity) + F.binade * (den * 2 ^ shift) := by ring
    _ ≤ 2 * F.binade * (num * 2 ^ F.granularity) + num * 2 ^ F.granularity :=
      Nat.add_le_add_left hspacing _
    _ = (2 * F.binade + 1) * (num * 2 ^ F.granularity) := by ring

end Border

end Rank

end Format

/-! ## Numbers of 64 bits -/

namespace Binary64

open Format (double)

theorem denominator_eq : denominator = 2 ^ double.granularity := by
  unfold denominator
  generalize double.granularity = n
  exact Nat.pow_eq

/-- The border between the finite numbers and what is too large. -/
def lastBorder : Nat := double.border (double.magnitudes - 1)

/-- What is below the last border is rounded to a finite number. -/
theorem exists_ofQuotient? (negative : Bool) {num den : Nat} (hden : 0 < den)
    (h : 4 * (num * denominator) < lastBorder * den) :
    ∃ x, ofQuotient? negative num den = some x ∧ x.rank = double.rank num den := by
  rw [denominator_eq] at h
  have hle := double.rank_le_of_lt_border (by decide) hden h
  have hpos : 0 < double.magnitudes := by decide
  have hlt : double.rank num den < double.magnitudes := by omega
  exact ⟨⟨negative, _, hlt⟩, dif_pos hlt, rfl⟩

theorem numerator_lt_lastBorder (x : Binary64) : 4 * x.numerator < lastBorder := by
  have hlt := x.rank_lt
  have hle := double.numerator_strictMono.monotone (show x.rank ≤ double.magnitudes - 1 by omega)
  have hnext := double.numerator_strictMono (Nat.lt_add_one (double.magnitudes - 1))
  rw [numerator, lastBorder, Format.border]
  omega

/-- A finite number stays finite when it is divided by one or more. -/
theorem exists_over? (x : Binary64) {divisor : Binary64} (h : denominator ≤ divisor.numerator) :
    ∃ y, x.over? divisor = some y := by
  have hpos : 0 < divisor.numerator := denominator_pos.trans_le h
  obtain ⟨y, hy, -⟩ := exists_ofQuotient? x.negative hpos <|
    calc 4 * (x.numerator * denominator)
        ≤ 4 * (x.numerator * divisor.numerator) := by gcongr
      _ = 4 * x.numerator * divisor.numerator := (Nat.mul_assoc ..).symm
      _ < lastBorder * divisor.numerator := Nat.mul_lt_mul_of_pos_right x.numerator_lt_lastBorder hpos
  exact ⟨y, hy⟩

/-- A whole number is moved upward by at most a part in `2 ^ 53`. -/
theorem numerator_mul_le {n : Nat} {x : Binary64} (hn : 0 < n) (h : x.rank = double.rank n 1) :
    2 * double.binade * x.numerator ≤ (2 * double.binade + 1) * (n * denominator) := by
  have hle := double.numerator_rank_mul_le (by decide) Nat.one_pos hn (by decide)
  rwa [Nat.mul_one, ← h, ← denominator_eq] at hle

/-- Two roundings move a product by less than the last two spacings. -/
theorem two_roundings_lt : (2 * double.binade + 1) * (2 * double.binade + 1) *
    double.border (double.magnitudes - 3) < 2 * double.binade * (2 * double.binade) * lastBorder := by
  decide +kernel

/-- **A product of two rounded whole numbers is finite if the product of the numbers themselves is not
too near to the last border.** -/
theorem exists_times? {m n : Nat} {x y : Binary64} (hm : 0 < m) (hn : 0 < n)
    (hx : x.rank = double.rank m 1) (hy : y.rank = double.rank n 1)
    (h : m * (n * (4 * denominator)) ≤ double.border (double.magnitudes - 3)) :
    ∃ z, x.times? y = some z := by
  have hx' := numerator_mul_le hm hx
  have hy' := numerator_mul_le hn hy
  have hmargin := two_roundings_lt
  have hpos := denominator_pos
  have hlast : 4 * (x.numerator * y.numerator * denominator) <
      lastBorder * (denominator * denominator) := by
    generalize 2 * double.binade = b at hx' hy' hmargin
    generalize denominator = d at *
    refine Nat.lt_of_mul_lt_mul_left (a := b * b) ?_
    calc b * b * (4 * (x.numerator * y.numerator * d))
        = b * x.numerator * (b * y.numerator) * (4 * d) := by ring
      _ ≤ (b + 1) * (m * d) * ((b + 1) * (n * d)) * (4 * d) := by gcongr
      _ = (b + 1) * (b + 1) * (m * (n * (4 * d))) * (d * d) := by ring
      _ ≤ (b + 1) * (b + 1) * double.border (double.magnitudes - 3) * (d * d) := by gcongr
      _ < b * b * lastBorder * (d * d) := Nat.mul_lt_mul_of_pos_right hmargin (Nat.mul_pos hpos hpos)
      _ = b * b * (lastBorder * (d * d)) := Nat.mul_assoc ..
  obtain ⟨z, hz, -⟩ := exists_ofQuotient? x.negative (Nat.mul_pos hpos hpos) hlast
  exact ⟨z, hz⟩

end Binary64

/-! ## Decimals -/

namespace Decimal

open Binary64 (ofQuotient? denominator lastBorder)
open Format (double)

/-- Each power of ten up to the largest is below the last border, and is rounded to no less than one. -/
theorem pow_ten_bounds : ∀ k < 309, 4 * (Nat.pow 10 k * denominator) < lastBorder * 1 ∧
    denominator ≤ double.numerator (double.rank (Nat.pow 10 k) 1) := by
  decide +kernel

theorem exists_power? {k : Nat} (h : k ≤ maxPower) :
    ∃ p, power? k = some p ∧ p.rank = double.rank (10 ^ k) 1 ∧ denominator ≤ p.numerator := by
  obtain ⟨hlast, hone⟩ := pow_ten_bounds k (Nat.lt_succ_of_le h)
  obtain ⟨p, hp, hrank⟩ := Binary64.exists_ofQuotient? false Nat.one_pos hlast
  rw [Nat.pow_eq] at hrank hone
  refine ⟨p, hp, hrank, ?_⟩
  rw [Binary64.numerator, hrank]
  exact hone

/-- A finite number is divided by any power of ten. -/
theorem isSome_divided (x : Binary64) (k : Nat) : (divided x k).isSome = true := by
  fun_induction divided x k with
  | case1 x k hk =>
    obtain ⟨p, hp, -, hone⟩ := exists_power? hk
    obtain ⟨y, hy⟩ := x.exists_over? hone
    rw [hp]
    show (x.over? p).isSome = true
    rw [hy]
    rfl
  | case2 => rfl
  | case3 x k hk hzero ih =>
    obtain ⟨p, hp, -, hone⟩ := exists_power? (Nat.le_refl maxPower)
    obtain ⟨y, hy⟩ := x.exists_over? hone
    rw [hp]
    show ((x.over? p).bind _).isSome = true
    rw [hy]
    exact ih y

section Scaled

variable (negative : Bool) {d : Decimal} (hcoefficient : 4 * (d.coefficient * denominator) < lastBorder)
include hcoefficient

theorem exists_coefficient? : ∃ x, ofQuotient? negative d.coefficient 1 = some x ∧
    x.rank = double.rank d.coefficient 1 := by
  rw [← Nat.mul_one lastBorder] at hcoefficient
  exact Binary64.exists_ofQuotient? negative Nat.one_pos hcoefficient

/-- **A coefficient is divided by any power of ten.** -/
theorem isSome_scaled?_of_neg (h : d.exponent < 0) : (scaled? negative d).isSome = true := by
  obtain ⟨x, hx, -⟩ := exists_coefficient? negative hcoefficient
  simp only [scaled?, hx, Option.bind_eq_bind, Option.bind_some, if_pos h]
  exact isSome_divided x _

/-- **A coefficient is multiplied by a power of ten as long as two roundings do not take the product to
the last border.** -/
theorem isSome_scaled?_of_le_border (hlow : 0 ≤ d.exponent) (hhigh : d.exponent < 309)
    (h : d.coefficient * (10 ^ d.exponent.toNat * (4 * denominator)) ≤
      double.border (double.magnitudes - 3)) : (scaled? negative d).isSome = true := by
  obtain ⟨x, hx, hrank⟩ := exists_coefficient? negative hcoefficient
  have hpower : d.exponent.toNat ≤ maxPower := by
    have hmax : maxPower = 308 := rfl
    omega
  simp only [scaled?, hx, Option.bind_eq_bind, Option.bind_some, if_neg (Int.not_lt.mpr hlow),
    if_pos hpower]
  split
  · rfl
  next hzero =>
    have hpos : 0 < d.coefficient := by
      refine Nat.pos_of_ne_zero fun hnone => hzero (beq_iff_eq.mpr ?_)
      rw [hrank, hnone, Format.rank_zero]
    obtain ⟨p, hp, hprank, -⟩ := exists_power? hpower
    obtain ⟨y, hy⟩ := Binary64.exists_times? hpos (Nat.pow_pos (by decide)) hrank hprank h
    rw [hp, Option.bind_some, hy]
    rfl

end Scaled

end Decimal

end MarketScan.Numeric
