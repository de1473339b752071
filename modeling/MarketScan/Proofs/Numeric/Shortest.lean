import MarketScan.Proofs.Numeric.Rounding

/-!
# Shortest numerals stay finite

A shortest numeral has at most seventeen digits, and a power of ten behind them does not take it above the
upper border of its number. When the digits and the power are rounded before they are multiplied, the
product moves by less than two spacings, so that it stays finite below the two largest numbers. Those two
are computed.

* `Binary64.coefficient_shortest_le`, `Binary64.le_exponent_shortest` — the size of a shortest numeral
* `Binary64.coefficient_mul_le_border` — it is not above the upper border
* `Binary64.isSome_scaled?_shortest` — it is scaled to a finite number
-/

namespace MarketScan.Numeric

namespace Decimal

/-- Zeros are taken from the coefficient and counted in the exponent. -/
theorem trimmed_bounds (d : Decimal) (h : d.exponent ≤ 0 ∨ d.coefficient ≠ 0) :
    d.trimmed.coefficient ≤ d.coefficient ∧ d.exponent ≤ d.trimmed.exponent := by
  simp only [trimmed]
  split
  · next hzero => exact ⟨Nat.zero_le _, h.resolve_right (not_not.mpr hzero)⟩
  · exact ⟨Nat.div_le_self _ _, Int.le_add_of_nonneg_right (Int.natCast_nonneg _)⟩

end Decimal

namespace Interval

variable {i : Interval}

/-- A point next to a value has no more digits than were tried. -/
theorem gridPoint?_le (hpos : 0 < i.denominator) {tie : Tie} {count n : Nat}
    (h : i.gridPoint? tie (i.leading + 1 - (count : ℕ)) = some n) : n ≤ 10 ^ count := by
  obtain ⟨hpoint, -⟩ := gridPoint?_cases h
  have hbelow := (i.value_between (i.leading + 1 - (count : ℕ)) hpos).1.trans_lt (i.lt_zpow_leading hpos)
  generalize i.value * _ / _ = below at hpoint hbelow
  have hden : (0 : ℚ) < i.denominator := by exact_mod_cast hpos
  have hsplit : (10 : ℚ) ^ (i.leading + 1) = 10 ^ count * 10 ^ (i.leading + 1 - (count : ℕ)) := by
    rw [← zpow_natCast, ← zpow_add₀ (by norm_num)]
    congr 1
    omega
  rw [hsplit, mul_lt_mul_iff_of_pos_right hden, Decimal.value,
    mul_lt_mul_iff_of_pos_right (by positivity)] at hbelow
  have hlt : below < 10 ^ count := by exact_mod_cast hbelow
  omega

end Interval

namespace Binary64

open Decimal (scaled?)
open Format (double)

/-! ## The size of a shortest numeral -/

section Size

variable {x : Binary64} (h : x.rank ≠ 0) (tie : Tie)
include h

theorem coefficient_shortest_pos : 0 < (x.shortest tie).coefficient := by
  have hvalue := value_shortest_pos h tie
  rw [Decimal.value, mul_pos_iff_of_pos_right (by positivity)] at hvalue
  exact_mod_cast hvalue

/-- What the search finds, before zeros are taken off. -/
theorem exists_shortest_eq : ∃ n count, n ≠ 0 ∧ n ≤ 10 ^ 17 ∧ count ≤ 17 ∧
    x.shortest tie = Decimal.trimmed ⟨n, x.interval.leading + 1 - (count : ℕ)⟩ := by
  obtain ⟨n, further, hle, hpoint, hsearch⟩ := exists_search_eq h tie
  have hzero : ¬x.isZero = true := by rwa [isZero, beq_iff_eq]
  have hshortest : x.shortest tie =
      Decimal.trimmed ⟨n, x.interval.leading + 1 - (1 + further : ℕ)⟩ := by
    rw [shortest, if_neg hzero, hsearch]
  refine ⟨n, 1 + further, ?_, ?_, by omega, hshortest⟩
  · rintro rfl
    have hpos := coefficient_shortest_pos h tie
    rw [hshortest] at hpos
    exact absurd hpos (Nat.lt_irrefl 0)
  · exact (Interval.gridPoint?_le x.denominator_interval_pos hpoint).trans
      (Nat.pow_le_pow_right (by decide) (by omega))

/-- A power of ten that the coefficient is multiplied by does not take it above the upper border. -/
theorem coefficient_mul_le_border (hexponent : 0 ≤ (x.shortest tie).exponent) :
    (x.shortest tie).coefficient * (10 ^ (x.shortest tie).exponent.toNat * (4 * denominator)) ≤
      double.border x.rank := by
  have hhigh := (holds_shortest h tie).within.2
  obtain ⟨e, he⟩ := Int.eq_ofNat_of_zero_le hexponent
  rw [high_interval, Decimal.value, he, zpow_natCast, mul_assoc] at hhigh
  rw [he, Int.toNat_natCast]
  exact_mod_cast hhigh

end Size

theorem shortest_zero {x : Binary64} (h : x.rank = 0) (tie : Tie) : x.shortest tie = ⟨0, 0⟩ := by
  have hzero : x.isZero = true := by rw [isZero, h]; rfl
  rw [shortest, if_pos hzero]

theorem exponent_shortest_eq_zero {x : Binary64} {tie : Tie} (h : (x.shortest tie).coefficient = 0) :
    (x.shortest tie).exponent = 0 := by
  by_cases hx : x.rank = 0
  · rw [shortest_zero hx]
  · exact absurd h (coefficient_shortest_pos hx tie).ne'

theorem coefficient_shortest_le (x : Binary64) (tie : Tie) :
    (x.shortest tie).coefficient ≤ 10 ^ 17 := by
  by_cases h : x.rank = 0
  · rw [shortest_zero h]
    exact Nat.zero_le _
  · obtain ⟨n, count, hn, hle, -, hshortest⟩ := exists_shortest_eq h tie
    rw [hshortest]
    exact (Decimal.trimmed_bounds _ (.inr hn)).1.trans hle

theorem le_exponent_shortest (x : Binary64) (tie : Tie) : -416 ≤ (x.shortest tie).exponent := by
  by_cases h : x.rank = 0
  · rw [shortest_zero h]
    decide
  · obtain ⟨n, count, hn, -, hcount, hshortest⟩ := exists_shortest_eq h tie
    rw [hshortest]
    refine le_trans ?_ (Decimal.trimmed_bounds _ (.inr hn)).2
    have hleading := Interval.leading_eq (i := x.interval) rfl
    have hlength : 0 < (digits (x.interval.value * 10 ^ 400 / x.interval.denominator)).length :=
      Nat.length_toDigits_pos
    show -416 ≤ x.interval.leading + 1 - (count : ℕ)
    omega

/-! ## Scaling -/

theorem border_le_lastBorder (x : Binary64) : double.border x.rank ≤ lastBorder := by
  have hlt := x.rank_lt
  exact double.border_strictMono.monotone (by omega)

theorem lastBorder_lt : lastBorder < 10 ^ 309 * (4 * denominator) := by
  decide +kernel

theorem exponent_shortest_lt (x : Binary64) (tie : Tie) : (x.shortest tie).exponent < 309 := by
  by_cases h : x.rank = 0
  · rw [shortest_zero h]
    decide
  by_contra hlarge
  obtain ⟨e, he⟩ := Int.eq_ofNat_of_zero_le (show 0 ≤ (x.shortest tie).exponent by omega)
  have hborder := coefficient_mul_le_border h tie (by omega)
  rw [he, Int.toNat_natCast] at hborder
  have hpower : 10 ^ e * (4 * denominator) ≤ lastBorder :=
    ((Nat.le_mul_of_pos_left _ (coefficient_shortest_pos h tie)).trans hborder).trans
      x.border_le_lastBorder
  have hlonger (k : Nat) (hk : k ≤ e) : ¬lastBorder < 10 ^ k * (4 * denominator) := by
    rw [Nat.not_lt]
    exact (Nat.mul_le_mul_right _ (Nat.pow_le_pow_right (by decide) hk)).trans hpower
  exact hlonger 309 (by omega) lastBorder_lt

/-- The exponent of the leading digit is small. -/
theorem natAbs_leading_shortest_le (x : Binary64) (tie : Tie) :
    (x.shortest tie).leading.natAbs ≤ 500 := by
  have hlow := x.le_exponent_shortest tie
  have hhigh := x.exponent_shortest_lt tie
  have hpos : 0 < (digits (x.shortest tie).coefficient).length := Nat.length_toDigits_pos
  have hle : (digits (x.shortest tie).coefficient).length ≤ 18 := by
    rw [digits, Nat.length_toDigits_le_iff (by decide) (by decide)]
    exact (x.coefficient_shortest_le tie).trans_lt (by decide)
  rw [Decimal.leading]
  omega

/-- A coefficient of twenty digits is far below the last border. -/
theorem lt_lastBorder {n : Nat} (h : n ≤ 10 ^ 20) : 4 * (n * denominator) < lastBorder := by
  have hmax : 4 * (10 ^ 20 * denominator) < lastBorder := by decide +kernel
  exact (Nat.mul_le_mul_left 4 (Nat.mul_le_mul_right _ h)).trans_lt hmax

theorem rank_last_lt (below : Nat) : double.magnitudes - 1 - below < double.magnitudes :=
  (Nat.sub_le _ _).trans_lt (by decide)

/-- The two largest numbers, too near to the last border to be judged by the size of their numerals. -/
theorem isSome_scaled?_last : ∀ negative : Bool, ∀ below < 2,
    (scaled? negative (shortest .even ⟨negative, _, rank_last_lt below⟩)).isSome = true := by
  decide +kernel

/-- **The shortest numeral of a number is scaled to a finite number.** -/
theorem isSome_scaled?_shortest (x : Binary64) :
    (scaled? x.negative (x.shortest .even)).isSome = true := by
  have hcoefficient := lt_lastBorder ((x.coefficient_shortest_le .even).trans (by decide))
  by_cases hneg : (x.shortest .even).exponent < 0
  · exact Decimal.isSome_scaled?_of_neg x.negative hcoefficient hneg
  have hlow := Int.not_lt.mp hneg
  by_cases hlast : double.magnitudes - 3 < x.rank
  · obtain ⟨negative, rank, hrank⟩ := x
    have hlast : double.magnitudes - 3 < rank := hlast
    obtain ⟨below, hbelow, rfl⟩ : ∃ k < 2, double.magnitudes - 1 - k = rank :=
      ⟨double.magnitudes - 1 - rank, by omega, by omega⟩
    exact isSome_scaled?_last negative below hbelow
  · refine Decimal.isSome_scaled?_of_le_border x.negative hcoefficient hlow
      (x.exponent_shortest_lt .even) ?_
    by_cases h : x.rank = 0
    · rw [shortest_zero h, Nat.zero_mul]
      exact Nat.zero_le _
    · exact (coefficient_mul_le_border h .even hlow).trans
        (double.border_strictMono.monotone (Nat.not_lt.mp hlast))

end Binary64

end MarketScan.Numeric
