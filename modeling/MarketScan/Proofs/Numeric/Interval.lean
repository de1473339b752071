import MarketScan.Numeric.Decimal
import Mathlib.Data.Rat.Cast.Order
import Mathlib.Algebra.Order.Field.Power
import Mathlib.Data.List.TakeWhile
import Mathlib.Tactic.FieldSimp
import Mathlib.Tactic.Linarith
import Mathlib.Tactic.NormNum
import Mathlib.Tactic.Positivity
import Mathlib.Tactic.Ring

/-!
# Shortest numerals tell numbers apart

The magnitudes of a format are counted by their rank, and halfway between two that follow each other
lies a border. The interval of a number reaches from one border to the next, so the intervals of two
numbers share at most a border, which then belongs to the one of even rank. What lies in the interval
of a number is therefore in no other.

The shortest numeral lies in the interval of its number: of the grids that are tried the last one, with
seventeen digits, is finer than any interval is wide.

* `Format.numerator_succ` — from one magnitude to the next
* `Interval.Holds`, `Interval.gridPoint?_cases`, `Interval.exists_gridPoint?` — points of a grid
* `Binary64.rank_eq_of_holds` — an interval belongs to one rank
* `Binary64.holds_shortest` — seventeen digits suffice
* `Binary64.rank_eq_of_value_shortest` — the value of the shortest numeral gives the rank
-/

namespace MarketScan.Numeric

/-! ## Magnitudes -/

namespace Format

variable (F : Format)

theorem binade_pos : 0 < F.binade := Nat.pow_pos (by decide)

section Rank

variable {F : Format} {place : Nat} (h : place < F.binade) (k : Nat)
include h

/-- A rank is known by its binade and its place there. -/
theorem shift_place : F.shift (place + F.binade * k) = k - 1 := by
  rw [shift, Nat.add_mul_div_left _ _ F.binade_pos, Nat.div_eq_of_lt h, Nat.zero_add]

theorem significand_place :
    F.significand (place + F.binade * k) = if k = 0 then place else F.binade + place := by
  rw [significand, Nat.add_mul_mod_self_left, Nat.mod_eq_of_lt h]
  cases k with
  | zero => simp [h]
  | succ k =>
    have hnot : ¬place + F.binade * (k + 1) < F.binade := by
      rw [Nat.mul_succ]
      omega
    rw [if_neg hnot, if_neg k.succ_ne_zero]

end Rank

/-- A rank is followed by the next place of its binade or by the first place of the next binade. -/
theorem rank_cases (rank : Nat) :
    (∃ place k, rank = place + F.binade * k ∧ place + 1 < F.binade) ∨
      ∃ k, rank = (F.binade - 1) + F.binade * k := by
  have hplace := Nat.mod_lt rank F.binade_pos
  have hrank : rank = rank % F.binade + F.binade * (rank / F.binade) :=
    (Nat.mod_add_div rank F.binade).symm
  by_cases hlast : rank % F.binade + 1 < F.binade
  · exact .inl ⟨_, _, hrank, hlast⟩
  · refine .inr ⟨rank / F.binade, ?_⟩
    have hmod : rank % F.binade = F.binade - 1 := by omega
    rwa [hmod] at hrank

/-- The spacing grows from a rank to the next one exactly where a binade above the second begins. -/
theorem shift_succ (rank : Nat) :
    F.shift (rank + 1) =
      if F.significand (rank + 1) = F.binade ∧ 0 < F.shift (rank + 1) then F.shift rank + 1
      else F.shift rank := by
  have hpos := F.binade_pos
  rcases F.rank_cases rank with ⟨place, k, rfl, hplace⟩ | ⟨k, rfl⟩
  · have hnext : place + F.binade * k + 1 = (place + 1) + F.binade * k := by omega
    rw [hnext, shift_place hplace, shift_place (by omega), significand_place hplace]
    split <;> split <;> omega
  · have hnext : F.binade - 1 + F.binade * k + 1 = 0 + F.binade * (k + 1) := by
      rw [Nat.mul_succ]
      omega
    rw [hnext, shift_place hpos, shift_place (by omega), significand_place hpos]
    split <;> split <;> omega

theorem significand_lt (rank : Nat) : F.significand rank < 2 * F.binade := by
  have hplace := Nat.mod_lt rank F.binade_pos
  rw [significand]
  split <;> omega

/-- **The next magnitude is one spacing away.** -/
theorem numerator_succ (rank : Nat) :
    F.numerator (rank + 1) = F.numerator rank + 2 ^ F.shift rank := by
  have hpos := F.binade_pos
  simp only [numerator, Nat.pow_eq]
  rcases F.rank_cases rank with ⟨place, k, rfl, hplace⟩ | ⟨k, rfl⟩
  · have hnext : place + F.binade * k + 1 = (place + 1) + F.binade * k := by omega
    rw [hnext, shift_place hplace, shift_place (by omega), significand_place hplace,
      significand_place (by omega)]
    split <;> ring
  · have hnext : F.binade - 1 + F.binade * k + 1 = 0 + F.binade * (k + 1) := by
      rw [Nat.mul_succ]
      omega
    have hlast : F.binade - 1 + 1 = F.binade := by omega
    rw [hnext, shift_place hpos, shift_place (by omega), significand_place hpos,
      significand_place (by omega), if_neg k.succ_ne_zero]
    cases k with
    | zero => simp [hlast]
    | succ k =>
      rw [if_neg k.succ_ne_zero, Nat.add_sub_cancel, Nat.add_sub_cancel]
      calc (F.binade + 0) * 2 ^ (k + 1)
          = (F.binade + F.binade) * 2 ^ k := by ring
        _ = (F.binade + (F.binade - 1 + 1)) * 2 ^ k := by rw [hlast]
        _ = (F.binade + (F.binade - 1)) * 2 ^ k + 2 ^ k := by ring

theorem numerator_strictMono : StrictMono F.numerator := by
  refine strictMono_nat_of_lt_succ fun rank => ?_
  rw [numerator_succ]
  exact Nat.lt_add_of_pos_right (Nat.two_pow_pos _)

/-- The border between a rank and the next one, counted in quarters of the least magnitude. -/
def border (rank : Nat) : Nat := 2 * (F.numerator rank + F.numerator (rank + 1))

theorem border_strictMono : StrictMono F.border := by
  refine strictMono_nat_of_lt_succ fun rank => ?_
  have hbefore := F.numerator_strictMono (Nat.lt_add_one rank)
  have hafter := F.numerator_strictMono (Nat.lt_add_one (rank + 1))
  simp only [border]
  omega

end Format

/-! ## Points of a grid -/

namespace Decimal

/-- The number that a decimal stands for. -/
def value (d : Decimal) : ℚ := d.coefficient * 10 ^ d.exponent

/-- A power of ten that ends the digits of a number divides it. -/
theorem pow_trailing_dvd (n : Nat) :
    10 ^ ((digits n).reverse.takeWhile (· = '0')).length ∣ n := by
  obtain ⟨zeros, hzeros⟩ : ∃ k, ((digits n).reverse.takeWhile (· = '0')).length = k := ⟨_, rfl⟩
  have hrun : (digits n).reverse.takeWhile (· = '0') = List.replicate zeros '0' := by
    refine List.eq_replicate_iff.mpr ⟨hzeros, fun c hc => ?_⟩
    exact of_decide_eq_true (List.mem_takeWhile_imp (p := fun c => decide (c = '0')) hc)
  have hdigits : digits n =
      ((digits n).reverse.dropWhile (· = '0')).reverse ++ List.replicate zeros '0' := by
    rw [← List.reverse_inj, List.reverse_append, List.reverse_reverse, List.reverse_replicate, ← hrun,
      List.takeWhile_append_dropWhile]
  rw [hzeros, ← Nat.ofDigitChars_ten_toDigits (n := n), ← digits, hdigits, Nat.ofDigitChars_append,
    Nat.ofDigitChars_replicate_zero]
  exact Nat.dvd_mul_right _ _

theorem value_trimmed (d : Decimal) : d.trimmed.value = d.value := by
  simp only [trimmed]
  split
  · next hzero => simp [value, hzero]
  · obtain ⟨k, hk⟩ := pow_trailing_dvd d.coefficient
    generalize ((digits d.coefficient).reverse.takeWhile (· = '0')).length = zeros at hk ⊢
    have hpos : 0 < 10 ^ zeros := Nat.pow_pos (by decide)
    rw [value, value, Nat.pow_eq, hk, Nat.mul_div_cancel_left _ hpos, zpow_add₀ (by norm_num),
      zpow_natCast]
    push_cast
    ring

end Decimal

namespace Interval

variable {i : Interval}

/-- A number lies in the interval. -/
def Holds (i : Interval) (q : ℚ) : Prop :=
  if i.closed then (i.low : ℚ) ≤ q * i.denominator ∧ q * i.denominator ≤ i.high
  else (i.low : ℚ) < q * i.denominator ∧ q * i.denominator < i.high

theorem Holds.within {q : ℚ} (h : i.Holds q) :
    (i.low : ℚ) ≤ q * i.denominator ∧ q * i.denominator ≤ i.high := by
  rw [Holds] at h
  split at h
  · exact h
  · exact ⟨h.1.le, h.2.le⟩

theorem holds_of_lt {q : ℚ} (hlow : (i.low : ℚ) < q * i.denominator)
    (hhigh : q * i.denominator < i.high) : i.Holds q := by
  rw [Holds]
  split
  · exact ⟨hlow.le, hhigh.le⟩
  · exact ⟨hlow, hhigh⟩

/-- The power of ten of a grid, cleared of its denominator. -/
theorem zpow_mul_factor (step : Int) :
    (10 : ℚ) ^ step * (10 ^ (-step).toNat : ℕ) = (10 ^ step.toNat : ℕ) := by
  push_cast
  rw [← zpow_natCast, ← zpow_natCast, ← zpow_add₀ (by norm_num)]
  congr 1
  omega

theorem contains_iff {n : Nat} {step : Int} :
    i.contains n (Nat.pow 10 step.toNat) (Nat.pow 10 (-step).toNat) = true ↔
      i.Holds (Decimal.value ⟨n, step⟩) := by
  have hfactor : (0 : ℚ) < (10 ^ (-step).toNat : ℕ) := by positivity
  have hpoint : ((n * (i.denominator * 10 ^ step.toNat) : ℕ) : ℚ) =
      Decimal.value ⟨n, step⟩ * i.denominator * (10 ^ (-step).toNat : ℕ) := by
    rw [Decimal.value, Nat.cast_mul, Nat.cast_mul, ← zpow_mul_factor step]
    ring
  have hle (a : Nat) : a * 10 ^ (-step).toNat ≤ n * (i.denominator * 10 ^ step.toNat) ↔
      (a : ℚ) ≤ Decimal.value ⟨n, step⟩ * i.denominator := by
    rw [← Nat.cast_le (α := ℚ), hpoint, Nat.cast_mul, mul_le_mul_iff_of_pos_right hfactor]
  have hge (a : Nat) : n * (i.denominator * 10 ^ step.toNat) ≤ a * 10 ^ (-step).toNat ↔
      Decimal.value ⟨n, step⟩ * i.denominator ≤ (a : ℚ) := by
    rw [← Nat.cast_le (α := ℚ), hpoint, Nat.cast_mul, mul_le_mul_iff_of_pos_right hfactor]
  simp only [contains, Holds, Nat.pow_eq]
  split
  · rw [Bool.and_eq_true, decide_eq_true_iff, decide_eq_true_iff, hle, hge]
  · rw [Bool.and_eq_true, decide_eq_true_iff, decide_eq_true_iff, ← not_le, ← not_le, hge, hle,
      not_le, not_le]

/-- A point of the grid is next to the value. -/
theorem gridPoint?_cases {tie : Tie} {step : Int} {n : Nat} (h : i.gridPoint? tie step = some n) :
    let below := i.value * 10 ^ (-step).toNat / (i.denominator * 10 ^ step.toNat)
    (n = below ∨ n = below + 1) ∧ i.Holds (Decimal.value ⟨n, step⟩) := by
  intro below
  rw [← contains_iff]
  simp only [gridPoint?] at h
  generalize hfactor : Nat.pow 10 (-step).toNat = factor at h ⊢
  generalize hscale : Nat.pow 10 step.toNat = scale at h ⊢
  have hbelow : i.value * factor / (i.denominator * scale) = below := by rw [← hfactor, ← hscale]; rfl
  rw [hbelow] at h
  cases hlower : i.contains below scale factor <;> cases hupper : i.contains (below + 1) scale factor <;>
    rw [hlower, hupper] at h
  · cases h
  · obtain rfl : below + 1 = n := Option.some.inj h
    exact ⟨.inr rfl, hupper⟩
  · obtain rfl : below = n := Option.some.inj h
    exact ⟨.inl rfl, hlower⟩
  · -- both points lie in the interval, so it does not matter which is nearer
    have hpoint : n = below ∨ n = below + 1 := by
      simp only at h
      split at h
      · exact .inl (Option.some.inj h).symm
      split at h
      · exact .inr (Option.some.inj h).symm
      cases tie with
      | even =>
        simp only at h
        split at h
        · exact .inl (Option.some.inj h).symm
        · exact .inr (Option.some.inj h).symm
      | upward => exact .inr (Option.some.inj h).symm
    refine ⟨hpoint, ?_⟩
    rcases hpoint with rfl | rfl
    · exact hlower
    · exact hupper

/-- The points of the grid next to the value. -/
theorem value_between (i : Interval) (step : Int) (hpos : 0 < i.denominator) :
    let below := i.value * 10 ^ (-step).toNat / (i.denominator * 10 ^ step.toNat)
    Decimal.value ⟨below, step⟩ * i.denominator ≤ i.value ∧
      (i.value : ℚ) < Decimal.value ⟨below + 1, step⟩ * i.denominator := by
  intro below
  have hfactor : (0 : ℚ) < (10 ^ (-step).toNat : ℕ) := by positivity
  have hunit : 0 < i.denominator * 10 ^ step.toNat := by positivity
  have hpoint (n : Nat) : Decimal.value ⟨n, step⟩ * i.denominator * (10 ^ (-step).toNat : ℕ) =
      ((n * (i.denominator * 10 ^ step.toNat) : ℕ) : ℚ) := by
    rw [Decimal.value, Nat.cast_mul, Nat.cast_mul, ← zpow_mul_factor step]
    ring
  constructor
  · rw [← mul_le_mul_iff_of_pos_right hfactor, hpoint]
    exact_mod_cast Nat.div_mul_le_self _ _
  · rw [← mul_lt_mul_iff_of_pos_right hfactor, hpoint]
    exact_mod_cast Nat.lt_mul_of_div_lt (Nat.lt_succ_self below) hunit

/-- A grid that is finer than the interval is wide has a point in it next to the value. -/
theorem exists_gridPoint? (tie : Tie) {step : Int} (hpos : 0 < i.denominator) (hlow : i.low < i.value)
    (hhigh : i.value < i.high) (hfine : (10 : ℚ) ^ step * i.denominator < (i.high : ℚ) - i.low) :
    ∃ n, i.gridPoint? tie step = some n := by
  have hnear := i.value_between step hpos
  simp only [gridPoint?, Nat.pow_eq]
  generalize i.value * 10 ^ (-step).toNat / (i.denominator * 10 ^ step.toNat) = below at hnear ⊢
  obtain ⟨hbelow, habove⟩ := hnear
  have hstep : Decimal.value ⟨below + 1, step⟩ * i.denominator =
      Decimal.value ⟨below, step⟩ * i.denominator + 10 ^ step * i.denominator := by
    simp only [Decimal.value]
    push_cast
    ring
  have hlow' : (i.low : ℚ) < i.value := by exact_mod_cast hlow
  have hhigh' : (i.value : ℚ) < i.high := by exact_mod_cast hhigh
  -- if the lower point is not above the low end, the upper one is not beyond the high end
  have hcontains : i.contains below (10 ^ step.toNat) (10 ^ (-step).toNat) = true ∨
      i.contains (below + 1) (10 ^ step.toNat) (10 ^ (-step).toNat) = true := by
    by_cases h : (i.low : ℚ) < Decimal.value ⟨below, step⟩ * i.denominator
    · exact .inl (contains_iff.mpr (holds_of_lt h (by linarith)))
    · exact .inr (contains_iff.mpr (holds_of_lt (by linarith) (by linarith)))
  cases h : i.contains below (10 ^ step.toNat) (10 ^ (-step).toNat) <;>
    cases h' : i.contains (below + 1) (10 ^ step.toNat) (10 ^ (-step).toNat) <;> rw [h, h'] at hcontains
  · simp at hcontains
  · exact ⟨_, rfl⟩
  · exact ⟨_, rfl⟩
  · simp only
    split
    · exact ⟨_, rfl⟩
    split
    · exact ⟨_, rfl⟩
    cases tie <;> exact ⟨_, rfl⟩

/-- The search ends at a point of a grid if the last grid that is tried has one. -/
theorem exists_search_eq {tie : Tie} {leading : Int} (more count : Nat)
    (hlast : ∃ n, i.gridPoint? tie (leading + 1 - (count + more : Nat)) = some n) :
    ∃ n further, further ≤ more ∧
      i.gridPoint? tie (leading + 1 - (count + further : Nat)) = some n ∧
      i.search tie leading (more + 1) count = ⟨n, leading + 1 - (count + further : Nat)⟩ := by
  induction more generalizing count with
  | zero =>
    obtain ⟨n, hn⟩ := hlast
    refine ⟨n, 0, Nat.le_refl 0, hn, ?_⟩
    rw [Nat.add_zero] at hn
    simp only [search, hn, Nat.add_zero]
  | succ more ih =>
    rw [search]
    cases hpoint : i.gridPoint? tie (leading + 1 - (count : Nat)) with
    | some n => exact ⟨n, 0, Nat.zero_le _, hpoint, rfl⟩
    | none =>
      have hnext (k : Nat) : count + 1 + k = count + (k + 1) := by omega
      obtain ⟨n, further, hle, hn, hsearch⟩ := ih (count + 1) (by rwa [hnext])
      rw [hnext] at hn hsearch
      exact ⟨n, further + 1, Nat.succ_le_succ hle, hn, hsearch⟩

theorem leading_eq {lifted : Nat} (h : i.value * 10 ^ 400 / i.denominator = lifted) :
    i.leading = (digits lifted).length - 1 - (400 : ℕ) := by
  simp only [leading, Nat.pow_eq, h]

/-- A value is less than what the digit before its leading one stands for. -/
theorem lt_zpow_leading (i : Interval) (hpos : 0 < i.denominator) :
    (i.value : ℚ) < 10 ^ (i.leading + 1) * i.denominator := by
  obtain ⟨lifted, hlifted⟩ : ∃ n, i.value * 10 ^ 400 / i.denominator = n := ⟨_, rfl⟩
  have hdigits : lifted < 10 ^ (digits lifted).length := by
    rw [digits, ← Nat.length_toDigits_le_iff (by decide) Nat.length_toDigits_pos]
  have hmul : ((i.value * 10 ^ 400 : ℕ) : ℚ) < (10 ^ (digits lifted).length * i.denominator : ℕ) := by
    rw [← hlifted] at hdigits ⊢
    exact_mod_cast (Nat.div_lt_iff_lt_mul hpos).mp hdigits
  have hleading : i.leading + 1 = ((digits lifted).length : ℕ) - (400 : ℕ) := by
    rw [leading_eq hlifted]
    omega
  rw [hleading, zpow_sub₀ (by norm_num), zpow_natCast, zpow_natCast, div_mul_eq_mul_div,
    lt_div_iff₀ (by positivity)]
  exact_mod_cast hmul

/-- The leading digit of a value does not stand for more than the value. -/
theorem zpow_leading_le (i : Interval) (hpos : 0 < i.denominator)
    (hlarge : i.denominator ≤ i.value * 10 ^ 400) :
    (10 : ℚ) ^ i.leading * i.denominator ≤ i.value := by
  obtain ⟨lifted, hlifted⟩ : ∃ n, i.value * 10 ^ 400 / i.denominator = n := ⟨_, rfl⟩
  have hone : 1 ≤ lifted := by
    rw [← hlifted]
    exact (Nat.one_le_div_iff hpos).mpr hlarge
  have hdigits : 10 ^ ((digits lifted).length - 1) ≤ lifted := by
    rcases Nat.eq_zero_or_pos ((digits lifted).length - 1) with hzero | hmany
    · rw [hzero]
      exact hone
    · rw [← not_lt, ← Nat.length_toDigits_le_iff (by decide) hmany, ← digits]
      omega
  have hlength : 0 < (digits lifted).length := Nat.length_toDigits_pos
  have hmul : 10 ^ ((digits lifted).length - 1) * i.denominator ≤ i.value * 10 ^ 400 := by
    rw [← hlifted] at hdigits ⊢
    exact (Nat.mul_le_mul_right _ hdigits).trans (Nat.div_mul_le_self _ _)
  have hleading : i.leading = ((digits lifted).length - 1 : ℕ) - (400 : ℕ) := by
    rw [leading_eq hlifted]
    omega
  have hcast : (10 : ℚ) ^ ((digits lifted).length - 1) * i.denominator ≤ i.value * 10 ^ 400 := by
    exact_mod_cast hmul
  rw [hleading, zpow_sub₀ (by norm_num), zpow_natCast, zpow_natCast, div_mul_eq_mul_div,
    div_le_iff₀ (by positivity)]
  exact hcast

end Interval

/-! ## The numbers that round to a number -/

namespace Binary64

open Format (double)

theorem binade_eq : double.binade = 2 ^ 52 := rfl

section Interval

variable (x : Binary64)

theorem value_interval : x.interval.value = 4 * double.numerator x.rank := Nat.mul_assoc ..

theorem high_interval : x.interval.high = double.border x.rank := by
  show (4 * double.significand x.rank + 2) * Nat.pow 2 (double.shift x.rank) = _
  rw [Format.border, Format.numerator_succ, Format.numerator, Nat.pow_eq]
  ring

theorem low_interval {rank : Nat} (h : x.rank = rank + 1) : x.interval.low = double.border rank := by
  have hspace := double.numerator_succ rank
  have hshift := double.shift_succ rank
  -- down from a number the interval reaches as far as up from the number before
  have hreach : (if double.significand (rank + 1) = double.binade ∧ 0 < double.shift (rank + 1)
      then 1 else 2) * 2 ^ double.shift (rank + 1) = 2 * 2 ^ double.shift rank := by
    split
    · next hcarry =>
      rw [if_pos hcarry] at hshift
      rw [hshift, pow_succ]
      ring
    · next hsame =>
      rw [if_neg hsame] at hshift
      rw [hshift]
  have hvalue : 4 * double.significand (rank + 1) * 2 ^ double.shift (rank + 1) =
      4 * double.numerator (rank + 1) := Nat.mul_assoc ..
  rw [interval, h]
  simp only [Nat.pow_eq, Nat.sub_mul, hreach, hvalue, Format.border]
  omega

/-- Of two numbers that follow each other the interval of one is closed. -/
theorem closed_interval : x.interval.closed = (x.rank % 2 == 0) := by
  have hbinade : double.binade % 2 = 0 := by decide
  have hparity : double.significand x.rank % 2 = x.rank % 2 := by
    rw [Format.significand]
    split
    · rfl
    · have hsplit := Nat.mod_add_div x.rank double.binade
      have heven : double.binade * (x.rank / double.binade) % 2 = 0 := by
        rw [Nat.mul_mod, hbinade, Nat.zero_mul, Nat.zero_mod]
      omega
  show (double.significand x.rank % 2 == 0) = _
  rw [hparity]

end Interval

/-- **The intervals of different ranks have no number in common.** -/
theorem rank_le_of_holds {x y : Binary64} {q : ℚ} (hx : x.interval.Holds q) (hy : y.interval.Holds q) :
    y.rank ≤ x.rank := by
  by_contra hlt
  obtain ⟨rank, hrank⟩ : ∃ n, y.rank = n + 1 := ⟨y.rank - 1, by omega⟩
  have hle : x.rank ≤ rank := by omega
  have hhigh := hx.within.2
  have hlow := hy.within.1
  rw [high_interval] at hhigh
  rw [low_interval y hrank] at hlow
  have hborder : (double.border rank : ℚ) ≤ double.border x.rank := hlow.trans hhigh
  have hsame : rank = x.rank :=
    Nat.le_antisymm (double.border_strictMono.le_iff_le.mp (by exact_mod_cast hborder)) hle
  subst hsame
  -- both intervals hold the border between them, so that both ranks are even
  have heq : q * (4 * denominator : ℕ) = double.border x.rank := le_antisymm hhigh hlow
  have hxclosed : x.interval.closed = true := by
    by_contra hopen
    rw [Interval.Holds, if_neg hopen, high_interval] at hx
    exact hx.2.ne heq
  have hyclosed : y.interval.closed = true := by
    by_contra hopen
    rw [Interval.Holds, if_neg hopen, low_interval y hrank] at hy
    exact hy.1.ne' heq
  rw [closed_interval, beq_iff_eq] at hxclosed hyclosed
  omega

theorem rank_eq_of_holds {x y : Binary64} {q : ℚ} (hx : x.interval.Holds q) (hy : y.interval.Holds q) :
    x.rank = y.rank :=
  Nat.le_antisymm (rank_le_of_holds hy hx) (rank_le_of_holds hx hy)

/-! ## Seventeen digits -/

theorem denominator_pos : 0 < denominator := by
  unfold denominator
  generalize double.granularity = n
  exact Nat.two_pow_pos n

theorem denominator_interval_pos (x : Binary64) : 0 < x.interval.denominator :=
  Nat.mul_pos (by decide) denominator_pos

theorem denominator_le : denominator ≤ 10 ^ 400 := by
  have hpower (n : Nat) : 2 ^ n ≤ 10 ^ (n / 3 + 1) :=
    calc 2 ^ n
        ≤ 2 ^ (3 * (n / 3 + 1)) := Nat.pow_le_pow_right (by decide) (by omega)
      _ = 8 ^ (n / 3 + 1) := Nat.pow_mul 2 3 _
      _ ≤ 10 ^ (n / 3 + 1) := Nat.pow_le_pow_left (by decide) _
  have hlonger (m n : Nat) (h : m ≤ n) : 10 ^ m ≤ 10 ^ n := Nat.pow_le_pow_right (by decide) h
  have hgranularity : double.granularity / 3 + 1 ≤ 400 := by decide
  unfold denominator
  generalize double.granularity = n at hgranularity ⊢
  exact (hpower n).trans (hlonger _ _ hgranularity)

section Positive

variable {x : Binary64} (h : x.rank ≠ 0)
include h

theorem interval_bounds : x.interval.low < x.interval.value ∧ x.interval.value < x.interval.high := by
  obtain ⟨rank, hrank⟩ : ∃ n, x.rank = n + 1 := ⟨x.rank - 1, by omega⟩
  have hbefore := double.numerator_strictMono (Nat.lt_add_one rank)
  have hafter := double.numerator_strictMono (Nat.lt_add_one (rank + 1))
  rw [low_interval x hrank, high_interval, value_interval, hrank, Format.border, Format.border]
  omega

/-- The interval is wider than a part in `10 ^ 16` of the number. -/
theorem value_lt_width :
    x.interval.value + 10 ^ 16 * x.interval.low < 10 ^ 16 * x.interval.high := by
  obtain ⟨rank, hrank⟩ : ∃ n, x.rank = n + 1 := ⟨x.rank - 1, by omega⟩
  have hbefore := double.numerator_succ rank
  have hafter := double.numerator_succ (rank + 1)
  have hspace : 0 < 2 ^ double.shift rank := Nat.two_pow_pos _
  rw [low_interval x hrank, high_interval, value_interval, hrank, Format.border, Format.border]
  -- the number is less than `2 ^ 53` spacings
  have hlt : 4 * double.numerator (rank + 1) <
      10 ^ 16 * (2 * (2 ^ double.shift rank + 2 ^ double.shift (rank + 1))) := by
    have hm := double.significand_lt (rank + 1)
    have hshift := double.shift_succ rank
    rw [Format.numerator, Nat.pow_eq]
    rw [binade_eq] at hm hshift
    split at hshift
    · next hcarry =>
      rw [hcarry.1, hshift, pow_succ]
      omega
    · rw [hshift]
      generalize 2 ^ double.shift rank = unit at hspace ⊢
      calc 4 * (double.significand (rank + 1) * unit)
          ≤ 4 * (2 * 2 ^ 52 * unit) := Nat.mul_le_mul_left 4 (Nat.mul_le_mul_right unit hm.le)
        _ < 10 ^ 16 * (2 * (unit + unit)) := by omega
  omega

/-- The last grid that is tried is finer than the interval is wide. -/
theorem spacing_lt_width : (10 : ℚ) ^ (x.interval.leading + 1 - (1 + 16 : ℕ)) * x.interval.denominator <
    (x.interval.high : ℚ) - x.interval.low := by
  obtain ⟨rank, hrank⟩ : ∃ n, x.rank = n + 1 := ⟨x.rank - 1, by omega⟩
  have hwidth : (x.interval.value : ℚ) + 10 ^ 16 * x.interval.low < 10 ^ 16 * x.interval.high := by
    exact_mod_cast value_lt_width h
  have hleading := x.interval.zpow_leading_le x.denominator_interval_pos <| by
    have hvalue : 4 ≤ x.interval.value := by
      have hspace : 0 < 2 ^ double.shift rank := Nat.two_pow_pos _
      rw [value_interval, hrank, Format.numerator_succ]
      omega
    calc 4 * denominator
        ≤ 4 * 10 ^ 400 := Nat.mul_le_mul_left 4 denominator_le
      _ ≤ x.interval.value * 10 ^ 400 := Nat.mul_le_mul_right _ hvalue
  have hstep : (10 : ℚ) ^ x.interval.leading =
      10 ^ 16 * 10 ^ (x.interval.leading + 1 - (1 + 16 : ℕ)) := by
    rw [← zpow_natCast, ← zpow_add₀ (by norm_num)]
    congr 1
    push_cast
    ring
  rw [hstep] at hleading
  linarith

/-- The search for the shortest numeral ends at a point of a grid. -/
theorem exists_search_eq (tie : Tie) : ∃ n further, further ≤ 16 ∧
    x.interval.gridPoint? tie (x.interval.leading + 1 - (1 + further : ℕ)) = some n ∧
    x.interval.search tie x.interval.leading 17 1 =
      ⟨n, x.interval.leading + 1 - (1 + further : ℕ)⟩ :=
  Interval.exists_search_eq 16 1 <|
    Interval.exists_gridPoint? tie x.denominator_interval_pos (interval_bounds h).1
      (interval_bounds h).2 (spacing_lt_width h)

/-- **The shortest numeral lies in the interval of its number.** -/
theorem holds_shortest (tie : Tie) : x.interval.Holds (x.shortest tie).value := by
  have hzero : ¬x.isZero = true := by rwa [isZero, beq_iff_eq]
  rw [shortest, if_neg hzero, Decimal.value_trimmed]
  obtain ⟨n, further, -, hpoint, hsearch⟩ := exists_search_eq h tie
  rw [hsearch]
  exact (Interval.gridPoint?_cases hpoint).2

theorem value_shortest_pos (tie : Tie) : 0 < (x.shortest tie).value := by
  obtain ⟨rank, hrank⟩ : ∃ n, x.rank = n + 1 := ⟨x.rank - 1, by omega⟩
  have hlow : (x.interval.low : ℚ) ≤ (x.shortest tie).value * x.interval.denominator :=
    (holds_shortest h tie).within.1
  have hpos : 0 < x.interval.low := by
    have hspace : 0 < 2 ^ double.shift rank := Nat.two_pow_pos _
    rw [low_interval x hrank, Format.border, Format.numerator_succ]
    omega
  have hden : 0 < x.interval.denominator := x.denominator_interval_pos
  have hpos' : (0 : ℚ) < x.interval.low := by exact_mod_cast hpos
  have hden' : (0 : ℚ) < x.interval.denominator := by exact_mod_cast hden
  exact (mul_pos_iff_of_pos_right hden').mp (hpos'.trans_le hlow)

end Positive

theorem value_shortest_zero {x : Binary64} (h : x.rank = 0) (tie : Tie) : (x.shortest tie).value = 0 := by
  have hzero : x.isZero = true := by rw [isZero, h]; rfl
  rw [shortest, if_pos hzero, Decimal.value]
  simp

/-- **Numbers of one shortest value have one rank.** -/
theorem rank_eq_of_value_shortest {x y : Binary64} {tie tie' : Tie}
    (h : (x.shortest tie).value = (y.shortest tie').value) : x.rank = y.rank := by
  by_cases hx : x.rank = 0 <;> by_cases hy : y.rank = 0
  · rw [hx, hy]
  · rw [value_shortest_zero hx] at h
    exact absurd h (value_shortest_pos hy tie').ne
  · rw [value_shortest_zero hy] at h
    exact absurd h (value_shortest_pos hx tie).ne'
  · exact rank_eq_of_holds (holds_shortest hx tie) (h ▸ holds_shortest hy tie')

end Binary64

end MarketScan.Numeric
