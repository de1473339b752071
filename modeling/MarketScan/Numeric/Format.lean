/-!
# Binary floating formats

A binary format holds the magnitudes `m · 2 ^ s / 2 ^ granularity`. They are counted in increasing
order from zero on, so a magnitude is known by its *rank*, a natural number, and rounding a quotient
to the format is the choice of a rank. Neither infinities nor NaN occur here: a rank that is not
below `magnitudes` stands for a quotient too large for the format.

* `Format.significand`, `Format.shift` — the magnitude of a rank
* `Format.rank` — the rank nearest to a quotient, a tie going to the even rank
-/

namespace MarketScan.Numeric

/-- The parameters of a binary floating format. -/
structure Format where
  /-- How many bits a significand has. -/
  precision : Nat
  /-- The least positive magnitude is `1 / 2 ^ granularity`. -/
  granularity : Nat
  /-- How many finite magnitudes there are, zero included. -/
  magnitudes : Nat

namespace Format

/-- The format of 64 bits. -/
def double : Format := ⟨53, 1074, 2047 * Nat.pow 2 52⟩

/-- The format of 32 bits. -/
def single : Format := ⟨24, 149, 255 * Nat.pow 2 23⟩

/-! ## Magnitudes -/

/-- How many ranks share one spacing. -/
def binade (F : Format) : Nat := Nat.pow 2 (F.precision - 1)

/-- The spacing around a rank is `2 ^ shift / 2 ^ granularity`. -/
def shift (F : Format) (rank : Nat) : Nat := rank / F.binade - 1

/-- The magnitude of a rank, counted in its spacing. -/
def significand (F : Format) (rank : Nat) : Nat :=
  if rank < F.binade then rank else F.binade + rank % F.binade

/-- The magnitude of a rank is `numerator / 2 ^ granularity`. -/
def numerator (F : Format) (rank : Nat) : Nat := F.significand rank * Nat.pow 2 (F.shift rank)

/-! ## Rounding -/

/-- The natural number nearest to a quotient, the even one of two. -/
def roundHalfEven (num den : Nat) : Nat :=
  let quotient := num / den
  let rest := num % den
  if den < 2 * rest ∨ (den = 2 * rest ∧ quotient % 2 = 1) then quotient + 1 else quotient

/-- The exponent of the greatest power of two that is not above a positive quotient. -/
def floorLog2 (num den : Nat) : Int :=
  let lift := den.log2 + 1
  (num * Nat.pow 2 lift / den).log2 - lift

/--
The rank of the magnitude nearest to a quotient, the even rank of two.

A rank and its magnitude counted in the spacing differ by a multiple of `binade`, so a significand
that rounds up to the next power of two carries into the next binade by itself.
-/
def rank (F : Format) (num den : Nat) : Nat :=
  if num = 0 then 0
  else
    let shift := (floorLog2 num den + 1 - F.precision + F.granularity).toNat
    shift * F.binade + roundHalfEven (num * Nat.pow 2 F.granularity) (den * Nat.pow 2 shift)

@[simp] theorem rank_zero (F : Format) (den : Nat) : F.rank 0 den = 0 := rfl

end Format

end MarketScan.Numeric
