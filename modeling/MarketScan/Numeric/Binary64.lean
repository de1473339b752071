import MarketScan.Numeric.Format

/-!
# Finite numbers of 64 bits

`Binary64` is a finite floating number of the 64-bit format: a sign and the rank of its magnitude.
The two zeros are different numbers that count as equal (`Binary64.same`). `Extended` adds the
infinities and NaN, which a settings file and a program's own values can hold but a JSON text cannot.
-/

namespace MarketScan.Numeric

/-- A finite floating number of 64 bits. -/
structure Binary64 where
  negative : Bool
  rank : Nat
  rank_lt : rank < Format.double.magnitudes
deriving DecidableEq

namespace Binary64

/-- Zero with a sign. -/
def zero (negative : Bool) : Binary64 := ⟨negative, 0, by decide⟩

/-- The number of a rank, unless the rank is beyond the finite ones. -/
def ofRank? (negative : Bool) (rank : Nat) : Option Binary64 :=
  if h : rank < Format.double.magnitudes then some ⟨negative, rank, h⟩ else none

/-- The number nearest to a quotient, unless the quotient is too large. -/
def ofQuotient? (negative : Bool) (num den : Nat) : Option Binary64 :=
  ofRank? negative (Format.double.rank num den)

/-- The magnitude of a number is `numerator / denominator`. -/
def numerator (x : Binary64) : Nat := Format.double.numerator x.rank

/-- The common denominator of all magnitudes. -/
def denominator : Nat := Nat.pow 2 Format.double.granularity

def isZero (x : Binary64) : Bool := x.rank == 0

/-- Equality of value: the two zeros are equal. -/
def same (x y : Binary64) : Bool := x == y || (x.isZero && y.isZero)

theorem same_iff {x y : Binary64} : x.same y = true ↔ x = y ∨ x.rank = 0 ∧ y.rank = 0 := by
  simp [same, isZero]

theorem same_refl (x : Binary64) : x.same x = true := same_iff.2 (.inl rfl)

theorem same_symm {x y : Binary64} (h : x.same y = true) : y.same x = true := by
  rcases same_iff.1 h with rfl | ⟨hx, hy⟩
  · exact same_refl _
  · exact same_iff.2 (.inr ⟨hy, hx⟩)

theorem same_trans {x y z : Binary64} (hxy : x.same y = true) (hyz : y.same z = true) :
    x.same z = true := by
  rcases same_iff.1 hxy with rfl | ⟨hx, hy⟩
  · exact hyz
  · rcases same_iff.1 hyz with rfl | ⟨_, hz⟩
    · exact same_iff.2 (.inr ⟨hx, hy⟩)
    · exact same_iff.2 (.inr ⟨hx, hz⟩)

/-! ## Arithmetic, each result rounded once -/

/-- Multiplication by a positive number; `none` when the product is too large. -/
def times? (x factor : Binary64) : Option Binary64 :=
  ofQuotient? x.negative (x.numerator * factor.numerator) (denominator * denominator)

/-- Division by a positive number; the quotient of two finite numbers is taken as zero when its
divisor is zero. -/
def over? (x divisor : Binary64) : Option Binary64 :=
  ofQuotient? x.negative x.numerator divisor.numerator

end Binary64

/-! ## With infinities -/

/-- A floating number of 64 bits, finite or not. -/
inductive Extended where
  | finite (x : Binary64)
  | infinite (negative : Bool)
  | nan
deriving DecidableEq

namespace Extended

/-- The finite number, or the infinity of that sign. -/
def ofFinite? (negative : Bool) : Option Binary64 → Extended
  | some x => .finite x
  | none => .infinite negative

/--
The number rounded to the 32-bit format and taken back into the 64-bit one. What is too large for
32 bits becomes infinite.
-/
def toSingle : Extended → Extended
  | .finite x =>
    let rank := Format.single.rank x.numerator Binary64.denominator
    if rank < Format.single.magnitudes then
      ofFinite? x.negative <|
        Binary64.ofQuotient? x.negative (Format.single.numerator rank)
          (Nat.pow 2 Format.single.granularity)
    else .infinite x.negative
  | x => x

end Extended

end MarketScan.Numeric
