import MarketScan.Numeric.Layout
import MarketScan.Proofs.Numeric.Interval

/-!
# Numerals tell numbers apart

In whatever layout a floating number is written, with a plain point or with an exponent, its numeral
stands for the value of the shortest decimal. So two numbers of one text have one shortest value, and
with the sign in front are the same.

* `numeralValue` — the number that a numeral without sign stands for
* `Layout.numeralValue_plain`, `Layout.numeralValue_scientific` — the two layouts
* `Layout.write_injective` — different numbers have different texts
* `Layout.mem_write`, `Layout.exists_mark_mem_write` — the characters of a text
-/

namespace MarketScan.Numeric

/-! ## Reading a numeral -/

/-- What stands before a mark and what behind it. -/
def cut (mark : Char) (s : List Char) : List Char × List Char :=
  (s.takeWhile (· ≠ mark), (s.dropWhile (· ≠ mark)).drop 1)

/-- A whole number whose sign is always written. -/
def signed (s : List Char) : Int :=
  if s.head? = some '-' then -(Nat.ofDigitChars 10 (s.drop 1) 0 : ℕ)
  else (Nat.ofDigitChars 10 (s.drop 1) 0 : ℕ)

/-- The number that a numeral without sign stands for: digits, of which some may follow a point, and
an exponent, if there is one. -/
def numeralValue (s : List Char) : ℚ :=
  let mantissa := cut '.' (cut 'e' s).1
  Nat.ofDigitChars 10 (mantissa.1 ++ mantissa.2) 0 *
    10 ^ (signed (cut 'e' s).2 - mantissa.2.length)

section Cut

variable {mark : Char} {s : List Char} (h : mark ∉ s)
include h

theorem cut_append (t : List Char) : cut mark (s ++ mark :: t) = (s, t) := by
  have hall : ∀ c ∈ s, decide (c ≠ mark) = true :=
    fun c hc => decide_eq_true fun heq => h (heq ▸ hc)
  rw [cut, List.takeWhile_append_of_pos hall, List.dropWhile_append_of_pos hall]
  simp

theorem cut_of_not_mem : cut mark s = (s, []) := by
  have hall : ∀ c ∈ s, decide (c ≠ mark) = true :=
    fun c hc => decide_eq_true fun heq => h (heq ▸ hc)
  rw [cut, List.takeWhile_eq_self_iff.mpr hall, List.dropWhile_eq_nil_iff.mpr hall]
  rfl

end Cut

/-! ## Digits -/

/-- Zeros behind the digits of a number are factors of ten. -/
theorem ofDigitChars_zeros_behind (n k : Nat) :
    Nat.ofDigitChars 10 (digits n ++ List.replicate k '0') 0 = 10 ^ k * n := by
  rw [Nat.ofDigitChars_append, Nat.ofDigitChars_replicate_zero, digits, Nat.ofDigitChars_ten_toDigits]

/-- Zeros before them change nothing. -/
theorem ofDigitChars_zeros_before (n k : Nat) :
    Nat.ofDigitChars 10 (List.replicate k '0' ++ digits n) 0 = n := by
  rw [Nat.ofDigitChars_append, Nat.ofDigitChars_replicate_zero, digits, Nat.mul_zero,
    Nat.ofDigitChars_ten_toDigits]

theorem signed_digits (n : Int) :
    signed ((if n < 0 then '-' else '+') :: digits n.natAbs) = n := by
  by_cases hn : n < 0
  · rw [if_pos hn, signed, if_pos (by rfl), List.drop_one, List.tail_cons, digits,
      Nat.ofDigitChars_ten_toDigits]
    omega
  · rw [if_neg hn, signed, if_neg (by simp), List.drop_one, List.tail_cons, digits,
      Nat.ofDigitChars_ten_toDigits]
    omega

/-! ## The layouts -/

namespace Layout

theorem isDigit_zeros (k : Nat) : ∀ c ∈ List.replicate k '0', c.isDigit = true := by
  intro c hc
  rw [List.eq_of_mem_replicate hc]
  rfl

theorem isDigit_digits (n : Nat) : ∀ c ∈ digits n, c.isDigit = true :=
  fun _ hc => Nat.isDigit_of_mem_toDigits (by decide) (by decide) hc

/-- Digits on both sides of a point that stand for a decimal. A decimal that is not divided by a power of
ten has its factors of ten and one more as zeros behind its digits. -/
structure IsPointed (d : Decimal) (whole fraction : List Char) : Prop where
  fraction_ne_nil : fraction ≠ []
  isDigit : ∀ c ∈ whole ++ fraction, c.isDigit = true
  coefficient : Nat.ofDigitChars 10 (whole ++ fraction) 0 =
    10 ^ (d.exponent + 1).toNat * d.coefficient
  length_fraction : (fraction.length : ℤ) = (d.exponent + 1).toNat - d.exponent
  whole_cases : whole = ['0'] ∨ (whole ≠ [] ∧ whole <+: digits d.coefficient) ∨
    whole = digits d.coefficient ++ List.replicate d.exponent.toNat '0'

section Decimal

variable (d : Decimal)

/-- Zeros are set behind the digits, the last one behind the point. -/
theorem isPointed_zeros_behind (h : 0 ≤ d.exponent) :
    IsPointed d (digits d.coefficient ++ List.replicate d.exponent.toNat '0') ['0'] := by
  have hzeros : digits d.coefficient ++ List.replicate d.exponent.toNat '0' ++ ['0'] =
      digits d.coefficient ++ List.replicate (d.exponent + 1).toNat '0' := by
    have hcount : (d.exponent + 1).toNat = d.exponent.toNat + 1 := by omega
    rw [List.append_assoc, hcount, List.replicate_succ']
  refine ⟨List.cons_ne_nil _ _, ?_, ?_, ?_, .inr (.inr rfl)⟩
  · rw [hzeros]
    exact List.forall_mem_append.mpr ⟨isDigit_digits _, isDigit_zeros _⟩
  · rw [hzeros, ofDigitChars_zeros_behind]
  · rw [List.length_singleton]
    omega

theorem leading_eq : d.leading = d.exponent + (digits d.coefficient).length - 1 := rfl

/-- The point is set among the digits. -/
theorem isPointed_among (h : ¬0 ≤ d.exponent) (hleading : 0 ≤ d.leading) :
    IsPointed d ((digits d.coefficient).take (d.leading.toNat + 1))
      ((digits d.coefficient).drop (d.leading.toNat + 1)) := by
  have hlast := leading_eq d
  have hexponent : (d.exponent + 1).toNat = 0 := by omega
  have hlength : ((digits d.coefficient).drop (d.leading.toNat + 1)).length = -d.exponent := by
    rw [List.length_drop]
    omega
  refine ⟨?_, ?_, ?_, by omega, .inr (.inl ⟨?_, List.take_prefix _ _⟩)⟩
  · rw [← List.length_pos_iff]
    omega
  · rw [List.take_append_drop]
    exact isDigit_digits _
  · rw [List.take_append_drop, digits, Nat.ofDigitChars_ten_toDigits, hexponent, pow_zero, Nat.one_mul]
  · rw [Ne, List.take_eq_nil_iff]
    exact not_or_intro (Nat.succ_ne_zero _) Nat.toDigits_ne_nil

/-- Zeros are set before the digits, the first one before the point. -/
theorem isPointed_zeros_before (hleading : ¬0 ≤ d.leading) :
    IsPointed d ['0'] (List.replicate (-d.leading - 1).toNat '0' ++ digits d.coefficient) := by
  have hzeros : ['0'] ++ (List.replicate (-d.leading - 1).toNat '0' ++ digits d.coefficient) =
      List.replicate ((-d.leading - 1).toNat + 1) '0' ++ digits d.coefficient := by
    rw [List.replicate_succ]
    rfl
  have hlast := leading_eq d
  have hlength : 0 < (digits d.coefficient).length := Nat.length_toDigits_pos
  have hexponent : (d.exponent + 1).toNat = 0 := by omega
  refine ⟨List.append_ne_nil_of_right_ne_nil _ Nat.toDigits_ne_nil, ?_, ?_, ?_, .inl rfl⟩
  · rw [hzeros]
    exact List.forall_mem_append.mpr ⟨isDigit_zeros _, isDigit_digits _⟩
  · rw [hzeros, ofDigitChars_zeros_before, hexponent, pow_zero, Nat.one_mul]
  · rw [List.length_append, List.length_replicate]
    omega

end Decimal

namespace IsPointed

variable {d : Decimal} {whole fraction : List Char} (h : IsPointed d whole fraction)
include h

theorem whole_ne_nil : whole ≠ [] := by
  rcases h.whole_cases with hwhole | hwhole | hwhole
  · rw [hwhole]
    exact List.cons_ne_nil _ _
  · exact hwhole.1
  · rw [hwhole]
    exact List.append_ne_nil_of_left_ne_nil Nat.toDigits_ne_nil _

theorem value_eq :
    (Nat.ofDigitChars 10 (whole ++ fraction) 0 : ℚ) * 10 ^ (-(fraction.length : ℤ)) = d.value := by
  rw [h.coefficient, h.length_fraction, Decimal.value]
  have hsplit : (10 : ℚ) ^ d.exponent =
      10 ^ (d.exponent + 1).toNat * 10 ^ (-((d.exponent + 1).toNat - d.exponent)) := by
    rw [← zpow_natCast, ← zpow_add₀ (by norm_num)]
    congr 1
    omega
  rw [hsplit]
  push_cast
  ring

end IsPointed

section Pointed

variable {L : Layout} (hL : L.pointed = true) (d : Decimal)
include hL

/-- In a layout that ends whole numbers in a point and a zero, plain numerals have a point. -/
theorem exists_plain_eq : ∃ whole fraction, L.plain d = whole ++ '.' :: fraction ∧
    IsPointed d whole fraction := by
  simp only [plain, wholeMark, hL, if_true]
  split
  · next hexponent => exact ⟨_, _, rfl, isPointed_zeros_behind d hexponent⟩
  split
  · next hexponent hleading => exact ⟨_, _, rfl, isPointed_among d hexponent hleading⟩
  · next hexponent hleading => exact ⟨_, _, List.append_assoc .., isPointed_zeros_before d hleading⟩

theorem numeralValue_plain : numeralValue (L.plain d) = d.value := by
  obtain ⟨whole, fraction, htext, hpointed⟩ := exists_plain_eq hL d
  have hexponent : 'e' ∉ whole ++ '.' :: fraction := by
    intro h
    have hmem : 'e' ∈ whole ++ fraction := by simpa using h
    cases hpointed.isDigit _ hmem
  have hpoint : '.' ∉ whole := by
    intro h
    cases hpointed.isDigit _ (List.mem_append_left _ h)
  rw [htext, ← hpointed.value_eq, numeralValue, cut_of_not_mem hexponent, cut_append hpoint]
  simp [signed]

end Pointed

/-- A numeral with an exponent has one digit before the point, and no point where there is no other
digit. -/
theorem exists_scientific_eq (d : Decimal) :
    ∃ c t mantissa, digits d.coefficient = c :: t ∧ cut '.' (c :: mantissa) = ([c], t) ∧
      (∀ c' ∈ c :: mantissa, c'.isDigit = true ∨ c' = '.') ∧
      scientific d = c :: mantissa ++ 'e' :: (if d.leading < 0 then '-' else '+') ::
        digits d.leading.natAbs := by
  have hdigits := isDigit_digits d.coefficient
  obtain ⟨c, t, heq⟩ : ∃ c t, digits d.coefficient = c :: t :=
    List.exists_cons_of_ne_nil Nat.toDigits_ne_nil
  rw [heq] at hdigits
  have hpoint : '.' ∉ [c] := by
    intro h
    have hc := hdigits c List.mem_cons_self
    rw [← List.mem_singleton.mp h] at hc
    cases hc
  unfold scientific
  rw [heq]
  cases t with
  | nil =>
    exact ⟨c, [], [], rfl, cut_of_not_mem hpoint, fun c' hc' => .inl (hdigits c' hc'), rfl⟩
  | cons c₂ t =>
    refine ⟨c, c₂ :: t, '.' :: c₂ :: t, rfl, cut_append hpoint _, ?_, rfl⟩
    intro c' hc'
    rcases List.mem_cons.mp hc' with rfl | hc'
    · exact .inl (hdigits _ List.mem_cons_self)
    rcases List.mem_cons.mp hc' with rfl | hc'
    · exact .inr rfl
    · exact .inl (hdigits _ (List.mem_cons_of_mem _ hc'))

theorem numeralValue_scientific (d : Decimal) : numeralValue (scientific d) = d.value := by
  obtain ⟨c, t, mantissa, hdigits, hcut, hmantissa, htext⟩ := exists_scientific_eq d
  have hexponent : 'e' ∉ c :: mantissa := by
    intro h
    rcases hmantissa _ h with h | h <;> cases h
  have hlength : d.leading - (t.length : ℤ) = d.exponent := by
    rw [Decimal.leading, hdigits, List.length_cons]
    omega
  have hcoefficient : Nat.ofDigitChars 10 ([c] ++ t) 0 = d.coefficient := by
    rw [List.singleton_append, ← hdigits, digits, Nat.ofDigitChars_ten_toDigits]
  rw [htext, numeralValue, cut_append hexponent, hcut, signed_digits, hlength, hcoefficient,
    Decimal.value]

/-! ## Texts -/

/-- The text of a floating number without its sign. -/
structure IsNumeral (s : List Char) : Prop where
  opens : ∃ c t, s = c :: t ∧ c.isDigit = true
  mem : ∀ c ∈ s, c.isDigit = true ∨ c ∈ ['.', 'e', '+', '-']
  /-- A whole number has neither. -/
  mark : '.' ∈ s ∨ 'e' ∈ s

theorem isNumeral_scientific (d : Decimal) : IsNumeral (scientific d) := by
  obtain ⟨c, t, mantissa, hdigits, -, hmantissa, htext⟩ := exists_scientific_eq d
  rw [htext]
  refine ⟨⟨c, _, rfl, isDigit_digits d.coefficient c (hdigits ▸ List.mem_cons_self)⟩, ?_, ?_⟩
  · intro c' hc'
    rcases List.mem_append.mp hc' with hc' | hc'
    · exact (hmantissa c' hc').imp_right fun h => by simp [h]
    rcases List.mem_cons.mp hc' with rfl | hc'
    · exact .inr (by decide)
    rcases List.mem_cons.mp hc' with rfl | hc'
    · refine .inr ?_
      split <;> decide
    · exact .inl (isDigit_digits _ c' hc')
  · exact .inr (List.mem_append_right _ List.mem_cons_self)

/-- The numeral of a number without its sign. -/
def body (L : Layout) (x : Binary64) : List Char :=
  if L.positional (x.shortest L.tie).leading then L.plain (x.shortest L.tie)
  else scientific (x.shortest L.tie)

theorem write_eq (L : Layout) (x : Binary64) :
    L.write x = (if x.negative then ['-'] else []) ++ L.body x := rfl

section Texts

variable {L : Layout} (hL : L.pointed = true)
include hL

theorem isNumeral_plain (d : Decimal) : IsNumeral (L.plain d) := by
  obtain ⟨whole, fraction, htext, hpointed⟩ := exists_plain_eq hL d
  obtain ⟨c, t, rfl⟩ := List.exists_cons_of_ne_nil hpointed.whole_ne_nil
  have hdigits := hpointed.isDigit
  rw [htext]
  refine ⟨⟨c, _, rfl, hdigits c List.mem_cons_self⟩, ?_, ?_⟩
  · intro c' hc'
    rcases List.mem_append.mp hc' with hc' | hc'
    · exact .inl (hdigits c' (List.mem_append_left _ hc'))
    rcases List.mem_cons.mp hc' with rfl | hc'
    · exact .inr (by decide)
    · exact .inl (hdigits c' (List.mem_append_right _ hc'))
  · exact .inl (List.mem_append_right _ List.mem_cons_self)

theorem isNumeral_body (x : Binary64) : IsNumeral (L.body x) := by
  rw [body]
  split
  · exact isNumeral_plain hL _
  · exact isNumeral_scientific _

theorem numeralValue_body (x : Binary64) : numeralValue (L.body x) = (x.shortest L.tie).value := by
  rw [body]
  split
  · exact numeralValue_plain hL _
  · exact numeralValue_scientific _

/-- The sign is told apart from what it stands before. -/
theorem negative_eq_and_body_eq {x y : Binary64} (h : L.write x = L.write y) :
    x.negative = y.negative ∧ L.body x = L.body y := by
  have hsign (z : Binary64) (t : List Char) : L.body z ≠ '-' :: t := by
    intro heq
    obtain ⟨c, s, hopens, hc⟩ := (isNumeral_body hL z).opens
    rw [heq] at hopens
    cases hopens
    cases hc
  rw [write_eq, write_eq] at h
  cases hx : x.negative <;> cases hy : y.negative <;> rw [hx, hy] at h
  · exact ⟨rfl, h⟩
  · exact absurd h (hsign x _)
  · exact absurd h.symm (hsign y _)
  · exact ⟨rfl, List.tail_eq_of_cons_eq h⟩

/-- **Different numbers have different texts.** -/
theorem write_injective {x y : Binary64} (h : L.write x = L.write y) : x = y := by
  obtain ⟨hnegative, hbody⟩ := negative_eq_and_body_eq hL h
  have hvalue : (x.shortest L.tie).value = (y.shortest L.tie).value := by
    rw [← numeralValue_body hL, ← numeralValue_body hL, hbody]
  have hrank : x.rank = y.rank := Binary64.rank_eq_of_value_shortest hvalue
  cases x
  cases y
  cases hnegative
  cases hrank
  rfl

/-- The characters of a text. -/
theorem mem_write {x : Binary64} {c : Char} (hc : c ∈ L.write x) :
    c.isDigit = true ∨ c ∈ ['.', 'e', '+', '-'] := by
  rw [write_eq] at hc
  rcases List.mem_append.mp hc with hc | hc
  · split at hc
    · rw [List.mem_singleton.mp hc]
      exact .inr (by decide)
    · cases hc
  · exact (isNumeral_body hL x).mem c hc

theorem exists_mark_mem_write (x : Binary64) : '.' ∈ L.write x ∨ 'e' ∈ L.write x := by
  rw [write_eq]
  exact (isNumeral_body hL x).mark.imp (List.mem_append_right _) (List.mem_append_right _)

end Texts

end Layout

end MarketScan.Numeric
