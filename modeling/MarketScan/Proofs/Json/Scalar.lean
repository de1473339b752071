import MarketScan.Json.Parser
import MarketScan.Json.Printer

/-!
# Reading strings and whole numbers back

A string is written character by character and read character by character, so that its round trip
is that of one character. A whole number is read by its digits up to the first character that is
none, and so must not be followed by anything that goes on with it (`Grammar.Delimited`).

* `Grammar.escapeChar_cases` — the three ways in which a character is written
* `Grammar.string_flatMap_escapeChar` — a string is read back
* `Grammar.number_run` — digits at the front of a number are taken as they are
* `Grammar.number_digits` — digits are read as the number they write
-/

namespace MarketScan.Json.Grammar

/-! ## Strings -/

theorem hexQuad?_digitChar : ∀ n < 32,
    hexQuad? '0' '0' (Nat.digitChar (n / 16)) (Nat.digitChar (n % 16)) = some n := by
  decide

/-- **A character inside a string stands for itself, after a backslash, or by its number.** -/
theorem escapeChar_cases (c : Char) :
    (escapeChar c = [c] ∧ c ≠ '"' ∧ c ≠ '\\' ∧ ¬c.toNat < 32) ∨
    (∃ d, escapeChar c = ['\\', d] ∧ shortEscape? d = some c) ∨
    ∃ a b, escapeChar c = ['\\', 'u', '0', '0', a, b] ∧ hexQuad? '0' '0' a b = some c.toNat ∧
      c.toNat < 32 := by
  unfold escapeChar
  split
  case h_8 c hquote hback _ _ _ _ _ =>
    split
    · next hc => exact .inr (.inr ⟨_, _, rfl, hexQuad?_digitChar _ hc, hc⟩)
    · next hc => exact .inl ⟨rfl, hquote, hback, hc⟩
  all_goals exact .inr (.inl ⟨_, rfl, rfl⟩)

theorem stringTail_plain {c : Char} (hquote : c ≠ '"') (hback : c ≠ '\\') (hc : ¬c.toNat < 32)
    (s : List Char) :
    stringTail (c :: s) = (stringTail s).map fun (cs, rest) => (c :: cs, rest) := by
  rw [stringTail, if_neg hback, if_neg hc]
  · exact hquote
  all_goals intros; contradiction

theorem stringTail_short {c e : Char} (h : shortEscape? c = some e) (s : List Char) :
    stringTail ('\\' :: c :: s) = (stringTail s).map fun (cs, rest) => (e :: cs, rest) := by
  -- no short escape is written with the letter that numbers are written with
  have hu : c ≠ 'u' := by
    rintro rfl
    cases h
  rw [stringTail, h]
  all_goals intros; contradiction

theorem stringTail_unicode {a b : Char} {n : Nat} (h : hexQuad? '0' '0' a b = some n)
    (hn : n < 32) (s : List Char) :
    stringTail ('\\' :: 'u' :: '0' :: '0' :: a :: b :: s) =
      (stringTail s).map fun (cs, rest) => (Char.ofNat n :: cs, rest) := by
  rw [stringTail, h]
  have hlow : isLowSurrogate n = false := by simp [isLowSurrogate]; omega
  have hhigh : isHighSurrogate n = false := by simp [isHighSurrogate]; omega
  simp only [hlow, hhigh, Bool.false_eq_true, if_false]

/-- Reading undoes the writing of one character. -/
theorem stringTail_escapeChar (c : Char) (s : List Char) :
    stringTail (escapeChar c ++ s) = (stringTail s).map fun (cs, rest) => (c :: cs, rest) := by
  rcases escapeChar_cases c with ⟨he, hquote, hback, hc⟩ | ⟨d, he, hd⟩ | ⟨a, b, he, hab, hc⟩
  · rw [he]
    exact stringTail_plain hquote hback hc s
  · rw [he]
    exact stringTail_short hd s
  · rw [he]
    have h := stringTail_unicode hab hc s
    rw [Char.ofNat_toNat] at h
    exact h

theorem stringTail_flatMap_escapeChar (rest : List Char) : ∀ cs : List Char,
    stringTail (cs.flatMap escapeChar ++ '"' :: rest) = .ok (cs, rest)
  | [] => rfl
  | c :: cs => by
    rw [List.flatMap_cons, List.append_assoc, stringTail_escapeChar,
      stringTail_flatMap_escapeChar rest cs]
    rfl

/-- **A string is read back from its text.** -/
theorem string_flatMap_escapeChar (s : String) (rest : List Char) :
    string (s.toList.flatMap escapeChar ++ '"' :: rest) = .ok (s, rest) := by
  rw [string, stringTail_flatMap_escapeChar]
  show Except.ok (String.ofList s.toList, rest) = _
  rw [String.ofList_toList]

/-! ## Whole numbers -/

/-- What follows does not go on with a number. -/
def Delimited (rest : List Char) : Prop :=
  ∀ c ∈ rest.head?, c.isDigit = false ∧ c ≠ '.' ∧ c ≠ 'e' ∧ c ≠ 'E'

theorem isDigit_of_mem_digits {n : Nat} {c : Char} (h : c ∈ Numeric.digits n) : c.isDigit = true :=
  Nat.isDigit_of_mem_toDigits (by decide) (by decide) h

/-- Only zero is written with a zero in front. -/
theorem eq_nil_of_digits_eq_zero_cons (n : Nat) : ∀ {t : List Char},
    Numeric.digits n = '0' :: t → t = [] := by
  induction n using Nat.strongRecOn with
  | _ n ih =>
    intro t h
    rw [Numeric.digits, Nat.toDigits_eq_if (by decide)] at h
    split at h
    · exact (List.cons.inj h).2.symm
    · next hn =>
      exfalso
      cases hd : Nat.toDigits 10 (n / 10) with
      | nil => exact Nat.toDigits_ne_nil hd
      | cons c t' =>
        rw [hd, List.cons_append] at h
        obtain ⟨rfl, -⟩ := List.cons.inj h
        have ht' : t' = [] := ih (n / 10) (by omega) hd
        have hzero : Nat.ofDigitChars 10 (Nat.toDigits 10 (n / 10)) 0 = 0 := by rw [hd, ht']; rfl
        rw [Nat.ofDigitChars_ten_toDigits] at hzero
        omega

theorem le_ofDigitChars : ∀ (cs : List Char) (n : Nat), n ≤ Nat.ofDigitChars 10 cs n
  | [], _ => Nat.le_of_eq Nat.ofDigitChars_nil.symm
  | c :: cs, n => by
    have h := le_ofDigitChars cs (10 * n + (c.toNat - '0'.toNat))
    rw [Nat.ofDigitChars_cons]
    omega

/-- All digits are taken in when the number they make is within the bound. -/
theorem gather_eq {bound : Nat} : ∀ (cs : List Char) (n : Nat), Nat.ofDigitChars 10 cs n ≤ bound →
    gather bound n cs = (Nat.ofDigitChars 10 cs n, [])
  | [], _, _ => by rw [gather, Nat.ofDigitChars_nil]
  | c :: cs, n, h => by
    rw [Nat.ofDigitChars_cons] at h ⊢
    have hnext := le_ofDigitChars cs (10 * n + (c.toNat - '0'.toNat))
    rw [gather, if_pos (by omega), gather_eq cs _ h]

theorem gather_digits {bound n : Nat} (h : n ≤ bound) :
    gather bound 0 (Numeric.digits n) = (n, []) := by
  have hvalue : Nat.ofDigitChars 10 (Numeric.digits n) 0 = n := Nat.ofDigitChars_ten_toDigits
  rw [gather_eq _ _ (by omega), hvalue]

/-- A number is never written without digits. -/
theorem exists_digits_eq_cons (n : Nat) :
    ∃ c t, Numeric.digits n = c :: t ∧ c.isDigit = true := by
  cases hd : Numeric.digits n with
  | nil => exact absurd hd Nat.toDigits_ne_nil
  | cons c t =>
    have hmem : c ∈ Numeric.digits n := hd ▸ List.mem_cons_self
    exact ⟨c, t, rfl, isDigit_of_mem_digits hmem⟩

theorem hasLeadingZero_iff {s : List Char} :
    hasLeadingZero s = true ↔ ∃ c t, s = '0' :: c :: t ∧ c.isDigit = true := by
  constructor
  · intro h
    unfold hasLeadingZero at h
    split at h
    · exact ⟨_, _, rfl, h⟩
    · cases h
  · rintro ⟨c, t, rfl, hc⟩
    exact hc

/-- No digit follows a zero in front if the zero stands alone. -/
theorem hasLeadingZero_append {digits rest : List Char} (hne : digits ≠ [])
    (hzero : ∀ t, digits = '0' :: t → t = []) (hrest : ∀ c ∈ rest.head?, c.isDigit = false) :
    hasLeadingZero (digits ++ rest) = false := by
  rw [Bool.eq_false_iff]
  intro h
  obtain ⟨c, s, heq, hc⟩ := hasLeadingZero_iff.mp h
  obtain ⟨d, t, rfl⟩ := List.exists_cons_of_ne_nil hne
  rw [List.cons_append] at heq
  obtain ⟨rfl, ht⟩ := List.cons.inj heq
  rw [hzero t rfl, List.nil_append] at ht
  rw [hrest c (ht ▸ rfl)] at hc
  cases hc

section Runs

variable {digits rest : List Char} (hdigits : ∀ c ∈ digits, c.isDigit = true)
  (hrest : ∀ c ∈ rest.head?, c.isDigit = false)
include hdigits hrest

/-- A run of digits ends before the first character that is none. -/
theorem takeWhile_run : (digits ++ rest).takeWhile Char.isDigit = digits := by
  rw [List.takeWhile_append_of_pos hdigits]
  cases rest with
  | nil => simp
  | cons c rest => simp [hrest c rfl]

theorem dropWhile_run : (digits ++ rest).dropWhile Char.isDigit = rest := by
  rw [List.dropWhile_append_of_pos hdigits]
  cases rest with
  | nil => rfl
  | cons c rest => simp [hrest c rfl]

theorem withDigits_run {α : Type} (f : List Char → List Char → Except Refusal α) (hne : digits ≠ []) :
    withDigits f (digits ++ rest) = f digits rest := by
  have htake := takeWhile_run hdigits hrest
  have hdrop := dropWhile_run hdigits hrest
  obtain ⟨c, t, rfl⟩ := List.exists_cons_of_ne_nil hne
  rw [List.cons_append] at htake hdrop ⊢
  rw [withDigits, if_pos (hdigits c List.mem_cons_self), htake, hdrop]

/-- Digits in front of which no further zero stands are taken as they are. -/
theorem number_run (negative : Bool) (hne : digits ≠ []) (hzero : ∀ t, digits = '0' :: t → t = []) :
    number negative (digits ++ rest) = afterWhole negative digits rest := by
  rw [number, hasLeadingZero_append hne hzero hrest, if_neg Bool.false_ne_true,
    withDigits_run hdigits hrest _ hne]

end Runs

/-- **Digits that nothing goes on are read as the number they write.** -/
theorem number_digits {rest : List Char} (h : Delimited rest) (negative : Bool) {n : Nat}
    (hn : n ≤ maxCoefficient) :
    number negative (Numeric.digits n ++ rest) = wholeOrFloat negative n 0 rest := by
  have hdigits : ∀ d ∈ Numeric.digits n, d.isDigit = true := fun d hd => isDigit_of_mem_digits hd
  have hrest : ∀ d ∈ rest.head?, d.isDigit = false := fun d hd => (h d hd).1
  rw [number_run hdigits hrest _ Nat.toDigits_ne_nil fun _ => eq_nil_of_digits_eq_zero_cons n,
    afterWhole, gather_digits hn]
  cases rest with
  | nil => rfl
  | cons d rest =>
    obtain ⟨-, hpoint, he, hE⟩ := h d rfl
    dsimp only
    split
    · next heq => exact absurd (List.cons.inj heq).1 hpoint
    · next heq => exact absurd (List.cons.inj heq).1 he
    · next heq => exact absurd (List.cons.inj heq).1 hE
    · rfl

theorem ofInt?_value (n : Whole) : Whole.ofInt? n.value = some n := by
  rw [Whole.ofInt?, dif_pos ⟨n.lower, n.upper⟩]

/-- A negative whole number is read back from its digits after the sign. -/
theorem number_natAbs {n : Whole} (hneg : n.value < 0) {rest : List Char} (h : Delimited rest) :
    number true (Numeric.digits n.value.natAbs ++ rest) = .ok (.number (.whole n), rest) := by
  have hlow := n.lower
  have hvalue : -(n.value.natAbs : Int) = n.value := by omega
  rw [number_digits h _ (by rw [maxCoefficient]; omega), wholeOrFloat]
  simp only [if_true, hvalue, ofInt?_value]
  rw [if_pos ⟨trivial, fun _ => by omega⟩]

/-- Any other is read back from its digits. -/
theorem number_toNat {n : Whole} (hneg : ¬n.value < 0) {rest : List Char} (h : Delimited rest) :
    number false (Numeric.digits n.value.toNat ++ rest) = .ok (.number (.whole n), rest) := by
  have hhigh := n.upper
  have hvalue : (n.value.toNat : Int) = n.value := by omega
  rw [number_digits h _ (by rw [maxCoefficient]; omega), wholeOrFloat]
  simp only [Bool.false_eq_true, if_false, hvalue, ofInt?_value]
  rw [if_pos ⟨trivial, nofun⟩]

end MarketScan.Json.Grammar
