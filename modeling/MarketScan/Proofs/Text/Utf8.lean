import MarketScan.Text.Utf8

/-!
# A text is read back from its bytes

The first byte of a character says how many follow and bounds the second one; each later byte brings
six bits. The bounds on the second byte leave out what a shorter form, a surrogate or a number past the
last character would need, and so let every character through.

* `Utf8.read_encodeChar` — one character is read back, whatever follows
* `Utf8.decode_encode` — so is a text
-/

namespace MarketScan.Text.Utf8

theorem read_none_cons {b : Nat} (hb : b < 256) (rest : List UInt8) :
    read none (UInt8.ofNat b :: rest) = (begin b).1 ++ read (begin b).2 rest := by
  rw [read, UInt8.toNat_ofNat_of_lt' hb]

/-- A later byte within its bounds brings six bits. -/
theorem read_some_cons {count low high bits m : Nat} (hlow : low ≤ 0x80 + m % 64)
    (hhigh : 0x80 + m % 64 ≤ high) (rest : List UInt8) :
    read (some ⟨count, low, high, bits⟩) (UInt8.ofNat (0x80 + m % 64) :: rest) =
      if count ≤ 1 then Char.ofNat (bits * 64 + m % 64) :: read none rest
      else read (some ⟨count - 1, 0x80, 0xBF, bits * 64 + m % 64⟩) rest := by
  have hb : 0x80 + m % 64 < 256 := by omega
  have hbits : (0x80 + m % 64) % 64 = m % 64 := by omega
  rw [read, UInt8.toNat_ofNat_of_lt' hb, if_pos ⟨hlow, hhigh⟩]
  simp only [hbits]

/-! ## First bytes -/

theorem begin_of_start? {b : Nat} {p : Pending} (hb : 0x80 ≤ b) (h : start? b = some p) :
    begin b = ([], some p) := by
  rw [begin, if_neg (by omega), h]

theorem start?_two {n : Nat} (hlow : 0x80 ≤ n) (hhigh : n < 0x800) :
    start? (0xC0 + n / 64) = some ⟨1, 0x80, 0xBF, n / 64⟩ := by
  rw [start?, if_pos (by omega), Nat.add_sub_cancel_left]

/-- Characters of three bytes: not those of two, and no surrogates. -/
theorem exists_start?_three {n : Nat} (hlow : 0x800 ≤ n) (hhigh : n < 0x10000)
    (hsurrogate : n < 0xD800 ∨ 0xDFFF < n) :
    ∃ low high, start? (0xE0 + n / 4096) = some ⟨2, low, high, n / 4096⟩ ∧
      low ≤ 0x80 + n / 64 % 64 ∧ 0x80 + n / 64 % 64 ≤ high := by
  rw [start?, if_neg (by omega)]
  by_cases hfirst : n / 4096 = 0
  · exact ⟨0xA0, 0xBF, by rw [if_pos (by omega), hfirst], by omega, by omega⟩
  · rw [if_neg (by omega)]
    by_cases hmiddle : n / 4096 = 0xD
    · exact ⟨0x80, 0x9F, by rw [if_pos (by omega), hmiddle], by omega, by omega⟩
    · rw [if_neg (by omega), if_pos (by omega), Nat.add_sub_cancel_left]
      exact ⟨0x80, 0xBF, rfl, by omega, by omega⟩

/-- Characters of four bytes: not those of three, and none past the last one. -/
theorem exists_start?_four {n : Nat} (hlow : 0x10000 ≤ n) (hhigh : n < 0x110000) :
    ∃ low high, start? (0xF0 + n / 262144) = some ⟨3, low, high, n / 262144⟩ ∧
      low ≤ 0x80 + n / 4096 % 64 ∧ 0x80 + n / 4096 % 64 ≤ high := by
  rw [start?, if_neg (by omega), if_neg (by omega), if_neg (by omega), if_neg (by omega)]
  by_cases hfirst : n / 262144 = 0
  · exact ⟨0x90, 0xBF, by rw [if_pos (by omega), hfirst], by omega, by omega⟩
  · rw [if_neg (by omega)]
    by_cases hlast : n / 262144 = 4
    · exact ⟨0x80, 0x8F, by rw [if_pos (by omega), hlast], by omega, by omega⟩
    · rw [if_neg (by omega), if_pos (by omega), Nat.add_sub_cancel_left]
      exact ⟨0x80, 0xBF, rfl, by omega, by omega⟩

/-! ## Characters by the number of their bytes -/

variable {n : Nat}

theorem read_one (h : n < 0x80) (rest : List UInt8) :
    read none (UInt8.ofNat n :: rest) = Char.ofNat n :: read none rest := by
  rw [read_none_cons (by omega), begin, if_pos h]
  rfl

theorem read_two (hlow : 0x80 ≤ n) (hhigh : n < 0x800) (rest : List UInt8) :
    read none (UInt8.ofNat (0xC0 + n / 64) :: UInt8.ofNat (0x80 + n % 64) :: rest) =
      Char.ofNat n :: read none rest := by
  have hbits : n / 64 * 64 + n % 64 = n := by omega
  rw [read_none_cons (by omega), begin_of_start? (by omega) (start?_two hlow hhigh)]
  show read (some _) _ = _
  rw [read_some_cons (by omega) (by omega), if_pos (Nat.le_refl 1), hbits]

theorem read_three (hlow : 0x800 ≤ n) (hhigh : n < 0x10000) (hsurrogate : n < 0xD800 ∨ 0xDFFF < n)
    (rest : List UInt8) :
    read none (UInt8.ofNat (0xE0 + n / 4096) :: UInt8.ofNat (0x80 + n / 64 % 64) ::
      UInt8.ofNat (0x80 + n % 64) :: rest) = Char.ofNat n :: read none rest := by
  have hbits : (n / 4096 * 64 + n / 64 % 64) * 64 + n % 64 = n := by omega
  obtain ⟨low, high, hstart, hl, hh⟩ := exists_start?_three hlow hhigh hsurrogate
  rw [read_none_cons (by omega), begin_of_start? (by omega) hstart]
  show read (some _) _ = _
  rw [read_some_cons hl hh, if_neg (by decide), read_some_cons (by omega) (by omega),
    if_pos (Nat.le_refl 1), hbits]

theorem read_four (hlow : 0x10000 ≤ n) (hhigh : n < 0x110000) (rest : List UInt8) :
    read none (UInt8.ofNat (0xF0 + n / 262144) :: UInt8.ofNat (0x80 + n / 4096 % 64) ::
      UInt8.ofNat (0x80 + n / 64 % 64) :: UInt8.ofNat (0x80 + n % 64) :: rest) =
      Char.ofNat n :: read none rest := by
  have hbits : ((n / 262144 * 64 + n / 4096 % 64) * 64 + n / 64 % 64) * 64 + n % 64 = n := by omega
  obtain ⟨low, high, hstart, hl, hh⟩ := exists_start?_four hlow hhigh
  rw [read_none_cons (by omega), begin_of_start? (by omega) hstart]
  show read (some _) _ = _
  rw [read_some_cons hl hh, if_neg (by decide), read_some_cons (by omega) (by omega),
    if_neg (by decide), read_some_cons (by omega) (by omega), if_pos (Nat.le_refl 1), hbits]

/-! ## Texts -/

/-- **A character is read back from its bytes.** -/
theorem read_encodeChar (c : Char) (rest : List UInt8) :
    read none (encodeChar c ++ rest) = c :: read none rest := by
  have hvalid : c.toNat < 0xD800 ∨ 0xDFFF < c.toNat ∧ c.toNat < 0x110000 := c.valid
  suffices h : read none (encodeChar c ++ rest) = Char.ofNat c.toNat :: read none rest by
    rwa [Char.ofNat_toNat] at h
  unfold encodeChar
  -- the divisors as numbers, for `omega` and the lemmas for each length
  simp only [show Nat.pow 2 0 = 1 from rfl, show Nat.pow 2 6 = 64 from rfl,
    show Nat.pow 2 12 = 4096 from rfl, Nat.div_one]
  split
  · next hone => exact read_one hone rest
  · next hone =>
    split
    · next htwo => exact read_two (by omega) htwo rest
    · next htwo =>
      split
      · next hthree => exact read_three (by omega) hthree (by omega) rest
      · next hthree => exact read_four (by omega) (by omega) rest

/-- **A text is read back from its bytes.** -/
theorem decode_encode (s : List Char) : decode (encode s) = s := by
  show read none (s.flatMap encodeChar) = s
  induction s with
  | nil => rfl
  | cons c s ih => rw [List.flatMap_cons, read_encodeChar, ih]

end MarketScan.Text.Utf8
