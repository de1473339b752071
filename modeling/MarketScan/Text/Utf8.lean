/-!
# Reading UTF-8 with replacement

Bytes are read as UTF-8. Where they are not UTF-8, each maximal part that begins some character but
does not end it, or else the single byte, becomes U+FFFD.

* `Utf8.encode` — the bytes of a text
* `Utf8.decode` — the text of any bytes
-/

namespace MarketScan.Text.Utf8

/-- The bytes of one character. -/
def encodeChar (c : Char) : List UInt8 :=
  let n := c.toNat
  let tail (shift : Nat) : UInt8 := UInt8.ofNat (0x80 + n / Nat.pow 2 shift % 64)
  if n < 0x80 then [UInt8.ofNat n]
  else if n < 0x800 then [UInt8.ofNat (0xC0 + n / 64), tail 0]
  else if n < 0x10000 then [UInt8.ofNat (0xE0 + n / 4096), tail 6, tail 0]
  else [UInt8.ofNat (0xF0 + n / 262144), tail 12, tail 6, tail 0]

/-- The bytes of a text. -/
def encode (s : List Char) : List UInt8 := s.flatMap encodeChar

/-- The character that stands for bytes that are not UTF-8. -/
def replacement : Char := '\uFFFD'

/-- What the bytes of a character still to come must be: how many there are, the bounds of the next
one, and the bits read so far. -/
structure Pending where
  count : Nat
  low : Nat
  high : Nat
  bits : Nat

/-- What the first byte of a character of several bytes asks for. -/
def start? (b : Nat) : Option Pending :=
  if 0xC2 ≤ b ∧ b ≤ 0xDF then some ⟨1, 0x80, 0xBF, b - 0xC0⟩
  else if b = 0xE0 then some ⟨2, 0xA0, 0xBF, 0⟩
  else if b = 0xED then some ⟨2, 0x80, 0x9F, 0xD⟩
  else if 0xE1 ≤ b ∧ b ≤ 0xEF then some ⟨2, 0x80, 0xBF, b - 0xE0⟩
  else if b = 0xF0 then some ⟨3, 0x90, 0xBF, 0⟩
  else if b = 0xF4 then some ⟨3, 0x80, 0x8F, 4⟩
  else if 0xF1 ≤ b ∧ b ≤ 0xF3 then some ⟨3, 0x80, 0xBF, b - 0xF0⟩
  else none

/-- A byte where a character begins: the text it completes, and what it asks for. -/
def begin (b : Nat) : List Char × Option Pending :=
  if b < 0x80 then ([Char.ofNat b], none)
  else match start? b with
    | some p => ([], some p)
    | none => ([replacement], none)

/-- Reads bytes after those that `pending` has taken in. -/
def read : Option Pending → List UInt8 → List Char
  | none, [] => []
  | some _, [] => [replacement]
  | none, b :: rest =>
    let (text, next) := begin b.toNat
    text ++ read next rest
  | some p, b :: rest =>
    if p.low ≤ b.toNat ∧ b.toNat ≤ p.high then
      let bits := p.bits * 64 + b.toNat % 64
      if p.count ≤ 1 then Char.ofNat bits :: read none rest
      else read (some ⟨p.count - 1, 0x80, 0xBF, bits⟩) rest
    else
      let (text, next) := begin b.toNat
      replacement :: text ++ read next rest

/-- The text of any bytes. -/
def decode (bytes : List UInt8) : List Char := read none bytes

end MarketScan.Text.Utf8
