import MarketScan.Toml.Quoted

/-!
# Reading strings back

Any text can stand between quotation marks. A mark, a backslash and the characters that may not stand
for themselves are escaped, and reading takes the escapes away, one character after the other.

* `Quoted.write` — a string with its quotation marks
* `Quoted.walk_escapeChar` — one character
* `Quoted.read?_write` — a string
-/

namespace MarketScan.Toml.Quoted

/-- Strings between quotation marks that stay on their line. -/
def basic : Kind := ⟨'"', true, false⟩

/-- A character inside a string. -/
def escapeChar (c : Char) : List Char :=
  if c = '"' ∨ c = '\\' then ['\\', c]
  else if isText c then [c]
  else ['\\', 'u', '0', '0', Nat.digitChar (c.toNat / 16), Nat.digitChar (c.toNat % 16)]

/-- A string with its quotation marks. -/
def write (s : String) : List Char := '"' :: s.toList.flatMap escapeChar ++ ['"']

theorem walk_go {K : Kind} {m next : Mode} {c : Char} {text : List Char}
    (h : step K m c = .go text next) (s : List Char) :
    walk K m (c :: s) = (walk K next s).map fun (cs, rest) => (text ++ cs, rest) := by
  rw [walk, h]

theorem hexValue?_digitChar : ∀ n < 16, hexValue? (Nat.digitChar n) = some n := by decide

/-- Characters that do not stand for themselves are among the first 128. -/
theorem lt_of_not_isText {c : Char} (h : ¬isText c = true) : c.toNat < 128 := by
  simp only [isText, Bool.or_eq_true, Bool.and_eq_true, decide_eq_true_eq] at h
  omega

/-- An escape by the number of a character stands for the character. -/
theorem walk_number {c : Char} (h : c.toNat < 128) (s : List Char) :
    walk basic .plain ('\\' :: 'u' :: '0' :: '0' :: Nat.digitChar (c.toNat / 16) ::
      Nat.digitChar (c.toNat % 16) :: s) =
    (walk basic .plain s).map fun (cs, rest) => (c :: cs, rest) := by
  have hhigh : step basic (.number 2 0) (Nat.digitChar (c.toNat / 16)) =
      .go [] (.number 1 (c.toNat / 16)) := by
    simp [step, stepNumber, hexValue?_digitChar (c.toNat / 16) (by omega)]
  have hlow : step basic (.number 1 (c.toNat / 16)) (Nat.digitChar (c.toNat % 16)) =
      .go [c] .plain := by
    have hvalid : c.toNat.isValidChar := .inl (by omega)
    simp only [step, stepNumber, hexValue?_digitChar (c.toNat % 16) (by omega), Nat.lt_irrefl,
      if_false, Nat.div_add_mod, if_pos hvalid, Char.ofNat_toNat]
  have hback : step basic .plain '\\' = .go [] .escaped := rfl
  have hmark : step basic .escaped 'u' = .go [] (.number 4 0) := rfl
  have hfirst : step basic (.number 4 0) '0' = .go [] (.number 3 0) := rfl
  have hsecond : step basic (.number 3 0) '0' = .go [] (.number 2 0) := rfl
  rw [walk_go hback, walk_go hmark, walk_go hfirst, walk_go hsecond, walk_go hhigh, walk_go hlow]
  cases walk basic .plain s <;> rfl

/-- Reading undoes the writing of one character. -/
theorem walk_escapeChar (c : Char) (s : List Char) :
    walk basic .plain (escapeChar c ++ s) =
      (walk basic .plain s).map fun (cs, rest) => (c :: cs, rest) := by
  unfold escapeChar
  split
  · next h =>
    have hback : step basic .plain '\\' = .go [] .escaped := rfl
    have hescaped : step basic .escaped c = .go [c] .plain := by rcases h with rfl | rfl <;> rfl
    show walk basic .plain ('\\' :: c :: s) = _
    rw [walk_go hback, walk_go hescaped]
    cases walk basic .plain s <;> rfl
  · next h =>
    rw [not_or] at h
    split
    · next htext =>
      have hplain : step basic .plain c = .go [c] .plain := by
        simp [step, stepPlain, basic, h, htext]
      exact walk_go hplain s
    · next htext => exact walk_number (lt_of_not_isText htext) s

theorem walk_flatMap_escapeChar (cs s : List Char) :
    walk basic .plain (cs.flatMap escapeChar ++ '"' :: s) = some (cs, s) := by
  induction cs with
  | nil => rfl
  | cons c cs ih =>
    rw [List.flatMap_cons, List.append_assoc, walk_escapeChar, ih]
    rfl

theorem exists_escapeChar (c : Char) : ∃ d s, escapeChar c = d :: s ∧ d ≠ '"' := by
  unfold escapeChar
  split
  · exact ⟨_, _, rfl, by decide⟩
  · next h =>
    rw [not_or] at h
    split
    · exact ⟨_, _, rfl, h.1⟩
    · exact ⟨_, _, rfl, by decide⟩

theorem opensLines_eq_false {s : List Char} (h : s.head? ≠ some '"' ∨ s.tail.head? ≠ some '"') :
    opensLines ('"' :: s) = false := by
  unfold opensLines
  split
  · next heq =>
    cases heq
    simp at h
  · next heq => cases heq
  · rfl

theorem write_append (text : String) (s : List Char) :
    write text ++ s = '"' :: (text.toList.flatMap escapeChar ++ '"' :: s) := by
  simp [write]

/-- A string that no further mark follows is none over several lines. -/
theorem opensLines_write (text : String) {s : List Char} (hs : s.head? ≠ some '"') :
    opensLines (write text ++ s) = false := by
  rw [write_append]
  refine opensLines_eq_false ?_
  cases text.toList with
  | nil => exact .inr hs
  | cons c cs =>
    obtain ⟨d, s', hd, hne⟩ := exists_escapeChar c
    rw [List.flatMap_cons, hd]
    exact .inl fun h => hne (Option.some.inj h)

theorem read?_of_not_opensLines {s : List Char} (h : opensLines s = false) : read? s = readLine? s := by
  unfold read?
  split
  · cases h
  · cases h
  · rfl

/-- **A string is read back.** -/
theorem read?_write (text : String) {s : List Char} (hs : s.head? ≠ some '"') :
    read? (write text ++ s) = some (text, s) := by
  rw [read?_of_not_opensLines (opensLines_write text hs), write_append, readLine?]
  show (walk basic .plain _).map _ = _
  rw [walk_flatMap_escapeChar]
  exact congrArg some (Prod.ext (String.ofList_toList) rfl)

end MarketScan.Toml.Quoted
