import MarketScan.Proofs.Toml.Strings
import MarketScan.Toml.Section
import Mathlib.Data.Bool.AllAny

/-!
# Reading lines back

The header of a table, and a text under a key, each on a line of its own. A token takes up at least one
character, and a line at least one token besides its end, so that the steps that are given for a text
are enough for what is written in it.

* `Token.scan?_cons`, `lines?_cons` — one token, one line
* `Token.scan?_writePair`, `Token.scan?_writeHeader` — the tokens of a line
* `lines?_pairTokens`, `lines?_headerTokens` — what a line says
-/

namespace MarketScan.Toml

/-! ## Tokens -/

namespace Token

/-- The characters that end a bare text. -/
def separators : List Char := ".=,[]\x7b\x7d \t#\r\n".toList

theorem mem_separators_of_mark? {c : Char} {t : Token} (h : mark? c = some t) : c ∈ separators := by
  unfold mark? at h
  split at h
  case h_8 => cases h
  all_goals decide

theorem mem_separators {c : Char} (h : endsBare c = true) : c ∈ separators := by
  simp only [endsBare, isBlank, Bool.or_eq_true, decide_eq_true_eq] at h
  rcases h with (((hmark | rfl | rfl) | rfl) | rfl) | rfl
  · obtain ⟨t, ht⟩ := Option.isSome_iff_exists.mp hmark
    exact mem_separators_of_mark? ht
  all_goals decide

/-- No bare key holds a character that ends it, or a quotation mark. -/
theorem of_isBareKey {c : Char} (h : isBareKey c = true) : endsBare c = false ∧ c ≠ '"' ∧ c ≠ '\'' := by
  have hnone : ∀ d ∈ separators, isBareKey d = false := List.all_iff_forall_prop.mp (by decide)
  refine ⟨?_, ?_, ?_⟩
  · refine Bool.eq_false_iff.mpr fun hends => ?_
    rw [hnone c (mem_separators hends)] at h
    cases h
  · rintro rfl
    revert h
    decide
  · rintro rfl
    revert h
    decide

/-- A text that takes no more steps than it was given takes no more of them when it is given more. -/
theorem scanWithin_succ {fuel : Nat} {s : List Char} {ts : List Token}
    (h : scanWithin fuel s = some ts) : scanWithin (fuel + 1) s = some ts := by
  induction fuel generalizing s ts with
  | zero =>
    cases s with
    | nil => exact h
    | cons c s => cases h
  | succ fuel ih =>
    cases s with
    | nil => exact h
    | cons c s =>
      by_cases hc : c = '#'
      · subst hc
        rw [scanWithin] at h ⊢
        split at h
        · next hends => rw [if_pos hends, ih h]
        · cases h
      · rw [scanWithin] at h ⊢
        · obtain ⟨⟨t, rest⟩, hnext, h⟩ := Option.bind_eq_some_iff.mp h
          obtain ⟨ts', hts, hsome⟩ := Option.bind_eq_some_iff.mp h
          rw [hnext]
          show (scanWithin (fuel + 1) rest).bind _ = _
          rw [ih hts]
          exact hsome
        · exact hc
        · exact hc

theorem scanWithin_of_le {fuel fuel' : Nat} {s : List Char} {ts : List Token} (hle : fuel ≤ fuel')
    (h : scanWithin fuel s = some ts) : scanWithin fuel' s = some ts := by
  induction hle with
  | refl => exact h
  | step _ ih => exact scanWithin_succ ih

/-- A token at the start of a text, which takes up at least one character. -/
theorem scan?_cons {c : Char} {s rest : List Char} {t : Token} {ts : List Token} (hc : c ≠ '#')
    (hnext : next? c s = some (t, rest)) (hlength : rest.length ≤ s.length)
    (h : scan? rest = some ts) : scan? (c :: s) = some (t :: ts) := by
  rw [scan?, List.length_cons, scanWithin]
  · rw [hnext]
    show (scanWithin s.length rest).bind _ = _
    rw [scanWithin_of_le hlength h]
    rfl
  · exact hc

section Scan

variable {s : List Char} {ts : List Token} (h : scan? s = some ts)
include h

theorem scan?_mark {c : Char} {t : Token} (hc : c ≠ '#') (hmark : mark? c = some t) :
    scan? (c :: s) = some (t :: ts) := by
  refine scan?_cons hc ?_ (Nat.le_refl _) h
  unfold next?
  rw [hmark]

theorem scan?_space (hs : s.head?.any isBlank = false) :
    scan? (' ' :: s) = some (.blank [' '] :: ts) := by
  refine scan?_cons (by decide) ?_ (Nat.le_refl _) h
  have htake : s.takeWhile isBlank = [] := by cases s <;> simp_all
  have hdrop : s.dropWhile isBlank = s := by cases s <;> simp_all
  show some (Token.blank (' ' :: s.takeWhile isBlank), s.dropWhile isBlank) = _
  rw [htake, hdrop]

theorem scan?_lineEnd : scan? ('\n' :: s) = some (.lineEnd :: ts) :=
  scan?_cons (by decide) rfl (Nat.le_refl _) h

theorem scan?_quoted (text : String) (hs : s.head? ≠ some '"') :
    scan? (Quoted.write text ++ s) = some (.quoted (some text) false :: ts) := by
  have hopens := Quoted.opensLines_write text hs
  have hread := Quoted.read?_write text hs
  rw [Quoted.write_append] at hopens hread ⊢
  have hlength : s.length ≤ (text.toList.flatMap Quoted.escapeChar ++ '"' :: s).length := by
    rw [List.length_append, List.length_cons]
    omega
  refine scan?_cons (by decide) ?_ hlength h
  have hmark : mark? '"' = none := rfl
  have hblank : isBlank '"' = false := rfl
  unfold next?
  rw [hmark, hblank, hread, hopens]
  rfl

/-- A text without marks, blanks and line ends goes up to the next of these. -/
theorem scan?_bare {c : Char} {cs : List Char} (hcs : ∀ d ∈ c :: cs, isBareKey d = true)
    (hs : s.head?.all endsBare = true) : scan? (c :: cs ++ s) = some (.bare (c :: cs) :: ts) := by
  obtain ⟨hc, hcs⟩ := List.forall_mem_cons.mp hcs
  obtain ⟨hends, hdouble, hsingle⟩ := of_isBareKey hc
  have hrest : ∀ d ∈ cs, (!endsBare d) = true := fun d hd => by rw [(of_isBareKey (hcs d hd)).1]; rfl
  have htake : (cs ++ s).takeWhile (!endsBare ·) = cs := by
    rw [List.takeWhile_append_of_pos hrest]
    cases s <;> simp_all
  have hdrop : (cs ++ s).dropWhile (!endsBare ·) = s := by
    rw [List.dropWhile_append_of_pos hrest]
    cases s <;> simp_all
  have hlength : s.length ≤ (cs ++ s).length := by
    rw [List.length_append]
    omega
  simp only [endsBare, Bool.or_eq_false_iff, decide_eq_false_iff_not, Option.isSome_eq_false_iff,
    Option.isNone_iff_eq_none] at hends
  obtain ⟨⟨⟨⟨hmark, hblank⟩, hcomment⟩, hreturn⟩, hline⟩ := hends
  rw [List.cons_append]
  refine scan?_cons hcomment ?_ hlength h
  unfold next?
  simp only [hmark, hblank, hline, hreturn, hdouble, hsingle, htake, hdrop, Bool.false_eq_true,
    if_false, decide_false, Bool.or_false]

end Scan

end Token

/-! ## Lines -/

/-- Whether a key can stand without quotation marks. -/
def isBareWord (key : String) : Bool := !key.toList.isEmpty && key.toList.all isBareKey

/-- A key, between quotation marks where it needs them. -/
def writeKey (key : String) : List Char :=
  if isBareWord key then key.toList else Quoted.write key

/-- A text under a key. -/
def writePair (e : String × String) : List Char :=
  writeKey e.1 ++ ' ' :: '=' :: ' ' :: Quoted.write e.2 ++ ['\n']

/-- The header of a table. -/
def writeHeader (key : String) : List Char := '[' :: writeKey key ++ [']', '\n']

/-- The token of a key. -/
def keyToken (key : String) : Token :=
  if isBareWord key then .bare key.toList else .quoted (some key) false

def pairTokens (e : String × String) : List Token :=
  [keyToken e.1, .blank [' '], .equals, .blank [' '], .quoted (some e.2) false, .lineEnd]

def headerTokens (key : String) : List Token := [.openBracket, keyToken key, .closeBracket, .lineEnd]

theorem exists_of_isBareWord {key : String} (h : isBareWord key = true) :
    ∃ c cs, key.toList = c :: cs ∧ ∀ d ∈ c :: cs, isBareKey d = true := by
  rw [isBareWord, Bool.and_eq_true, Bool.not_eq_true', List.all_eq_true] at h
  obtain ⟨hne, hall⟩ := h
  cases hkey : key.toList with
  | nil =>
    rw [hkey] at hne
    cases hne
  | cons c cs => exact ⟨c, cs, rfl, hkey ▸ hall⟩

namespace Token

variable {s : List Char} {ts : List Token} (h : scan? s = some ts)
include h

theorem scan?_writeKey (key : String) {c : Char} (hs : s.head? = some c) (hc : endsBare c = true) :
    scan? (writeKey key ++ s) = some (keyToken key :: ts) := by
  unfold writeKey keyToken
  split
  · next hbare =>
    obtain ⟨d, ds, hkey, hall⟩ := exists_of_isBareWord hbare
    rw [hkey]
    refine scan?_bare h hall ?_
    rw [hs]
    exact hc
  · refine scan?_quoted h key ?_
    rw [hs]
    rintro ⟨⟩
    cases hc

theorem scan?_writePair (e : String × String) :
    scan? (writePair e ++ s) = some (pairTokens e ++ ts) := by
  have hvalue : scan? (Quoted.write e.2 ++ '\n' :: s) = some (.quoted (some e.2) false :: .lineEnd :: ts) :=
    scan?_quoted (scan?_lineEnd h) e.2 (by simp)
  have hspace := scan?_space hvalue rfl
  have hequals := scan?_mark (t := .equals) hspace (c := '=') (by decide) rfl
  have hkey := scan?_writeKey (scan?_space hequals rfl) e.1 rfl rfl
  simpa [writePair, pairTokens] using hkey

theorem scan?_writeHeader (key : String) :
    scan? (writeHeader key ++ s) = some (headerTokens key ++ ts) := by
  have hclose := scan?_mark (t := .closeBracket) (scan?_lineEnd h) (c := ']') (by decide) rfl
  have hkey := scan?_writeKey hclose key rfl rfl
  have hopen := scan?_mark (t := .openBracket) hkey (c := '[') (by decide) rfl
  simpa [writeHeader, headerTokens] using hopen

end Token

/-- What the lines of a table say. -/
def pairLine (e : String × String) : Line := .pair [.text e.1] (.scalar (some (.text e.2)))

def headerLine (key : String) : Line := .header (.table [.text key])

section LinesWithin

variable {fuel : Nat} {ts : List Token}

theorem linesWithin_of_nil (h : Token.dropGaps ts = []) : linesWithin fuel ts = some [] := by
  unfold linesWithin
  rw [h]

theorem linesWithin_zero {t : Token} {rest : List Token} (h : Token.dropGaps ts = t :: rest) :
    linesWithin 0 ts = none := by
  unfold linesWithin
  rw [h]

theorem linesWithin_step {t : Token} {rest : List Token} (h : Token.dropGaps ts = t :: rest) :
    linesWithin (fuel + 1) ts = (Line.read? (t :: rest)).bind fun (line, ts) =>
      if endsLine ts then (linesWithin fuel ts).map (line :: ·) else none := by
  conv =>
    lhs
    unfold linesWithin
  rw [h]
  dsimp only
  cases Line.read? (t :: rest) with
  | none => rfl
  | some p =>
    show (if endsLine p.2 = true then _ else _) = if endsLine p.2 = true then _ else _
    split
    · cases linesWithin fuel p.2 <;> rfl
    · rfl

/-- Lines that take no more steps than were given take no more of them when more are given. -/
theorem linesWithin_succ {lines : List Line} (h : linesWithin fuel ts = some lines) :
    linesWithin (fuel + 1) ts = some lines := by
  induction fuel generalizing ts lines with
  | zero =>
    cases hts : Token.dropGaps ts with
    | nil => rwa [linesWithin_of_nil hts] at h ⊢
    | cons t rest =>
      rw [linesWithin_zero hts] at h
      cases h
  | succ fuel ih =>
    cases hts : Token.dropGaps ts with
    | nil => rwa [linesWithin_of_nil hts] at h ⊢
    | cons t rest =>
      rw [linesWithin_step hts] at h ⊢
      obtain ⟨⟨line, ts'⟩, hline, h⟩ := Option.bind_eq_some_iff.mp h
      rw [hline, Option.bind_some]
      dsimp only at h ⊢
      split at h
      · next hends =>
        obtain ⟨lines', hlines, hsome⟩ := Option.map_eq_some_iff.mp h
        rw [if_pos hends, ih hlines, ← hsome]
        rfl
      · cases h

theorem linesWithin_of_le {fuel' : Nat} {lines : List Line} (hle : fuel ≤ fuel')
    (h : linesWithin fuel ts = some lines) : linesWithin fuel' ts = some lines := by
  induction hle with
  | refl => exact h
  | step _ ih => exact linesWithin_succ ih

end LinesWithin

/-- The lines of a text. -/
def lines? (ts : List Token) : Option (List Line) := linesWithin ts.length ts

/-- A line, which takes up at least one token besides its end. -/
theorem lines?_cons {t : Token} {ts rest : List Token} {line : Line} {lines : List Line}
    (ht : Token.isGap t = false) (hline : Line.read? (t :: ts) = some (line, .lineEnd :: rest))
    (hlength : rest.length ≤ ts.length) (h : lines? rest = some lines) :
    lines? (t :: ts) = some (line :: lines) := by
  have hgaps : Token.dropGaps (t :: ts) = t :: ts := List.dropWhile_cons_of_neg (by simp [ht])
  have hend (fuel : Nat) : linesWithin fuel (.lineEnd :: rest) = linesWithin fuel rest := by
    unfold linesWithin
    rfl
  have hends : endsLine (.lineEnd :: rest) = true := rfl
  rw [lines?, List.length_cons, linesWithin_step hgaps, hline, Option.bind_some]
  dsimp only
  rw [if_pos hends, hend, linesWithin_of_le hlength h]
  rfl

theorem ofBare_of_isBareWord {key : String} (h : isBareWord key = true) :
    Part.ofBare key.toList = .text key := by
  rw [isBareWord, Bool.and_eq_true] at h
  rw [Part.ofBare, if_pos h.2, String.ofList_toList]

theorem read?_pairTokens (e : String × String) (ts : List Token) :
    Line.read? (pairTokens e ++ ts) = some (pairLine e, .lineEnd :: ts) := by
  unfold pairTokens keyToken
  split
  · next hbare =>
    show some (Line.pair [Part.ofBare e.1.toList] _, _) = _
    rw [ofBare_of_isBareWord hbare]
    rfl
  · rfl

theorem read?_headerTokens (key : String) (ts : List Token) :
    Line.read? (headerTokens key ++ ts) = some (headerLine key, .lineEnd :: ts) := by
  unfold headerTokens keyToken
  split
  · next hbare =>
    show some (Line.header (.table [Part.ofBare key.toList]), _) = _
    rw [ofBare_of_isBareWord hbare]
    rfl
  · rfl

theorem isGap_keyToken (key : String) : Token.isGap (keyToken key) = false := by
  unfold keyToken
  split <;> rfl

theorem lines?_pairTokens {ts : List Token} {lines : List Line} (h : lines? ts = some lines)
    (e : String × String) : lines? (pairTokens e ++ ts) = some (pairLine e :: lines) :=
  lines?_cons (isGap_keyToken e.1) (read?_pairTokens e ts) (by simp; omega) h

theorem lines?_headerTokens {ts : List Token} {lines : List Line} (h : lines? ts = some lines)
    (key : String) : lines? (headerTokens key ++ ts) = some (headerLine key :: lines) :=
  lines?_cons rfl (read?_headerTokens key ts) (by simp; omega) h

end MarketScan.Toml
