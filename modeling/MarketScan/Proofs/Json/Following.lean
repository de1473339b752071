import MarketScan.Proofs.Json.Steps

/-!
# What follows a value

The grammar looks at no more of a text than it needs: where a value is read, it is read as well with
further text behind, and that text is left. Only a number may go on, so that what follows it must not
be part of it (`Grammar.Delimited`). A text with a value in front is therefore read when blanks follow,
and refused for what follows when it is anything else.

The proof goes through the ways to read (`Grammar.ValueStep` and the others) with the fuel as the
induction.

* `Grammar.Extends` — what is read with further text behind
* `Grammar.read_append` — every reading is extended by the text behind
* `Json.parse_append`, `Json.parseWithin_blank` — a text with a value in front, and one of blanks
-/

namespace MarketScan.Json.Grammar

variable {α β : Type}

/-- What `x` reads, `y` reads as well, and leaves `more` behind what `x` leaves. Where `x` leaves nothing
this may ask for `ended`. -/
def Extends (more : List Char) (ended : Prop) (x y : Except Refusal (α × List Char)) : Prop :=
  ∀ a rest, x = .ok (a, rest) → (rest = [] → ended) → y = .ok (a, rest ++ more)

section Extends

variable {more : List Char} {ended : Prop}

theorem Extends.error {r : Refusal} (y : Except Refusal (α × List Char)) :
    Extends more ended (.error r) y := nofun

theorem Extends.ok (a : α) (rest : List Char) :
    Extends more ended (.ok (a, rest)) (.ok (a, rest ++ more)) := by
  rintro _ _ ⟨⟩ -
  rfl

theorem Extends.map {x y : Except Refusal (α × List Char)} (h : Extends more ended x y) (f : α → β) :
    Extends more ended (x.map fun (a, s) => (f a, s)) (y.map fun (a, s) => (f a, s)) := by
  intro b rest hx hend
  obtain ⟨a, ha, rfl⟩ := (map_eq_ok_iff f).mp hx
  exact (map_eq_ok_iff f).mpr ⟨a, h a rest ha hend, rfl⟩

end Extends

/-! ## Blanks, words and strings -/

section Scalars

variable {s t : List Char}

theorem skipBlanks_eq_nil_iff : skipBlanks s = [] ↔ ∀ c ∈ s, isBlank c = true :=
  List.dropWhile_eq_nil_iff

theorem skipBlanks_append_of_cons {c : Char} (h : skipBlanks s = c :: t) (more : List Char) :
    skipBlanks (s ++ more) = c :: (t ++ more) := by
  unfold skipBlanks at h ⊢
  rw [List.dropWhile_append, h]
  rfl

theorem skipBlanks_append_of_nil (h : skipBlanks s = []) (more : List Char) :
    skipBlanks (s ++ more) = skipBlanks more := by
  unfold skipBlanks at h ⊢
  rw [List.dropWhile_append, h]
  rfl

theorem word_append (more : List Char) (j : Json) (ws s : List Char) :
    Extends more True (word j ws s) (word j ws (s ++ more)) := by
  induction ws generalizing s with
  | nil => exact .ok j s
  | cons w ws ih =>
    cases s with
    | nil => exact .error _
    | cons c s =>
      rw [List.cons_append, word, word]
      split
      · exact ih s
      · exact .error _

theorem extends_refuseHex (more s : List Char) (y : Except Refusal (α × List Char)) :
    Extends more True (refuseHex s) y := by
  unfold refuseHex
  split <;> exact .error y

theorem extends_refuseSurrogate (more s : List Char) (y : Except Refusal (α × List Char)) :
    Extends more True (refuseSurrogate s) y := by
  unfold refuseSurrogate
  split
  case h_3 => exact extends_refuseHex more _ y
  all_goals exact .error y

/-- The closing quotation mark is what ends a string, so that what follows it does not count. -/
theorem stringTail_append (more s : List Char) :
    Extends more True (stringTail s) (stringTail (s ++ more)) := by
  fun_induction stringTail s
  -- the closing quotation mark
  case case2 s => exact .ok [] s
  -- two surrogates
  case case6 hn hlow hhigh _ _ _ _ _ _ hm hlow' ih =>
    simp only [List.cons_append, stringTail, hn, hm, hlow, hhigh, hlow', if_true]
    exact ih.map _
  -- a character by its number
  case case9 hn hlow hhigh ih =>
    simp only [List.cons_append, stringTail, hn, hlow, hhigh]
    exact ih.map _
  -- a short escape
  case case11 he ih =>
    rw [List.cons_append, List.cons_append, stringTail_short he]
    exact ih.map _
  -- a character for itself
  case case15 hquote _ _ _ hback hc ih =>
    rw [List.cons_append, stringTail_plain hquote hback hc]
    exact ih.map _
  case case3 | case5 | case10 => exact extends_refuseHex more _ _
  case case8 => exact extends_refuseSurrogate more _ _
  all_goals exact .error _

theorem string_append (more s : List Char) : Extends more True (string s) (string (s ++ more)) :=
  (stringTail_append more s).map _

end Scalars

/-! ## Numbers -/

section Numbers

variable {more : List Char}

/-- A run of digits goes on with the text behind only where it is at the end, and there the text behind
is no digit. -/
theorem extends_withDigits {f : List Char → List Char → Except Refusal (α × List Char)}
    (hend : ∀ digits a left, f digits [] = .ok (a, left) → left = [])
    (hf : ∀ digits rest, Extends more (Delimited more) (f digits rest) (f digits (rest ++ more)))
    (s : List Char) : Extends more (Delimited more) (withDigits f s) (withDigits f (s ++ more)) := by
  cases s with
  | nil => exact .error _
  | cons c s =>
    by_cases hc : c.isDigit = true
    · rw [withDigits, if_pos hc, List.cons_append, withDigits, if_pos hc, ← List.cons_append]
      intro a left hread hleft
      have hdigits : ∀ d ∈ (c :: s).takeWhile Char.isDigit, d.isDigit = true :=
        fun d hd => List.mem_takeWhile_imp hd
      have hrest : ∀ d ∈ ((c :: s).dropWhile Char.isDigit ++ more).head?, d.isDigit = false := by
        intro d hd
        cases hrun : (c :: s).dropWhile Char.isDigit with
        | nil =>
          rw [hrun] at hread hd
          exact (hleft (hend _ a left hread) d hd).1
        | cons e t =>
          have hnot := List.head?_dropWhile_not Char.isDigit (c :: s)
          rw [hrun] at hnot hd
          cases hd
          exact hnot
      have hsplit : c :: s ++ more =
          (c :: s).takeWhile Char.isDigit ++ ((c :: s).dropWhile Char.isDigit ++ more) := by
        rw [← List.append_assoc, List.takeWhile_append_dropWhile]
      rw [hsplit, takeWhile_run hdigits hrest, dropWhile_run hdigits hrest]
      exact hf _ _ a left hread hleft
    · rw [withDigits, if_neg hc]
      exact .error _

variable {ended : Prop} (negative : Bool) (coefficient : Nat)

theorem float_append (exponent : Int) (more rest : List Char) :
    Extends more ended (float negative coefficient exponent rest)
      (float negative coefficient exponent (rest ++ more)) := by
  unfold float
  split
  · exact .ok _ rest
  · exact .error _

theorem wholeOrFloat_append (dropped : Nat) (more rest : List Char) :
    Extends more ended (wholeOrFloat negative coefficient dropped rest)
      (wholeOrFloat negative coefficient dropped (rest ++ more)) := by
  unfold wholeOrFloat
  dsimp only
  split
  · split
    · exact .ok _ rest
    · exact float_append negative coefficient _ more rest
  · exact float_append negative coefficient _ more rest

theorem afterExponent_append (base : Int) (down : Bool) (digits more rest : List Char) :
    Extends more ended (afterExponent negative coefficient base down digits rest)
      (afterExponent negative coefficient base down digits (rest ++ more)) := by
  unfold afterExponent
  split
  · exact float_append negative coefficient _ more rest
  · split
    · exact .ok _ rest
    · exact .error _

theorem exponentSign_cons_append (c : Char) (s more : List Char) :
    exponentSign (c :: (s ++ more)) =
      ((exponentSign (c :: s)).1, (exponentSign (c :: s)).2 ++ more) := by
  by_cases hplus : c = '+'
  · subst hplus
    rfl
  by_cases hminus : c = '-'
  · subst hminus
    rfl
  simp [exponentSign, hplus, hminus]

theorem exponent_append (base : Int) (s : List Char) :
    Extends more (Delimited more) (exponent negative coefficient base s)
      (exponent negative coefficient base (s ++ more)) := by
  cases s with
  | nil => exact .error _
  | cons c s =>
    rw [exponent, exponent, List.cons_append, exponentSign_cons_append]
    exact extends_withDigits (fun _ _ _ h => (afterExponent_eq_ok h).1)
      (fun digits => afterExponent_append negative coefficient base _ digits more) _

/-- A character that neither `rest` nor, where `rest` is empty, the text behind begins with. -/
theorem append_ne_cons {c : Char} {rest : List Char} (hrest : ∀ t, rest ≠ c :: t)
    (hmore : rest = [] → c ∉ more.head?) (t : List Char) : rest ++ more ≠ c :: t := by
  cases rest with
  | nil =>
    intro h
    rw [List.nil_append] at h
    exact hmore rfl (h ▸ rfl)
  | cons d rest =>
    intro h
    exact hrest rest ((List.cons.inj h).1 ▸ rfl)

theorem afterFraction_nil {negative : Bool} {coefficient dropped : Nat} {digits left : List Char}
    {j : Json} (h : afterFraction negative coefficient dropped digits [] = .ok (j, left)) : left = [] :=
  (float_eq_ok h).1

theorem afterFraction_append (dropped : Nat) (digits rest : List Char) :
    Extends more (Delimited more) (afterFraction negative coefficient dropped digits rest)
      (afterFraction negative coefficient dropped digits (rest ++ more)) := by
  unfold afterFraction
  dsimp only
  split
  · exact exponent_append negative _ _ _
  · exact exponent_append negative _ _ _
  · next he hE =>
    intro a left hread hleft
    obtain ⟨rfl, -⟩ := float_eq_ok hread
    split
    · next heq => exact absurd heq (append_ne_cons he (fun h hc => (hleft h _ hc).2.2.1 rfl) _)
    · next heq => exact absurd heq (append_ne_cons hE (fun h hc => (hleft h _ hc).2.2.2 rfl) _)
    · exact float_append negative _ _ more left a left hread hleft

theorem afterWhole_nil {negative : Bool} {digits left : List Char} {j : Json}
    (h : afterWhole negative digits [] = .ok (j, left)) : left = [] :=
  (wholeOrFloat_eq_ok h).1

theorem afterWhole_append (digits rest : List Char) :
    Extends more (Delimited more) (afterWhole negative digits rest)
      (afterWhole negative digits (rest ++ more)) := by
  unfold afterWhole
  dsimp only
  split
  · exact extends_withDigits (fun _ _ _ => afterFraction_nil) (afterFraction_append negative _ _) _
  · exact exponent_append negative _ _ _
  · exact exponent_append negative _ _ _
  · next hpoint he hE =>
    intro a left hread hleft
    obtain ⟨rfl, -⟩ := wholeOrFloat_eq_ok hread
    split
    · next heq => exact absurd heq (append_ne_cons hpoint (fun h hc => (hleft h _ hc).2.1 rfl) _)
    · next heq => exact absurd heq (append_ne_cons he (fun h hc => (hleft h _ hc).2.2.1 rfl) _)
    · next heq => exact absurd heq (append_ne_cons hE (fun h hc => (hleft h _ hc).2.2.2 rfl) _)
    · exact wholeOrFloat_append negative _ _ more left a left hread hleft

theorem number_append (s : List Char) :
    Extends more (Delimited more) (number negative s) (number negative (s ++ more)) := by
  intro a left hread hleft
  rw [number] at hread
  split at hread
  · cases hread
  · next hnone =>
    have hzero : ¬hasLeadingZero (s ++ more) = true := by
      intro hzero
      obtain ⟨d, t, heq, hd⟩ := hasLeadingZero_iff.mp hzero
      rcases s with _ | ⟨c, _ | ⟨e, s⟩⟩
      · cases hread
      · -- a zero that is all there is ends with the text
        obtain ⟨rfl, rfl⟩ := List.cons.inj heq
        have hend : left = [] := afterWhole_nil (withDigits_eq_ok hread)
        rw [(hleft hend d rfl).1] at hd
        cases hd
      · obtain ⟨rfl, ht⟩ := List.cons.inj heq
        obtain ⟨rfl, -⟩ := List.cons.inj ht
        exact hnone (hasLeadingZero_iff.mpr ⟨_, _, rfl, hd⟩)
    rw [number, if_neg hzero]
    exact extends_withDigits (fun _ _ _ => afterWhole_nil) (afterWhole_append negative) s a left hread
      hleft

end Numbers

/-! ## Values -/

theorem ne_nil_of_skipBlanks {s t : List Char} {c : Char} (h : skipBlanks s = c :: t) : s ≠ [] := by
  rintro rfl
  cases h

/-- **What is read is read as well with further text behind, if that does not go on with a number.** More
fuel does no harm. -/
theorem read_append (more : List Char) (fuel : Nat) : ∀ fuel', fuel ≤ fuel' →
    (∀ room s j rest, value fuel room s = .ok (j, rest) →
      (rest = [] → (∃ n, j = .number n) → Delimited more) →
      value fuel' room (s ++ more) = .ok (j, rest ++ more)) ∧
    (∀ room s, Extends more True (items fuel room s) (items fuel' room (s ++ more))) ∧
    ∀ room s, Extends more True (members fuel room s) (members fuel' room (s ++ more)) := by
  induction fuel with
  | zero => exact fun fuel' _ => ⟨fun _ _ _ _ => nofun, fun _ _ _ _ => nofun, fun _ _ _ _ => nofun⟩
  | succ fuel ih =>
    rintro (_ | fuel') hle
    · exact absurd hle (Nat.not_succ_le_zero fuel)
    obtain ⟨ihvalue, ihitems, ihmembers⟩ := ih fuel' (Nat.le_of_succ_le_succ hle)
    -- where something else must follow, what follows a number is there already
    have ihvalue' : ∀ {room s j left c t}, value fuel room s = .ok (j, left) →
        skipBlanks left = c :: t → value fuel' room (s ++ more) = .ok (j, left ++ more) :=
      fun h hnext => ihvalue _ _ _ _ h fun hnil => absurd hnil (ne_nil_of_skipBlanks hnext)
    refine ⟨fun room s j rest h hrest => ?_, fun room s js rest h _ => ?_,
      fun room s fs rest h _ => ?_⟩
    · rw [value_eq_ok_iff] at h ⊢
      cases hs : skipBlanks s with
      | nil =>
        rw [hs] at h
        cases h
      | cons c t =>
        rw [hs] at h
        rw [skipBlanks_append_of_cons hs]
        cases h with
        | null h => exact .null (word_append more _ _ _ _ _ h fun _ => trivial)
        | trueWord h => exact .trueWord (word_append more _ _ _ _ _ h fun _ => trivial)
        | falseWord h => exact .falseWord (word_append more _ _ _ _ _ h fun _ => trivial)
        | minus h =>
          exact .minus (number_append _ _ _ _ h fun hnil => hrest hnil (number_eq_ok h))
        | digit hc h =>
          exact .digit hc (number_append _ _ _ _ h fun hnil => hrest hnil (number_eq_ok h))
        | text h => exact .text (string_append more _ _ _ h fun _ => trivial)
        | emptyArray hroom h => exact .emptyArray hroom (skipBlanks_append_of_cons h more)
        | emptyObject hroom h => exact .emptyObject hroom (skipBlanks_append_of_cons h more)
        | array hroom hs hc h =>
          exact .array hroom (skipBlanks_append_of_cons hs more) hc
            (ihitems _ _ _ _ h fun _ => trivial)
        | object hroom hs hc h =>
          exact .object hroom (skipBlanks_append_of_cons hs more) hc
            (ihmembers _ _ _ _ h fun _ => trivial)
    · rw [items_eq_ok_iff] at h ⊢
      cases h with
      | last hitem hclose =>
        exact .last (ihvalue' hitem hclose) (skipBlanks_append_of_cons hclose more)
      | comma hitem hcomma hnext hc hlater =>
        exact .comma (ihvalue' hitem hcomma) (skipBlanks_append_of_cons hcomma more)
          (skipBlanks_append_of_cons hnext more) hc (ihitems _ _ _ _ hlater fun _ => trivial)
    · rw [members_eq_ok_iff] at h ⊢
      cases h with
      | last hkey hcolon hitem hclose =>
        exact .last (string_append more _ _ _ hkey fun _ => trivial)
          (skipBlanks_append_of_cons hcolon more) (ihvalue' hitem hclose)
          (skipBlanks_append_of_cons hclose more)
      | comma hkey hcolon hitem hcomma hnext hc hlater =>
        exact .comma (string_append more _ _ _ hkey fun _ => trivial)
          (skipBlanks_append_of_cons hcolon more) (ihvalue' hitem hcomma)
          (skipBlanks_append_of_cons hcomma more) (skipBlanks_append_of_cons hnext more) hc
          (ihmembers _ _ _ _ hlater fun _ => trivial)

end Grammar

/-! ## Texts -/

section Texts

open Grammar

variable {room : Nat} {doc more : List Char} {j : Json}

/-- **A text with a value in front is read when blanks follow it, and else refused for what follows.** -/
theorem parseWithin_append (h : parseWithin room doc = .ok j)
    (hmore : (∃ n, j = .number n) → Delimited more) :
    parseWithin room (doc ++ more) =
      if skipBlanks more = [] then .ok j
      else .error (Refusal.locate (doc ++ more) ⟨.trailingText, skipBlanks more, 1⟩) := by
  obtain ⟨rest, hread, hrest⟩ := parseWithin_eq_ok_iff.mp h
  have hfuel : 2 * doc.length + 1 ≤ 2 * (doc ++ more).length + 1 := by
    rw [List.length_append]
    omega
  have hlonger := (read_append more _ _ hfuel).1 room doc j rest hread fun _ => hmore
  rw [parseWithin_of_value hlonger, skipBlanks_append_of_nil hrest]

/-- A text of blanks holds no value. -/
theorem parseWithin_blank (room : Nat) (h : skipBlanks doc = []) :
    parseWithin room doc = .error (Refusal.locate doc ⟨.endBeforeValue, [], 0⟩) := by
  rw [parseWithin, value, h]
  rfl

theorem parse_append {doc more : String} (h : parse doc = .ok j)
    (hmore : (∃ n, j = .number n) → Delimited more.toList) :
    parse (doc ++ more) =
      if skipBlanks more.toList = [] then .ok j
      else .error (Refusal.locate (doc ++ more).toList ⟨.trailingText, skipBlanks more.toList, 1⟩) := by
  rw [parse, String.toList_append]
  exact parseWithin_append h hmore

theorem delimited_of_blanks (h : ∀ c ∈ more, isBlank c = true) : Delimited more := by
  intro c hc
  exact not_isDigit_of_isBlank (h c (List.mem_of_mem_head? hc))

end Texts

end MarketScan.Json
