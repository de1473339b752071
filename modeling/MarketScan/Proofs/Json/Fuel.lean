import MarketScan.Proofs.Json.Following

/-!
# The fuel of the grammar is enough

Every reading takes characters away, and a character is met in no more than two steps: one for a value
and one for the list that it begins. With two steps for each character and one more, the fuel of
`Json.parse` never runs out, and no text is refused for want of it.

* `Grammar.length_lt_of_read` — a reading leaves less than there was
* `Grammar.read_fuel` — fuel beyond what is enough changes nothing
* `Json.parseWithin_eq_ok_iff_exists` — what is read with any fuel is read
-/

namespace MarketScan.Json.Grammar

/-! ## What is left -/

section Lengths

variable {α : Type} {s rest left : List Char} {j : Json} {negative : Bool} {coefficient : Nat}

theorem length_skipBlanks_le (s : List Char) : (skipBlanks s).length ≤ s.length :=
  (List.dropWhile_suffix isBlank).length_le

theorem length_lt_of_skipBlanks {c : Char} (h : skipBlanks s = c :: rest) : rest.length < s.length := by
  have hle := length_skipBlanks_le s
  rw [h, List.length_cons] at hle
  exact hle

theorem length_le_of_word {k : Json} {ws : List Char} (h : word j ws s = .ok (k, left)) :
    left.length ≤ s.length := by
  induction ws generalizing s with
  | nil =>
    cases h
    exact Nat.le_refl _
  | cons w ws ih =>
    cases s with
    | nil => cases h
    | cons c s =>
      rw [word] at h
      split at h
      · exact Nat.le_succ_of_le (ih h)
      · cases h

theorem refuseHex_ne_ok {a : α} : refuseHex s ≠ .ok (a, left) := by
  unfold refuseHex
  split <;> nofun

theorem refuseSurrogate_ne_ok {a : α} : refuseSurrogate s ≠ .ok (a, left) := by
  unfold refuseSurrogate
  split
  case h_3 => exact refuseHex_ne_ok
  all_goals nofun

theorem length_lt_of_stringTail {cs : List Char} (h : stringTail s = .ok (cs, left)) :
    left.length < s.length := by
  fun_induction stringTail s generalizing cs
  case case2 =>
    cases h
    exact Nat.lt_succ_self _
  case case6 ih | case9 ih | case11 ih | case15 ih =>
    obtain ⟨_, hlater, -⟩ := (map_eq_ok_iff _).mp h
    have hlt := ih hlater
    simp only [List.length_cons]
    omega
  case case3 | case5 | case10 => exact absurd h refuseHex_ne_ok
  case case8 => exact absurd h refuseSurrogate_ne_ok
  all_goals cases h

theorem length_lt_of_string {text : String} (h : string s = .ok (text, left)) :
    left.length < s.length := by
  obtain ⟨_, h, -⟩ := (map_eq_ok_iff String.ofList).mp h
  exact length_lt_of_stringTail h

theorem length_lt_of_withDigits {f : List Char → List Char → Except Refusal (α × List Char)}
    (hf : ∀ digits rest a left, f digits rest = .ok (a, left) → left.length ≤ rest.length) {a : α}
    (h : withDigits f s = .ok (a, left)) : left.length < s.length := by
  cases s with
  | nil => cases h
  | cons c s =>
    rw [withDigits] at h
    split at h
    · next hc =>
      have hle := hf _ _ _ _ h
      rw [List.dropWhile_cons, if_pos hc] at hle
      exact Nat.lt_succ_of_le (hle.trans (List.dropWhile_suffix Char.isDigit).length_le)
    · cases h

theorem length_lt_of_exponent {base : Int}
    (h : exponent negative coefficient base s = .ok (j, left)) : left.length < s.length := by
  have hsign : (exponentSign s).2.length ≤ s.length := by
    unfold exponentSign
    split <;> simp
  refine Nat.lt_of_lt_of_le (length_lt_of_withDigits (fun _ _ _ _ h => ?_) h) hsign
  rw [(afterExponent_eq_ok h).1]

theorem length_le_of_afterFraction {dropped : Nat} {digits : List Char}
    (h : afterFraction negative coefficient dropped digits rest = .ok (j, left)) :
    left.length ≤ rest.length := by
  unfold afterFraction at h
  dsimp only at h
  split at h
  · exact Nat.le_succ_of_le (length_lt_of_exponent h).le
  · exact Nat.le_succ_of_le (length_lt_of_exponent h).le
  · rw [(float_eq_ok h).1]

theorem length_le_of_afterWhole {digits : List Char} (h : afterWhole negative digits rest = .ok (j, left)) :
    left.length ≤ rest.length := by
  unfold afterWhole at h
  dsimp only at h
  split at h
  · have hlt := length_lt_of_withDigits (fun _ _ _ _ => length_le_of_afterFraction) h
    exact Nat.le_succ_of_le hlt.le
  · exact Nat.le_succ_of_le (length_lt_of_exponent h).le
  · exact Nat.le_succ_of_le (length_lt_of_exponent h).le
  · rw [(wholeOrFloat_eq_ok h).1]

theorem length_lt_of_number (h : number negative s = .ok (j, left)) : left.length < s.length := by
  unfold number at h
  split at h
  · cases h
  · exact length_lt_of_withDigits (fun _ _ _ _ => length_le_of_afterWhole) h

/-- **A reading leaves less than there was.** -/
theorem length_lt_of_read (fuel : Nat) :
    (∀ room s j left, value fuel room s = .ok (j, left) → left.length < s.length) ∧
    (∀ room s js left, items fuel room s = .ok (js, left) → left.length < s.length) ∧
    ∀ room s fs left, members fuel room s = .ok (fs, left) → left.length < s.length := by
  induction fuel with
  | zero => exact ⟨fun _ _ _ _ => nofun, fun _ _ _ _ => nofun, fun _ _ _ _ => nofun⟩
  | succ fuel ih =>
    obtain ⟨ihvalue, ihitems, ihmembers⟩ := ih
    refine ⟨fun room s j left h => ?_, fun room s js left h => ?_, fun room s fs left h => ?_⟩
    · replace h := value_eq_ok_iff.mp h
      refine Nat.lt_of_lt_of_le ?_ (length_skipBlanks_le s)
      generalize skipBlanks s = s at h
      cases h with
      | null h | trueWord h | falseWord h => exact Nat.lt_succ_of_le (length_le_of_word h)
      | minus h => exact Nat.lt_succ_of_lt (length_lt_of_number h)
      | digit _ h => exact length_lt_of_number h
      | text h => exact Nat.lt_succ_of_lt (length_lt_of_string h)
      | emptyArray _ h | emptyObject _ h => exact Nat.lt_succ_of_lt (length_lt_of_skipBlanks h)
      | array _ hs _ h =>
        have hlist := ihitems _ _ _ _ h
        have hblanks := length_lt_of_skipBlanks hs
        rw [List.length_cons] at hlist ⊢
        omega
      | object _ hs _ h =>
        have hlist := ihmembers _ _ _ _ h
        have hblanks := length_lt_of_skipBlanks hs
        rw [List.length_cons] at hlist ⊢
        omega
    · cases items_eq_ok_iff.mp h with
      | last hitem hclose =>
        exact (length_lt_of_skipBlanks hclose).trans (ihvalue _ _ _ _ hitem)
      | comma hitem hcomma hnext _ hlater =>
        have hvalue := ihvalue _ _ _ _ hitem
        have hlist := ihitems _ _ _ _ hlater
        have hblanks := length_lt_of_skipBlanks hcomma
        have hblanks' := length_lt_of_skipBlanks hnext
        rw [List.length_cons] at hlist
        omega
    · cases members_eq_ok_iff.mp h with
      | last hkey hcolon hitem hclose =>
        have hname := length_lt_of_string hkey
        have hvalue := ihvalue _ _ _ _ hitem
        have hblanks := length_lt_of_skipBlanks hcolon
        have hblanks' := length_lt_of_skipBlanks hclose
        rw [List.length_cons]
        omega
      | comma hkey hcolon hitem hcomma hnext _ hlater =>
        have hname := length_lt_of_string hkey
        have hvalue := ihvalue _ _ _ _ hitem
        have hlist := ihmembers _ _ _ _ hlater
        have hblanks := length_lt_of_skipBlanks hcolon
        have hblanks' := length_lt_of_skipBlanks hcomma
        have hblanks'' := length_lt_of_skipBlanks hnext
        rw [List.length_cons] at hlist ⊢
        omega

end Lengths

/-! ## More fuel -/

/-- **Fuel beyond what is enough changes nothing.** A list is one step before its first value. -/
theorem read_fuel (fuel : Nat) : ∀ fuel', fuel ≤ fuel' →
    (∀ room s, 2 * s.length < fuel → value fuel room s = value fuel' room s) ∧
    (∀ room s, 2 * s.length + 1 < fuel → items fuel room s = items fuel' room s) ∧
    ∀ room s, 2 * s.length + 1 < fuel → members fuel room s = members fuel' room s := by
  induction fuel with
  | zero => exact fun _ _ => ⟨fun _ _ => nofun, fun _ _ => nofun, fun _ _ => nofun⟩
  | succ fuel ih =>
    rintro (_ | fuel') hle
    · exact absurd hle (Nat.not_succ_le_zero fuel)
    obtain ⟨ihvalue, ihitems, ihmembers⟩ := ih fuel' (Nat.le_of_succ_le_succ hle)
    refine ⟨fun room s hfuel => ?_, fun room s hfuel => ?_, fun room s hfuel => ?_⟩
    · rw [value, value]
      have hblanks := length_skipBlanks_le s
      generalize skipBlanks s = s at hblanks
      split
      case h_7 t =>
        split
        · rfl
        have hinner := length_skipBlanks_le t
        generalize skipBlanks t = u at hinner
        rw [List.length_cons] at hblanks
        split
        · rfl
        · rfl
        · rw [ihitems _ _ (by omega)]
      case h_8 t =>
        split
        · rfl
        have hinner := length_skipBlanks_le t
        generalize skipBlanks t = u at hinner
        rw [List.length_cons] at hblanks
        split
        · rfl
        · rfl
        · rw [ihmembers _ _ (by omega)]
      all_goals rfl
    · rw [items, items, ← ihvalue room s (by omega)]
      cases hitem : value fuel room s with
      | error r => rfl
      | ok r =>
        obtain ⟨item, left⟩ := r
        have hleft := (length_lt_of_read fuel).1 _ _ _ _ hitem
        simp only [bind, Except.bind]
        have hblanks := length_skipBlanks_le left
        generalize skipBlanks left = t at hblanks
        split
        · rfl
        · rfl
        · next t =>
          have hinner := length_skipBlanks_le t
          generalize skipBlanks t = u at hinner
          rw [List.length_cons] at hblanks
          split
          · rfl
          · rfl
          · rw [ihitems _ _ (by omega)]
        · rfl
    · rw [members.eq_def, members.eq_def]
      dsimp only
      split
      · next s =>
        rw [List.length_cons] at hfuel
        cases hkey : string s with
        | error r => rfl
        | ok r =>
          obtain ⟨key, named⟩ := r
          have hnamed := length_lt_of_string hkey
          simp only [bind, Except.bind]
          have hcolon := length_skipBlanks_le named
          generalize skipBlanks named = t at hcolon
          split
          · rfl
          · next t =>
            rw [List.length_cons] at hcolon
            rw [← ihvalue room t (by omega)]
            cases hitem : value fuel room t with
            | error r => rfl
            | ok r =>
              obtain ⟨item, left⟩ := r
              have hleft := (length_lt_of_read fuel).1 _ _ _ _ hitem
              dsimp only
              have hblanks := length_skipBlanks_le left
              generalize skipBlanks left = t at hblanks
              split
              · rfl
              · rfl
              · next t =>
                have hinner := length_skipBlanks_le t
                generalize skipBlanks t = u at hinner
                rw [List.length_cons] at hblanks
                split
                · rfl
                · rfl
                · rw [ihmembers _ _ (by omega)]
              · rfl
          · rfl
      · rfl

end Grammar

/-! ## Texts -/

/-- **A text holds a value if it does with any fuel.** -/
theorem parseWithin_eq_ok_iff_exists {room : Nat} {text : List Char} {j : Json} :
    parseWithin room text = .ok j ↔
      ∃ fuel rest, Grammar.value fuel room text = .ok (j, rest) ∧ Grammar.skipBlanks rest = [] := by
  rw [parseWithin_eq_ok_iff]
  constructor
  · rintro ⟨rest, hread, hrest⟩
    exact ⟨_, rest, hread, hrest⟩
  · rintro ⟨fuel, rest, hread, hrest⟩
    refine ⟨rest, ?_, hrest⟩
    -- both are the reading with the greater fuel
    have hmore := (Grammar.read_append [] fuel _ (Nat.le_max_left fuel (2 * text.length + 1))).1
      room text j rest hread fun _ _ => nofun
    have henough := (Grammar.read_fuel _ _ (Nat.le_max_right fuel (2 * text.length + 1))).1
      room text (Nat.lt_succ_self _)
    rw [List.append_nil, List.append_nil] at hmore
    rw [henough, hmore]

end MarketScan.Json
