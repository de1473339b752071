import MarketScan.Proofs.Entries
import MarketScan.Proofs.Except
import MarketScan.Proofs.Json.RoundTrip
import Mathlib.Data.List.DropRight

/-!
# What one step of the grammar reads

A step of `value`, `items` or `members` that succeeds does so in one of a few ways, each with the
smaller readings that it is made of. What holds of every value that is read is then proved by going
through these ways, with the fuel as the induction.

* `Grammar.ValueStep`, `Grammar.ItemsStep`, `Grammar.MembersStep` — the ways
* `Grammar.value_eq_ok_iff`, `Grammar.items_eq_ok_iff`, `Grammar.members_eq_ok_iff` — there are no others
* `Json.keysDistinct_of_parse` — no object of a value that is read repeats a name
-/

namespace MarketScan.Json.Grammar

/-! ## Words and numbers -/

section Scalars

variable {α : Type} {s rest left : List Char} {j : Json} {negative : Bool} {coefficient : Nat}

theorem word_eq_ok {k : Json} {ws : List Char} (h : word j ws s = .ok (k, left)) : k = j := by
  induction ws generalizing s with
  | nil =>
    cases h
    rfl
  | cons w ws ih =>
    cases s with
    | nil => cases h
    | cons c s =>
      rw [word] at h
      split at h
      · exact ih h
      · cases h

theorem withDigits_eq_ok {f : List Char → List Char → Except Refusal α} {a : α}
    (h : withDigits f s = .ok a) : f (s.takeWhile Char.isDigit) (s.dropWhile Char.isDigit) = .ok a := by
  unfold withDigits at h
  split at h
  · cases h
  · split at h
    · exact h
    · cases h

/-- What is read as a number is one, and `rest` is what is left. -/
theorem float_eq_ok {exponent : Int} (h : float negative coefficient exponent rest = .ok (j, left)) :
    left = rest ∧ ∃ n, j = .number n := by
  unfold float at h
  split at h
  · cases h
    exact ⟨rfl, _, rfl⟩
  · cases h

theorem wholeOrFloat_eq_ok {dropped : Nat}
    (h : wholeOrFloat negative coefficient dropped rest = .ok (j, left)) :
    left = rest ∧ ∃ n, j = .number n := by
  unfold wholeOrFloat at h
  dsimp only at h
  split at h
  · split at h
    · cases h
      exact ⟨rfl, _, rfl⟩
    · exact float_eq_ok h
  · exact float_eq_ok h

theorem afterExponent_eq_ok {base : Int} {down : Bool} {digits : List Char}
    (h : afterExponent negative coefficient base down digits rest = .ok (j, left)) :
    left = rest ∧ ∃ n, j = .number n := by
  unfold afterExponent at h
  split at h
  · exact float_eq_ok h
  · split at h
    · cases h
      exact ⟨rfl, _, rfl⟩
    · cases h

theorem exponent_eq_ok {base : Int} (h : exponent negative coefficient base s = .ok (j, left)) :
    ∃ n, j = .number n :=
  (afterExponent_eq_ok (withDigits_eq_ok h)).2

theorem afterFraction_eq_ok {dropped : Nat} {digits : List Char}
    (h : afterFraction negative coefficient dropped digits rest = .ok (j, left)) :
    ∃ n, j = .number n := by
  unfold afterFraction at h
  dsimp only at h
  split at h
  · exact exponent_eq_ok h
  · exact exponent_eq_ok h
  · exact (float_eq_ok h).2

theorem afterWhole_eq_ok {digits : List Char} (h : afterWhole negative digits rest = .ok (j, left)) :
    ∃ n, j = .number n := by
  unfold afterWhole at h
  dsimp only at h
  split at h
  · exact afterFraction_eq_ok (withDigits_eq_ok h)
  · exact exponent_eq_ok h
  · exact exponent_eq_ok h
  · exact (wholeOrFloat_eq_ok h).2

/-- **What is read as a number is one.** -/
theorem number_eq_ok (h : number negative s = .ok (j, left)) : ∃ n, j = .number n := by
  unfold number at h
  split at h
  · cases h
  · exact afterWhole_eq_ok (withDigits_eq_ok h)

end Scalars

/-! ## The ways to read -/

/-- How a value is read from its first character on, so that `rest` is left. -/
inductive ValueStep (fuel room : Nat) (rest : List Char) : List Char → Json → Prop where
  | null {s : List Char} {j : Json} (h : word .null ['u', 'l', 'l'] s = .ok (j, rest)) :
    ValueStep fuel room rest ('n' :: s) j
  | trueWord {s : List Char} {j : Json} (h : word (.bool true) ['r', 'u', 'e'] s = .ok (j, rest)) :
    ValueStep fuel room rest ('t' :: s) j
  | falseWord {s : List Char} {j : Json} (h : word (.bool false) ['a', 'l', 's', 'e'] s = .ok (j, rest)) :
    ValueStep fuel room rest ('f' :: s) j
  | minus {s : List Char} {j : Json} (h : number true s = .ok (j, rest)) :
    ValueStep fuel room rest ('-' :: s) j
  | digit {c : Char} {s : List Char} {j : Json} (hc : c.isDigit = true)
    (h : number false (c :: s) = .ok (j, rest)) : ValueStep fuel room rest (c :: s) j
  | text {s : List Char} {text : String} (h : string s = .ok (text, rest)) :
    ValueStep fuel room rest ('"' :: s) (.string text)
  | emptyArray {s : List Char} (hroom : room ≠ 0) (h : skipBlanks s = ']' :: rest) :
    ValueStep fuel room rest ('[' :: s) (.array [])
  | array {s t : List Char} {c : Char} {js : List Json} (hroom : room ≠ 0)
    (hs : skipBlanks s = c :: t) (hc : c ≠ ']')
    (h : items fuel (room - 1) (c :: t) = .ok (js, rest)) :
    ValueStep fuel room rest ('[' :: s) (.array js)
  | emptyObject {s : List Char} (hroom : room ≠ 0) (h : skipBlanks s = '}' :: rest) :
    ValueStep fuel room rest ('{' :: s) (.object [])
  | object {s t : List Char} {c : Char} {fs : List (String × Json)} (hroom : room ≠ 0)
    (hs : skipBlanks s = c :: t) (hc : c ≠ '}')
    (h : members fuel (room - 1) (c :: t) = .ok (fs, rest)) :
    ValueStep fuel room rest ('{' :: s) (.object (Entries.ofList fs))

/-- How the items of an array are read: the last one and the bracket, or one, a comma and the others. -/
inductive ItemsStep (fuel room : Nat) (rest s : List Char) : List Json → Prop where
  | last {item : Json} {left : List Char} (h : value fuel room s = .ok (item, left))
    (hclose : skipBlanks left = ']' :: rest) : ItemsStep fuel room rest s [item]
  | comma {item : Json} {left next t : List Char} {c : Char} {js : List Json}
    (h : value fuel room s = .ok (item, left)) (hcomma : skipBlanks left = ',' :: next)
    (hnext : skipBlanks next = c :: t) (hc : c ≠ ']')
    (hlater : items fuel room (c :: t) = .ok (js, rest)) : ItemsStep fuel room rest s (item :: js)

/-- How the members of an object are read. -/
inductive MembersStep (fuel room : Nat) (rest : List Char) :
    List Char → List (String × Json) → Prop where
  | last {s named colon left : List Char} {key : String} {item : Json}
    (hkey : string s = .ok (key, named)) (hcolon : skipBlanks named = ':' :: colon)
    (h : value fuel room colon = .ok (item, left)) (hclose : skipBlanks left = '}' :: rest) :
    MembersStep fuel room rest ('"' :: s) [(key, item)]
  | comma {s named colon left next t : List Char} {c : Char} {key : String} {item : Json}
    {fs : List (String × Json)}
    (hkey : string s = .ok (key, named)) (hcolon : skipBlanks named = ':' :: colon)
    (h : value fuel room colon = .ok (item, left)) (hcomma : skipBlanks left = ',' :: next)
    (hnext : skipBlanks next = c :: t) (hc : c ≠ '}')
    (hlater : members fuel room (c :: t) = .ok (fs, rest)) :
    MembersStep fuel room rest ('"' :: s) ((key, item) :: fs)

/-! ## There are no others -/

section Steps

variable {α β : Type} {fuel room : Nat} {s rest : List Char} {j : Json} {js : List Json}
  {fs : List (String × Json)}

theorem map_eq_ok_iff (f : α → β) {x : Except Refusal (α × List Char)} {b : β} :
    (x.map fun (a, s) => (f a, s)) = .ok (b, rest) ↔ ∃ a, x = .ok (a, rest) ∧ f a = b := by
  cases x with
  | error r => exact ⟨nofun, nofun⟩
  | ok r => simp [Except.map, Prod.ext_iff, and_comm]

/-- A value may stand after blanks. -/
theorem value_skipBlanks (fuel room : Nat) (s : List Char) :
    value (fuel + 1) room (skipBlanks s) = value (fuel + 1) room s := by
  rw [value, value]
  simp only [skipBlanks, List.dropWhile_idempotent]

theorem step_of_bracket (h : value (fuel + 1) room ('[' :: s) = .ok (j, rest)) :
    ValueStep fuel room rest ('[' :: s) j := by
  rw [value, skipBlanks_cons (by decide)] at h
  by_cases hroom : room = 0
  · subst hroom
    cases h
  simp only [if_neg hroom] at h
  cases hs : skipBlanks s with
  | nil =>
    rw [hs] at h
    cases h
  | cons c t =>
    rw [hs] at h
    by_cases hc : c = ']'
    · subst hc
      cases h
      exact .emptyArray hroom hs
    · split at h
      · cases h
      · next heq => exact absurd (List.cons.inj heq).1 hc
      · obtain ⟨js, hjs, rfl⟩ := (map_eq_ok_iff Json.array).mp h
        exact .array hroom hs hc hjs

theorem step_of_brace (h : value (fuel + 1) room ('{' :: s) = .ok (j, rest)) :
    ValueStep fuel room rest ('{' :: s) j := by
  rw [value, skipBlanks_cons (by decide)] at h
  by_cases hroom : room = 0
  · subst hroom
    cases h
  simp only [if_neg hroom] at h
  cases hs : skipBlanks s with
  | nil =>
    rw [hs] at h
    cases h
  | cons c t =>
    rw [hs] at h
    by_cases hc : c = '}'
    · subst hc
      cases h
      exact .emptyObject hroom hs
    · split at h
      · cases h
      · next heq => exact absurd (List.cons.inj heq).1 hc
      · obtain ⟨fs, hfs, rfl⟩ := (map_eq_ok_iff fun fs => Json.object (Entries.ofList fs)).mp h
        exact .object hroom hs hc hfs

theorem step_of_value {c : Char} (hc : isBlank c = false)
    (h : value (fuel + 1) room (c :: s) = .ok (j, rest)) : ValueStep fuel room rest (c :: s) j := by
  have hstep := h
  rw [value, skipBlanks_cons hc] at hstep
  split at hstep
  case h_1 heq => cases heq
  case h_2 heq => exact heq ▸ .null hstep
  case h_3 heq => exact heq ▸ .trueWord hstep
  case h_4 heq => exact heq ▸ .falseWord hstep
  case h_5 heq => exact heq ▸ .minus hstep
  case h_6 heq =>
    obtain ⟨text, hs, rfl⟩ := (map_eq_ok_iff Json.string).mp hstep
    exact heq ▸ .text hs
  case h_7 heq => exact heq ▸ step_of_bracket (heq ▸ h)
  case h_8 heq => exact heq ▸ step_of_brace (heq ▸ h)
  case h_9 heq =>
    split at hstep
    · next hdigit => exact heq ▸ .digit hdigit hstep
    · cases hstep

theorem value_of_step (h : ValueStep fuel room rest s j) :
    value (fuel + 1) room s = .ok (j, rest) := by
  cases h with
  | null h | trueWord h | falseWord h | minus h =>
    rw [value, skipBlanks_cons (by decide)]
    exact h
  | digit hc h => rwa [value_digit hc]
  | text h =>
    rw [value, skipBlanks_cons (by decide)]
    exact (map_eq_ok_iff Json.string).mpr ⟨_, h, rfl⟩
  | emptyArray hroom h | emptyObject hroom h =>
    rw [value, skipBlanks_cons (by decide)]
    simp only [if_neg hroom, h]
  | array hroom hs hc h =>
    obtain ⟨room, rfl⟩ := Nat.exists_eq_succ_of_ne_zero hroom
    rw [value_bracket fuel room hs hc]
    exact (map_eq_ok_iff Json.array).mpr ⟨_, h, rfl⟩
  | object hroom hs hc h =>
    obtain ⟨room, rfl⟩ := Nat.exists_eq_succ_of_ne_zero hroom
    rw [value_brace fuel room hs hc]
    exact (map_eq_ok_iff fun fs => Json.object (Entries.ofList fs)).mpr ⟨_, h, rfl⟩

/-- A value is read in one of the ways, after blanks. -/
theorem value_eq_ok_iff :
    value (fuel + 1) room s = .ok (j, rest) ↔ ValueStep fuel room rest (skipBlanks s) j := by
  rw [← value_skipBlanks]
  constructor
  · intro h
    cases hs : skipBlanks s with
    | nil =>
      rw [hs] at h
      cases h
    | cons c t =>
      have hc := List.head?_dropWhile_not isBlank s
      rw [← skipBlanks, hs] at hc
      rw [hs] at h
      exact step_of_value hc h
  · exact value_of_step

theorem items_eq_ok_iff :
    items (fuel + 1) room s = .ok (js, rest) ↔ ItemsStep fuel room rest s js := by
  constructor
  · intro h
    rw [items] at h
    obtain ⟨⟨item, left⟩, hitem, h⟩ := bind_eq_ok_iff.mp h
    dsimp only at h
    split at h
    · cases h
    · next hclose =>
      cases h
      exact .last hitem hclose
    · next next hcomma =>
      cases hnext : skipBlanks next with
      | nil =>
        rw [hnext] at h
        cases h
      | cons c t =>
        rw [hnext] at h
        split at h
        · cases h
        · cases h
        · next hne =>
          obtain ⟨js, hjs, rfl⟩ := (map_eq_ok_iff (item :: ·)).mp h
          exact .comma hitem hcomma hnext (fun hc => hne t (hc ▸ rfl)) hjs
    · cases h
  · intro h
    cases h with
    | last hitem hclose => exact items_close hitem hclose
    | comma hitem hcomma hnext hc hlater =>
      rw [items_comma hitem hcomma hnext hc]
      exact (map_eq_ok_iff (_ :: ·)).mpr ⟨_, hlater, rfl⟩

theorem members_eq_ok_iff :
    members (fuel + 1) room s = .ok (fs, rest) ↔ MembersStep fuel room rest s fs := by
  constructor
  · intro h
    -- no equation of `members` applies before the first character is known
    rw [members.eq_def] at h
    dsimp only at h
    split at h
    case h_2 => cases h
    obtain ⟨⟨key, named⟩, hkey, h⟩ := bind_eq_ok_iff.mp h
    dsimp only at h
    split at h
    · cases h
    · next colon hcolon =>
      obtain ⟨⟨item, left⟩, hitem, h⟩ := bind_eq_ok_iff.mp h
      dsimp only at h
      split at h
      · cases h
      · next hclose =>
        cases h
        exact .last hkey hcolon hitem hclose
      · next next hcomma =>
        cases hnext : skipBlanks next with
        | nil =>
          rw [hnext] at h
          cases h
        | cons c t =>
          rw [hnext] at h
          split at h
          · cases h
          · cases h
          · next hne =>
            obtain ⟨fs, hfs, rfl⟩ := (map_eq_ok_iff ((key, item) :: ·)).mp h
            exact .comma hkey hcolon hitem hcomma hnext (fun hc => hne t (hc ▸ rfl)) hfs
      · cases h
    · cases h
  · intro h
    cases h with
    | last hkey hcolon hitem hclose =>
      rw [members, hkey]
      simp only [bind, Except.bind, hcolon, hitem, hclose]
    | comma hkey hcolon hitem hcomma hnext hc hlater =>
      rw [members, hkey]
      simp only [bind, Except.bind, hcolon, hitem, hcomma, hnext]
      split
      · next heq => cases heq
      · next heq => exact absurd (List.cons.inj heq).1 hc
      · rw [hlater]
        rfl

end Steps

/-! ## What is read -/

variable {p : Json → Prop}

/-- What holds of scalars and passes on to arrays and objects holds of all that is read. The fuel is the
induction, and each way to read leads to readings with less of it. -/
theorem holds_read (hp : Hereditary p) (hnull : p .null) (hfloat : ∀ x, p (.number (.float x)))
    (fuel : Nat) :
    (∀ room s j rest, value fuel room s = .ok (j, rest) → p j) ∧
    (∀ room s js rest, items fuel room s = .ok (js, rest) → ∀ j ∈ js, p j) ∧
    ∀ room s fs rest, members fuel room s = .ok (fs, rest) → ∀ e ∈ fs, p e.2 := by
  have hnumber : ∀ {negative s j rest}, number negative s = .ok (j, rest) → p j := by
    intro negative s j rest h
    obtain ⟨n, rfl⟩ := number_eq_ok h
    cases n with
    | whole n => exact hp.whole n
    | float x => exact hfloat x
  induction fuel with
  | zero => exact ⟨fun _ _ _ _ => nofun, fun _ _ _ _ => nofun, fun _ _ _ _ => nofun⟩
  | succ fuel ih =>
    obtain ⟨ihvalue, ihitems, ihmembers⟩ := ih
    refine ⟨fun room s j rest h => ?_, fun room s js rest h => ?_, fun room s fs rest h => ?_⟩
    · replace h := value_eq_ok_iff.mp h
      generalize skipBlanks s = s at h
      cases h with
      | null h => exact word_eq_ok h ▸ hnull
      | trueWord h | falseWord h => exact word_eq_ok h ▸ hp.bool _
      | minus h => exact hnumber h
      | digit _ h => exact hnumber h
      | text => exact hp.string _
      | emptyArray => exact hp.array nofun
      | array _ _ _ h => exact hp.array (ihitems _ _ _ _ h)
      | emptyObject => exact hp.object .nil nofun
      | object _ _ _ h =>
        exact hp.object (Entries.nodup_ofList _) fun e he =>
          ihmembers _ _ _ _ h e (Entries.mem_of_mem_ofList he)
    · cases items_eq_ok_iff.mp h with
      | last hitem => exact List.forall_mem_singleton.mpr (ihvalue _ _ _ _ hitem)
      | comma hitem _ _ _ hlater =>
        exact List.forall_mem_cons.mpr ⟨ihvalue _ _ _ _ hitem, ihitems _ _ _ _ hlater⟩
    · cases members_eq_ok_iff.mp h with
      | last _ _ hitem => exact List.forall_mem_singleton.mpr (ihvalue _ _ _ _ hitem)
      | comma _ _ hitem _ _ _ hlater =>
        exact List.forall_mem_cons.mpr ⟨ihvalue _ _ _ _ hitem, ihmembers _ _ _ _ hlater⟩

end Grammar

/-! ## Texts -/

section Texts

variable {room : Nat} {text rest : List Char} {j : Json}

/-- After the value there are blanks, or the text is refused for what else there is. -/
theorem parseWithin_of_value
    (h : Grammar.value (2 * text.length + 1) room text = .ok (j, rest)) :
    parseWithin room text =
      if Grammar.skipBlanks rest = [] then .ok j
      else .error (Refusal.locate text ⟨.trailingText, Grammar.skipBlanks rest, 1⟩) := by
  rw [parseWithin, h]
  dsimp only
  split
  · next hnil => rw [if_pos hnil]
  · next hne => rw [if_neg hne]

theorem parseWithin_eq_ok_iff :
    parseWithin room text = .ok j ↔
      ∃ rest, Grammar.value (2 * text.length + 1) room text = .ok (j, rest) ∧
        Grammar.skipBlanks rest = [] := by
  constructor
  · intro h
    cases hread : Grammar.value (2 * text.length + 1) room text with
    | error r =>
      rw [parseWithin, hread] at h
      cases h
    | ok r =>
      obtain ⟨k, rest⟩ := r
      rw [parseWithin_of_value hread] at h
      split at h
      · next hnil =>
        cases h
        exact ⟨rest, rfl, hnil⟩
      · cases h
  · rintro ⟨rest, hread, hnil⟩
    rw [parseWithin_of_value hread, if_pos hnil]

end Texts

theorem holds_parse {p : Json → Prop} (hp : Hereditary p) (hnull : p .null)
    (hfloat : ∀ x, p (.number (.float x))) {text : String} {j : Json} (h : parse text = .ok j) :
    p j := by
  obtain ⟨rest, hread, -⟩ := parseWithin_eq_ok_iff.mp h
  exact (Grammar.holds_read hp hnull hfloat _).1 _ _ _ _ hread

/-- **No object of a value that is read repeats a name.** -/
theorem keysDistinct_of_parse {text : String} {j : Json} (h : parse text = .ok j) : j.KeysDistinct :=
  holds_parse hereditary_keysDistinct trivial (fun _ => trivial) h

end MarketScan.Json
