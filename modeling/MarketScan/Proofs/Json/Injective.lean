import MarketScan.Proofs.Json.RoundTrip

/-!
# Different values have different texts

A text determines the value it was written for, floating numbers and repeated keys included. Reading is
of no help here, as a floating number need not be read back as what it was. Instead a value is cut off
the front of a text: where two texts agree that begin with a value, the values are the same and so is
what follows them. The first character tells of which kind the value is, and from there the parts of an
array or object are cut off one by one.

* `Json.Kind.ofFirst` — what the first character of a text tells
* `Json.Cancels` — a value is cut off the front of a text
* `Json.cancels` — every value is
* `Json.write_injective`, `Json.compact_inj` — the whole text
-/

namespace MarketScan.Json

open Grammar
open Numeric (Layout)

variable {S : Spacing}

/-! ## The first character -/

/-- The kinds of values. -/
inductive Kind where
  | null
  | bool
  | number
  | string
  | array
  | object
deriving DecidableEq

def kind : Json → Kind
  | .null => .null
  | .bool _ => .bool
  | .number _ => .number
  | .string _ => .string
  | .array _ => .array
  | .object _ => .object

theorem ofOneKind_of_kind_eq {j k : Json} (h : j.kind = k.kind) : OfOneKind j k := by
  cases j <;> cases k <;> first | constructor | cases h

/-- The kind of the values whose text begins with a character. -/
def Kind.ofFirst (c : Char) : Kind :=
  if c = 'n' then .null
  else if c = 't' ∨ c = 'f' then .bool
  else if c = '"' then .string
  else if c = '[' then .array
  else if c = '{' then .object
  else .number

theorem Kind.ofFirst_of_isDigit {c : Char} (h : c.isDigit = true) : ofFirst c = .number := by
  have hne (c' : Char) (hc' : c'.isDigit = false) : c ≠ c' := by
    rintro rfl
    rw [h] at hc'
    cases hc'
  rw [ofFirst, if_neg (hne _ rfl), if_neg (not_or_intro (hne _ rfl) (hne _ rfl)), if_neg (hne _ rfl),
    if_neg (hne _ rfl), if_neg (hne _ rfl)]

/-- **The first character of a text tells the kind of its value.** -/
theorem exists_write_eq_cons_kind (level : Nat) (j : Json) (rest : List Char) :
    ∃ c s, write S level j rest = c :: s ∧ Kind.ofFirst c = j.kind := by
  cases j with
  | null => exact ⟨_, _, rfl, rfl⟩
  | bool b => cases b <;> exact ⟨_, _, rfl, rfl⟩
  | number n =>
    obtain ⟨c, s, hwrite, hc⟩ := n.exists_write_eq_cons
    refine ⟨c, s ++ rest, congrArg (· ++ rest) hwrite, ?_⟩
    rcases hc with hc | rfl
    · exact Kind.ofFirst_of_isDigit hc
    · rfl
  | string s => exact ⟨_, _, rfl, rfl⟩
  | array items => cases items <;> exact ⟨_, _, rfl, rfl⟩
  | object fields => cases fields <;> exact ⟨_, _, rfl, rfl⟩

theorem ofOneKind_of_write {level : Nat} {j k : Json} {rest rest' : List Char}
    (h : write S level j rest = write S level k rest') : OfOneKind j k := by
  obtain ⟨c, s, hj, hc⟩ := exists_write_eq_cons_kind (S := S) level j rest
  obtain ⟨c', s', hk, hc'⟩ := exists_write_eq_cons_kind (S := S) level k rest'
  rw [hj, hk] at h
  cases h
  exact ofOneKind_of_kind_eq (hc.symm.trans hc')

/-- Blanks do not hide that two texts begin differently. -/
theorem line_cons_ne (hS : S.IsBlank) (level : Nat) {c d : Char} (hc : isBlank c = false)
    (hd : isBlank d = false) (hne : c ≠ d) (s t : List Char) : S.line level ++ c :: s ≠ d :: t := by
  intro h
  have hskip := congrArg skipBlanks h
  rw [skipBlanks_append (hS.line level), skipBlanks_cons hc, skipBlanks_cons hd] at hskip
  exact hne (List.cons.inj hskip).1

theorem line_write_ne (hS : S.IsBlank) (line level : Nat) (j : Json) (rest t : List Char) :
    S.line line ++ write S level j rest ≠ ']' :: t := by
  obtain ⟨c, s, hopen, hblank, hc⟩ := exists_write_eq_cons (S := S) level j rest
  rw [hopen]
  exact line_cons_ne hS line hblank rfl hc s t

/-! ## Numbers -/

/-- The characters that numbers are made of. -/
def IsNumeric (c : Char) : Prop := c.isDigit = true ∨ c ∈ ['.', 'e', '+', '-']

instance : DecidablePred IsNumeric := fun _ => inferInstanceAs (Decidable (_ ∨ _))

/-- What follows is not part of a number. -/
def Ended (rest : List Char) : Prop := ∀ c ∈ rest.head?, ¬IsNumeric c

theorem append_cancel {p : Char → Prop} {a a' rest rest' : List Char} (ha : ∀ c ∈ a, p c)
    (ha' : ∀ c ∈ a', p c) (hrest : ∀ c ∈ rest.head?, ¬p c) (hrest' : ∀ c ∈ rest'.head?, ¬p c)
    (h : a ++ rest = a' ++ rest') : a = a' ∧ rest = rest' := by
  induction a generalizing a' with
  | nil =>
    cases a' with
    | nil => exact ⟨rfl, h⟩
    | cons c a' =>
      rw [List.nil_append] at h
      exact absurd (ha' c List.mem_cons_self) (hrest c (h ▸ rfl))
  | cons c a ih =>
    cases a' with
    | nil =>
      rw [List.nil_append] at h
      exact absurd (ha c List.mem_cons_self) (hrest' c (h ▸ rfl))
    | cons c' a' =>
      obtain ⟨rfl, htail⟩ := List.cons.inj h
      obtain ⟨rfl, rfl⟩ := ih (fun d hd => ha d (List.mem_cons_of_mem _ hd))
        (fun d hd => ha' d (List.mem_cons_of_mem _ hd)) htail
      exact ⟨rfl, rfl⟩

theorem isNumeric_of_mem_write {n : Number} {c : Char} (h : c ∈ n.write) : IsNumeric c := by
  cases n with
  | float x => exact Layout.mem_write (L := floatLayout) rfl h
  | whole n =>
    have hdigits (m : Nat) (hc : c ∈ Numeric.digits m) : IsNumeric c :=
      .inl (isDigit_of_mem_digits hc)
    replace h : c ∈ n.write := h
    rw [Whole.write] at h
    split at h
    · rcases List.mem_cons.mp h with rfl | h
      · exact .inr (by decide)
      · exact hdigits _ h
    · exact hdigits _ h

/-- A whole number has no point and no exponent. -/
theorem Whole.isDigit_of_mem_write {n : Whole} {c : Char} (h : c ∈ n.write) :
    c.isDigit = true ∨ c = '-' := by
  rw [Whole.write] at h
  split at h
  · exact (List.mem_cons.mp h).symm.imp_left isDigit_of_mem_digits
  · exact .inl (isDigit_of_mem_digits h)

theorem Whole.write_injective {m n : Whole} (h : m.write = n.write) : m = n := by
  have hm : Grammar.value 1 0 (m.write ++ []) = .ok (.number (.whole m), []) := value_whole m 0 0 nofun
  have hn : Grammar.value 1 0 (n.write ++ []) = .ok (.number (.whole n), []) := value_whole n 0 0 nofun
  rw [h, hn] at hm
  cases hm
  rfl

theorem Number.write_injective {m n : Number} (h : m.write = n.write) : m = n := by
  have hmark (m : Whole) (x : Numeric.Binary64) : m.write ≠ floatLayout.write x := by
    intro heq
    rcases Layout.exists_mark_mem_write (L := floatLayout) rfl x with hmem | hmem
    all_goals
      rw [← heq] at hmem
      rcases Whole.isDigit_of_mem_write hmem with h | h <;> cases h
  cases m with
  | whole m =>
    cases n with
    | whole n => exact congrArg Number.whole (Whole.write_injective h)
    | float y => exact absurd h (hmark m y)
  | float x =>
    cases n with
    | whole n => exact absurd h.symm (hmark n x)
    | float y => exact congrArg Number.float (Layout.write_injective (L := floatLayout) rfl h)

/-! ## Cutting a value off -/

theorem not_isNumeric_of_isBlank {c : Char} (h : isBlank c = true) : ¬IsNumeric c := by
  simp only [isBlank, Bool.or_eq_true, decide_eq_true_eq] at h
  rcases h with ((rfl | rfl) | rfl) | rfl <;> decide

theorem ended_cons {c : Char} (hc : ¬IsNumeric c) (rest : List Char) : Ended (c :: rest) := by
  rintro d ⟨⟩
  exact hc

theorem ended_line (hS : S.IsBlank) (level : Nat) {rest : List Char} (hrest : Ended rest) :
    Ended (S.line level ++ rest) := by
  have hline := hS.line level
  cases h : S.line level with
  | nil => exact hrest
  | cons b bs =>
    rw [h] at hline
    exact ended_cons (not_isNumeric_of_isBlank (hline b List.mem_cons_self)) _

theorem ended_writeItems (hS : S.IsBlank) (level : Nat) (items : List Json) (rest : List Char) :
    Ended (writeItems S level items rest) := by
  cases items with
  | nil => exact ended_line hS level (ended_cons (by decide) rest)
  | cons item items => exact ended_cons (by decide) _

theorem ended_writeFields (hS : S.IsBlank) (level : Nat) (fields : List (String × Json))
    (rest : List Char) : Ended (writeFields S level fields rest) := by
  cases fields with
  | nil => exact ended_line hS level (ended_cons (by decide) rest)
  | cons e fields => exact ended_cons (by decide) _

theorem writeString_cancel {s t : String} {rest rest' : List Char}
    (h : writeString s ++ rest = writeString t ++ rest') : s = t ∧ rest = rest' := by
  rw [writeString_append, writeString_append] at h
  have hs := string_flatMap_escapeChar s rest
  rw [List.tail_eq_of_cons_eq h, string_flatMap_escapeChar] at hs
  cases hs
  exact ⟨rfl, rfl⟩

/-- Where two texts agree and one begins with `j`, both begin with it and agree in what follows. -/
def Cancels (S : Spacing) (j : Json) : Prop :=
  ∀ (level : Nat) (k : Json) (rest rest' : List Char), Ended rest → Ended rest' →
    write S level j rest = write S level k rest' → j = k ∧ rest = rest'

/-- Items are cut off with their closing bracket, which no comma is taken for. -/
theorem writeItems_cancel (hS : S.IsBlank) (level : Nat) {rest rest' : List Char} :
    ∀ items items' : List Json, (∀ j ∈ items, Cancels S j) →
      writeItems S level items rest = writeItems S level items' rest' → items = items' ∧ rest = rest'
  | [], [], _, h => ⟨rfl, List.tail_eq_of_cons_eq (List.append_cancel_left h)⟩
  | [], _ :: _, _, h => absurd h (line_cons_ne hS level rfl rfl (by decide) rest _)
  | _ :: _, [], _, h => absurd h.symm (line_cons_ne hS level rfl rfl (by decide) rest' _)
  | item :: items, item' :: items', hall, h => by
    have hwrite := List.append_cancel_left (List.tail_eq_of_cons_eq h)
    obtain ⟨rfl, hlater⟩ := hall item List.mem_cons_self (level + 1) item' _ _
      (ended_writeItems hS level items rest) (ended_writeItems hS level items' rest') hwrite
    obtain ⟨rfl, rfl⟩ := writeItems_cancel hS level items items'
      (fun j hj => hall j (List.mem_cons_of_mem _ hj)) hlater
    exact ⟨rfl, rfl⟩

/-- Fields are cut off with their closing brace. -/
theorem writeMembers_cancel (hS : S.IsBlank) (level : Nat) {rest rest' : List Char} :
    ∀ (fields fields' : List (String × Json)) (key key' : String) (value value' : Json),
      (∀ e ∈ (key, value) :: fields, Cancels S e.2) →
      writeMembers S level key value fields rest = writeMembers S level key' value' fields' rest' →
        (key, value) :: fields = (key', value') :: fields' ∧ rest = rest'
  | fields, fields', key, key', value, value', hall, h => by
    obtain ⟨rfl, hvalue⟩ := writeString_cancel h
    have hwrite := List.append_cancel_left (List.tail_eq_of_cons_eq hvalue)
    obtain ⟨rfl, hlater⟩ := hall (key, value) List.mem_cons_self (level + 1) value' _ _
      (ended_writeFields hS level fields rest) (ended_writeFields hS level fields' rest') hwrite
    cases fields with
    | nil =>
      cases fields' with
      | nil => exact ⟨rfl, List.tail_eq_of_cons_eq (List.append_cancel_left hlater)⟩
      | cons e' fields' => exact absurd hlater (line_cons_ne hS level rfl rfl (by decide) rest _)
    | cons e fields =>
      cases fields' with
      | nil => exact absurd hlater.symm (line_cons_ne hS level rfl rfl (by decide) rest' _)
      | cons e' fields' =>
        rw [writeFields_cons, writeFields_cons] at hlater
        obtain ⟨hfields, rfl⟩ := writeMembers_cancel hS level fields fields' e.1 e'.1 e.2 e'.2
          (fun e he => hall e (List.mem_cons_of_mem _ he))
          (List.append_cancel_left (List.tail_eq_of_cons_eq hlater))
        exact ⟨congrArg _ hfields, rfl⟩

theorem cancels_array (hS : S.IsBlank) {items : List Json} (hall : ∀ j ∈ items, Cancels S j) :
    Cancels S (.array items) := by
  intro level k rest rest' _ _ h
  cases ofOneKind_of_write h with
  | array _ items' =>
    cases items with
    | nil =>
      cases items' with
      | nil =>
        cases h
        exact ⟨rfl, rfl⟩
      | cons item' items' =>
        exact absurd (List.tail_eq_of_cons_eq h).symm (line_write_ne hS _ _ item' _ _)
    | cons item items =>
      cases items' with
      | nil => exact absurd (List.tail_eq_of_cons_eq h) (line_write_ne hS _ _ item _ _)
      | cons item' items' =>
        have hwrite := List.append_cancel_left (List.tail_eq_of_cons_eq h)
        obtain ⟨rfl, hlater⟩ := hall item List.mem_cons_self (level + 1) item' _ _
          (ended_writeItems hS level items rest) (ended_writeItems hS level items' rest') hwrite
        obtain ⟨rfl, rfl⟩ := writeItems_cancel hS level items items'
          (fun j hj => hall j (List.mem_cons_of_mem _ hj)) hlater
        exact ⟨rfl, rfl⟩

theorem line_writeMembers_ne (hS : S.IsBlank) (level : Nat) (key : String) (value : Json)
    (fields : List (String × Json)) (rest t : List Char) :
    S.line (level + 1) ++ writeMembers S level key value fields rest ≠ '}' :: t := by
  obtain ⟨s, hopen, -⟩ := exists_skipBlanks_writeMembers hS level key value fields rest
  rw [hopen]
  exact line_cons_ne hS (level + 1) rfl rfl (by decide) s t

theorem cancels_object (hS : S.IsBlank) {fields : List (String × Json)}
    (hall : ∀ e ∈ fields, Cancels S e.2) : Cancels S (.object fields) := by
  intro level k rest rest' _ _ h
  cases ofOneKind_of_write h with
  | object _ fields' =>
    cases fields with
    | nil =>
      cases fields' with
      | nil =>
        cases h
        exact ⟨rfl, rfl⟩
      | cons e' fields' =>
        rw [write_object_cons] at h
        exact (line_writeMembers_ne hS _ _ _ _ _ _ (List.tail_eq_of_cons_eq h).symm).elim
    | cons e fields =>
      cases fields' with
      | nil =>
        rw [write_object_cons] at h
        exact (line_writeMembers_ne hS _ _ _ _ _ _ (List.tail_eq_of_cons_eq h)).elim
      | cons e' fields' =>
        rw [write_object_cons, write_object_cons] at h
        obtain ⟨hfields, rfl⟩ := writeMembers_cancel hS level fields fields' e.1 e'.1 e.2 e'.2 hall
          (List.append_cancel_left (List.tail_eq_of_cons_eq h))
        exact ⟨congrArg Json.object hfields, rfl⟩

/-- **Every value is cut off the front of a text.** -/
theorem cancels (hS : S.IsBlank) (j : Json) : Cancels S j := by
  induction j using Json.induction with
  | null =>
    intro level k rest rest' _ _ h
    cases ofOneKind_of_write h with
    | null => exact ⟨rfl, List.append_cancel_left h⟩
  | bool b =>
    intro level k rest rest' _ _ h
    cases ofOneKind_of_write h with
    | bool _ b' => cases b <;> cases b' <;> cases h <;> exact ⟨rfl, rfl⟩
  | number n =>
    intro level k rest rest' hrest hrest' h
    cases ofOneKind_of_write h with
    | number _ n' =>
      obtain ⟨hnumber, rfl⟩ := append_cancel (fun _ => isNumeric_of_mem_write)
        (fun _ => isNumeric_of_mem_write) hrest hrest' h
      exact ⟨congrArg Json.number (Number.write_injective hnumber), rfl⟩
  | string s =>
    intro level k rest rest' _ _ h
    cases ofOneKind_of_write h with
    | string _ s' =>
      obtain ⟨rfl, rfl⟩ := writeString_cancel h
      exact ⟨rfl, rfl⟩
  | array items ih => exact cancels_array hS ih
  | object fields ih => exact cancels_object hS ih

/-! ## Texts -/

theorem write_injective (hS : S.IsBlank) {level : Nat} {j k : Json}
    (h : write S level j [] = write S level k []) : j = k :=
  (cancels hS j level k [] [] nofun nofun h).1

/-- **Different values have different texts**, with or without blanks. -/
theorem compact_inj {j k : Json} : j.compact = k.compact ↔ j = k :=
  ⟨fun h => write_injective Spacing.isBlank_none (String.ofList_injective h), congrArg compact⟩

theorem pretty_inj {j k : Json} : j.pretty = k.pretty ↔ j = k :=
  ⟨fun h => write_injective Spacing.isBlank_indented (String.ofList_injective h), congrArg pretty⟩

end MarketScan.Json
