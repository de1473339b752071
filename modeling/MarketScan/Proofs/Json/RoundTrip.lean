import MarketScan.Proofs.Json.Scalar
import MarketScan.Proofs.Json.Shape
import MarketScan.Proofs.Numeric.Layout

/-!
# Values are read back from their text

The text of a value with whole numbers and distinct keys is read back as that value, with nothing but
blanks between its items. Where less nesting is allowed than the value has, the text is refused for
that reason and no other.

The proof has three parts.

1. One step of the grammar: what it refuses, what `items` and `members` do after a value, and `value`
   at an opening bracket or brace.
2. A list: `reads_items` and `reads_members` go through it with the fuel, given its values are read.
3. A value: `readsAs_self` by induction on the value.

What is said of steps and lists holds of whatever a value is read as, which for floating numbers may be
another number.

* `Json.parseWithin_write` — a value is read back where there is room for its nesting
* `Json.parseWithin_write_of_lt` — it is refused where there is none
* `Json.compact_injective` — different values have different texts
-/

namespace MarketScan.Json

open Grammar
open Numeric (Layout)

/-! ## Blanks -/

theorem skipBlanks_append {bs : List Char} (h : ∀ c ∈ bs, isBlank c = true) (s : List Char) :
    skipBlanks (bs ++ s) = skipBlanks s := List.dropWhile_append_of_pos h

theorem skipBlanks_cons {c : Char} (h : isBlank c = false) (s : List Char) :
    skipBlanks (c :: s) = c :: s := by
  rw [skipBlanks, List.dropWhile_cons, h]
  rfl

theorem isBlank_of_isDigit {c : Char} (h : c.isDigit = true) : isBlank c = false := by
  cases hb : isBlank c with
  | false => rfl
  | true =>
    simp only [isBlank, Bool.or_eq_true, decide_eq_true_eq] at hb
    rcases hb with ((rfl | rfl) | rfl) | rfl <;> cases h

theorem not_isDigit_of_isBlank {c : Char} (h : isBlank c = true) :
    c.isDigit = false ∧ c ≠ '.' ∧ c ≠ 'e' ∧ c ≠ 'E' := by
  simp only [isBlank, Bool.or_eq_true, decide_eq_true_eq] at h
  rcases h with ((rfl | rfl) | rfl) | rfl <;> decide

/-- A spacing that puts nothing but blanks between items. -/
structure Spacing.IsBlank (S : Spacing) : Prop where
  line : ∀ level, ∀ c ∈ S.line level, isBlank c = true
  afterColon : ∀ c ∈ S.afterColon, isBlank c = true

theorem Spacing.isBlank_none : Spacing.none.IsBlank := ⟨fun _ _ => nofun, nofun⟩

theorem Spacing.isBlank_indented : Spacing.indented.IsBlank where
  line level c hc := by
    rcases List.mem_cons.mp hc with rfl | hc
    · decide
    · rw [List.eq_of_mem_replicate hc]
      decide
  afterColon c hc := by
    rw [List.mem_singleton.mp hc]
    decide

/-- Blanks and a character that is in no number end a number. -/
theorem delimited_append {bs : List Char} (hbs : ∀ c ∈ bs, isBlank c = true) {c : Char}
    (hc : c.isDigit = false ∧ c ≠ '.' ∧ c ≠ 'e' ∧ c ≠ 'E') (s : List Char) :
    Delimited (bs ++ c :: s) := by
  cases bs with
  | nil =>
    rintro d ⟨⟩
    exact hc
  | cons b bs =>
    rintro d ⟨⟩
    exact not_isDigit_of_isBlank (hbs _ List.mem_cons_self)

variable {S : Spacing}

theorem delimited_writeItems (hS : S.IsBlank) (level : Nat) (items : List Json) (rest : List Char) :
    Delimited (writeItems S level items rest) := by
  cases items with
  | nil => exact delimited_append (hS.line level) (by decide) rest
  | cons item items => exact @delimited_append [] nofun _ (by decide) _

theorem delimited_writeFields (hS : S.IsBlank) (level : Nat) (fields : List (String × Json))
    (rest : List Char) : Delimited (writeFields S level fields rest) := by
  cases fields with
  | nil => exact delimited_append (hS.line level) (by decide) rest
  | cons e fields => exact @delimited_append [] nofun _ (by decide) _

/-! ## Refusals -/

section Refusals

variable {fuel room : Nat} {s : List Char} {c : Char}

/-- An opening bracket or brace needs room, whatever stands behind it. -/
theorem value_no_room (hc : c = '[' ∨ c = '{') (fuel : Nat) (s : List Char) :
    ∃ r : Refusal, value (fuel + 1) 0 (c :: s) = .error r ∧ r.cause = .tooDeep := by
  rcases hc with rfl | rfl
  · rw [value, skipBlanks_cons (by decide)]
    exact ⟨_, rfl, rfl⟩
  · rw [value, skipBlanks_cons (by decide)]
    exact ⟨_, rfl, rfl⟩

/-- A list is refused as its next value is. -/
theorem items_error {r : Refusal} (h : value fuel room s = .error r) :
    items (fuel + 1) room s = .error r := by
  rw [items, h]
  rfl

theorem writeString_append (s : String) (rest : List Char) :
    writeString s ++ rest = '"' :: (s.toList.flatMap escapeChar ++ '"' :: rest) := by
  simp [writeString]

theorem members_error {r : Refusal} (h : value fuel room s = .error r) (key : String) :
    members (fuel + 1) room (writeString key ++ ':' :: s) = .error r := by
  rw [writeString_append, members, string_flatMap_escapeChar]
  simp only [bind, Except.bind, skipBlanks_cons (show isBlank ':' = false by decide), h]

end Refusals

/-! ## What follows a value -/

mutual

theorem write_append (level : Nat) (b : List Char) : ∀ (j : Json) (a : List Char),
    write S level j (a ++ b) = write S level j a ++ b
  | .null, _ | .bool true, _ | .bool false, _ | .number _, _ | .string _, _ | .array [], _
  | .object [], _ => by simp only [write, List.append_assoc, List.cons_append]
  | .array (item :: items), a => by
    rw [write, write, writeItems_append level b items a, write_append (level + 1) b item,
      List.append_assoc]
  | .object ((key, value) :: fields), a => by
    simp only [write, writeFields_append level b fields a, write_append (level + 1) b value,
      List.append_assoc, List.cons_append]

theorem writeItems_append (level : Nat) (b : List Char) : ∀ (items : List Json) (a : List Char),
    writeItems S level items (a ++ b) = writeItems S level items a ++ b
  | [], a => by rw [writeItems, writeItems, List.append_assoc, List.cons_append]
  | item :: items, a => by
    rw [writeItems, writeItems, writeItems_append level b items a, write_append (level + 1) b item,
      List.append_assoc]

theorem writeFields_append (level : Nat) (b : List Char) :
    ∀ (fields : List (String × Json)) (a : List Char),
      writeFields S level fields (a ++ b) = writeFields S level fields a ++ b
  | [], a => by rw [writeFields, writeFields, List.append_assoc, List.cons_append]
  | (key, value) :: fields, a => by
    simp only [writeFields, writeFields_append level b fields a, write_append (level + 1) b value,
      List.append_assoc, List.cons_append]

end

theorem length_le_length_write (level : Nat) (j : Json) (rest : List Char) :
    rest.length ≤ (write S level j rest).length := by
  have h := write_append (S := S) level rest j []
  rw [List.nil_append] at h
  rw [h, List.length_append]
  exact Nat.le_add_left _ _

/-! ## Scalars -/

theorem value_append_blanks {bs : List Char} (h : ∀ c ∈ bs, isBlank c = true) (fuel room : Nat)
    (s : List Char) : value (fuel + 1) room (bs ++ s) = value (fuel + 1) room s := by
  rw [value, value, skipBlanks_append h]

/-- A digit starts a number. -/
theorem value_digit {c : Char} (h : c.isDigit = true) (fuel room : Nat) (s : List Char) :
    value (fuel + 1) room (c :: s) = Grammar.number false (c :: s) := by
  rw [value, skipBlanks_cons (isBlank_of_isDigit h)]
  split
  case h_9 heq =>
    obtain ⟨rfl, rfl⟩ := List.cons.inj heq
    exact if_pos h
  all_goals
    next heq => cases heq <;> cases h

theorem value_whole (n : Whole) (fuel room : Nat) {rest : List Char} (h : Delimited rest) :
    value (fuel + 1) room (n.write ++ rest) = .ok (.number (.whole n), rest) := by
  by_cases hneg : n.value < 0
  · rw [Whole.write, if_pos hneg, List.cons_append, value, skipBlanks_cons (by decide)]
    exact number_natAbs hneg h
  · have hread := number_toNat hneg h
    rw [Whole.write, if_neg hneg]
    obtain ⟨c, t, hd, hc⟩ := exists_digits_eq_cons n.value.toNat
    rw [hd] at hread ⊢
    exact (value_digit hc fuel room _).trans hread

theorem value_writeString (s : String) (fuel room : Nat) (rest : List Char) :
    value (fuel + 1) room (writeString s ++ rest) = .ok (.string s, rest) := by
  rw [writeString_append, value, skipBlanks_cons (by decide)]
  show (Grammar.string _).map _ = _
  rw [string_flatMap_escapeChar]
  rfl

theorem Number.exists_write_eq_cons (n : Number) :
    ∃ c s, n.write = c :: s ∧ (c.isDigit = true ∨ c = '-') := by
  cases n with
  | whole n =>
    show ∃ c s, n.write = c :: s ∧ _
    rw [Whole.write]
    split
    · exact ⟨_, _, rfl, .inr rfl⟩
    · obtain ⟨c, t, hd, hc⟩ := exists_digits_eq_cons n.value.toNat
      exact ⟨c, t, hd, .inl hc⟩
  | float x =>
    show ∃ c s, floatLayout.write x = c :: s ∧ _
    rw [Layout.write_eq]
    split
    · exact ⟨_, _, rfl, .inr rfl⟩
    · obtain ⟨c, t, hbody, hc⟩ := (Layout.isNumeral_body (L := floatLayout) rfl x).opens
      exact ⟨c, t, hbody, .inl hc⟩

/-- The text of a value opens with a character that is neither blank nor closes an array. -/
theorem exists_write_eq_cons (level : Nat) (j : Json) (rest : List Char) :
    ∃ c s, write S level j rest = c :: s ∧ isBlank c = false ∧ c ≠ ']' := by
  cases j with
  | null => exact ⟨_, _, rfl, by decide, by decide⟩
  | bool b => cases b <;> exact ⟨_, _, rfl, by decide, by decide⟩
  | number n =>
    obtain ⟨c, s, hwrite, hc⟩ := n.exists_write_eq_cons
    refine ⟨c, s ++ rest, congrArg (· ++ rest) hwrite, ?_⟩
    rcases hc with hc | rfl
    · refine ⟨isBlank_of_isDigit hc, ?_⟩
      rintro rfl
      cases hc
    · exact ⟨rfl, by decide⟩
  | string s => exact ⟨_, _, rfl, by decide, by decide⟩
  | array items => cases items <;> exact ⟨_, _, rfl, by decide, by decide⟩
  | object fields => cases fields <;> exact ⟨_, _, rfl, by decide, by decide⟩

/-- The same after the blanks before an item. -/
theorem exists_skipBlanks_write (hS : S.IsBlank) (level : Nat) (j : Json) (rest : List Char) :
    ∃ c s, write S level j rest = c :: s ∧ skipBlanks (S.line level ++ write S level j rest) = c :: s ∧
      c ≠ ']' := by
  obtain ⟨c, s, hopen, hblank, hclose⟩ := exists_write_eq_cons (S := S) level j rest
  refine ⟨c, s, hopen, ?_, hclose⟩
  rw [skipBlanks_append (hS.line level), hopen, skipBlanks_cons hblank]

/-- The text of fields from the next one on. -/
def writeMembers (S : Spacing) (level : Nat) (key : String) (value : Json)
    (fields : List (String × Json)) (rest : List Char) : List Char :=
  writeString key ++ ':' :: (S.afterColon ++ write S (level + 1) value (writeFields S level fields rest))

theorem writeFields_cons (level : Nat) (key : String) (value : Json) (fields : List (String × Json))
    (rest : List Char) : writeFields S level ((key, value) :: fields) rest =
      ',' :: (S.line (level + 1) ++ writeMembers S level key value fields rest) := by
  simp only [writeFields, writeMembers, List.append_assoc, List.cons_append]

theorem write_object_cons (level : Nat) (key : String) (value : Json) (fields : List (String × Json))
    (rest : List Char) : write S level (.object ((key, value) :: fields)) rest =
      '{' :: (S.line (level + 1) ++ writeMembers S level key value fields rest) := by
  simp only [write, writeMembers, List.append_assoc, List.cons_append]

/-- It opens with a quotation mark. -/
theorem exists_skipBlanks_writeMembers (hS : S.IsBlank) (level : Nat) (key : String) (value : Json)
    (fields : List (String × Json)) (rest : List Char) :
    ∃ s, writeMembers S level key value fields rest = '"' :: s ∧
      skipBlanks (S.line (level + 1) ++ writeMembers S level key value fields rest) = '"' :: s := by
  obtain ⟨s, hopen⟩ : ∃ s, writeMembers S level key value fields rest = '"' :: s :=
    ⟨_, writeString_append ..⟩
  refine ⟨s, hopen, ?_⟩
  rw [skipBlanks_append (hS.line _), hopen]
  exact skipBlanks_cons (by decide) s

/-! ## Steps of the grammar -/

section Steps

variable {fuel room : Nat} {s s' s'' t : List Char} {c : Char} {item : Json} {key : String}

/-- The closing bracket ends the items. -/
theorem items_close (h : value fuel room s = .ok (item, s')) (hclose : skipBlanks s' = ']' :: t) :
    items (fuel + 1) room s = .ok ([item], t) := by
  rw [items, h]
  simp only [bind, Except.bind, hclose]

/-- After a comma there is a further item. -/
theorem items_comma (h : value fuel room s = .ok (item, s')) (hcomma : skipBlanks s' = ',' :: s'')
    (hnext : skipBlanks s'' = c :: t) (hc : c ≠ ']') :
    items (fuel + 1) room s =
      (items fuel room (c :: t)).map fun (js, rest) => (item :: js, rest) := by
  rw [items, h]
  simp only [bind, Except.bind, hcomma, hnext]
  split
  · next heq => cases heq
  · next heq => exact absurd (List.cons.inj heq).1 hc
  · rfl

theorem members_close (h : value fuel room s = .ok (item, s')) (hclose : skipBlanks s' = '}' :: t)
    (key : String) :
    members (fuel + 1) room (writeString key ++ ':' :: s) = .ok ([(key, item)], t) := by
  rw [writeString_append, members, string_flatMap_escapeChar]
  simp only [bind, Except.bind, skipBlanks_cons (show isBlank ':' = false by decide), h, hclose]

theorem members_comma (h : value fuel room s = .ok (item, s')) (hcomma : skipBlanks s' = ',' :: s'')
    (hnext : skipBlanks s'' = c :: t) (hc : c ≠ '}') (key : String) :
    members (fuel + 1) room (writeString key ++ ':' :: s) =
      (members fuel room (c :: t)).map fun (fs, rest) => ((key, item) :: fs, rest) := by
  rw [writeString_append, members, string_flatMap_escapeChar]
  simp only [bind, Except.bind, skipBlanks_cons (show isBlank ':' = false by decide), h, hcomma,
    hnext]
  split
  · next heq => cases heq
  · next heq => exact absurd (List.cons.inj heq).1 hc
  · rfl

theorem value_bracket (fuel room : Nat) (h : skipBlanks s = c :: t) (hc : c ≠ ']') :
    value (fuel + 1) (room + 1) ('[' :: s) =
      (items fuel room (c :: t)).map fun (js, rest) => (.array js, rest) := by
  rw [value, skipBlanks_cons (by decide)]
  simp only [h]
  rw [if_neg (Nat.succ_ne_zero room)]
  split
  · next heq => cases heq
  · next heq => exact absurd (List.cons.inj heq).1 hc
  · rfl

theorem value_brace (fuel room : Nat) (h : skipBlanks s = c :: t) (hc : c ≠ '}') :
    value (fuel + 1) (room + 1) ('{' :: s) =
      (members fuel room (c :: t)).map fun (fs, rest) => (.object (Entries.ofList fs), rest) := by
  rw [value, skipBlanks_cons (by decide)]
  simp only [h]
  rw [if_neg (Nat.succ_ne_zero room)]
  split
  · next heq => cases heq
  · next heq => exact absurd (List.cons.inj heq).1 hc
  · rfl

end Steps

/-! ## Arrays and objects -/

/-- What reading answers where `x` was written before `rest`: `x`, if it fits, and else that it is
nested too deep. -/
inductive Reads {α : Type} (x : α) (rest : List Char) (fits : Prop) :
    Except Refusal (α × List Char) → Prop where
  | whole (h : fits) : Reads x rest fits (.ok (x, rest))
  | tooDeep (h : ¬fits) {r : Refusal} (hr : r.cause = .tooDeep) : Reads x rest fits (.error r)

theorem Reads.map {α β : Type} {x : α} {rest : List Char} {fits fits' : Prop}
    {result : Except Refusal (α × List Char)} (h : Reads x rest fits result) (hiff : fits' ↔ fits)
    (f : α → β) : Reads (f x) rest fits' (result.map fun (a, s) => (f a, s)) := by
  cases h with
  | whole h => exact .whole (hiff.mpr h)
  | tooDeep h hr => exact .tooDeep (fun h' => h (hiff.mp h')) hr

/-- The text of `j` is read as `k` wherever it stands. Reading a value takes one step more than reading
what is inside it, and reading items one more than reading the first, so that two steps a character
are enough. -/
def ReadsAs (S : Spacing) (j k : Json) : Prop :=
  ∀ (level fuel room : Nat) (rest : List Char), Delimited rest →
    2 * (write S level j rest).length ≤ fuel →
      Reads k rest (j.nesting ≤ room) (value fuel room (write S level j rest))

/-- Fields are read as fields of the same names. -/
def FieldReadsAs (S : Spacing) (e e' : String × Json) : Prop := e.1 = e'.1 ∧ ReadsAs S e.2 e'.2

theorem readsAs_of_steps {j k : Json}
    (h : ∀ (level fuel room : Nat) (rest : List Char), Delimited rest →
      2 * (write S level j rest).length ≤ fuel + 1 →
        Reads k rest (j.nesting ≤ room) (value (fuel + 1) room (write S level j rest))) :
    ReadsAs S j k := by
  intro level fuel room rest hrest hfuel
  cases fuel with
  | zero =>
    obtain ⟨c, s, hopen, -⟩ := exists_write_eq_cons (S := S) level j rest
    rw [hopen, List.length_cons] at hfuel
    omega
  | succ fuel => exact h level fuel room rest hrest hfuel

/-- Items are read with their closing bracket. -/
theorem reads_items (hS : S.IsBlank) (level room : Nat) (rest : List Char) :
    ∀ {items items' : List Json} {item item' : Json} (fuel : Nat),
      List.Forall₂ (ReadsAs S) (item :: items) (item' :: items') →
      2 * (write S (level + 1) item (writeItems S level items rest)).length < fuel →
        Reads (item' :: items') rest (nestingItems (item :: items) ≤ room)
          (Grammar.items fuel room (write S (level + 1) item (writeItems S level items rest)))
  | _, _, _, _, 0, _, hfuel => by omega
  | items, items', item, item', fuel + 1, hall, hfuel => by
    obtain ⟨hhead, hothers⟩ := List.forall₂_cons.mp hall
    have hitem := hhead (level + 1) fuel room _ (delimited_writeItems hS level items rest) (by omega)
    generalize hresult : value fuel room _ = result at hitem
    cases hitem with
    | tooDeep hdeep hr =>
      rw [items_error hresult]
      exact .tooDeep (fun h => hdeep (Nat.max_le.mp h).1) hr
    | whole hfits =>
      cases hothers with
      | nil =>
        rw [items_close hresult (t := rest) (by
          rw [writeItems, skipBlanks_append (hS.line level)]
          exact skipBlanks_cons (by decide) rest)]
        exact .whole (Nat.max_le.mpr ⟨hfits, Nat.zero_le room⟩)
      | @cons next next' items items' hnext hothers =>
        obtain ⟨c, s, hopen, hskip, hclose⟩ :=
          exists_skipBlanks_write hS (level + 1) next (writeItems S level items rest)
        have hshorter : (write S (level + 1) next (writeItems S level items rest)).length <
            (writeItems S level (next :: items) rest).length := by
          rw [writeItems, List.cons_append, List.length_cons, List.length_append]
          omega
        have hlength := length_le_length_write (S := S) (level + 1) item
          (writeItems S level (next :: items) rest)
        have hlater := reads_items hS level room rest fuel (.cons hnext hothers) (by omega)
        rw [items_comma hresult (skipBlanks_cons (by decide) _) hskip hclose, ← hopen]
        exact hlater.map (Nat.max_le.trans (and_iff_right hfits)) (item' :: ·)

/-- Fields are read with their closing brace. -/
theorem reads_members (hS : S.IsBlank) (level room : Nat) (rest : List Char) :
    ∀ {fields fields' : List (String × Json)} {key key' : String} {item item' : Json} (fuel : Nat),
      List.Forall₂ (FieldReadsAs S) ((key, item) :: fields) ((key', item') :: fields') →
      2 * (writeMembers S level key item fields rest).length < fuel →
        Reads ((key', item') :: fields') rest (nestingFields ((key, item) :: fields) ≤ room)
          (members fuel room (writeMembers S level key item fields rest))
  | _, _, _, _, _, _, 0, _, hfuel => by omega
  | fields, fields', key, _, item, item', fuel + 1, hall, hfuel => by
    obtain ⟨⟨rfl, hhead⟩, hothers⟩ := List.forall₂_cons.mp hall
    have htext : (writeMembers S level key item fields rest).length =
        (writeString key).length + S.afterColon.length +
          (write S (level + 1) item (writeFields S level fields rest)).length + 1 := by
      simp only [writeMembers, List.length_append, List.length_cons]
      omega
    have hhead : ReadsAs S item item' := hhead
    have hitem := hhead (level + 1) fuel room _ (delimited_writeFields hS level fields rest)
      (by omega)
    obtain ⟨fuel, rfl⟩ : ∃ n, fuel = n + 1 := ⟨fuel - 1, by omega⟩
    rw [← value_append_blanks hS.afterColon] at hitem
    generalize hresult : value (fuel + 1) room _ = result at hitem
    rw [writeMembers]
    cases hitem with
    | tooDeep hdeep hr =>
      rw [members_error hresult]
      exact .tooDeep (fun h => hdeep (Nat.max_le.mp h).1) hr
    | whole hfits =>
      cases hothers with
      | nil =>
        rw [members_close hresult (t := rest) (by
          rw [writeFields, skipBlanks_append (hS.line level)]
          exact skipBlanks_cons (by decide) rest)]
        exact .whole (Nat.max_le.mpr ⟨hfits, Nat.zero_le room⟩)
      | @cons next next' fields fields' hnext hothers =>
        obtain ⟨nextKey, next⟩ := next
        obtain ⟨nextKey', next'⟩ := next'
        have hshorter : (writeMembers S level nextKey next fields rest).length <
            (writeFields S level ((nextKey, next) :: fields) rest).length := by
          simp only [writeFields, writeMembers, List.length_append, List.length_cons]
          omega
        have hlength := length_le_length_write (S := S) (level + 1) item
          (writeFields S level ((nextKey, next) :: fields) rest)
        have hlater := reads_members hS level room rest (fuel + 1) (.cons hnext hothers) (by omega)
        have hcomma : skipBlanks (writeFields S level ((nextKey, next) :: fields) rest) =
            ',' :: (S.line (level + 1) ++ writeMembers S level nextKey next fields rest) := by
          rw [writeFields_cons]
          exact skipBlanks_cons (by decide) _
        obtain ⟨s, hopen, hskip⟩ := exists_skipBlanks_writeMembers hS level nextKey next fields rest
        rw [members_comma hresult hcomma hskip (by decide), ← hopen]
        exact hlater.map (Nat.max_le.trans (and_iff_right hfits)) ((key, item') :: ·)

theorem readsAs_array (hS : S.IsBlank) {items items' : List Json}
    (hall : List.Forall₂ (ReadsAs S) items items') : ReadsAs S (.array items) (.array items') := by
  refine readsAs_of_steps fun level fuel room rest hrest hfuel => ?_
  cases room with
  | zero =>
    obtain ⟨s, hs⟩ : ∃ s, write S level (.array items) rest = '[' :: s := by
      cases items <;> exact ⟨_, rfl⟩
    obtain ⟨r, hr, hcause⟩ := value_no_room (.inl rfl) fuel s
    rw [hs, hr]
    exact .tooDeep (Nat.not_succ_le_zero _) hcause
  | succ room =>
    cases hall with
    | nil =>
      rw [write, value, skipBlanks_cons (by decide)]
      exact .whole (Nat.le_add_left 1 room)
    | @cons item item' items items' hitem hothers =>
      obtain ⟨c, s, hopen, hskip, hclose⟩ :=
        exists_skipBlanks_write hS (level + 1) item (writeItems S level items rest)
      rw [write, List.cons_append] at hfuel ⊢
      rw [List.length_cons, List.length_append] at hfuel
      have hitems := reads_items hS level room rest fuel (.cons hitem hothers) (by omega)
      rw [value_bracket fuel room hskip hclose, ← hopen]
      exact hitems.map Nat.succ_le_succ_iff Json.array

/-- Of the fields that are read those of one name are one. -/
theorem readsAs_object (hS : S.IsBlank) {fields fields' : List (String × Json)}
    (hall : List.Forall₂ (FieldReadsAs S) fields fields') :
    ReadsAs S (.object fields) (.object (Entries.ofList fields')) := by
  refine readsAs_of_steps fun level fuel room rest hrest hfuel => ?_
  cases room with
  | zero =>
    obtain ⟨s, hs⟩ : ∃ s, write S level (.object fields) rest = '{' :: s := by
      rcases fields with _ | ⟨⟨key, item⟩, fields⟩ <;> exact ⟨_, rfl⟩
    obtain ⟨r, hr, hcause⟩ := value_no_room (.inr rfl) fuel s
    rw [hs, hr]
    exact .tooDeep (Nat.not_succ_le_zero _) hcause
  | succ room =>
    cases hall with
    | nil =>
      rw [write, value, skipBlanks_cons (by decide)]
      exact .whole (Nat.le_add_left 1 room)
    | @cons e e' fields fields' hfield hothers =>
      obtain ⟨key, item⟩ := e
      obtain ⟨key', item'⟩ := e'
      obtain ⟨s, hopen, hskip⟩ := exists_skipBlanks_writeMembers hS level key item fields rest
      rw [write_object_cons] at hfuel ⊢
      rw [List.length_cons, List.length_append] at hfuel
      have hmembers := reads_members hS level room rest fuel (.cons hfield hothers) (by omega)
      rw [value_brace fuel room hskip (by decide), ← hopen]
      exact hmembers.map Nat.succ_le_succ_iff fun fs => Json.object (Entries.ofList fs)

/-! ## Scalars and whole values -/

theorem readsAs_null : ReadsAs S .null .null :=
  readsAs_of_steps fun _ _ room _ _ _ => .whole (Nat.zero_le room)

theorem readsAs_bool (b : Bool) : ReadsAs S (.bool b) (.bool b) := by
  refine readsAs_of_steps fun level fuel room rest _ _ => ?_
  cases b <;> exact .whole (Nat.zero_le room)

theorem readsAs_whole (n : Whole) : ReadsAs S (.number (.whole n)) (.number (.whole n)) := by
  refine readsAs_of_steps fun level fuel room rest hrest _ => ?_
  rw [show write S level (.number (.whole n)) rest = n.write ++ rest from rfl,
    value_whole n fuel room hrest]
  exact .whole (Nat.zero_le room)

theorem readsAs_string (s : String) : ReadsAs S (.string s) (.string s) := by
  refine readsAs_of_steps fun level fuel room rest _ _ => ?_
  rw [write, value_writeString]
  exact .whole (Nat.zero_le room)

/-- **Every value with whole numbers and distinct keys is read back from its text.** -/
theorem readsAs_self (hS : S.IsBlank) (j : Json) : j.Integral → j.KeysDistinct → ReadsAs S j j := by
  induction j using Json.induction with
  | null => exact fun _ _ => readsAs_null
  | bool b => exact fun _ _ => readsAs_bool b
  | number n =>
    intro hj _
    cases n with
    | float x => exact hj.elim
    | whole n => exact readsAs_whole n
  | string s => exact fun _ _ => readsAs_string s
  | array items ih =>
    intro hj hd
    rw [integral_array] at hj
    rw [keysDistinct_array] at hd
    refine readsAs_array hS (List.forall₂_same.mpr fun j hmem => ?_)
    exact ih j hmem (hj j hmem) (hd j hmem)
  | object fields ih =>
    intro hj hd
    rw [integral_object] at hj
    rw [keysDistinct_object] at hd
    have hobject := readsAs_object hS <| List.forall₂_same.mpr fun e hmem =>
      show FieldReadsAs S e e from ⟨rfl, ih e hmem (hj e hmem) (hd.2 e hmem)⟩
    -- distinct keys are kept as they are
    rwa [Entries.ofList_eq_self hd.1] at hobject

/-! ## Texts -/

section Text

variable {j k : Json} {room : Nat}

/-- A text is read as its value is, where there is room for the nesting. -/
theorem parseWithin_of_readsAs (h : ReadsAs S j k) (hfits : j.nesting ≤ room) :
    parseWithin room (write S 0 j []) = .ok k := by
  have hread := h 0 (2 * (write S 0 j []).length + 1) room [] nofun (by omega)
  rw [parseWithin]
  generalize value _ room _ = result at hread ⊢
  cases hread with
  | whole _ => rfl
  | tooDeep hdeep _ => exact absurd hfits hdeep

/-- It is refused where there is none. -/
theorem parseWithin_of_readsAs_of_lt (h : ReadsAs S j k) (hdeep : room < j.nesting) :
    ∃ e, parseWithin room (write S 0 j []) = .error e ∧ e.cause = .tooDeep := by
  have hread := h 0 (2 * (write S 0 j []).length + 1) room [] nofun (by omega)
  rw [parseWithin]
  generalize value _ room _ = result at hread ⊢
  cases hread with
  | whole hfits => omega
  | tooDeep _ hcause => exact ⟨_, rfl, hcause⟩

/-- **The text of a value is read back where there is room for its nesting.** -/
theorem parseWithin_write (hS : S.IsBlank) (hj : j.Integral) (hd : j.KeysDistinct)
    (hfits : j.nesting ≤ room) : parseWithin room (write S 0 j []) = .ok j :=
  parseWithin_of_readsAs (readsAs_self hS j hj hd) hfits

/-- **It is refused where there is none.** -/
theorem parseWithin_write_of_lt (hS : S.IsBlank) (hj : j.Integral) (hd : j.KeysDistinct)
    (hdeep : room < j.nesting) :
    ∃ e, parseWithin room (write S 0 j []) = .error e ∧ e.cause = .tooDeep :=
  parseWithin_of_readsAs_of_lt (readsAs_self hS j hj hd) hdeep

/-- **Different values have different texts.** -/
theorem compact_injective (hj : j.Integral) (hjd : j.KeysDistinct) (hk : k.Integral)
    (hkd : k.KeysDistinct) (h : j.compact = k.compact) : j = k := by
  have htext : write Spacing.none 0 j [] = write Spacing.none 0 k [] := by
    rw [compact, compact] at h
    exact String.ofList_injective h
  -- both texts are read with room for either value
  have hleft := parseWithin_write Spacing.isBlank_none hj hjd (Nat.le_max_left j.nesting k.nesting)
  have hright := parseWithin_write Spacing.isBlank_none hk hkd (Nat.le_max_right j.nesting k.nesting)
  rw [htext, hright] at hleft
  exact (Except.ok.inj hleft).symm

end Text

end MarketScan.Json
