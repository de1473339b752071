import MarketScan.Proofs.Entries
import MarketScan.Proofs.Except
import MarketScan.Proofs.Json.Shape
import MarketScan.Scan

/-!
# Which values hold a reply

A reply, and each of its rows, is written as two parts of which the second may be left out. The parts
are found under two keys of an object, so neither the order of its keys nor any further key counts, or
they are the only items of an array (`Reply.HasParts`).

Reading a value is reading its parts. For an object this is shown along its fields: what has been
taken in after some of them is what is found under the two keys (`foldlM_takeField_eq_ok_iff`).

* `Reply.ShowsRow`, `Reply.Shows` — the row and the reply that a value holds
* `Reply.readParts_eq_ok_iff` — parts are read where a value has them
* `Reply.ofAnswer_eq_ok_iff` — a reply is read exactly from the values that hold one
-/

namespace MarketScan.Reply

/-! ## Values that hold replies -/

/-- The parts of a value: what an object holds under two keys, or the items of an array. The second
part may be left out. -/
inductive HasParts (keys : String × String) : Json → Json → Option Json → Prop where
  | object {fields : List (String × Json)} {a : Json} (ha : Entries.get? keys.1 fields = some a) :
    HasParts keys (.object fields) a (Entries.get? keys.2 fields)
  | one (a : Json) : HasParts keys (.array [a]) a none
  | two (a b : Json) : HasParts keys (.array [a, b]) a (some b)

/-- A value that holds a row: a string and, if they are there, values. -/
inductive ShowsRow : Json → Row → Prop where
  | full {j : Json} {ticker : String} {values : List Json}
    (h : HasParts ("s", "d") j (.string ticker) (some (.array values))) : ShowsRow j ⟨ticker, values⟩
  | bare {j : Json} {ticker : String} (h : HasParts ("s", "d") j (.string ticker) none) :
    ShowsRow j ⟨ticker, []⟩

/-- A value that holds a reply: a whole number of 64 bits without sign and, if they are there, rows. -/
inductive Shows : Json → Reply → Prop where
  | full {j : Json} {count : UInt64} {items : List Json} {rows : List Row}
    (h : HasParts ("totalCount", "data") j (.ofUInt64 count) (some (.array items)))
    (hrows : List.Forall₂ ShowsRow items rows) : Shows j ⟨count, rows⟩
  | bare {j : Json} {count : UInt64}
    (h : HasParts ("totalCount", "data") j (.ofUInt64 count) none) : Shows j ⟨count, []⟩

/-! ## Reading parts -/

section Parts

variable {α β : Type} {keys : String × String} {first : Json → Except Mismatch α}
  {second : Json → Except Mismatch (List β)}

/-- What has been taken in after a field that may not be there: what was taken in before, or what the
field is read as. -/
inductive Taken (read : Json → Except Mismatch α) (before : Option α) : Option Json → Option α → Prop where
  | skipped : Taken read before none before
  | read {j : Json} {x : α} (h : read j = .ok x) : Taken read before (some j) (some x)

theorem taken_none_iff {read : Json → Except Mismatch α} {before after : Option α} :
    Taken read before none after ↔ after = before := by
  constructor
  · rintro ⟨⟩
    rfl
  · rintro rfl
    exact .skipped

theorem taken_some_iff {read : Json → Except Mismatch α} {before after : Option α} {j : Json} :
    Taken read before (some j) after ↔ ∃ x, read j = .ok x ∧ after = some x := by
  constructor
  · rintro ⟨⟩
    exact ⟨_, ‹_›, rfl⟩
  · rintro ⟨x, hx, rfl⟩
    exact .read hx

/-- One field takes in what is found in it. -/
theorem takeField_eq_ok_iff (hne : keys.1 ≠ keys.2) {before after : Option α × Option (List β)}
    {field : String × Json} :
    takeField keys first second before field = .ok after ↔
      Taken first before.1 (Entries.get? keys.1 [field]) after.1 ∧
        Taken second before.2 (Entries.get? keys.2 [field]) after.2 := by
  obtain ⟨key, value⟩ := field
  obtain ⟨x?, y?⟩ := after
  simp only [takeField, Entries.get?]
  -- the keys differ, so the field is taken in by one of the readers or by none
  by_cases hfirst : key = keys.1
  · have hsecond : key ≠ keys.2 := fun h => hne (hfirst.symm.trans h)
    rw [if_pos hfirst, if_pos hfirst, if_neg hsecond, bind_eq_ok_iff, taken_some_iff, taken_none_iff]
    constructor
    · rintro ⟨x, hx, ⟨⟩⟩
      exact ⟨⟨x, hx, rfl⟩, rfl⟩
    · rintro ⟨⟨x, hx, rfl⟩, rfl⟩
      exact ⟨x, hx, rfl⟩
  · rw [if_neg hfirst, if_neg hfirst, taken_none_iff]
    by_cases hsecond : key = keys.2
    · rw [if_pos hsecond, if_pos hsecond, bind_eq_ok_iff, taken_some_iff]
      constructor
      · rintro ⟨y, hy, ⟨⟩⟩
        exact ⟨rfl, y, hy, rfl⟩
      · rintro ⟨rfl, y, hy, rfl⟩
        exact ⟨y, hy, rfl⟩
    · rw [if_neg hsecond, if_neg hsecond, taken_none_iff]
      constructor
      · rintro ⟨⟩
        exact ⟨rfl, rfl⟩
      · rintro ⟨rfl, rfl⟩
        rfl

/-- What is found in one field and then in the others is what is found in all, as no key is there
twice. -/
theorem taken_cons_iff {read : Json → Except Mismatch α} {key : String} {field : String × Json}
    {fields : List (String × Json)} (hd : (Entries.keys (field :: fields)).Nodup)
    {before after : Option α} :
    Taken read before (Entries.get? key (field :: fields)) after ↔
      ∃ mid, Taken read before (Entries.get? key [field]) mid ∧
        Taken read mid (Entries.get? key fields) after := by
  obtain ⟨key', value⟩ := field
  simp only [Entries.get?]
  by_cases h : key' = key
  · -- nothing is found later on, so what was taken in here stays
    have hlater : Entries.get? key fields = none :=
      Entries.get?_eq_none_iff.mpr (h ▸ (List.nodup_cons.mp hd).1)
    rw [if_pos h, if_pos h, hlater]
    simp only [taken_none_iff, exists_eq_right']
  · rw [if_neg h, if_neg h]
    simp only [taken_none_iff, exists_eq_left]

/-- Fields with distinct keys are taken in when what is found under either key can be read. -/
theorem foldlM_takeField_eq_ok_iff (hne : keys.1 ≠ keys.2) {fields : List (String × Json)}
    (hd : (Entries.keys fields).Nodup) {before after : Option α × Option (List β)} :
    fields.foldlM (takeField keys first second) before = .ok after ↔
      Taken first before.1 (Entries.get? keys.1 fields) after.1 ∧
        Taken second before.2 (Entries.get? keys.2 fields) after.2 := by
  induction fields generalizing before with
  | nil =>
    rw [List.foldlM_nil, Entries.get?, Entries.get?, taken_none_iff, taken_none_iff, ← Prod.ext_iff]
    constructor
    · rintro ⟨⟩
      rfl
    · rintro rfl
      rfl
  | cons field fields ih =>
    rw [List.foldlM_cons, bind_eq_ok_iff, taken_cons_iff hd, taken_cons_iff hd]
    simp only [takeField_eq_ok_iff hne, ih (List.nodup_cons.mp hd).2]
    constructor
    · rintro ⟨mid, ⟨h, h'⟩, hrest, hrest'⟩
      exact ⟨⟨mid.1, h, hrest⟩, ⟨mid.2, h', hrest'⟩⟩
    · rintro ⟨⟨x?, h, hrest⟩, ⟨y?, h', hrest'⟩⟩
      exact ⟨(x?, y?), ⟨h, h'⟩, hrest, hrest'⟩

/-- The parts of an object are what is found under its two keys. -/
theorem readParts_object_eq_ok_iff (hne : keys.1 ≠ keys.2) (expected : Expected)
    {fields : List (String × Json)} (hd : (Entries.keys fields).Nodup) {x : α} {ys : List β} :
    readParts expected keys first second (.object fields) = .ok (x, ys) ↔
      (∃ a, Entries.get? keys.1 fields = some a ∧ first a = .ok x) ∧
        (Entries.get? keys.2 fields).elim (ys = []) fun b => second b = .ok ys := by
  rw [readParts, bind_eq_ok_iff]
  simp only [foldlM_takeField_eq_ok_iff hne hd]
  -- nothing was there before the fields: what has been taken in is what stands under the keys
  generalize Entries.get? keys.1 fields = a?
  generalize Entries.get? keys.2 fields = b?
  constructor
  · rintro ⟨⟨x?, y?⟩, ⟨hx, hy⟩, h⟩
    cases x? with
    | none => cases h
    | some x' =>
      cases h
      cases hx with
      | read hx =>
        refine ⟨⟨_, rfl, hx⟩, ?_⟩
        cases hy with
        | skipped => rfl
        | read hy => exact hy
  · rintro ⟨⟨a, rfl, hx⟩, hy⟩
    cases b? with
    | none =>
      obtain rfl : ys = [] := hy
      exact ⟨(some x, none), ⟨.read hx, .skipped⟩, rfl⟩
    | some b => exact ⟨(some x, some ys), ⟨.read hx, .read hy⟩, rfl⟩

/-- **Parts are read from the values that have them.** A second part that is left out is empty. -/
theorem readParts_eq_ok_iff (hne : keys.1 ≠ keys.2) (expected : Expected) {j : Json}
    (hj : j.KeysDistinct) {x : α} {ys : List β} :
    readParts expected keys first second j = .ok (x, ys) ↔
      ∃ a b?, HasParts keys j a b? ∧ first a = .ok x ∧
        b?.elim (ys = []) fun b => second b = .ok ys := by
  match j with
  | .null | .bool _ | .number _ | .string _ | .array [] => exact ⟨nofun, nofun⟩
  | .array [a] =>
    rw [readParts, bind_eq_ok_iff]
    constructor
    · rintro ⟨x, hx, ⟨⟩⟩
      exact ⟨a, none, .one a, hx, rfl⟩
    · rintro ⟨_, _, ⟨⟩, hx, rfl⟩
      exact ⟨x, hx, rfl⟩
  | .array [a, b] =>
    rw [readParts, bind_eq_ok_iff]
    simp only [bind_eq_ok_iff]
    constructor
    · rintro ⟨x, hx, y, hy, ⟨⟩⟩
      exact ⟨a, some b, .two a b, hx, hy⟩
    · rintro ⟨_, _, ⟨⟩, hx, hy⟩
      exact ⟨x, hx, ys, hy, rfl⟩
  | .array (a :: b :: c :: more) =>
    rw [readParts, bind_eq_ok_iff]
    simp only [bind_eq_ok_iff]
    constructor
    · rintro ⟨x, hx, y, hy, ⟨⟩⟩
    · rintro ⟨_, _, ⟨⟩, _⟩
  | .object fields =>
    rw [readParts_object_eq_ok_iff hne expected (Json.keysDistinct_object.mp hj).1]
    constructor
    · rintro ⟨⟨a, ha, hx⟩, hy⟩
      exact ⟨a, _, .object ha, hx, hy⟩
    · rintro ⟨_, _, ⟨ha⟩, hx, hy⟩
      exact ⟨⟨_, ha, hx⟩, hy⟩

end Parts

/-! ## Reading replies -/

theorem readText_eq_ok_iff {j : Json} {s : String} : readText j = .ok s ↔ j = .string s := by
  constructor
  · intro h
    cases j with
    | string s => exact congrArg Json.string (Except.ok.inj h)
    | _ => cases h
  · rintro rfl
    rfl

theorem readSequence_eq_ok_iff {j : Json} {items : List Json} :
    readSequence j = .ok items ↔ j = .array items := by
  constructor
  · intro h
    cases j with
    | array items => exact congrArg Json.array (Except.ok.inj h)
    | _ => cases h
  · rintro rfl
    rfl

theorem toUInt64?_eq_some_iff {n : Json.Whole} {count : UInt64} :
    n.toUInt64? = some count ↔ n = .ofUInt64 count := by
  constructor
  · intro h
    rw [Json.Whole.toUInt64?] at h
    split at h
    · next hsign =>
      obtain ⟨value, lower, upper⟩ := n
      cases h
      change 0 ≤ value at hsign
      have hvalue : ((UInt64.ofNat value.toNat).toNat : Int) = value := by
        rw [UInt64.toNat_ofNat_of_lt' (show value.toNat < 18446744073709551616 by omega)]
        exact Int.toNat_of_nonneg hsign
      simp only [Json.Whole.ofUInt64, hvalue]
    · cases h
  · rintro rfl
    exact Json.Whole.toUInt64?_ofUInt64 count

/-- A count is a whole number that is not negative. -/
theorem readCount_eq_ok_iff {j : Json} {count : UInt64} :
    readCount j = .ok count ↔ j = .ofUInt64 count := by
  constructor
  · intro h
    unfold readCount at h
    split at h
    · split at h
      · next n _ hn =>
        cases h
        rw [toUInt64?_eq_some_iff.mp hn]
        rfl
      · cases h
    · cases h
  · rintro rfl
    rw [Json.ofUInt64, readCount, Json.Whole.toUInt64?_ofUInt64]

theorem readRow_eq_ok_iff {j : Json} (hj : j.KeysDistinct) {row : Row} :
    readRow j = .ok row ↔ ShowsRow j row := by
  rw [readRow, bind_eq_ok_iff]
  constructor
  · rintro ⟨⟨ticker, values⟩, h, ⟨⟩⟩
    obtain ⟨a, b?, hparts, ha, hb⟩ := (readParts_eq_ok_iff (by decide) .row hj).mp h
    obtain rfl := readText_eq_ok_iff.mp ha
    cases b? with
    | none =>
      obtain rfl : values = [] := hb
      exact .bare hparts
    | some b =>
      obtain rfl := readSequence_eq_ok_iff.mp hb
      exact .full hparts
  · intro h
    refine ⟨(row.ticker, row.values), (readParts_eq_ok_iff (by decide) .row hj).mpr ?_, rfl⟩
    cases h with
    | full h => exact ⟨_, _, h, rfl, rfl⟩
    | bare h => exact ⟨_, _, h, rfl, rfl⟩

theorem readRows_eq_ok_iff {j : Json} (hj : j.KeysDistinct) {rows : List Row} :
    readRows j = .ok rows ↔ ∃ items, j = .array items ∧ List.Forall₂ ShowsRow items rows := by
  rw [readRows, bind_eq_ok_iff]
  simp only [readSequence_eq_ok_iff, mapM_eq_ok_iff]
  refine exists_congr fun items => and_congr_right ?_
  rintro rfl
  rw [Json.keysDistinct_array] at hj
  constructor
  · intro h
    refine ((List.forall₂_and_left items rows).mpr ⟨hj, h⟩).imp ?_
    exact fun item row h => (readRow_eq_ok_iff h.1).mp h.2
  · intro h
    refine ((List.forall₂_and_left items rows).mpr ⟨hj, h⟩).imp ?_
    exact fun item row h => (readRow_eq_ok_iff h.1).mpr h.2

theorem HasParts.keysDistinct {keys : String × String} {j a : Json} {b? : Option Json}
    (h : HasParts keys j a b?) (hj : j.KeysDistinct) : ∀ b ∈ b?, b.KeysDistinct := by
  intro b hb
  cases h with
  | object _ => exact (Json.keysDistinct_object.mp hj).2 _ (Entries.mem_of_get? hb)
  | one a => cases hb
  | two a b =>
    cases hb
    exact Json.keysDistinct_array.mp hj b (by simp)

/-- **A reply is read from the values that hold it.** -/
theorem ofJson_eq_ok_iff {j : Json} (hj : j.KeysDistinct) {r : Reply} :
    ofJson j = .ok r ↔ Shows j r := by
  rw [ofJson, bind_eq_ok_iff]
  constructor
  · rintro ⟨⟨count, rows⟩, h, ⟨⟩⟩
    obtain ⟨a, b?, hparts, ha, hb⟩ := (readParts_eq_ok_iff (by decide) .reply hj).mp h
    obtain rfl := readCount_eq_ok_iff.mp ha
    cases b? with
    | none =>
      obtain rfl : rows = [] := hb
      exact .bare hparts
    | some b =>
      obtain ⟨items, rfl, hrows⟩ := (readRows_eq_ok_iff (hparts.keysDistinct hj b rfl)).mp hb
      exact .full hparts hrows
  · intro h
    refine ⟨(r.totalCount, r.rows), (readParts_eq_ok_iff (by decide) .reply hj).mpr ?_, rfl⟩
    cases h with
    | bare h => exact ⟨_, _, h, readCount_eq_ok_iff.mpr rfl, rfl⟩
    | full h hrows =>
      exact ⟨_, _, h, readCount_eq_ok_iff.mpr rfl,
        (readRows_eq_ok_iff (h.keysDistinct hj _ rfl)).mpr ⟨_, rfl, hrows⟩⟩

/-- An answer is read as a reply exactly when its value is. -/
theorem ofAnswer_eq_ok_iff {j : Json} {r : Reply} : ofAnswer j = .ok r ↔ ofJson j = .ok r := by
  rw [ofAnswer]
  cases ofJson j with
  | error m => exact ⟨nofun, nofun⟩
  | ok _ =>
    constructor
    · rintro ⟨⟩
      rfl
    · rintro ⟨⟩
      rfl

theorem ofAnswer_cases (j : Json) :
    (∃ r, ofAnswer j = .ok r) ∨ ∃ m, ofAnswer j = .error (.malformed (.mismatch m)) := by
  rw [ofAnswer]
  cases ofJson j with
  | ok r => exact .inl ⟨r, rfl⟩
  | error m => exact .inr ⟨m, rfl⟩

/-- **The reply in an answer is the one that its value holds, and an answer that holds none is
malformed.** -/
theorem ofAnswer_eq_ok_iff_shows {j : Json} (hj : j.KeysDistinct) :
    (∀ r, ofAnswer j = .ok r ↔ Shows j r) ∧
      ((∀ r, ¬Shows j r) → ∃ m, ofAnswer j = .error (.malformed (.mismatch m))) := by
  have hread (r : Reply) : ofAnswer j = .ok r ↔ Shows j r :=
    ofAnswer_eq_ok_iff.trans (ofJson_eq_ok_iff hj)
  refine ⟨hread, fun hnone => ?_⟩
  rcases ofAnswer_cases j with ⟨r, hr⟩ | hm
  · exact absurd ((hread r).mp hr) (hnone r)
  · exact hm

/-- An answer with further keys, in another order, one of whose rows is an array. -/
def mixedAnswer : Json :=
  .object [("took", .null),
    ("data", .array [.array [.string "A"],
      .object [("d", .array [.null]), ("rank", .null), ("s", .string "B")]]),
    ("totalCount", .ofUInt64 18446744073709551615)]

/-- Null for the rows, or a negative zero for the count, is malformed. -/
theorem ofAnswer_mixedAnswer :
    ofAnswer mixedAnswer = .ok ⟨18446744073709551615, [⟨"A", []⟩, ⟨"B", [.null]⟩]⟩ ∧
      (∃ m, ofAnswer (.array [.ofUInt64 1, .null]) = .error (.malformed (.mismatch m))) ∧
      ∃ m, ofAnswer (.object [("totalCount", .number (.float (.zero true)))]) =
        .error (.malformed (.mismatch m)) := by
  have hmixed : mixedAnswer.KeysDistinct := by
    simp [mixedAnswer, Json.KeysDistinct, Json.KeysDistinctItems, Json.KeysDistinctFields, Json.ofUInt64]
  have hnull : (Json.array [.ofUInt64 1, .null]).KeysDistinct := ⟨trivial, trivial, trivial⟩
  have hzero : (Json.object [("totalCount", .number (.float (.zero true)))]).KeysDistinct :=
    ⟨List.pairwise_singleton _ _, trivial, trivial⟩
  refine ⟨((ofAnswer_eq_ok_iff_shows hmixed).1 _).mpr ?_, (ofAnswer_eq_ok_iff_shows hnull).2 ?_,
    (ofAnswer_eq_ok_iff_shows hzero).2 ?_⟩
  · exact .full (.object rfl) (.cons (.bare (.one _)) (.cons (.full (.object rfl)) .nil))
  · intro r h
    have hread := (ofJson_eq_ok_iff hnull).mpr h
    cases hread
  · intro r h
    have hread := (ofJson_eq_ok_iff hzero).mpr h
    cases hread

end MarketScan.Reply
