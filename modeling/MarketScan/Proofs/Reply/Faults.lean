import MarketScan.Proofs.Reply.Shape

/-!
# Which fault of a reply is reported

A value that holds no reply may be wrong in many places, of which the first in document order is
reported. The fields of an object are gone through in their order and the items of an array in theirs; a
part that is missing or too much counts only when nothing is wrong with those that are there. The same
holds of each row inside. So what is reported stays the same whatever comes after it.

* `Reply.Kind` — which values are of a kind, and what is wrong with others
* `Reply.PartsFault` — the fault of a value with two parts
* `Reply.readParts_eq_error_iff` — reading parts reports it
* `Reply.ofAnswer_first_fault` — what is reported of an answer
-/

namespace MarketScan.Reply

/-! ## Kinds of values -/

/-- Which values are of a kind, and the fault of any other. -/
structure Kind where
  Holds : Json → Prop
  Fault : Json → Mismatch → Prop

/-- A field that has one of two keys has a value of the kind that belongs to it. -/
def IsSound (keys : String × String) (K L : Kind) (field : String × Json) : Prop :=
  (field.1 = keys.1 → K.Holds field.2) ∧ (field.1 = keys.2 → L.Holds field.2)

/-- The fault of a field that has one of two keys. -/
def FieldFault (keys : String × String) (K L : Kind) (field : String × Json) (m : Mismatch) : Prop :=
  field.1 = keys.1 ∧ K.Fault field.2 m ∨ field.1 = keys.2 ∧ L.Fault field.2 m

/-- The fault of a value that should have two parts. -/
inductive PartsFault (expected : Expected) (keys : String × String) (K L : Kind) :
    Json → Mismatch → Prop where
  | neither {j : Json} (harray : ∀ items, j ≠ .array items) (hobject : ∀ fields, j ≠ .object fields) :
    PartsFault expected keys K L j (.wrongKind j expected)
  | noItems : PartsFault expected keys K L (.array []) (.noParts expected)
  | firstItem {a : Json} {items : List Json} {m : Mismatch} (ha : K.Fault a m) :
    PartsFault expected keys K L (.array (a :: items)) m
  | secondItem {a b : Json} {items : List Json} {m : Mismatch} (ha : K.Holds a) (hb : L.Fault b m) :
    PartsFault expected keys K L (.array (a :: b :: items)) m
  | surplus {a b : Json} {items : List Json} (ha : K.Holds a) (hb : L.Holds b) (hmore : items ≠ []) :
    PartsFault expected keys K L (.array (a :: b :: items)) (.surplus (items.length + 2))
  | field {fields : List (String × Json)} {m : Mismatch}
      (h : FirstBad (IsSound keys K L) (fun field => FieldFault keys K L field m) fields) :
    PartsFault expected keys K L (.object fields) m
  | missing {fields : List (String × Json)} (h : ∀ field ∈ fields, IsSound keys K L field)
      (hkey : keys.1 ∉ Entries.keys fields) :
    PartsFault expected keys K L (.object fields) (.missing keys.1)

namespace Kind

/-- Strings. -/
def text : Kind where
  Holds j := ∃ s, j = .string s
  Fault j m := (∀ s, j ≠ .string s) ∧ m = .wrongKind j .text

/-- Arrays. -/
def sequence : Kind where
  Holds j := ∃ items, j = .array items
  Fault j m := (∀ items, j ≠ .array items) ∧ m = .wrongKind j .sequence

/-- Whole numbers of 64 bits without sign. -/
def count : Kind where
  Holds j := ∃ n, j = .ofUInt64 n
  Fault j m := (∃ n : Json.Whole, n.value < 0 ∧ j = .number (.whole n) ∧ m = .wrongNumber n .count) ∨
    (∀ n, j ≠ .number (.whole n)) ∧ m = .wrongKind j .count

/-- Rows: a string under `s` and, if there is one, an array under `d`. -/
def row : Kind where
  Holds j := ∃ r, ShowsRow j r
  Fault := PartsFault .row ("s", "d") text sequence

/-- Arrays of rows, whose fault is that of the first one that is no row. -/
def rows : Kind where
  Holds j := ∃ items rs, j = .array items ∧ List.Forall₂ ShowsRow items rs
  Fault j m := sequence.Fault j m ∨
    ∃ items, j = .array items ∧ FirstBad row.Holds (fun item => row.Fault item m) items

/-- Replies: a count under `totalCount` and, if there are any, rows under `data`. -/
def reply : Kind where
  Holds j := ∃ r, Shows j r
  Fault := PartsFault .reply ("totalCount", "data") count rows

variable {α : Type}

/-- A reader that takes what is of a kind and reports the fault of anything else. -/
structure IsReadBy (K : Kind) (read : Json → Except Mismatch α) : Prop where
  isOk_iff {j : Json} (hj : j.KeysDistinct) : (∃ x, read j = .ok x) ↔ K.Holds j
  error_iff {j : Json} (hj : j.KeysDistinct) {m : Mismatch} : read j = .error m ↔ K.Fault j m

end Kind

/-! ## Reading parts -/

section Parts

variable {α β : Type} {keys : String × String} {K L : Kind} {first : Json → Except Mismatch α}
  {second : Json → Except Mismatch (List β)}

/-- A field is taken in when its value is of the kind that belongs to its key. -/
theorem takeField_isOk_iff (hne : keys.1 ≠ keys.2) (hK : K.IsReadBy first) (hL : L.IsReadBy second)
    {field : String × Json} (hd : field.2.KeysDistinct) (before : Option α × Option (List β)) :
    (∃ after, takeField keys first second before field = .ok after) ↔ IsSound keys K L field := by
  unfold takeField IsSound
  rw [← hK.isOk_iff hd, ← hL.isOk_iff hd]
  by_cases hfirst : field.1 = keys.1
  · have hsecond : field.1 ≠ keys.2 := fun h => hne (hfirst.symm.trans h)
    cases first field.2 <;> simp [hfirst, hne, bind, Except.bind]
  · by_cases hsecond : field.1 = keys.2
    · cases second field.2 <;> simp [hsecond, hne.symm, bind, Except.bind]
    · simp [hfirst, hsecond]

theorem takeField_eq_error_iff (hne : keys.1 ≠ keys.2) (hK : K.IsReadBy first)
    (hL : L.IsReadBy second) {field : String × Json} (hd : field.2.KeysDistinct)
    (before : Option α × Option (List β)) (m : Mismatch) :
    takeField keys first second before field = .error m ↔ FieldFault keys K L field m := by
  unfold takeField FieldFault
  rw [← hK.error_iff hd, ← hL.error_iff hd]
  by_cases hfirst : field.1 = keys.1
  · cases first field.2 <;> simp [hfirst, hne, bind, Except.bind]
  · by_cases hsecond : field.1 = keys.2
    · cases second field.2 <;> simp [hsecond, hne.symm, bind, Except.bind]
    · simp [hfirst, hsecond]

/-- An object fails for its first field that is not sound, or else for the key that is not there. -/
theorem readParts_object_eq_error_iff (hne : keys.1 ≠ keys.2) (hK : K.IsReadBy first)
    (hL : L.IsReadBy second) (expected : Expected) {fields : List (String × Json)}
    (hj : (Json.object fields).KeysDistinct) {m : Mismatch} :
    readParts expected keys first second (.object fields) = .error m ↔
      FirstBad (IsSound keys K L) (fun field => FieldFault keys K L field m) fields ∨
        (∀ field ∈ fields, IsSound keys K L field) ∧ keys.1 ∉ Entries.keys fields ∧
          m = .missing keys.1 := by
  obtain ⟨hd, hvalues⟩ := Json.keysDistinct_object.mp hj
  have hgood : ∀ field ∈ fields, ∀ before,
      (∃ after, takeField keys first second before field = .ok after) ↔ IsSound keys K L field :=
    fun field hfield => takeField_isOk_iff hne hK hL (hvalues field hfield)
  have hbad : ∀ field ∈ fields, ∀ before m, takeField keys first second before field = .error m ↔
      FieldFault keys K L field m :=
    fun field hfield => takeField_eq_error_iff hne hK hL (hvalues field hfield)
  rw [readParts, bind_eq_error_iff, foldlM_eq_error_iff hgood hbad]
  refine or_congr_right ?_
  rw [← Entries.get?_eq_none_iff, ← foldlM_isOk_iff hgood]
  -- the key is not there exactly when nothing has been taken in for it
  have htaken (x? : Option α) (y? : Option (List β))
      (h : fields.foldlM (takeField keys first second) (none, none) = .ok (x?, y?)) :
      x? = none ↔ Entries.get? keys.1 fields = none := by
    obtain ⟨hx, -⟩ := (foldlM_takeField_eq_ok_iff hne hd).mp h
    generalize Entries.get? keys.1 fields = a? at hx
    cases hx <;> simp
  constructor
  · rintro ⟨⟨x?, y?⟩, hfold, hmissing⟩
    cases x? with
    | some x => cases hmissing
    | none =>
      cases hmissing
      exact ⟨⟨_, hfold⟩, (htaken none y? hfold).mp rfl, rfl⟩
  · rintro ⟨⟨⟨x?, y?⟩, hfold⟩, hkey, rfl⟩
    obtain rfl := (htaken x? y? hfold).mpr hkey
    exact ⟨_, hfold, rfl⟩

/-- The items of an array are read in their order, and counted when they are sound. -/
theorem readParts_items_eq_error_iff (hK : K.IsReadBy first) (hL : L.IsReadBy second)
    (expected : Expected) {a b : Json} {items : List Json}
    (hj : (Json.array (a :: b :: items)).KeysDistinct) {m : Mismatch} :
    readParts expected keys first second (.array (a :: b :: items)) = .error m ↔
      K.Fault a m ∨ K.Holds a ∧ (L.Fault b m ∨
        L.Holds b ∧ items ≠ [] ∧ m = .surplus (items.length + 2)) := by
  have ha := Json.keysDistinct_array.mp hj a (by simp)
  have hb := Json.keysDistinct_array.mp hj b (by simp)
  have hlast (x : α) (y : List β) :
      (if items.isEmpty then .ok (x, y) else .error (.surplus (items.length + 2))) =
        (.error m : Except Mismatch (α × List β)) ↔ items ≠ [] ∧ m = .surplus (items.length + 2) := by
    cases items <;> simp [eq_comm]
  rw [readParts, bind_eq_error_iff, hK.error_iff ha, ← hK.isOk_iff ha, ← hL.isOk_iff hb]
  simp only [bind_eq_error_iff, hL.error_iff hb, hlast, exists_and_right]

/-- **Reading parts reports the fault of the value.** -/
theorem readParts_eq_error_iff (hne : keys.1 ≠ keys.2) (hK : K.IsReadBy first)
    (hL : L.IsReadBy second) (expected : Expected) {j : Json} (hj : j.KeysDistinct) {m : Mismatch} :
    readParts expected keys first second j = .error m ↔ PartsFault expected keys K L j m := by
  match j with
  | .null | .bool _ | .number _ | .string _ =>
    constructor
    · rintro ⟨⟩
      exact .neither nofun nofun
    · rintro ⟨⟩
      rfl
  | .array [] =>
    constructor
    · rintro ⟨⟩
      exact .noItems
    · intro h
      cases h with
      | neither harray => exact absurd rfl (harray _)
      | noItems => rfl
  | .array [a] =>
    have ha := Json.keysDistinct_array.mp hj a List.mem_cons_self
    rw [readParts, bind_eq_error_iff, hK.error_iff ha]
    constructor
    · rintro (h | ⟨x, -, ⟨⟩⟩)
      exact .firstItem h
    · intro h
      cases h with
      | neither harray => exact absurd rfl (harray _)
      | firstItem h => exact .inl h
  | .array (a :: b :: items) =>
    rw [readParts_items_eq_error_iff hK hL expected hj]
    constructor
    · rintro (h | ⟨hx, h | ⟨hy, hmore, rfl⟩⟩)
      · exact .firstItem h
      · exact .secondItem hx h
      · exact .surplus hx hy hmore
    · intro h
      cases h with
      | neither harray => exact absurd rfl (harray _)
      | firstItem h => exact .inl h
      | secondItem hx h => exact .inr ⟨hx, .inl h⟩
      | surplus hx hy hmore => exact .inr ⟨hx, .inr ⟨hy, hmore, rfl⟩⟩
  | .object fields =>
    rw [readParts_object_eq_error_iff hne hK hL expected hj]
    constructor
    · rintro (h | ⟨h, hkey, rfl⟩)
      · exact .field h
      · exact .missing h hkey
    · intro h
      cases h with
      | neither _ hobject => exact absurd rfl (hobject _)
      | field h => exact .inl h
      | missing h hkey => exact .inr ⟨h, hkey, rfl⟩

end Parts

/-! ## Reading each kind -/

namespace Kind

theorem isReadBy_text : text.IsReadBy readText := by
  constructor
  case isOk_iff => simp [readText_eq_ok_iff, text]
  case error_iff =>
    intro j _ m
    cases j <;> simp [readText, text, eq_comm]

theorem isReadBy_sequence : sequence.IsReadBy readSequence := by
  constructor
  case isOk_iff => simp [readSequence_eq_ok_iff, sequence]
  case error_iff =>
    intro j _ m
    cases j <;> simp [readSequence, sequence, eq_comm]

theorem isReadBy_count : count.IsReadBy readCount := by
  constructor
  case isOk_iff => simp [readCount_eq_ok_iff, count]
  case error_iff =>
    intro j _ m
    cases j with
    | number n =>
      cases n with
      | float x => simp [readCount, count, eq_comm]
      | whole n =>
        by_cases hsign : n.value < 0
        · have hnot : ¬0 ≤ n.value := Int.not_le.mpr hsign
          simp [readCount, Json.Whole.toUInt64?, count, hsign, hnot, eq_comm]
        · have hle : 0 ≤ n.value := Int.not_lt.mp hsign
          simp [readCount, Json.Whole.toUInt64?, count, hsign, hle]
    | _ => simp [readCount, count, eq_comm]

theorem isReadBy_row : row.IsReadBy readRow := by
  constructor
  case isOk_iff =>
    intro j hj
    simp [readRow_eq_ok_iff hj, row]
  case error_iff =>
    intro j hj m
    have hparts : readParts .row ("s", "d") readText readSequence j = .error m ↔ row.Fault j m :=
      readParts_eq_error_iff (by decide) isReadBy_text isReadBy_sequence .row hj
    rw [readRow, bind_eq_error_iff, hparts]
    refine or_iff_left ?_
    rintro ⟨⟨ticker, values⟩, -, ⟨⟩⟩

theorem isReadBy_rows : rows.IsReadBy readRows := by
  constructor
  case isOk_iff =>
    intro j hj
    simp only [readRows_eq_ok_iff hj, rows]
    exact exists_comm
  case error_iff =>
    intro j hj m
    rw [readRows, bind_eq_error_iff, isReadBy_sequence.error_iff hj]
    refine or_congr_right (exists_congr fun items => ?_)
    rw [readSequence_eq_ok_iff, mapM_eq_error_iff]
    refine and_congr_right ?_
    rintro rfl
    have hitems := Json.keysDistinct_array.mp hj
    exact firstBad_congr (fun item hitem => isReadBy_row.isOk_iff (hitems item hitem))
      fun item hitem => isReadBy_row.error_iff (hitems item hitem)

theorem isReadBy_reply : reply.IsReadBy ofJson := by
  constructor
  case isOk_iff =>
    intro j hj
    simp [ofJson_eq_ok_iff hj, reply]
  case error_iff =>
    intro j hj m
    have hparts : readParts .reply ("totalCount", "data") readCount readRows j = .error m ↔
        reply.Fault j m :=
      readParts_eq_error_iff (by decide) isReadBy_count isReadBy_rows .reply hj
    rw [ofJson, bind_eq_error_iff, hparts]
    refine or_iff_left ?_
    rintro ⟨⟨totalCount, rows⟩, -, ⟨⟩⟩

end Kind

/-! ## Messages -/

theorem head?_toList_append {a b : String} {c : Char} (h : a.toList.head? = some c) :
    (a ++ b).toList.head? = some c := by
  simp [String.toList_append, List.head?_append, h]

/-- The messages of all other mismatches begin alike. -/
theorem head?_message_of_ne_missing {m : Mismatch} (h : ∀ key, m ≠ .missing key) :
    m.message.toList.head? = some 'i' := by
  cases m with
  | missing key => exact absurd rfl (h key)
  | wrongKind found expected =>
    change (s!"invalid type: {found.describe}, expected {expected.words}").toList.head? = some 'i'
    iterate 3 apply head?_toList_append
    rfl
  | wrongNumber n expected =>
    change (s!"invalid value: integer `{String.ofList n.write}`, expected {expected.words}").toList.head? =
      some 'i'
    iterate 3 apply head?_toList_append
    rfl
  | noParts expected =>
    change (s!"invalid length 0, expected {expected.words} with 2 elements").toList.head? = some 'i'
    iterate 2 apply head?_toList_append
    rfl
  | surplus length =>
    change (s!"invalid length {length}, expected fewer elements in array").toList.head? = some 'i'
    iterate 2 apply head?_toList_append
    rfl

/-- The message that a key is missing is told from any other. -/
theorem message_eq_missing_iff {m : Mismatch} {key : String} :
    m.message = (Mismatch.missing key).message ↔ m = .missing key := by
  constructor
  · intro h
    by_cases hmissing : ∃ key', m = .missing key'
    · obtain ⟨key', rfl⟩ := hmissing
      have htail : "missing field `" ++ key' ++ "`" = "missing field `" ++ key ++ "`" := h
      simpa using htail
    · have hother := head?_message_of_ne_missing (not_exists.mp hmissing)
      have hthis : (Mismatch.missing key).message.toList.head? = some 'm' := by
        change (s!"missing field `{key}`").toList.head? = some 'm'
        iterate 2 apply head?_toList_append
        rfl
      rw [h, hthis] at hother
      exact absurd hother (by decide)
  · rintro rfl
    rfl

/-! ## Faults of a kind -/

section Faults

variable {α β : Type} {expected : Expected} {keys : String × String} {K L : Kind} {j : Json}
  {key : String}

/-- What is not of a kind has a fault. -/
theorem Kind.IsReadBy.exists_fault {read : Json → Except Mismatch α} (hK : K.IsReadBy read)
    (hj : j.KeysDistinct) (h : ¬K.Holds j) : ∃ m, K.Fault j m := by
  rw [← hK.isOk_iff hj] at h
  simp only [← hK.error_iff hj]
  cases hread : read j with
  | ok x => exact absurd ⟨x, hread⟩ h
  | error m => exact ⟨m, rfl⟩

/-- What is of a kind has none. -/
theorem Kind.IsReadBy.not_fault {read : Json → Except Mismatch α} (hK : K.IsReadBy read)
    (hj : j.KeysDistinct) (h : K.Holds j) {m : Mismatch} : ¬K.Fault j m := by
  obtain ⟨x, hx⟩ := (hK.isOk_iff hj).mpr h
  rw [← hK.error_iff hj, hx]
  nofun

section Field

variable {first : Json → Except Mismatch α} {second : Json → Except Mismatch β}
  {field : String × Json}

theorem exists_fieldFault (hK : K.IsReadBy first) (hL : L.IsReadBy second)
    (hd : field.2.KeysDistinct) (h : ¬IsSound keys K L field) :
    ∃ m, FieldFault keys K L field m := by
  rw [IsSound, not_and_or, Classical.not_imp, Classical.not_imp] at h
  rcases h with ⟨hkey, hvalue⟩ | ⟨hkey, hvalue⟩
  · obtain ⟨m, hm⟩ := hK.exists_fault hd hvalue
    exact ⟨m, .inl ⟨hkey, hm⟩⟩
  · obtain ⟨m, hm⟩ := hL.exists_fault hd hvalue
    exact ⟨m, .inr ⟨hkey, hm⟩⟩

theorem FieldFault.not_isSound {m : Mismatch} (h : FieldFault keys K L field m)
    (hK : K.IsReadBy first) (hL : L.IsReadBy second) (hd : field.2.KeysDistinct) :
    ¬IsSound keys K L field := by
  rintro ⟨hfirst, hsecond⟩
  rcases h with ⟨hkey, hm⟩ | ⟨hkey, hm⟩
  · exact hK.not_fault hd (hfirst hkey) hm
  · exact hL.not_fault hd (hsecond hkey) hm

end Field

/-- Where no part is told to miss a key, only the key of the first part is. -/
theorem PartsFault.eq_of_missing (h : PartsFault expected keys K L j (.missing key))
    (hK : ∀ a, ¬K.Fault a (.missing key)) (hL : ∀ b, ¬L.Fault b (.missing key)) : key = keys.1 := by
  cases h with
  | firstItem ha => exact absurd ha (hK _)
  | secondItem _ hb => exact absurd hb (hL _)
  | field h =>
    obtain ⟨_, field, _, _, _, ⟨_, hm⟩ | ⟨_, hm⟩⟩ := h
    · exact absurd hm (hK _)
    · exact absurd hm (hL _)
  | missing => rfl

namespace Kind

theorem not_fault_text : ¬text.Fault j (.missing key) := by
  rintro ⟨-, ⟨⟩⟩

theorem not_fault_sequence : ¬sequence.Fault j (.missing key) := by
  rintro ⟨-, ⟨⟩⟩

theorem not_fault_count : ¬count.Fault j (.missing key) := by
  rintro (⟨n, -, -, ⟨⟩⟩ | ⟨-, ⟨⟩⟩)

theorem eq_of_fault_rows (h : rows.Fault j (.missing key)) : key = "s" := by
  rcases h with h | ⟨items, -, before, item, after, -, -, h⟩
  · exact absurd h not_fault_sequence
  · exact PartsFault.eq_of_missing h (fun _ => not_fault_text) fun _ => not_fault_sequence

end Kind

end Faults

/-! ## What is reported -/

/-- A field of a reply whose value is a count or rows if its key asks for one. -/
def IsSoundField (field : String × Json) : Prop :=
  IsSound ("totalCount", "data") .count .rows field

theorem ofAnswer_eq_error_iff {j : Json} (hj : j.KeysDistinct) {e : Failure} :
    ofAnswer j = .error e ↔ ∃ m, Kind.reply.Fault j m ∧ e = .malformed (.mismatch m) := by
  simp only [← Kind.isReadBy_reply.error_iff hj]
  rw [ofAnswer]
  cases ofJson j <;> simp [eq_comm]

/-- A field that is not sound has a fault, which is that of any object where it comes first. -/
theorem exists_fault_of_not_isSoundField {before : List (String × Json)} {field : String × Json}
    (hd : field.2.KeysDistinct) (hbefore : ∀ f ∈ before, IsSoundField f) (h : ¬IsSoundField field)
    (after : List (String × Json)) :
    ∃ m, Kind.reply.Fault (.object [field]) m ∧
      Kind.reply.Fault (.object (before ++ field :: after)) m := by
  obtain ⟨m, hm⟩ := exists_fieldFault Kind.isReadBy_count Kind.isReadBy_rows hd h
  exact ⟨m, .field ⟨[], field, [], rfl, nofun, hm⟩, .field ⟨before, field, after, rfl, hbefore, hm⟩⟩

/-- The count is told to be missing exactly when all fields are sound. -/
theorem eq_missing_iff_forall_isSoundField {fields : List (String × Json)}
    (hj : (Json.object fields).KeysDistinct) {m : Mismatch} (h : Kind.reply.Fault (.object fields) m) :
    m = .missing "totalCount" ↔ ∀ field ∈ fields, IsSoundField field := by
  obtain ⟨-, hvalues⟩ := Json.keysDistinct_object.mp hj
  cases h with
  | neither _ hobject => exact absurd rfl (hobject _)
  | missing h hkey => exact iff_of_true rfl h
  | field h =>
    obtain ⟨before, field, after, rfl, -, hm⟩ := h
    have hfield : field ∈ before ++ field :: after := List.mem_append_right before List.mem_cons_self
    refine iff_of_false ?_ fun hsound => hm.not_isSound Kind.isReadBy_count Kind.isReadBy_rows
      (hvalues field hfield) (hsound field hfield)
    rintro rfl
    rcases hm with ⟨-, hm⟩ | ⟨-, hm⟩
    · exact Kind.not_fault_count hm
    · exact absurd (Kind.eq_of_fault_rows hm) (by decide)

/-- **An answer that holds no reply is malformed by its first fault.** Of an object, that is what is
reported of its first field that is not sound, if it stood alone; and that the count is missing, when
all of them are sound. -/
theorem ofAnswer_first_fault {j : Json} (hj : j.KeysDistinct) :
    (∀ e, ofAnswer j = .error e ↔ ∃ m, Kind.reply.Fault j m ∧ e = .malformed (.mismatch m)) ∧
      (∀ before field after, j = .object (before ++ field :: after) →
        (∀ f ∈ before, IsSoundField f) → ¬IsSoundField field →
          ofAnswer j = ofAnswer (.object [field])) ∧
      ∀ fields e, j = .object fields → ofAnswer j = .error e →
        (e.message = "Malformed response: missing field `totalCount`" ↔
          ∀ field ∈ fields, IsSoundField field) := by
  refine ⟨fun e => ofAnswer_eq_error_iff hj, ?_, ?_⟩
  · rintro before field after rfl hbefore hfield
    obtain ⟨-, hvalues⟩ := Json.keysDistinct_object.mp hj
    have hd := hvalues field (List.mem_append_right before List.mem_cons_self)
    have hone : (Json.object [field]).KeysDistinct :=
      Json.keysDistinct_object.mpr ⟨List.pairwise_singleton _ _, by simpa using hd⟩
    obtain ⟨m, halone, hall⟩ := exists_fault_of_not_isSoundField hd hbefore hfield after
    rw [(ofAnswer_eq_error_iff hj).mpr ⟨m, hall, rfl⟩,
      (ofAnswer_eq_error_iff hone).mpr ⟨m, halone, rfl⟩]
  · rintro fields e rfl h
    obtain ⟨m, hm, rfl⟩ := (ofAnswer_eq_error_iff hj).mp h
    have hmissing : "Malformed response: missing field `totalCount`" =
        "Malformed response: " ++ (Mismatch.missing "totalCount").message := rfl
    rw [← eq_missing_iff_forall_isSoundField hj hm, ← message_eq_missing_iff, hmissing]
    exact String.append_right_inj "Malformed response: "

/-- An answer of whose rows the second has null for its values and its ticker and the third has none of
either, and whose count is text. -/
def faultyAnswer : Json :=
  .object [("took", .null),
    ("data", .array [.array [.string "A"], .object [("d", .null), ("s", .null)], .object []]),
    ("totalCount", .string "many")]

/-- The values of the second row are what is reported of it. -/
theorem ofAnswer_faultyAnswer :
    faultyAnswer.KeysDistinct ∧
      ofAnswer faultyAnswer = .error (.malformed (.mismatch (.wrongKind .null .sequence))) ∧
      ofAnswer (.object [("totalCount", .string "many"), ("data", .null)]) =
        ofAnswer (.object [("totalCount", .string "many")]) ∧
      ∃ e, ofAnswer (.object [("data", .array [])]) = .error e ∧
        e.message = "Malformed response: missing field `totalCount`" := by
  have hfaulty : faultyAnswer.KeysDistinct := by
    simp [faultyAnswer, Json.KeysDistinct, Json.KeysDistinctItems, Json.KeysDistinctFields]
  have htwo : (Json.object [("totalCount", .string "many"), ("data", .null)]).KeysDistinct := by
    simp [Json.KeysDistinct, Json.KeysDistinctFields]
  have hnone : (Json.object [("data", .array [])]).KeysDistinct := by
    simp [Json.KeysDistinct, Json.KeysDistinctItems, Json.KeysDistinctFields]
  have hrow : Kind.row.Fault (.object [("d", .null), ("s", .null)]) (.wrongKind .null .sequence) :=
    .field ⟨[], _, _, rfl, List.forall_mem_nil _, .inr ⟨rfl, by simp, rfl⟩⟩
  refine ⟨hfaulty, ((ofAnswer_first_fault hfaulty).1 _).mpr ⟨_, ?_, rfl⟩,
    (ofAnswer_first_fault htwo).2.1 [] _ _ rfl (List.forall_mem_nil _) ?_, _, rfl,
    ((ofAnswer_first_fault hnone).2.2 _ _ rfl rfl).mpr ?_⟩
  · -- the first row is sound, and so is the key that is not asked for
    refine .field ⟨[("took", .null)], _, _, rfl, ?_,
      .inr ⟨rfl, .inr ⟨_, rfl, [.array [.string "A"]], _, _, rfl, ?_, hrow⟩⟩⟩
    · simp [IsSound]
    · simpa [Kind.row] using ⟨_, ShowsRow.bare (.one _)⟩
  · rintro ⟨hcount, -⟩
    obtain ⟨n, hn⟩ := hcount rfl
    cases hn
  · simpa [IsSoundField, IsSound] using ⟨[], [], rfl, .nil⟩

end MarketScan.Reply
