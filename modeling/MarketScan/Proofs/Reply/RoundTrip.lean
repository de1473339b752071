import MarketScan.Proofs.Http.Exchange
import MarketScan.Proofs.Query.RoundTrip
import MarketScan.Proofs.Reply.Shape
import MarketScan.Proofs.Text.Utf8

/-!
# Replies are read back from what is answered

A reply that is written as an object, in either form of JSON text and then in bytes, is read back as it
was. The reply puts four levels around each value: itself, its rows, a row and the values of the row.
Where a value does not leave room for them, the answer is refused for its nesting.

The proof goes from the bytes inward: the text is that of the answer, the value that of the text
(`Json.parseWithin_write`), and the value holds the reply (`Reply.shows_json`).

* `Http.Answer.Delivers` — a success whose body is a text
* `Reply.nesting_json_le_iff` — the four levels
* `Reply.post_of_delivers` — what is read, and what happens where the nesting is too deep
-/

namespace MarketScan

namespace Http

/-! ## Answers that bring a text -/

/-- A success that brings the whole of a text. -/
structure Answer.Delivers (a : Answer) (text : String) : Prop where
  success : isSuccess a.status = true
  complete : a.isComplete = true
  received : a.received = Text.Utf8.encode text.toList

/-- It means what the text says. -/
theorem Answer.Delivers.value_eq {a : Answer} {text : String} (h : a.Delivers text) :
    a.value = (Json.parse text).mapError fun e => .malformed (.notJson e) := by
  have hvalue := Answer.value_of_complete (Answer.isSuccess_iff.mp h.success)
    (Answer.isComplete_iff.mp h.complete)
  rwa [Answer.text, h.received, Text.Utf8.decode_encode, String.ofList_toList] at hvalue

theorem Answer.Delivers.isFinal {a : Answer} {text : String} (h : a.Delivers text) : a.IsFinal :=
  (Answer.isSuccess_iff.mp h.success).isFinal

end Http

namespace Reply

/-! ## Replies as values -/

variable {r : Reply}

theorem shows_rowJson (row : Row) : ShowsRow (rowJson row) row := .full (.object rfl)

/-- A reply is shown by the value that it is written as. -/
theorem shows_json (r : Reply) : Shows r.json r := by
  refine .full (.object rfl) ?_
  rw [List.forall₂_map_left_iff, List.forall₂_same]
  exact fun row _ => shows_rowJson row

theorem holds_json {p : Json → Prop} (hp : Json.Hereditary p)
    (h : ∀ row ∈ r.rows, ∀ v ∈ row.values, p v) : p r.json := by
  have hcount : ["totalCount", "data"].Nodup := by decide
  have hkeys : ["s", "d"].Nodup := by decide
  have hrow : ∀ row ∈ r.rows, p (rowJson row) := by
    intro row hrow
    refine hp.object hkeys fun e he => ?_
    rcases List.mem_pair.mp he with rfl | rfl
    · exact hp.string row.ticker
    · exact hp.array (h row hrow)
  refine hp.object hcount fun e he => ?_
  rcases List.mem_pair.mp he with rfl | rfl
  · exact hp.whole _
  · refine hp.array fun j hj => ?_
    obtain ⟨row, hmem, rfl⟩ := List.mem_map.mp hj
    exact hrow row hmem

/-- A reply puts four levels around each value. -/
theorem nesting_json_le_iff {n : Nat} :
    r.json.nesting ≤ n + 4 ↔ ∀ row ∈ r.rows, ∀ v ∈ row.values, v.nesting ≤ n := by
  have hrow (row : Row) : (rowJson row).nesting ≤ n + 2 ↔ ∀ v ∈ row.values, v.nesting ≤ n := by
    rw [rowJson, Json.nesting_object_le_iff, List.forall_mem_cons, List.forall_mem_singleton,
      Json.nesting_array_le_iff]
    exact and_iff_right (Nat.zero_le _)
  rw [json, Json.nesting_object_le_iff, List.forall_mem_cons, List.forall_mem_singleton,
    Json.nesting_array_le_iff, List.forall_mem_map]
  simp only [hrow]
  exact and_iff_right (Nat.zero_le _)

/-! ## Reading what was written -/

section Text

variable {text : String}

/-- Either form of the text of a reply is that of its value, with nothing but blanks put in. -/
theorem exists_spacing (htext : text = r.json.compact ∨ text = r.json.pretty) :
    ∃ S : Json.Spacing, S.IsBlank ∧ text.toList = Json.write S 0 r.json [] := by
  rcases htext with rfl | rfl
  · exact ⟨.none, Json.Spacing.isBlank_none, String.toList_ofList⟩
  · exact ⟨.indented, Json.Spacing.isBlank_indented, String.toList_ofList⟩

/-- **A reply of whole numbers is read back from its text, and from an answer that brings it, where its
values are nested at most 123 deep. Where one is nested deeper the answer is malformed.** -/
theorem post_of_delivers (r : Reply)
    (hr : ∀ row ∈ r.rows, ∀ v ∈ row.values, v.Integral ∧ v.KeysDistinct)
    (htext : text = r.json.compact ∨ text = r.json.pretty) {client : Http.Client}
    {request : Http.Request} {m : Http.Message} (hrequest : client.message request = .ok m)
    (before : List Http.Message) {a : Http.Answer} (ha : a.Delivers text) :
    ((∀ row ∈ r.rows, ∀ v ∈ row.values, v.nesting ≤ 123) →
      ∃ j, Json.parse text = .ok j ∧ (client.post (.answers a) before request).2 = .ok j ∧
        ofAnswer j = .ok r) ∧
    ((∃ row ∈ r.rows, ∃ v ∈ row.values, 123 < v.nesting) →
      ∃ e, Json.parse text = .error e ∧
        (client.post (.answers a) before request).2 = .error (.malformed (.notJson e)) ∧
        e.message = s!"recursion limit exceeded at line {e.line} column {e.column}") := by
  obtain ⟨S, hS, hwrite⟩ := exists_spacing htext
  have hint : r.json.Integral :=
    holds_json Json.hereditary_integral fun row hrow v hv => (hr row hrow v hv).1
  have hdistinct : r.json.KeysDistinct :=
    holds_json Json.hereditary_keysDistinct fun row hrow v hv => (hr row hrow v hv).2
  -- what is answered means what the text does, so both halves are about reading the text
  rw [Http.Client.post_answers hrequest ha.isFinal, ha.value_eq]
  constructor
  · intro hfits
    have hread : Json.parse text = .ok r.json := by
      rw [Json.parse, hwrite]
      exact Json.parseWithin_write hS hint hdistinct (nesting_json_le_iff.mpr hfits)
    rw [hread]
    exact ⟨r.json, rfl, rfl, ofAnswer_eq_ok_iff.mpr ((ofJson_eq_ok_iff hdistinct).mpr r.shows_json)⟩
  · rintro ⟨row, hrow, v, hv, hv'⟩
    have hdeep : Json.maxNesting < r.json.nesting := by
      by_contra hshallow
      have hfits := nesting_json_le_iff.mp (Nat.le_of_not_lt hshallow) row hrow v hv
      omega
    obtain ⟨e, he, hcause⟩ := Json.parseWithin_write_of_lt hS hint hdistinct hdeep
    have hread : Json.parse text = .error e := by
      rw [Json.parse, hwrite]
      exact he
    rw [hread]
    refine ⟨e, rfl, rfl, ?_⟩
    rw [Json.SyntaxError.message, hcause]
    rfl

end Text

/-! ## On both sides of the bound -/

/-- A reply with a value of all sorts, a tower and a row of no values. -/
def towerReply (n : Nat) : Reply where
  totalCount := 18446744073709551615
  rows :=
    [⟨"NASDAQ:AAPL",
      [.object [("\x22é\n", .null), ("", .number (.whole (.ofInt64 (-1)))), ("\x00", .array [])],
       Query.tower (.string "\\u😀") n]⟩,
     ⟨"", []⟩]

theorem holds_towerReply {p : Json → Prop} (hp : Json.Hereditary p) (hnull : p .null) (n : Nat) :
    ∀ row ∈ (towerReply n).rows, ∀ v ∈ row.values, p v := by
  have htower : p (Query.tower (.string "\\u😀") n) := Query.holds_tower hp (hp.string _) n
  have hobject : p (.object
      [("\x22é\n", .null), ("", .number (.whole (.ofInt64 (-1)))), ("\x00", .array [])]) := by
    have hkeys : ["\x22é\n", "", "\x00"].Nodup := by decide
    refine hp.object hkeys ?_
    simp [hnull, hp.whole, hp.array]
  simp [towerReply, htower, hobject]

/-- An answer that brings a text as it is. -/
def answerOf (text : String) : Http.Answer := ⟨200, Text.Utf8.encode text.toList, none, none⟩

theorem delivers_answerOf (text : String) : (answerOf text).Delivers text := ⟨rfl, rfl, rfl⟩

/-- A tower of 123 arrays is read back, and one of 124 is too deep. -/
theorem post_towerReply :
    (∃ j, Json.parse (towerReply 123).json.pretty = .ok j ∧ ofAnswer j = .ok (towerReply 123)) ∧
      ∃ e, (Http.Client.plain.post (.answers (answerOf (towerReply 124).json.compact)) []
          ⟨"http://localhost/scan", [("cookie", "a=1")], ""⟩).2 = .error (.malformed (.notJson e)) ∧
        e.message = s!"recursion limit exceeded at line {e.line} column {e.column}" := by
  have hvalues (n : Nat) : ∀ row ∈ (towerReply n).rows, ∀ v ∈ row.values, v.Integral ∧ v.KeysDistinct :=
    fun row hrow v hv =>
      ⟨holds_towerReply Json.hereditary_integral trivial n row hrow v hv,
       holds_towerReply Json.hereditary_keysDistinct trivial n row hrow v hv⟩
  have hrequest : Http.Client.plain.message ⟨"http://localhost/scan", [("cookie", "a=1")], ""⟩ =
      .ok ⟨.post, "http://localhost/scan",
        [("content-type", "application/json"), ("cookie", "a=1")], some ""⟩ := by
    decide +kernel
  have hfits : ∀ row ∈ (towerReply 123).rows, ∀ v ∈ row.values, v.nesting ≤ 123 := by
    decide +kernel
  have hdeep : ∃ row ∈ (towerReply 124).rows, ∃ v ∈ row.values, 123 < v.nesting := by
    decide +kernel
  obtain ⟨j, hparse, -, hread⟩ :=
    (post_of_delivers _ (hvalues 123) (.inr rfl) hrequest [] (delivers_answerOf _)).1 hfits
  obtain ⟨e, -, hpost, hmessage⟩ :=
    (post_of_delivers _ (hvalues 124) (.inl rfl) hrequest [] (delivers_answerOf _)).2 hdeep
  exact ⟨⟨j, hparse, hread⟩, e, hpost, hmessage⟩

end Reply

end MarketScan
