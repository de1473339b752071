import MarketScan.Proofs.Query.Identity
import MarketScan.Proofs.Query.Schema
import MarketScan.Proofs.Reply.Shape
import Mathlib.Data.List.TakeWhile

/-!
# What a scan sends and what it makes of the answer

A scan hands one request to what sends it, whatever is answered. The columns that name the values of
the answer are those of the body that was sent.

* `Settings.IsRequest` — the request that a query is sent as
* `Query.readAnswer_eq_ok_iff` — the answers that a table is made of
* `Settings.run_scan` — both ways of scanning, for every answer and every failure
-/

namespace MarketScan

namespace Query

/-- The columns stand in the document. -/
theorem get?_columns_fields (q : Query) :
    Entries.get? "columns" q.document.fields = some (.ofStrings q.columns) := by
  obtain ⟨-, -, hcolumns, -⟩ := q.document.get?_ownFields
  rw [Document.fields, Entries.get?_append, hcolumns]
  rfl

end Query

namespace Settings

/-! ## The request -/

/-- The request of a query: to the address of its first market, with the cookies if there are any. -/
structure IsRequest (s : Settings) (q : Query) (r : Http.Request) : Prop where
  /-- No slash is left at the end of the base. -/
  url : ∃ base slashes market others,
    s.baseUrl.toList = base ++ slashes ∧ (∀ c ∈ slashes, c = '/') ∧ base.getLast? ≠ some '/' ∧
      q.markets = market :: others ∧ r.url = String.ofList base ++ "/" ++ market ++ "/scan"
  headers : r.headers = ("user-agent", s.userAgent) ::
    if s.cookies.entries = [] then []
    else [("cookie", "; ".intercalate (s.cookies.entries.map fun e => e.1 ++ "=" ++ e.2))]
  body : r.body = q.text
  /-- The columns of the query stand in the body, under a key that is there once. -/
  columns : ∃ fields, r.body = (Json.object fields).compact ∧ (Json.object fields).KeysDistinct ∧
    Entries.get? "columns" fields = some (.ofStrings q.columns)

/-- A text without the slashes at its end, and those slashes. -/
theorem exists_eq_append_slashes (s : List Char) :
    ∃ slashes, s = (s.reverse.dropWhile (· = '/')).reverse ++ slashes ∧ (∀ c ∈ slashes, c = '/') ∧
      (s.reverse.dropWhile (· = '/')).reverse.getLast? ≠ some '/' := by
  refine ⟨(s.reverse.takeWhile (· = '/')).reverse, ?_, fun c hc => ?_, ?_⟩
  · rw [← List.reverse_append, List.takeWhile_append_dropWhile, List.reverse_reverse]
  · have h := List.mem_takeWhile_imp (List.mem_reverse.mp hc)
    exact of_decide_eq_true h
  · rw [List.getLast?_reverse]
    intro h
    have hslash := List.head?_dropWhile_not (fun c => decide (c = '/')) s.reverse
    rw [h] at hslash
    cases hslash

theorem isRequest_request (s : Settings) {q : Query} (hq : q.Reachable) :
    s.IsRequest q (s.request q) := by
  constructor
  case url =>
    -- the base without its slashes is what is left when they are dropped from its reverse
    obtain ⟨slashes, hbase, hslashes, hlast⟩ := exists_eq_append_slashes s.baseUrl.toList
    obtain ⟨market, others, hmarkets⟩ := List.exists_cons_of_ne_nil hq.sound.markets
    refine ⟨_, slashes, market, others, hbase, hslashes, hlast, hmarkets, ?_⟩
    rw [request, scanUrl, Query.primaryMarket, hmarkets]
    rfl
  case headers =>
    rw [request, headers, Cookies.header?]
    cases s.cookies.entries <;> rfl
  case body => rfl
  case columns => exact ⟨q.document.fields, rfl, hq.keysDistinct, q.get?_columns_fields⟩

/-! ## Sending it -/

/-- A scan is one sending, of whose answer a table is made. -/
theorem run_scan_eq {σ : Type} (s : Settings) (send : Http.Request → StateM σ (Except Failure Json))
    (q : Query) (sent : σ) :
    (s.scan send q).run sent = (((send (s.request q)).run sent).1.bind q.readAnswer,
      ((send (s.request q)).run sent).2) := rfl

/-- Sends a request by noting it, and gives the answer. -/
def noting (answer : Http.Request → Except Failure Json) (r : Http.Request) :
    StateM (List Http.Request) (Except Failure Json) := do
  modify fun sent => sent ++ [r]
  return answer r

theorem run_scanRaw_noting (s : Settings) (q : Query) (answer : Http.Request → Except Failure Json)
    (sent : List Http.Request) :
    (s.scanRaw (noting answer) q).run sent = (answer (s.request q), sent ++ [s.request q]) := rfl

theorem run_scan_noting (s : Settings) (q : Query) (answer : Http.Request → Except Failure Json)
    (sent : List Http.Request) :
    (s.scan (noting answer) q).run sent =
      ((answer (s.request q)).bind q.readAnswer, sent ++ [s.request q]) := rfl

end Settings

/-! ## Reading the answer -/

namespace Query

/-- A table is made of an answer exactly when it holds a reply. -/
theorem readAnswer_eq_ok_iff (q : Query) {j : Json} (hj : j.KeysDistinct) {t : Table} :
    q.readAnswer j = .ok t ↔ ∃ r, Reply.Shows j r ∧ t = r.table q.columns := by
  rw [readAnswer, bind_eq_ok_iff]
  refine exists_congr fun r => and_congr (Reply.ofAnswer_eq_ok_iff.trans (Reply.ofJson_eq_ok_iff hj)) ?_
  exact ⟨fun h => (Except.ok.inj h).symm, fun h => congrArg Except.ok h.symm⟩

theorem readAnswer_eq_error (q : Query) {j : Json} (hj : j.KeysDistinct)
    (h : ∀ r, ¬Reply.Shows j r) : ∃ m, q.readAnswer j = .error (.malformed (.mismatch m)) := by
  rcases Reply.ofAnswer_cases j with ⟨r, hr⟩ | ⟨m, hm⟩
  · exact absurd ((Reply.ofJson_eq_ok_iff hj).mp (Reply.ofAnswer_eq_ok_iff.mp hr)) (h r)
  · refine ⟨m, ?_⟩
    rw [readAnswer, hm]
    rfl

end Query

namespace Settings

/-- **A scan sends one request, the same whether its answer is read or not.** A failure to send it is
the failure of the scan. An answer that holds a reply becomes a table of its rows, whose values are
named after the columns that were sent; any other answer is malformed. -/
theorem run_scan (s : Settings) {q : Query} (hq : q.Reachable)
    (answer : Http.Request → Except Failure Json)
    (hanswer : ∀ r j, answer r = .ok j → j.KeysDistinct) :
    ∃ r result, s.IsRequest q r ∧
      (s.scanRaw (noting answer) q).run [] = (answer r, [r]) ∧
      (s.scan (noting answer) q).run [] = (result, [r]) ∧
      (∀ e, answer r = .error e → result = .error e) ∧
      ∀ j, answer r = .ok j →
        (∀ t, result = .ok t ↔ ∃ reply, Reply.Shows j reply ∧
          t = ⟨reply.totalCount, reply.rows.map (Record.ofRow q.columns)⟩) ∧
        ((∀ reply, ¬Reply.Shows j reply) → ∃ m, result = .error (.malformed (.mismatch m))) := by
  refine ⟨s.request q, (answer (s.request q)).bind q.readAnswer, s.isRequest_request hq,
    s.run_scanRaw_noting q answer [], s.run_scan_noting q answer [], fun e he => ?_, fun j hj => ?_⟩
  · rw [he]
    rfl
  · have hdistinct := hanswer _ j hj
    have hresult : (answer (s.request q)).bind q.readAnswer = q.readAnswer j := by
      rw [hj]
      rfl
    rw [hresult]
    exact ⟨fun t => q.readAnswer_eq_ok_iff hdistinct, q.readAnswer_eq_error hdistinct⟩

/-- Columns one of which is there twice and one has the key of the ticker, for an empty market. -/
def repeatedColumns : List Query.Call :=
  [.setMarkets ["", "uk"], .select ["symbol", "close", "close"]]

/-- A row with a value too many. -/
def longAnswer : Json :=
  .array [.ofUInt64 7, .array [.array [.string "A",
    .array [.null, .ofUInt64 1, .ofUInt64 2, .ofUInt64 3]]]]

theorem run_scan_repeatedColumns :
    ∃ r t, IsRequest ⟨"http://localhost//", "me", Cookies.none.insert "a" "1"⟩
        (Query.ofCalls repeatedColumns) r ∧
      (scan ⟨"http://localhost//", "me", Cookies.none.insert "a" "1"⟩ (noting fun _ => .ok longAnswer)
        (Query.ofCalls repeatedColumns)).run [] = (.ok t, [r]) ∧
      t.totalCount = 7 ∧ t.records.map (·.get? "close") = [some (.ofUInt64 2)] := by
  have hcalls : ∀ c ∈ repeatedColumns, c.Holds Json.KeysDistinct := by
    simp [repeatedColumns, Query.Call.Holds]
  have hdistinct : longAnswer.KeysDistinct := by
    simp [longAnswer, Json.KeysDistinct, Json.KeysDistinctItems, Json.ofUInt64]
  have hshows : Reply.Shows longAnswer
      ⟨7, [⟨"A", [.null, .ofUInt64 1, .ofUInt64 2, .ofUInt64 3]⟩]⟩ :=
    .full (.two _ _) (.cons (.full (.two _ _)) .nil)
  obtain ⟨r, result, hr, -, hrun, -, hread⟩ :=
    run_scan ⟨"http://localhost//", "me", Cookies.none.insert "a" "1"⟩
      ⟨repeatedColumns, hcalls, rfl⟩ (fun _ => .ok longAnswer)
      fun _ _ h => Except.ok.inj h ▸ hdistinct
  have hresult := ((hread longAnswer rfl).1 _).mpr ⟨_, hshows, rfl⟩
  exact ⟨r, _, hr, hresult ▸ hrun, rfl, rfl⟩

end Settings

end MarketScan
