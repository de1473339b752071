import MarketScan.Http.Exchange
import MarketScan.Proofs.Except
import MarketScan.Proofs.Json.Fuel

/-!
# What becomes of a request

A request that can be sent and is not sent on to another address comes to one of five ends. The
connection is dropped; the status is a refusal, whatever the body is; the body of a success is cut
short; or it is complete, and then it is one JSON text or it is not.

* `Http.Answer.Classified` — the ends that an answer leads to, each with its condition
* `Http.Answer.classified_value` — the conditions are those of the value of an answer
* `Http.Client.Ends` — how an exchange ends, message by message
* `Http.Client.ends_iff` — the exchange ends so
* `Http.Client.post_classified` — the ends of a request, and what counts as one JSON text
-/

namespace MarketScan.Http

open Json (Cause)
open Json.Grammar (Delimited isBlank skipBlanks_eq_nil_iff)

namespace Answer

variable {a b : Answer}

/-! ## The conditions -/

/-- The status is a success. -/
def IsSuccess (a : Answer) : Prop := 200 ≤ a.status ∧ a.status ≤ 299

instance (a : Answer) : Decidable a.IsSuccess := inferInstanceAs (Decidable (_ ∧ _))

/-- The body ends before the length that the server claims. There is none after 204 and 304. -/
def CutShort (a : Answer) : Prop :=
  a.status ≠ 204 ∧ a.status ≠ 304 ∧ ∃ n, a.claimed = some n ∧ a.body.length < n

/-- The text of the body, in which other bytes than UTF-8 are replaced. -/
def text (a : Answer) : String := String.ofList (Text.Utf8.decode a.received)

/-- The ends that an answer leads to. -/
structure Classified (a : Answer) (outcome : Except Failure Json) : Prop where
  rejected_iff (status : UInt16) (text : String) : outcome = .error (.rejected status text) ↔
    ¬a.IsSuccess ∧ status = a.status ∧ text = phrase a.status
  http_iff (fault : Fault) : outcome = .error (.http fault) ↔
    a.IsSuccess ∧ a.CutShort ∧ fault = .cutShort
  ok_iff (j : Json) : outcome = .ok j ↔ a.IsSuccess ∧ ¬a.CutShort ∧ Json.parse a.text = .ok j
  malformed_iff (m : Malformation) : outcome = .error (.malformed m) ↔
    a.IsSuccess ∧ ¬a.CutShort ∧ ∃ e, Json.parse a.text = .error e ∧ m = .notJson e

theorem isSuccess_iff : isSuccess a.status = true ↔ a.IsSuccess := by
  unfold isSuccess IsSuccess
  rw [Bool.and_eq_true, decide_eq_true_eq, decide_eq_true_eq, UInt16.lt_iff_toNat_lt,
    UInt16.le_iff_toNat_le, UInt16.le_iff_toNat_le]
  exact and_congr_right fun _ => Nat.lt_succ_iff

theorem isComplete_iff : a.isComplete = true ↔ ¬a.CutShort := by
  unfold isComplete CutShort hasBody
  cases hn : a.claimed with
  | none => simp
  | some n => simp [or_iff_not_imp_left]

/-! ## The value of an answer -/

theorem value_of_not_isSuccess (h : ¬a.IsSuccess) :
    a.value = .error (.rejected a.status (phrase a.status)) := by
  rw [← isSuccess_iff, Bool.not_eq_true] at h
  rw [value, h]
  rfl

theorem value_of_cutShort (h : a.IsSuccess) (hcut : a.CutShort) : a.value = .error (.http .cutShort) := by
  have hcomplete : a.isComplete = false := by
    rw [Bool.eq_false_iff]
    exact fun h => isComplete_iff.mp h hcut
  rw [value, isSuccess_iff.mpr h, hcomplete]
  rfl

/-- A success that brings its whole body means what the text says. -/
theorem value_of_complete (h : a.IsSuccess) (hcut : ¬a.CutShort) :
    a.value = (Json.parse a.text).mapError fun e => .malformed (.notJson e) := by
  rw [value, isSuccess_iff.mpr h, isComplete_iff.mpr hcut, text]
  cases Json.parse _ <;> rfl

/-- **The end that an answer leads to is the one whose condition it meets.** -/
theorem classified_value (a : Answer) : a.Classified a.value := by
  by_cases hsuccess : a.IsSuccess
  · by_cases hcut : a.CutShort
    · rw [value_of_cutShort hsuccess hcut]
      constructor <;> simp [hsuccess, hcut, eq_comm]
    · rw [value_of_complete hsuccess hcut]
      cases hread : Json.parse a.text <;> constructor <;>
        simp [hsuccess, hcut, hread, eq_comm, Except.mapError]
  · rw [value_of_not_isSuccess hsuccess]
    constructor <;> simp [hsuccess, eq_comm]

/-! ## Bodies that are one JSON text -/

/-- The body of a success is a value and blanks, or it means nothing. -/
theorem value_eq_ok_iff (h : a.IsSuccess) (hcut : ¬a.CutShort) {j : Json} :
    a.value = .ok j ↔ ∃ fuel rest,
      Json.Grammar.value fuel Json.maxNesting a.text.toList = .ok (j, rest) ∧
        ∀ c ∈ rest, isBlank c = true := by
  have hread := a.classified_value.ok_iff j
  rw [and_iff_right h, and_iff_right hcut, Json.parse, Json.parseWithin_eq_ok_iff_exists] at hread
  simpa only [skipBlanks_eq_nil_iff] using hread

/-- A blank body holds no value. -/
theorem value_of_blank (h : a.IsSuccess) (hcut : ¬a.CutShort)
    (hblank : ∀ c ∈ a.text.toList, isBlank c = true) :
    ∃ e, a.value = .error (.malformed (.notJson e)) ∧ e.cause = .endBeforeValue := by
  have hread := Json.parseWithin_blank Json.maxNesting (skipBlanks_eq_nil_iff.mpr hblank)
  rw [value_of_complete h hcut, Json.parse, hread]
  exact ⟨_, rfl, rfl⟩

/-- A value may have blanks behind it. -/
theorem value_of_blanks_behind (h : a.IsSuccess) (hcut : ¬a.CutShort) {doc more : String} {j : Json}
    (htext : a.text = doc ++ more) (hdoc : Json.parse doc = .ok j)
    (hmore : ∀ c ∈ more.toList, isBlank c = true) : a.value = .ok j := by
  have hread := Json.parse_append hdoc fun _ => Json.delimited_of_blanks hmore
  rw [if_pos (skipBlanks_eq_nil_iff.mpr hmore)] at hread
  rw [value_of_complete h hcut, htext, hread]
  rfl

/-- It may have nothing else behind it. -/
theorem value_of_text_behind (h : a.IsSuccess) (hcut : ¬a.CutShort) {doc more : String} {j : Json}
    (htext : a.text = doc ++ more) (hdoc : Json.parse doc = .ok j)
    (hmore : ∃ c ∈ more.toList, isBlank c = false)
    (hnumber : (∃ n, j = .number n) → Delimited more.toList) :
    ∃ e, a.value = .error (.malformed (.notJson e)) ∧ e.cause = .trailingText := by
  have hread := Json.parse_append hdoc hnumber
  have hne : ¬Json.Grammar.skipBlanks more.toList = [] := by
    intro hnil
    obtain ⟨c, hc, hblank⟩ := hmore
    rw [skipBlanks_eq_nil_iff.mp hnil c hc] at hblank
    cases hblank
  rw [if_neg hne] at hread
  rw [value_of_complete h hcut, htext, hread]
  exact ⟨_, rfl, rfl⟩

end Answer

/-! ## Exchanges -/

/-- No message goes on after the answer: its status is none that sends it on, or no address is named. -/
def Answer.IsFinal (a : Answer) : Prop := isRedirect a.status = false ∨ a.location = none

theorem Answer.IsSuccess.isFinal {a : Answer} (h : a.IsSuccess) : a.IsFinal := by
  obtain ⟨-, hle⟩ := h
  refine .inl (Bool.eq_false_iff.mpr fun hredirect => ?_)
  have hstatus : a.status = 301 ∨ a.status = 302 ∨ a.status = 303 ∨ a.status = 307 ∨ a.status = 308 := by
    simpa [isRedirect, isRedirect.keepsMethod, or_assoc] using hredirect
  rcases hstatus with h | h | h | h | h <;> rw [h] at hle <;> exact absurd hle (by decide)

/-- A server that sends the first message on to an address, and has one answer for all others. -/
def Network.moved (address : String) (a : Answer) : Network where
  deliver before _ := .answers (if before.isEmpty then ⟨307, [], none, some address⟩ else a)

namespace Client

variable {c : Client} {n : Network} {r : Request} {m : Message} {a : Answer}
  {before arrived : List Message} {redirects : Nat} {result : Except Fault Answer} {address : String}

/-- How the exchange of a message ends after others: with what has arrived then, and with an answer or
a fault. -/
inductive Ends (c : Client) (n : Network) :
    Nat → List Message → Message → List Message → Except Fault Answer → Prop where
  | unreachable {redirects : Nat} {before : List Message} {m : Message}
    (h : n.deliver before m = .unreachable) :
    Ends c n redirects before m before (.error .unreachable)
  | drops {redirects : Nat} {before : List Message} {m : Message}
    (h : n.deliver before m = .drops) :
    Ends c n redirects before m (before ++ [m]) (.error .dropped)
  | final {redirects : Nat} {before : List Message} {m : Message} {a : Answer}
    (h : n.deliver before m = .answers a) (hnext : c.next? m a = none) :
    Ends c n redirects before m (before ++ [m]) (.ok a)
  | tooOften {before : List Message} {m m' : Message} {a : Answer}
    (h : n.deliver before m = .answers a) (hnext : c.next? m a = some m') :
    Ends c n 0 before m (before ++ [m]) (.error .tooManyRedirects)
  | next {redirects : Nat} {before arrived : List Message} {m m' : Message} {a : Answer}
    {result : Except Fault Answer} (h : n.deliver before m = .answers a)
    (hnext : c.next? m a = some m')
    (hrest : Ends c n redirects (before ++ [m]) m' arrived result) :
    Ends c n (redirects + 1) before m arrived result

theorem ends_exchange (c : Client) (n : Network) (redirects : Nat) (before : List Message)
    (m : Message) : c.Ends n redirects before m (c.exchange n redirects before m).1
      (c.exchange n redirects before m).2 := by
  fun_induction exchange c n redirects before m with
  | case1 redirects before m h => exact .unreachable h
  | case2 redirects before m h => exact .drops h
  | case3 redirects before m a h hnext => exact .final h hnext
  | case4 before m a h m' hnext => exact .tooOften h hnext
  | case5 before m a h m' redirects hnext ih => exact .next h hnext ih

/-- **An exchange ends as its messages tell.** -/
theorem ends_iff :
    c.Ends n redirects before m arrived result ↔ c.exchange n redirects before m = (arrived, result) := by
  constructor
  · intro h
    induction h with
    | unreachable h | drops h => rw [exchange, h]
    | final h hnext | tooOften h hnext =>
      rw [exchange, h]
      dsimp only
      rw [hnext]
    | next h hnext _ ih =>
      rw [exchange, h]
      dsimp only
      rw [hnext]
      exact ih
  · intro h
    have hends := c.ends_exchange n redirects before m
    rwa [h] at hends

theorem next?_of_isFinal (h : a.IsFinal) : c.next? m a = none := by
  unfold next?
  rcases h with h | h
  · rw [h]
    rfl
  · rw [h]
    split <;> rfl

/-- What has arrived stays so. -/
theorem Ends.exists_eq_append (h : c.Ends n redirects before m arrived result) :
    ∃ more, arrived = before ++ more := by
  induction h with
  | unreachable => exact ⟨[], (List.append_nil _).symm⟩
  | drops | final | tooOften => exact ⟨_, rfl⟩
  | next _ _ _ ih =>
    obtain ⟨more, rfl⟩ := ih
    exact ⟨_, List.append_assoc _ _ _⟩

/-- A message that arrives does so once, and others only after an answer that is not final. -/
theorem Ends.arrived_cases (h : c.Ends n redirects before m arrived result) :
    n.deliver before m = .unreachable ∧ arrived = before ∧ result = .error .unreachable ∨
      n.deliver before m ≠ .unreachable ∧ ∃ more, arrived = before ++ m :: more ∧
        (more ≠ [] → ∃ a, n.deliver before m = .answers a ∧ ¬a.IsFinal) := by
  cases h with
  | unreachable h => exact .inl ⟨h, rfl, rfl⟩
  | drops h => exact .inr ⟨by simp [h], [], rfl, fun hne => absurd rfl hne⟩
  | final h | tooOften h => exact .inr ⟨by simp [h], [], rfl, fun hne => absurd rfl hne⟩
  | next h hnext hrest =>
    obtain ⟨more, rfl⟩ := hrest.exists_eq_append
    refine .inr ⟨by simp [h], more, by simp, fun _ => ⟨_, h, fun hfinal => ?_⟩⟩
    rw [next?_of_isFinal hfinal] at hnext
    cases hnext

/-- No fault of an exchange is that of a header. -/
theorem Ends.ne_badHeader (h : c.Ends n redirects before m arrived result) (name : String) :
    result ≠ .error (.badHeader name) := by
  induction h with
  | unreachable | drops | final | tooOften => nofun
  | next _ _ _ ih => exact ih

/-! ## Requests -/

/-- A request to an address can be sent when its headers are such. -/
theorem message_eq_ok_iff : c.message r = .ok m ↔ ∃ address, c.address? r.url = some address ∧
    (∀ e ∈ r.headers, isName e.1 = true ∧ isValue e.2 = true) ∧ m = r.message address := by
  have hheaders : (∀ e ∈ r.headers, isName e.1 = true ∧ isValue e.2 = true) ↔
      r.headers.find? (fun e => !(isName e.1 && isValue e.2)) = none := by
    rw [List.find?_eq_none]
    simp only [Bool.not_eq_true', Bool.not_eq_false, Bool.and_eq_true]
  rw [message, hheaders]
  cases c.address? r.url with
  | none => simp
  | some address =>
    dsimp only
    cases r.headers.find? fun e => !(isName e.1 && isValue e.2) with
    | none => simp [eq_comm]
    | some e => simp

/-- Any other request to an address fails for one of its headers. -/
theorem exists_badHeader (h : c.address? r.url = some address)
    (hne : ¬∀ e ∈ r.headers, isName e.1 = true ∧ isValue e.2 = true) :
    ∃ name, c.message r = .error (.badHeader name) := by
  cases hfind : r.headers.find? fun e => !(isName e.1 && isValue e.2) with
  | none =>
    refine absurd (fun e he => ?_) hne
    have hvalid := List.find?_eq_none.mp hfind e he
    simpa using hvalid
  | some e =>
    refine ⟨e.1, ?_⟩
    rw [message, h]
    dsimp only
    rw [hfind]

theorem post_of_message_eq_error {fault : Fault} (h : c.message r = .error fault) (n : Network)
    (before : List Message) : c.post n before r = (before, .error (.http fault)) := by
  rw [post, h]

/-- A request is posted by the exchange of its message. -/
theorem post_of_ends (h : c.message r = .ok m)
    (hends : c.Ends n maxRedirects before m arrived result) :
    c.post n before r = (arrived, (result.mapError Failure.http).bind Answer.value) := by
  rw [post, h]
  dsimp only
  rw [ends_iff.mp hends]
  cases result <;> rfl

theorem post_answers (h : c.message r = .ok m) (ha : a.IsFinal) (before : List Message) :
    c.post (.answers a) before r = (before ++ [m], a.value) :=
  post_of_ends h (.final rfl (next?_of_isFinal ha))

theorem post_drops (h : c.message r = .ok m) (before : List Message) :
    c.post .drops before r = (before ++ [m], .error (.http .dropped)) :=
  post_of_ends h (.drops rfl)

theorem run_send (c : Client) (n : Network) (r : Request) (before : List Message) :
    (c.send n r).run before = ((c.post n before r).2, (c.post n before r).1) := rfl

/-- A value is answered only by a success whose whole body is one JSON text. -/
theorem post_eq_ok_iff {j : Json} : (c.post n before r).2 = .ok j ↔ ∃ m arrived a,
    c.message r = .ok m ∧ c.Ends n maxRedirects before m arrived (.ok a) ∧
      a.IsSuccess ∧ ¬a.CutShort ∧ Json.parse a.text = .ok j := by
  constructor
  · intro hok
    cases h : c.message r with
    | error fault =>
      rw [post_of_message_eq_error h] at hok
      cases hok
    | ok m =>
      have hends := c.ends_exchange n maxRedirects before m
      rw [post_of_ends h hends] at hok
      obtain ⟨a, hresult, hvalue⟩ := bind_eq_ok_iff.mp hok
      cases hexchange : (c.exchange n maxRedirects before m).2 with
      | error fault =>
        rw [hexchange] at hresult
        cases hresult
      | ok b =>
        rw [hexchange] at hresult hends
        cases hresult
        exact ⟨m, _, a, rfl, hends, (a.classified_value.ok_iff j).mp hvalue⟩
  · rintro ⟨m, arrived, a, h, hends, hread⟩
    rw [post_of_ends h hends]
    exact (a.classified_value.ok_iff j).mpr hread

/-- **A request that can be sent arrives and comes to the end of what is answered.** A refusal is told by
its status alone. The body of a success is one JSON text when the grammar reads a value in it and
leaves blanks, however long that takes; a blank body is none, and neither is a value with anything else
behind it, which for a number must not go on with the number. -/
theorem post_classified (h : c.message r = .ok m) (before : List Message) :
    c.post .drops before r = (before ++ [m], .error (.http .dropped)) ∧
    (∀ a : Answer, a.IsFinal →
      ∃ outcome, c.post (.answers a) before r = (before ++ [m], outcome) ∧ a.Classified outcome) ∧
    (∀ a b : Answer, a.status = b.status → ¬a.IsSuccess → a.IsFinal → b.IsFinal →
      c.post (.answers a) before r = c.post (.answers b) before r) ∧
    ∀ a : Answer, a.IsSuccess → ¬a.CutShort →
      (∀ j, (c.post (.answers a) before r).2 = .ok j ↔ ∃ fuel rest,
        Json.Grammar.value fuel Json.maxNesting a.text.toList = .ok (j, rest) ∧
          ∀ c ∈ rest, isBlank c = true) ∧
      ((∀ c ∈ a.text.toList, isBlank c = true) →
        ∃ e, (c.post (.answers a) before r).2 = .error (.malformed (.notJson e)) ∧
          e.cause = .endBeforeValue) ∧
      ∀ doc more j, a.text = doc ++ more → Json.parse doc = .ok j →
        ((∀ c ∈ more.toList, isBlank c = true) → (c.post (.answers a) before r).2 = .ok j) ∧
        ((∃ c ∈ more.toList, isBlank c = false) →
          ((∃ n, j = .number n) → Delimited more.toList) →
          ∃ e, (c.post (.answers a) before r).2 = .error (.malformed (.notJson e)) ∧
            e.cause = .trailingText) := by
  refine ⟨post_drops h before, fun a ha => ⟨a.value, post_answers h ha before, a.classified_value⟩,
    fun a b hstatus hrefused ha hb => ?_, fun a hsuccess hcut => ?_⟩
  · have hrefused' : ¬b.IsSuccess := by
      unfold Answer.IsSuccess at hrefused ⊢
      rwa [← hstatus]
    rw [post_answers h ha, post_answers h hb, Answer.value_of_not_isSuccess hrefused,
      Answer.value_of_not_isSuccess hrefused', hstatus]
  · rw [post_answers h hsuccess.isFinal]
    exact ⟨fun j => Answer.value_eq_ok_iff hsuccess hcut, Answer.value_of_blank hsuccess hcut,
      fun doc more j htext hdoc => ⟨Answer.value_of_blanks_behind hsuccess hcut htext hdoc,
        Answer.value_of_text_behind hsuccess hcut htext hdoc⟩⟩

/-- A body that is cut short behind a value, one with a second value, and one of a refusal. -/
theorem post_classified_bodies :
    let r : Request := ⟨"http://localhost/scan", [("Cookie", "a=1")], "\x7b\x7d"⟩
    let m : Message := ⟨.post, "http://localhost/scan",
      [("content-type", "application/json"), ("cookie", "a=1")], some "\x7b\x7d"⟩
    let body := Text.Utf8.encode "12 3".toList
    plain.post (.answers ⟨200, body, some 5, none⟩) [] r = ([m], .error (.http .cutShort)) ∧
    (∃ e, (plain.post (.answers ⟨200, body, none, none⟩) [] r).2 = .error (.malformed (.notJson e)) ∧
      e.cause = .trailingText) ∧
    plain.post (.answers ⟨404, body, some 5, none⟩) [] r =
      ([m], .error (.rejected 404 "Not Found")) := by
  intro r m body
  have hmessage : plain.message r = .ok m := by decide +kernel
  obtain ⟨-, hall, -, hbodies⟩ := post_classified hmessage []
  obtain ⟨outcome, hshort, hshort'⟩ := hall ⟨200, body, some 5, none⟩ (.inr rfl)
  obtain ⟨refusal, hrefused, hrefused'⟩ := hall ⟨404, body, some 5, none⟩ (.inr rfl)
  have hcut : Answer.CutShort ⟨200, body, some 5, none⟩ := ⟨by decide, by decide, 5, rfl, by decide⟩
  have hwhole : ¬Answer.CutShort ⟨200, body, none, none⟩ := fun ⟨_, _, _, h, _⟩ => nomatch h
  have htext : Answer.text ⟨200, body, none, none⟩ = "12" ++ " 3" := by decide +kernel
  have hdoc : Json.parse "12" = .ok (.number (.whole (.ofUInt64 12))) := by rfl
  have hdelimited : Delimited " 3".toList := by
    rintro c ⟨⟩
    decide
  refine ⟨?_, ?_, ?_⟩
  · rw [hshort, (hshort'.http_iff .cutShort).mpr ⟨by decide, hcut, rfl⟩]
    rfl
  · exact ((hbodies ⟨200, body, none, none⟩ (by decide) hwhole).2.2 "12" " 3" _ htext hdoc).2
      ⟨'3', by decide, by decide⟩ fun _ => hdelimited
  · rw [hrefused, (hrefused'.rejected_iff 404 "Not Found").mpr ⟨by decide, rfl, rfl⟩]
    rfl

end Client

end MarketScan.Http
