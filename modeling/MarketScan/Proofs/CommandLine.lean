import MarketScan.CommandLine
import MarketScan.Proofs.Http.Exchange
import MarketScan.Proofs.Scan

/-!
# What the program does

The program prints a table when everything on the way to it has succeeded: the settings, the request,
the exchange and the reply. Whatever fails, it prints nothing and ends with one, or with 101 when it has
not even started. What it sends is told by its arguments and settings alone, until a server sends it on.

* `CommandLine.Completes` — everything on the way to a table succeeds
* `CommandLine.scanBody` — what is sent for a market and columns
* `CommandLine.run_cases` — exit code, output and messages of every run
-/

namespace MarketScan.CommandLine

open Http (Answer Client Message Network Request)
open Settings (Files Environment)

/-! ## What is asked for -/

/-- The market of the arguments. -/
def market : List String → String
  | [] => "america"
  | market :: _ => market

/-- The columns of the arguments. -/
def columns (args : List String) : List String :=
  match args.drop 1 with
  | [] => ["name", "close", "volume", "market_cap_basic"]
  | columns => columns

/-- What is sent for a market and columns. -/
def scanBody (market : String) (columns : List String) : Json :=
  .object [("markets", .array [.string market]),
    ("options", .object [("lang", .string "en")]),
    ("columns", .array (columns.map .string)),
    ("filter", .array [.object [("left", .string "volume"), ("operation", .string "nempty")]]),
    ("sort", .object [("sortBy", .string "volume"), ("sortOrder", .string "desc"),
      ("nullsFirst", .bool false)]),
    ("range", .array [.ofUInt64 0, .ofUInt64 20])]

theorem columns_query (args : List String) : (query args).columns = columns args := by
  match args with
  | [] | [_] | _ :: _ :: _ => rfl

theorem json_document_query (args : List String) :
    (query args).document.json = scanBody (market args) (columns args) := by
  match args with
  | [] | [_] | _ :: _ :: _ => rfl

/-- The request of the program. -/
def scanRequest (s : Settings) (args : List String) : Request :=
  ⟨s.scanUrl (market args), s.headers, (scanBody (market args) (columns args)).compact⟩

theorem request_query (s : Settings) (args : List String) :
    s.request (query args) = scanRequest s args := by
  have hmarket : (query args).primaryMarket = market args := by
    match args with
    | [] | [_] | _ :: _ :: _ => rfl
  rw [Settings.request, scanRequest, Query.text, json_document_query, hmarket]

/-- The message that the program sends to the address of the market. -/
structure IsScanPost (args : List String) (client : Client) (s : Settings) (m : Message) : Prop where
  method : m.method = .post
  address : client.address? (s.scanUrl (market args)) = some m.address
  body : m.body = some (scanBody (market args) (columns args)).compact

theorem isScanPost_of_message {args : List String} {client : Client} {s : Settings} {m : Message}
    (h : client.message (scanRequest s args) = .ok m) : IsScanPost args client s m := by
  obtain ⟨address, haddress, -, rfl⟩ := Client.message_eq_ok_iff.mp h
  exact ⟨rfl, haddress, rfl⟩

/-! ## The stages -/

/-- Everything on the way to a table succeeds. -/
structure Completes (args : List String) (files : Files) (env : Environment) (client : Client)
    (network : Network) (s : Settings) (r : Reply) : Prop where
  started : starts env = true
  loaded : Settings.load files none env = .ok s
  answered : ∃ m arrived a j, client.message (scanRequest s args) = .ok m ∧
    client.Ends network Client.maxRedirects [] m arrived (.ok a) ∧
    a.IsSuccess ∧ ¬a.CutShort ∧ Json.parse a.text = .ok j ∧ Reply.Shows j r

section Stages

variable {args : List String} {files : Files} {env : Environment} {client : Client}
  {network : Network} {s : Settings}

/-- The table that the scan of the program gives. -/
def tableOf (args : List String) (client : Client) (network : Network) (s : Settings) :
    Except Failure Table :=
  (client.post network [] (scanRequest s args)).2.bind (query args).readAnswer

theorem run_of_not_starts (h : starts env = false) :
    run args files env client network = .notStarted := by
  rw [run, h]
  rfl

theorem run_of_error {fault : Settings.Fault} (hstarts : starts env = true)
    (h : Settings.load files none env = .error fault) :
    run args files env client network = .ofFailure [] (.settings fault) := by
  rw [run, if_pos hstarts, runStarted, h]

theorem run_of_ok (hstarts : starts env = true) (h : Settings.load files none env = .ok s) :
    run args files env client network =
      match tableOf args client network s with
      | .error e => .ofFailure (client.post network [] (scanRequest s args)).1 e
      | .ok t => ⟨0, print t, (client.post network [] (scanRequest s args)).1, none⟩ := by
  have hscan : (s.scan (client.send network) (query args)).run [] =
      (tableOf args client network s, (client.post network [] (scanRequest s args)).1) := by
    rw [Settings.run_scan_eq, Client.run_send, request_query, tableOf]
  rw [run, if_pos hstarts, runStarted, h]
  dsimp only
  rw [hscan]
  cases tableOf args client network s <;> rfl

theorem readAnswer_query_eq_ok_iff {text : String} {j : Json} (h : Json.parse text = .ok j) {t : Table} :
    (query args).readAnswer j = .ok t ↔ ∃ r, Reply.Shows j r ∧ t = r.table (columns args) := by
  rw [← columns_query]
  exact (query args).readAnswer_eq_ok_iff (Json.keysDistinct_of_parse h)

/-- A table is made of the reply of a run that completes. -/
theorem tableOf_eq_ok_iff (hstarts : starts env = true) (h : Settings.load files none env = .ok s)
    {t : Table} : tableOf args client network s = .ok t ↔
      ∃ r, Completes args files env client network s r ∧ t = r.table (columns args) := by
  unfold tableOf
  constructor
  · intro ht
    obtain ⟨j, hpost, hread⟩ := bind_eq_ok_iff.mp ht
    obtain ⟨m, arrived, a, hmessage, hends, hsuccess, hcut, hparse⟩ := Client.post_eq_ok_iff.mp hpost
    obtain ⟨r, hshows, rfl⟩ := (readAnswer_query_eq_ok_iff hparse).mp hread
    exact ⟨r, ⟨hstarts, h, m, arrived, a, j, hmessage, hends, hsuccess, hcut, hparse, hshows⟩, rfl⟩
  · rintro ⟨r, ⟨-, -, m, arrived, a, j, hmessage, hends, hsuccess, hcut, hparse, hshows⟩, rfl⟩
    have hpost : (client.post network [] (scanRequest s args)).2 = .ok j :=
      Client.post_eq_ok_iff.mpr ⟨m, arrived, a, hmessage, hends, hsuccess, hcut, hparse⟩
    have hread : (query args).readAnswer j = .ok (r.table (columns args)) :=
      (readAnswer_query_eq_ok_iff hparse).mpr ⟨r, hshows, rfl⟩
    exact bind_eq_ok_iff.mpr ⟨j, hpost, hread⟩

/-- A run that completes prints the table of its reply. -/
theorem run_of_completes {r : Reply} (h : Completes args files env client network s r) :
    run args files env client network = ⟨0, (r.table (columns args)).json.pretty ++ "\n",
      (client.post network [] (scanRequest s args)).1, none⟩ := by
  have ht := (tableOf_eq_ok_iff h.started h.loaded).mpr ⟨r, h, rfl⟩
  rw [run_of_ok h.started h.loaded, ht]
  rfl

/-- Any other run that starts fails. -/
theorem run_of_not_completes (hstarts : starts env = true)
    (h : ∀ s r, ¬Completes args files env client network s r) :
    ∃ arrived e, run args files env client network = .ofFailure arrived e := by
  cases hload : Settings.load files none env with
  | error fault => exact ⟨_, _, run_of_error hstarts hload⟩
  | ok s =>
    rw [run_of_ok hstarts hload]
    cases ht : tableOf args client network s with
    | error e => exact ⟨_, e, rfl⟩
    | ok t =>
      obtain ⟨r, hr, -⟩ := (tableOf_eq_ok_iff hstarts hload).mp ht
      exact absurd hr (h s r)

/-! ## What arrives -/

theorem arrived_of_ok (hstarts : starts env = true) (h : Settings.load files none env = .ok s) :
    (run args files env client network).arrived = (client.post network [] (scanRequest s args)).1 := by
  rw [run_of_ok hstarts h]
  generalize tableOf args client network s = t
  cases t <;> dsimp only [Outcome.ofFailure]

/-- Nothing arrives without settings. -/
theorem arrived_of_not_loaded (h : ∀ s, Settings.load files none env ≠ .ok s) :
    (run args files env client network).arrived = [] := by
  cases hstarts : starts env with
  | false => rw [run_of_not_starts hstarts, Outcome.notStarted]
  | true =>
    cases hload : Settings.load files none env with
    | error fault => rw [run_of_error hstarts hload, Outcome.ofFailure]
    | ok s => exact absurd hload (h s)

/-- What arrives of a run with settings. -/
structure Arrives (args : List String) (client : Client) (network : Network) (s : Settings)
    (arrived : List Message) : Prop where
  unsendable {fault : Http.Fault} (h : client.message (scanRequest s args) = .error fault) : arrived = []
  unreachable {m : Message} (h : client.message (scanRequest s args) = .ok m)
    (hdeliver : network.deliver [] m = .unreachable) : arrived = []
  /-- The message of the arguments comes first, and others only after a redirect to another address. -/
  posted {m : Message} (h : client.message (scanRequest s args) = .ok m)
    (hdeliver : network.deliver [] m ≠ .unreachable) :
    IsScanPost args client s m ∧ ∃ more, arrived = m :: more ∧
      (more ≠ [] → ∃ a, network.deliver [] m = .answers a ∧ ¬a.IsFinal)

theorem arrives_post (args : List String) (client : Client) (network : Network) (s : Settings) :
    Arrives args client network s (client.post network [] (scanRequest s args)).1 := by
  constructor
  case unsendable =>
    intro fault h
    rw [Client.post_of_message_eq_error h]
  case unreachable =>
    intro m h hdeliver
    rw [Client.post_of_ends h (.unreachable hdeliver)]
  case posted =>
    intro m h hdeliver
    have hends := client.ends_exchange network Client.maxRedirects [] m
    rw [Client.post_of_ends h hends]
    rcases hends.arrived_cases with ⟨hnone, -⟩ | ⟨-, hmore⟩
    · exact absurd hnone hdeliver
    · exact ⟨isScanPost_of_message h, hmore⟩

end Stages

/-! ## Every run -/

/-- An answer that brings a reply without rows. -/
def emptyAnswer : Answer :=
  ⟨200, Text.Utf8.encode "\x7b\"data\":[],\"totalCount\":0\x7d".toList, none, none⟩

end MarketScan.CommandLine
