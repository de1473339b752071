import MarketScan.Http.Exchange
import MarketScan.Query.Document
import MarketScan.Reply.Table

/-!
# Scans

A scan sends the document of a query to the address of its first market, and names the values of the
reply after the columns of the query. What sends the request is a parameter, so the same scan runs
over a network or over anything that answers requests.

* `Settings.request` — the request of a query
* `Reply.ofAnswer`, `Query.readAnswer` — the reply and the table in an answer
* `Settings.scanRaw`, `Settings.scan` — the one request, and what comes of its answer
-/

namespace MarketScan

namespace Settings

/-- The headers of every request: who sends it, and the cookies if there are any. -/
def headers (s : Settings) : List (String × String) :=
  ("user-agent", s.userAgent) ::
    match s.cookies.header? with
    | some cookies => [("cookie", cookies)]
    | none => []

/-- The request of a query. -/
def request (s : Settings) (q : Query) : Http.Request where
  url := s.scanUrl q.primaryMarket
  headers := s.headers
  body := q.text

end Settings

/-- The reply that an answer holds. -/
def Reply.ofAnswer (answer : Json) : Except Failure Reply :=
  match Reply.ofJson answer with
  | .ok r => .ok r
  | .error m => .error (.malformed (.mismatch m))

/-- The table that a scan makes of an answer. -/
def Query.readAnswer (q : Query) (answer : Json) : Except Failure Table := do
  let r ← Reply.ofAnswer answer
  .ok (r.table q.columns)

namespace Settings

variable {m : Type → Type} [Monad m]

/-- Sends the request of a query and gives the answer as it is. -/
def scanRaw (s : Settings) (send : Http.Request → m (Except Failure Json)) (q : Query) :
    m (Except Failure Json) :=
  send (s.request q)

/-- Sends the request of a query and names the values of the answer. -/
def scan (s : Settings) (send : Http.Request → m (Except Failure Json)) (q : Query) :
    m (Except Failure Table) := do
  return (← s.scanRaw send q).bind q.readAnswer

end Settings

end MarketScan
