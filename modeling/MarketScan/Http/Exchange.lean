import MarketScan.Failure
import MarketScan.Http.Status
import MarketScan.Text.Utf8

/-!
# Exchanges

What becomes of a request, given what the network does with it.

An answer may name another address, and then the message goes on to there, up to ten times. The
answer that it comes to is the one that counts. A refusal counts before the body is looked at. The
body of a success must be complete, is read as UTF-8 with replacement and must be one JSON text.

* `Client.exchange` — the messages that arrive, and the answer that they come to
* `Client.post` — the same for a request, with the value that is answered
* `Client.send` — the same, with a note of all messages that arrived
-/

namespace MarketScan.Http

/-- What a server answers. -/
structure Answer where
  status : UInt16
  body : List UInt8
  /-- The length that the server claims for the body, when it is not its own. -/
  claimed : Option Nat
  /-- Where the server says that the answer is to be found. -/
  location : Option String

namespace Answer

/-- The bytes of the body that count. -/
def received (a : Answer) : List UInt8 :=
  if hasBody a.status then
    match a.claimed with
    | some n => a.body.take n
    | none => a.body
  else []

/-- Whether the body is as long as the server claims. -/
def isComplete (a : Answer) : Bool :=
  !hasBody a.status || match a.claimed with
    | some n => n ≤ a.body.length
    | none => true

/-- What an answer means. -/
def value (a : Answer) : Except Failure Json :=
  if !isSuccess a.status then .error (.rejected a.status (phrase a.status))
  else if !a.isComplete then .error (.http .cutShort)
  else match Json.parse (String.ofList (Text.Utf8.decode a.received)) with
    | .ok j => .ok j
    | .error e => .error (.malformed (.notJson e))

end Answer

/-! ## The network -/

/-- What becomes of a message. -/
inductive Delivery where
  /-- It does not arrive. -/
  | unreachable
  /-- It arrives and is not answered. -/
  | drops
  | answers (a : Answer)

/-- What becomes of each message, given those that have arrived before it. -/
structure Network where
  deliver : List Message → Message → Delivery

namespace Network

/-- No message arrives. -/
def unreachable : Network := ⟨fun _ _ => .unreachable⟩

/-- Messages arrive and are not answered. -/
def drops : Network := ⟨fun _ _ => .drops⟩

/-- Every message has the same answer. -/
def answers (a : Answer) : Network := ⟨fun _ _ => .answers a⟩

end Network

/-! ## Sending -/

namespace Client

/-- How often a message may go on to another address. -/
def maxRedirects : Nat := 10

/-- The message that goes on after an answer, if one does. -/
def next? (c : Client) (m : Message) (a : Answer) : Option Message :=
  if isRedirect a.status then do
    let address ← c.resolve? m.address (← a.location)
    let headers := c.carry m.address address m.headers
    if isRedirect.keepsMethod a.status then some { m with address, headers }
    else some ⟨.get, address, headers.filter (·.1 ≠ "content-type"), none⟩
  else none

/-- The messages that have arrived after a message was sent, with those before it, and the answer that
it came to. -/
def exchange (c : Client) (n : Network) :
    Nat → List Message → Message → List Message × Except Fault Answer
  | redirects, before, m =>
    match n.deliver before m with
    | .unreachable => (before, .error .unreachable)
    | .drops => (before ++ [m], .error .dropped)
    | .answers a =>
      match c.next? m a, redirects with
      | none, _ => (before ++ [m], .ok a)
      | some _, 0 => (before ++ [m], .error .tooManyRedirects)
      | some m', redirects + 1 => c.exchange n redirects (before ++ [m]) m'

/-- What becomes of a request. One that cannot be sent does not reach the network. -/
def post (c : Client) (n : Network) (before : List Message) (r : Request) :
    List Message × Except Failure Json :=
  match c.message r with
  | .error fault => (before, .error (.http fault))
  | .ok m =>
    match c.exchange n maxRedirects before m with
    | (arrived, .error fault) => (arrived, .error (.http fault))
    | (arrived, .ok a) => (arrived, a.value)

/-- Posts a request and notes the messages that arrive. -/
def send (c : Client) (n : Network) (r : Request) :
    StateM (List Message) (Except Failure Json) := do
  let (arrived, answer) := c.post n (← get) r
  set arrived
  return answer

end Client

end MarketScan.Http
