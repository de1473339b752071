/-!
# Requests

A request posts a JSON text. Before anything is sent its address and its headers are looked at: a
header name is a token, and a header value holds tabs and visible ASCII characters and blanks only.
What a text means as an address, and what goes along from one address to another, is known to the
client that sends the request.

* `Client.message` — what a request is sent as, or why it cannot be sent
-/

namespace MarketScan.Http

/-- A JSON text to be posted. -/
structure Request where
  url : String
  headers : List (String × String)
  body : String
deriving DecidableEq

/-- Why an exchange fails without an answer. -/
inductive Fault where
  /-- The address is none. -/
  | badUrl
  /-- A header has a character that it cannot have. -/
  | badHeader (name : String)
  /-- Nobody takes the request. -/
  | unreachable
  /-- The request was taken and not answered. -/
  | dropped
  /-- The request was sent on too often. -/
  | tooManyRedirects
  /-- The body of an answer ends too early. -/
  | cutShort
  /-- A fault told by someone else. -/
  | reported (text : String)
deriving DecidableEq

def Fault.message : Fault → String
  | .badUrl => "the address is not valid"
  | .badHeader name => s!"the header {name} is not valid"
  | .unreachable => "the server cannot be reached"
  | .dropped => "the connection was closed without an answer"
  | .tooManyRedirects => "the request was sent on too often"
  | .cutShort => "the answer ends too early"
  | .reported text => text

/-- Characters that a header value may hold. -/
def isValueChar (c : Char) : Bool := c = '\t' || (32 ≤ c.toNat && c.toNat ≤ 126)

/-- Characters that a header name may hold. -/
def isNameChar (c : Char) : Bool := c.isAlphanum || "!#$%&'*+-.^_`|~".toList.contains c

def isValue (s : String) : Bool := s.toList.all isValueChar

def isName (s : String) : Bool := !s.isEmpty && s.toList.all isNameChar

/-! ## Messages -/

inductive Method where
  | get
  | post
deriving DecidableEq

/-- What goes over the network. Headers that the client adds to every message are left out. -/
structure Message where
  method : Method
  /-- The address in the one spelling that it is used in. -/
  address : String
  headers : List (String × String)
  body : Option String
deriving DecidableEq

/-- The message that a request is at an address. Header names are in small letters, and the kind of the
body comes first. -/
def Request.message (r : Request) (address : String) : Message where
  method := .post
  address
  headers := ("content-type", "application/json") ::
    r.headers.map fun (name, value) => (String.ofList (name.toList.map Char.toLower), value)
  body := some r.body

/-- What a client knows of addresses. -/
structure Client where
  /-- The address that a text names, if requests can go there. -/
  address? : String → Option String
  /-- The address that a text names in an answer from another address. -/
  resolve? : String → String → Option String
  /-- The headers that a message from one address has when it goes on to another. -/
  carry : String → String → List (String × String) → List (String × String)

namespace Client

/-- Addresses that are written out in full, and in the spelling that they are used in. -/
def plain : Client where
  address? := written?
  resolve? _ := written?
  carry origin _ headers := headers.filter (·.1 ≠ "referer") ++ [("referer", origin)]
where
  written? (text : String) : Option String :=
    if ["http://", "https://"].any fun scheme => scheme.toList.isPrefixOf text.toList then some text
    else none

/-- What a request is sent as, if it can be sent. -/
def message (c : Client) (r : Request) : Except Fault Message :=
  match c.address? r.url with
  | none => .error .badUrl
  | some address =>
    match r.headers.find? fun (name, value) => !(isName name && isValue value) with
    | some (name, _) => .error (.badHeader name)
    | none => .ok (r.message address)

end Client

end MarketScan.Http
