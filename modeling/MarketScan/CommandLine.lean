import MarketScan.Scan
import MarketScan.Settings.Load

/-!
# The command line

The program takes a market and columns, and prints the twenty symbols of the market with the greatest
volume. Its settings come from the default file and the environment. Before all that it starts its
threads, and ends with 101 when the environment asks for a number of them that is none.

* `CommandLine.query` — the query of the arguments
* `CommandLine.starts` — whether the threads are started
* `CommandLine.run` — what the program does, given its surroundings
-/

namespace MarketScan.CommandLine

/-- How many symbols are printed. -/
def rows : UInt64 := 20

/-- The query of the arguments: the first is the market, the others are columns. -/
def query (args : List String) : Query :=
  let q := Query.default
  let q := match args with
    | market :: _ => q.setMarkets [market]
    | [] => q
  q.select (args.drop 1)
    |>.addConditions [Column.test ⟨"volume"⟩ .notEmpty]
    |>.orderBy "volume" false false
    |>.limit rows

/-! ## Threads -/

/-- The variable that sets the number of threads. -/
def threadsVariable : String := "TOKIO_WORKER_THREADS"

/-- Whether a text is a positive whole number of 64 bits. A plus sign may stand before it. -/
def isThreadCount (s : String) : Bool :=
  let digits := match s.toList with
    | '+' :: digits => digits
    | digits => digits
  !digits.isEmpty && digits.all Char.isDigit &&
    0 < Numeric.ofDigits digits && Numeric.ofDigits digits < 18446744073709551616

/-- Whether the threads of the program are started. -/
def starts (env : Settings.Environment) : Bool :=
  (Entries.get? threadsVariable env).all isThreadCount

/-! ## Runs -/

/-- How a run ends. -/
structure Outcome where
  exitCode : UInt8
  output : String
  /-- The messages that arrived. -/
  arrived : List Http.Message
  failure : Option Failure

/-- The run of a program that fails prints nothing. -/
def Outcome.ofFailure (arrived : List Http.Message) (e : Failure) : Outcome :=
  ⟨1, "", arrived, some e⟩

/-- Nor does that of one that does not start. -/
def Outcome.notStarted : Outcome := ⟨101, "", [], none⟩

/-- What the program prints of a table. -/
def print (t : Table) : String := t.json.pretty ++ "\n"

/-- What the program does once it has started. -/
def runStarted (args : List String) (files : Settings.Files) (env : Settings.Environment)
    (client : Http.Client) (network : Http.Network) : Outcome :=
  match Settings.load files none env with
  | .error fault => .ofFailure [] (.settings fault)
  | .ok settings =>
    match (settings.scan (client.send network) (query args)).run [] with
    | (.error e, arrived) => .ofFailure arrived e
    | (.ok t, arrived) => ⟨0, print t, arrived, none⟩

/-- What the program does, given its arguments, the files of its directory, its environment, the client
that sends its request and the network. -/
def run (args : List String) (files : Settings.Files) (env : Settings.Environment)
    (client : Http.Client) (network : Http.Network) : Outcome :=
  if starts env then runStarted args files env client network else .notStarted

end MarketScan.CommandLine
