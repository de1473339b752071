import MarketScan.Filter.Comparison
import MarketScan.Http.Request
import MarketScan.Json.Parser
import MarketScan.Reply.Basic
import MarketScan.Settings.Basic

/-!
# Failures

Every way in which building, sending or reading a scan may fail, and the words for each.

* `Failure.message`
-/

namespace MarketScan

/-- What is wrong with a reply. -/
inductive Malformation where
  | notJson (e : Json.SyntaxError)
  | mismatch (m : Reply.Mismatch)
  /-- A malformation told by someone else. -/
  | reported (text : String)

def Malformation.message : Malformation → String
  | .notJson e => e.message
  | .mismatch m => m.message
  | .reported text => text

/-- What is wrong with a text that should hold a value. -/
inductive Unserializable where
  | notJson (e : Json.SyntaxError)
  /-- Told by someone else. -/
  | reported (text : String)

def Unserializable.message : Unserializable → String
  | .notJson e => e.message
  | .reported text => text

/-- Why something failed. -/
inductive Failure where
  /-- The sources give no settings. -/
  | settings (fault : Settings.Fault)
  /-- There is no answer. -/
  | http (fault : Http.Fault)
  /-- The answer is a refusal. -/
  | rejected (status : UInt16) (phrase : String)
  /-- The answer is not the reply of a scan. -/
  | malformed (fault : Malformation)
  /-- A value has no text, or a text no value. -/
  | unserializable (fault : Unserializable)
  /-- A connective has no operands. -/
  | emptyConnective (c : Connective)

/-- The words for a failure. -/
def Failure.message : Failure → String
  | .settings fault => "Config error: " ++ fault.message
  | .http fault => "HTTP error: " ++ fault.message
  | .rejected status phrase => s!"Transport error: {status} {phrase}"
  | .malformed fault => "Malformed response: " ++ fault.message
  | .unserializable fault => "Serialization error: " ++ fault.message
  | .emptyConnective c => s!"A {c.word} connective needs at least one operand"

end MarketScan
