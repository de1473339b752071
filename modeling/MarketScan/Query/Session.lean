import MarketScan.Filter.Draft
import MarketScan.Query.Document

/-!
# Sessions with several queries

A session holds queries by number, the first being a default one. A step makes a call on one of them,
or adds a default query or a copy. A call is asked for as a draft, which is built before the query is
looked at, so a call whose argument cannot be built has no effect.

* `Query.Call.Draft.build` — the call that a draft asks for
* `Session.perform` — the session after a step, and what the step answers
* `Session.run` — the session after steps
-/

namespace MarketScan

namespace Query.Call

/-- A call as it is asked for. -/
inductive Draft where
  | given (c : Call)
  | addConditions (drafts : List Condition.Draft)
  | setFilterTree (draft : FilterTree.Draft)

def Draft.build : Draft → Except Unbuildable Call
  | .given c => .ok c
  | .addConditions drafts => do .ok (.addConditions (← drafts.mapM Condition.Draft.build))
  | .setFilterTree draft => do .ok (.setFilterTree (← draft.build))

end Query.Call

/-- Queries by number. -/
structure Session where
  queries : List Query

namespace Session

/-- One default query. -/
def start : Session := ⟨[.default]⟩

/-- One thing to do. -/
inductive Step where
  | call (target : Nat) (draft : Query.Call.Draft)
  | new
  | copy (source : Nat)

/-- What a step answers. -/
inductive Answer where
  /-- The called query as it is now. -/
  | changed (q : Query)
  /-- The number of the added query. -/
  | added (number : Nat)
  | failed (e : Unbuildable)
  /-- There is no query of that number. -/
  | noQuery (number : Nat)

/-- The session with a query added. -/
def add (s : Session) (q : Query) : Session × Answer :=
  (⟨s.queries ++ [q]⟩, .added s.queries.length)

/-- The session after a step, and what the step answers. -/
def perform (s : Session) : Step → Session × Answer
  | .call target draft =>
    match draft.build with
    | .error e => (s, .failed e)
    | .ok c =>
      match s.queries[target]? with
      | some q => (⟨s.queries.set target (q.apply c)⟩, .changed (q.apply c))
      | none => (s, .noQuery target)
  | .new => s.add .default
  | .copy source =>
    match s.queries[source]? with
    | some q => s.add q
    | none => (s, .noQuery source)

/-- The session after steps. -/
def run (s : Session) (steps : List Step) : Session :=
  steps.foldl (fun s step => (s.perform step).1) s

@[simp] theorem run_nil (s : Session) : s.run [] = s := rfl

@[simp] theorem run_cons (s : Session) (step : Step) (steps : List Step) :
    s.run (step :: steps) = (s.perform step).1.run steps := rfl

end Session

end MarketScan
