import MarketScan.Proofs.Filter.Building
import MarketScan.Query.Session
import Mathlib.Data.List.Induction

/-!
# Queries that do not disturb each other

The queries of a session share nothing. What a query has become is told by its lineage: the calls made
on its ancestor before the copy was taken, and its own from then on. Calls whose argument cannot be
built count nowhere, for they end before the query is looked at.

Both main facts are shown along the session from its last step: what one step leaves under each number
is `Session.get?_perform`, and what it adds to a lineage is `Session.lineage_concat_iff`.

* `Session.Lineage` — the calls that a query owes its state to
* `Session.StemsFrom` — a query is another one, or was copied from it later on
* `Session.get?_run` — a query is what its lineage makes it, and no other call counts for it
-/

namespace MarketScan

namespace Query.Call.Draft

/-- All that is wrong with the argument of a call. -/
def faults : Draft → List Unbuildable
  | .given _ => []
  | .addConditions drafts => drafts.filterMap Condition.Draft.fault?
  | .setFilterTree draft => draft.faults

/-- **The first thing that is wrong with its argument is why a call fails.** -/
theorem build_failsFor (d : Draft) : FailsFor d.build d.faults := by
  cases d with
  | given c => exact .ok c
  | addConditions drafts =>
    have h := FailsFor.mapM fun d (_ : d ∈ drafts) => Condition.Draft.build_failsFor d
    rw [← List.filterMap_eq_flatMap_toList] at h
    exact h.map Call.addConditions
  | setFilterTree draft => exact draft.build_failsFor.map Call.setFilterTree

end Query.Call.Draft

namespace Session

/-! ## One step -/

/-- The call that a step makes on a query. -/
def Step.callOn? (n : Nat) : Step → Option Query.Call
  | .call target draft => if target = n then draft.build.toOption else none
  | _ => none

/-- The query that a step adds. -/
def Step.added? (queries : List Query) : Step → Option Query
  | .new => some .default
  | .copy source => queries[source]?
  | .call _ _ => none

theorem get?_add (s : Session) (q : Query) (n : Nat) :
    (s.add q).1.queries[n]? = s.queries[n]?.or (if n = s.queries.length then some q else none) := by
  show (s.queries ++ [q])[n]? = _
  rw [List.getElem?_append]
  by_cases h : n < s.queries.length
  · rw [if_pos h, List.getElem?_eq_getElem h, Option.some_or]
  · rw [if_neg h, List.getElem?_eq_none (Nat.le_of_not_lt h), Option.none_or, List.getElem?_singleton]
    by_cases hn : n = s.queries.length
    · rw [if_pos (by omega), if_pos hn]
    · rw [if_neg (by omega), if_neg hn]

/-- **What a step leaves under each number.** It changes at most the query that it calls, and adds at
most one. -/
theorem get?_perform (s : Session) (step : Step) (n : Nat) :
    (s.perform step).1.queries[n]? =
      (s.queries[n]?.map fun q => (step.callOn? n).elim q q.apply).or
        (if n = s.queries.length then step.added? s.queries else none) := by
  cases step with
  | new =>
    have hid : (fun q : Query => (Step.new.callOn? n).elim q q.apply) = id := rfl
    rw [hid, Option.map_id]
    exact s.get?_add .default n
  | copy source =>
    have hid : (fun q : Query => ((Step.copy source).callOn? n).elim q q.apply) = id := rfl
    rw [hid, Option.map_id, perform, Step.added?]
    cases h : s.queries[source]? with
    | some q => exact s.get?_add q n
    | none => simp
  | call target draft =>
    rw [Step.added?, ite_self, Option.or_none, perform, Step.callOn?]
    cases draft.build with
    | error e => simp [Except.toOption]
    | ok c =>
      cases h : s.queries[target]? with
      | none =>
        by_cases hn : target = n
        · subst hn
          simp [h]
        · simp [hn]
      | some q =>
        by_cases hn : target = n
        · subst hn
          obtain ⟨hlt, rfl⟩ := List.getElem?_eq_some_iff.mp h
          simp [hlt, Except.toOption]
        · simp [hn]

/-- How many queries a step adds to so many. -/
def Step.growth (count : Nat) : Step → Nat
  | .new => 1
  | .copy source => if source < count then 1 else 0
  | .call _ _ => 0

theorem length_perform (s : Session) (step : Step) :
    (s.perform step).1.queries.length = s.queries.length + step.growth s.queries.length := by
  cases step with
  | new => exact List.length_append
  | copy source =>
    rw [perform, Step.growth]
    by_cases h : source < s.queries.length
    · rw [if_pos h, List.getElem?_eq_getElem h]
      exact List.length_append
    · rw [if_neg h, List.getElem?_eq_none (Nat.le_of_not_lt h)]
      rfl
  | call target draft =>
    rw [perform, Step.growth]
    cases draft.build with
    | error e => rfl
    | ok c =>
      cases s.queries[target]? with
      | some q => exact List.length_set
      | none => rfl

/-- A step whose call has a fault changes nothing. -/
theorem perform_of_faults {draft : Query.Call.Draft} (h : draft.faults ≠ []) (s : Session)
    (target : Nat) : (s.perform (.call target draft)).1 = s := by
  rw [perform]
  cases hbuild : draft.build with
  | error e => rfl
  | ok c => exact absurd (draft.build_failsFor.exists_ok_iff.mp ⟨c, hbuild⟩) h

/-! ## Lineages -/

/-- The calls that steps make on a query. -/
def callsOn (n : Nat) (steps : List Step) : List Query.Call := steps.filterMap (Step.callOn? n)

/-- How many queries there are after steps, which is the number of the next one. -/
def count (steps : List Step) : Nat := (start.run steps).queries.length

/-- The calls that a query owes its state to: those on the query it was copied from, before the copy
was taken, and then its own. -/
inductive Lineage : List Step → Nat → List Query.Call → Prop where
  | first (steps : List Step) : Lineage steps 0 (callsOn 0 steps)
  | added (before after : List Step) :
    Lineage (before ++ .new :: after) (count before) (callsOn (count before) after)
  | copied {before : List Step} {source : Nat} {calls : List Query.Call}
    (h : Lineage before source calls) (after : List Step) :
    Lineage (before ++ .copy source :: after) (count before)
      (calls ++ callsOn (count before) after)

/-- A query is query `m` as it was after some steps, or was copied from it since. -/
inductive StemsFrom (before : List Step) (m : Nat) : List Step → Nat → Prop where
  | self (after : List Step) : StemsFrom before m after m
  | copied {between : List Step} {source : Nat} (h : StemsFrom before m between source)
    (after : List Step) :
    StemsFrom before m (between ++ .copy source :: after) (count (before ++ between))

theorem run_append (s : Session) (before after : List Step) :
    s.run (before ++ after) = (s.run before).run after := List.foldl_append

theorem run_concat (s : Session) (steps : List Step) (step : Step) :
    s.run (steps ++ [step]) = ((s.run steps).perform step).1 := by
  rw [run_append, run_cons, run_nil]

theorem callsOn_concat (n : Nat) (steps : List Step) (step : Step) :
    callsOn n (steps ++ [step]) = callsOn n steps ++ (step.callOn? n).toList := by
  rw [callsOn, List.filterMap_append]
  cases h : step.callOn? n <;> simp [callsOn, h]

/-- The last step adds a call to a lineage, or begins one. -/
theorem lineage_concat_iff {steps : List Step} {step : Step} {n : Nat} {calls : List Query.Call} :
    Lineage (steps ++ [step]) n calls ↔
      (∃ earlier, Lineage steps n earlier ∧ calls = earlier ++ (step.callOn? n).toList) ∨
      n = count steps ∧ (step = .new ∧ calls = [] ∨
        ∃ source, step = .copy source ∧ Lineage steps source calls) := by
  constructor
  · intro h
    generalize hall : steps ++ [step] = all at h
    cases h with
    | first =>
      subst hall
      exact .inl ⟨_, .first steps, callsOn_concat 0 steps step⟩
    | added before after =>
      rcases List.eq_nil_or_concat after with rfl | ⟨after, last, rfl⟩
      · obtain ⟨rfl, ⟨⟩⟩ := List.append_inj' hall rfl
        exact .inr ⟨rfl, .inl ⟨rfl, rfl⟩⟩
      · rw [List.concat_eq_append, ← List.cons_append, ← List.append_assoc] at hall
        obtain ⟨rfl, ⟨⟩⟩ := List.append_inj' hall rfl
        rw [List.concat_eq_append, callsOn_concat]
        exact .inl ⟨_, .added before after, rfl⟩
    | copied h after =>
      rcases List.eq_nil_or_concat after with rfl | ⟨after, last, rfl⟩
      · obtain ⟨rfl, ⟨⟩⟩ := List.append_inj' hall rfl
        refine .inr ⟨rfl, .inr ⟨_, rfl, ?_⟩⟩
        simpa [callsOn] using h
      · rw [List.concat_eq_append, ← List.cons_append, ← List.append_assoc] at hall
        obtain ⟨rfl, ⟨⟩⟩ := List.append_inj' hall rfl
        rw [List.concat_eq_append, callsOn_concat, ← List.append_assoc]
        exact .inl ⟨_, .copied h after, rfl⟩
  · rintro (⟨earlier, h, rfl⟩ | ⟨rfl, ⟨rfl, rfl⟩ | ⟨source, rfl, h⟩⟩)
    · cases h with
      | first => simpa [callsOn_concat] using Lineage.first (steps ++ [step])
      | added before after => simpa [callsOn_concat] using Lineage.added before (after ++ [step])
      | copied h after => simpa [callsOn_concat] using Lineage.copied h (after ++ [step])
    · exact .added steps []
    · have hcopied := Lineage.copied h []
      simpa [callsOn] using hcopied

theorem lineage_nil_iff {n : Nat} {calls : List Query.Call} :
    Lineage [] n calls ↔ n = 0 ∧ calls = [] := by
  constructor
  · intro h
    generalize hnil : ([] : List Step) = none at h
    cases h with
    | first =>
      subst hnil
      exact ⟨rfl, rfl⟩
    | added before after => simp at hnil
    | copied h after => simp at hnil
  · rintro ⟨rfl, rfl⟩
    exact .first []

/-- One more call is made on what the calls before it have made. -/
theorem apply_callOn?_ofCalls (step : Step) (n : Nat) (calls : List Query.Call) :
    (step.callOn? n).elim (Query.ofCalls calls) (Query.ofCalls calls).apply =
      Query.ofCalls (calls ++ (step.callOn? n).toList) := by
  cases step.callOn? n with
  | none => simp
  | some c => exact (Query.ofCalls_concat calls c).symm

/-- **A query is what the calls of its lineage make of a default one.** -/
theorem get?_run_eq_some_iff (steps : List Step) (n : Nat) (q : Query) :
    (start.run steps).queries[n]? = some q ↔
      ∃ calls, Lineage steps n calls ∧ q = Query.ofCalls calls := by
  induction steps using List.reverseRecOn generalizing n q with
  | nil =>
    simp only [lineage_nil_iff, run_nil, start, List.getElem?_singleton]
    by_cases hn : n = 0
    · simp [hn, eq_comm]
    · simp [hn]
  | append_singleton steps step ih =>
    rw [run_concat, get?_perform, Option.or_eq_some_iff, Option.map_eq_some_iff]
    simp only [ih, lineage_concat_iff]
    constructor
    · rintro (⟨_, ⟨earlier, h, rfl⟩, rfl⟩ | ⟨-, hadded⟩)
      · exact ⟨_, .inl ⟨earlier, h, rfl⟩, apply_callOn?_ofCalls step n earlier⟩
      · split at hadded
        · next hn =>
          cases step with
          | new =>
            cases hadded
            exact ⟨[], .inr ⟨hn, .inl ⟨rfl, rfl⟩⟩, rfl⟩
          | copy source =>
            obtain ⟨calls, h, rfl⟩ := (ih source q).mp hadded
            exact ⟨calls, .inr ⟨hn, .inr ⟨source, rfl, h⟩⟩, rfl⟩
          | call target draft => cases hadded
        · cases hadded
    · rintro ⟨_, ⟨earlier, h, rfl⟩ | ⟨rfl, hbegun⟩, rfl⟩
      · exact .inl ⟨_, ⟨earlier, h, rfl⟩, apply_callOn?_ofCalls step n earlier⟩
      · -- the number of an added query was not in use
        have hfree : (start.run steps).queries[count steps]? = none :=
          List.getElem?_eq_none (Nat.le_refl _)
        refine .inr ⟨?_, ?_⟩
        · rw [hfree]
          rfl
        · rw [if_pos (show count steps = (start.run steps).queries.length from rfl)]
          rcases hbegun with ⟨rfl, rfl⟩ | ⟨source, rfl, h⟩
          · rfl
          · exact (ih source _).mpr ⟨_, h, rfl⟩

/-! ## Calls that do not count -/

theorem StemsFrom.concat {before after : List Step} {m n : Nat} (h : StemsFrom before m after n)
    (step : Step) : StemsFrom before m (after ++ [step]) n := by
  cases h with
  | self => exact .self _
  | copied h after =>
    rw [List.append_assoc, List.cons_append]
    exact .copied h _

theorem count_concat (steps : List Step) (step : Step) :
    count (steps ++ [step]) = count steps + step.growth (count steps) := by
  rw [count, run_concat]
  exact length_perform _ step

theorem count_le_count_append (before after : List Step) : count before ≤ count (before ++ after) := by
  induction after using List.reverseRecOn with
  | nil => simp
  | append_singleton after step ih =>
    rw [← List.append_assoc, count_concat]
    exact Nat.le_trans ih (Nat.le_add_right _ _)

/-- A query that was there already stems from no other. -/
theorem StemsFrom.eq_or_count_le {before after : List Step} {m n : Nat}
    (h : StemsFrom before m after n) : n = m ∨ count before ≤ n := by
  cases h with
  | self => exact .inl rfl
  | copied h after => exact .inr (count_le_count_append before _)

/-- **A call leaves every query as it is but the called one and those that are copied from it later.** -/
theorem run_call_agrees (before after : List Step) (target : Nat) (draft : Query.Call.Draft) :
    count (before ++ .call target draft :: after) = count (before ++ after) ∧
      ∀ n, ¬StemsFrom before target after n →
        (start.run (before ++ .call target draft :: after)).queries[n]? =
          (start.run (before ++ after)).queries[n]? := by
  induction after using List.reverseRecOn with
  | nil =>
    rw [List.append_nil]
    refine ⟨count_concat before _, fun n hn => ?_⟩
    have hother : target ≠ n := by
      rintro rfl
      exact hn (.self [])
    rw [run_concat, get?_perform, Step.callOn?, if_neg hother, Step.added?, ite_self, Option.or_none]
    exact Option.map_id_apply
  | append_singleton after step ih =>
    obtain ⟨hcount, hagree⟩ := ih
    rw [← List.append_assoc, ← List.cons_append, ← List.append_assoc, count_concat, count_concat, hcount]
    refine ⟨rfl, fun n hn => ?_⟩
    have hold : ¬StemsFrom before target after n := fun h => hn (h.concat step)
    have hlength : (start.run (before ++ .call target draft :: after)).queries.length =
        (start.run (before ++ after)).queries.length := hcount
    rw [run_concat, run_concat, get?_perform, get?_perform, hagree n hold, hlength]
    congr 1
    split
    · next hnew =>
      cases step with
      | new => rfl
      | call target' draft' => rfl
      | copy source =>
        -- were the source not the same, what is copied from it would stem from the called query
        refine hagree source fun h => hn ?_
        rw [hnew]
        exact .copied h []
    · rfl

/-- **A query is what its lineage makes it.** A call fails when anything in its argument is at fault,
and then counts for no query. Any other call counts for the called query and those that are copied from
it later, and not for those that were there already. -/
theorem get?_run (steps : List Step) (n : Nat) :
    (∀ q, (start.run steps).queries[n]? = some q ↔
      ∃ calls, Lineage steps n calls ∧ q = Query.ofCalls calls) ∧
    ∀ before target draft after, steps = before ++ .call target draft :: after →
      ((∃ e, draft.build = .error e) ↔ draft.faults ≠ []) ∧
      (draft.faults ≠ [] ∨ n ≠ target ∧ n < count before ∨ ¬StemsFrom before target after n →
        (start.run steps).queries[n]? = (start.run (before ++ after)).queries[n]?) := by
  refine ⟨get?_run_eq_some_iff steps n, ?_⟩
  rintro before target draft after rfl
  refine ⟨draft.build_failsFor.exists_error_iff, ?_⟩
  rintro (hfaults | ⟨hother, hearlier⟩ | hstems)
  · rw [run_append, run_cons, perform_of_faults hfaults, ← run_append]
  · refine (run_call_agrees before after target draft).2 n fun h => ?_
    rcases h.eq_or_count_le with heq | hle
    · exact hother heq
    · omega
  · exact (run_call_agrees before after target draft).2 n hstems

/-- A copy of a copy, calls on both of its ancestors after it was taken, and calls that fail: for an
empty `or` inside a tree, and for a code that is none. -/
def forkedSteps : List Step :=
  [.call 0 (.given (.limit 5)), .copy 0, .call 0 (.given (.limit 7)),
   .call 1 (.setFilterTree (.join .and [.condition (.given ⟨"close", .empty, none⟩), .join .or []])),
   .copy 1, .call 1 (.given (.offset 3)), .call 2 (.addConditions [.coded "close" .null none]),
   .call 2 (.given (.select ["close"])), .new]

theorem get?_run_forkedSteps :
    (start.run forkedSteps).queries[2]? = some (Query.ofCalls [.limit 5, .select ["close"]]) ∧
      (start.run forkedSteps).queries[1]? =
        (start.run (forkedSteps.take 3 ++ forkedSteps.drop 4)).queries[1]? := by
  have hlineage : Lineage forkedSteps 2 [.limit 5, .select ["close"]] :=
    .copied (.copied (.first (forkedSteps.take 1)) ((forkedSteps.drop 2).take 2)) (forkedSteps.drop 5)
  refine ⟨((get?_run forkedSteps 2).1 _).mpr ⟨_, hlineage, rfl⟩, ?_⟩
  exact ((get?_run forkedSteps 1).2 (forkedSteps.take 3) 1 _ (forkedSteps.drop 4) rfl).2 (.inl nofun)

end Session

end MarketScan
