import MarketScan.Proofs.Query.Paging
import MarketScan.Proofs.Query.Same

/-!
# Calls in either order

Every field of a query is changed by calls of one method only, but for the window, which limits and
moves both change. So calls of different methods commute, a limit and a move excepted: there the width
is cut above the old start in one order and above the new start in both, which is the same unless the
old start is the higher one and cuts something off.

Two further properties of different keys commute as well. They may end up in another order, which
equality of queries does not see.

* `Query.Call.saidBy` — which method changes which field
* `Query.apply_apply_comm` — calls that change different fields
* `Window.limit_offset_comm_iff` — a limit and a move
* `Query.commuteAt_iff` — all calls
-/

namespace MarketScan

/-- **A limit and a move commute unless the limit is cut above a start that the move goes back from.** -/
theorem Window.limit_offset_comm_iff (n m : UInt64) (w : Window) :
    (w.limit n).offset m = (w.offset m).limit n ↔ n.toNat ≤ maxRow - w.start ∨ w.start ≤ m.toNat := by
  have hstart : w.start ≤ maxRow := Nat.le_of_lt_succ (Nat.lt_of_le_of_lt w.start_le_stop w.stop_lt)
  have hmove : m.toNat ≤ maxRow := Nat.le_of_lt_succ m.toNat_lt
  have hwidth : ((w.limit n).offset m).width = min (min n.toNat (maxRow - w.start)) (maxRow - m.toNat) :=
    rfl
  have hwidth' : ((w.offset m).limit n).width = min n.toNat (maxRow - m.toNat) := rfl
  constructor
  · intro h
    have heq := congrArg width h
    rw [hwidth, hwidth'] at heq
    omega
  · intro h
    refine Window.ext rfl ?_
    rw [hwidth, hwidth']
    omega

/-- What is found under a name after two others are set does not depend on their order. -/
theorem Entries.get?_insert_insert_comm {α : Type} {key key' : String} (h : key ≠ key') (a b : α)
    (es : List (String × α)) (k : String) :
    get? k (insert key' b (insert key a es)) = get? k (insert key a (insert key' b es)) := by
  simp only [get?_insert]
  split
  · next hk =>
    rw [if_neg]
    rintro rfl
    exact h hk
  · rfl

namespace Query

/-! ## Calls that change different fields -/

namespace Call

/-- The methods of a query. -/
inductive Method where
  | select
  | setMarkets
  | setTickers
  | addIndexes
  | addConditions
  | setFilterTree
  | orderBy
  | limit
  | offset
  | setProperty
deriving DecidableEq

/-- The method that is called, whatever the arguments are. -/
def method : Call → Method
  | .select _ => .select
  | .setMarkets _ => .setMarkets
  | .setTickers _ => .setTickers
  | .addIndexes _ => .addIndexes
  | .addConditions _ => .addConditions
  | .setFilterTree _ => .setFilterTree
  | .orderBy _ _ _ => .orderBy
  | .limit _ => .limit
  | .offset _ => .offset
  | .setProperty _ _ => .setProperty

/-- Calls of other methods than `k` give `silence`. -/
def SaidBy {α : Type} (k : Method) (g : Call → α) (silence : α) : Prop :=
  ∀ c : Call, c.method ≠ k → g c = silence

/-- **Every field but the window is changed by one method.** -/
theorem saidBy :
    SaidBy .select columns? none ∧ SaidBy .setMarkets markets? none ∧
    SaidBy .setTickers tickers? none ∧ SaidBy .addIndexes indexes? none ∧
    SaidBy .addConditions conditions [] ∧ SaidBy .setFilterTree filterTree? none ∧
    SaidBy .orderBy order? none ∧ SaidBy .setProperty property? none := by
  refine ⟨?_, ?_, ?_, ?_, ?_, ?_, ?_, ?_⟩ <;> intro c hmethod <;> cases c
  -- each field has one method of its own, and nothing is said of it by the others
  all_goals first | rfl | exact absurd rfl hmethod

/-- What one method alone changes, calls of different methods change in either order. -/
theorem SaidBy.comm {α β : Type} {k : Method} {g : Call → α} {silence : α} (h : SaidBy k g silence)
    {u : α → β → β} (hsilent : ∀ b, u silence b = b) {c d : Call}
    (hmethod : c.method ≠ d.method) (b : β) :
    u (g d) (u (g c) b) = u (g c) (u (g d) b) := by
  by_cases hc : c.method = k
  · have hd : d.method ≠ k := fun hd => hmethod (hc.trans hd.symm)
    rw [h d hd, hsilent, hsilent]
  · rw [h c hc, hsilent, hsilent]

end Call

/-- **Calls that change different fields commute.** -/
theorem apply_apply_comm (q : Query) {c d : Call} (hmethod : c.method ≠ d.method)
    (hpaging : c.isPaging = false ∨ d.isPaging = false) :
    (q.apply c).apply d = (q.apply d).apply c := by
  obtain ⟨hcolumns, hmarkets, htickers, hindexes, hconditions, hfilterTree, horder, hproperty⟩ :=
    Call.saidBy
  have markets := hmarkets.comm (fun _ => Option.getD_none) hmethod q.markets
  have columns := hcolumns.comm (fun _ => Option.getD_none) hmethod q.columns
  have tickers := htickers.comm (fun _ => Option.none_or) hmethod q.symbols.tickers
  have indexes := hindexes.comm (u := fun x l => l ++ x.toList) List.append_nil hmethod q.symbols.indexes
  have filter := hconditions.comm (u := fun x l => l ++ x) List.append_nil hmethod q.filter
  have filterTree := hfilterTree.comm (fun _ => Option.none_or) hmethod q.filterTree
  have order := horder.comm (fun _ => Option.getD_none) hmethod q.order
  have properties := hproperty.comm (u := fun x es => x.elim es fun e => Entries.insert e.1 e.2 es)
    (fun _ => rfl) hmethod q.properties
  have window : d.page (c.page q.window) = c.page (d.page q.window) := by
    rcases hpaging with h | h <;> simp only [Call.page_of_not_isPaging h]
  simp only [apply_eq, markets, columns, tickers, indexes, filter, filterTree, order, window, properties]

/-! ## Up to equality of queries -/

/-- Both orders of two calls leave equal queries. -/
def CommuteAt (q : Query) (c d : Call) : Prop :=
  ((q.apply c).apply d).same ((q.apply d).apply c) = true

/-- Two calls have room beside each other: a limit fits above the start that there is, or a move does
not go back from it. -/
def HaveRoom (q : Query) : Call → Call → Prop
  | .limit n, .offset m | .offset m, .limit n =>
    n.toNat ≤ Window.maxRow - q.window.start ∨ q.window.start ≤ m.toNat
  | _, _ => True

section Reachable

variable {q : Query} (hq : q.Reachable)
include hq

theorem Reachable.apply {c : Call} (hc : c.Holds Json.KeysDistinct) : (q.apply c).Reachable :=
  hq.foldl_apply (List.forall_mem_singleton.mpr hc)

section Calls

variable {c d : Call} (hc : c.Holds Json.KeysDistinct) (hd : d.Holds Json.KeysDistinct)
include hc hd

theorem commuteAt_iff_agree :
    q.CommuteAt c d ↔ ((q.apply c).apply d).Agree ((q.apply d).apply c) :=
  same_iff_agree ((hq.apply hc).apply hd) ((hq.apply hd).apply hc)

theorem commuteAt_of_eq (h : (q.apply c).apply d = (q.apply d).apply c) : q.CommuteAt c d := by
  rw [commuteAt_iff_agree hq hc hd, h]
  exact equivalenceAt _ |>.refl ((hq.apply hd).apply hc)

/-- Which of two orders comes first does not matter. -/
theorem commuteAt_comm : q.CommuteAt c d ↔ q.CommuteAt d c := by
  rw [commuteAt_iff_agree hq hc hd, commuteAt_iff_agree hq hd hc]
  have hcd := (hq.apply hc).apply hd
  have hdc := (hq.apply hd).apply hc
  exact ⟨(equivalenceAt _).symm hcd hdc, (equivalenceAt _).symm hdc hcd⟩

end Calls

theorem commuteAt_limit_offset_iff (n m : UInt64) :
    q.CommuteAt (.limit n) (.offset m) ↔ q.HaveRoom (.limit n) (.offset m) := by
  refine Iff.trans ?_ (Window.limit_offset_comm_iff n m q.window)
  constructor
  · intro h
    exact ((commuteAt_iff_agree hq (c := .limit n) (d := .offset m) trivial trivial).mp h).window
  · intro h
    refine commuteAt_of_eq hq trivial trivial ?_
    show { q with window := (q.window.limit n).offset m } = { q with window := (q.window.offset m).limit n }
    rw [h]

theorem commuteAt_setProperty {key key' : String} (hkey : key ≠ key') {value value' : Json}
    (hvalue : value.KeysDistinct) (hvalue' : value'.KeysDistinct) :
    q.CommuteAt (.setProperty key value) (.setProperty key' value') := by
  by_cases hfree : key ∈ reservedKeys ∨ key' ∈ reservedKeys
  · refine commuteAt_of_eq hq hvalue hvalue' ?_
    -- the call with the reserved key does nothing
    rcases hfree with h | h <;> simp only [apply, setProperty, List.contains_iff_mem, h, if_true]
  · rw [not_or] at hfree
    have hset (r : Query) {k : String} (hk : k ∉ reservedKeys) (j : Json) :
        r.apply (.setProperty k j) = { r with properties := Entries.insert k j r.properties } := by
      simp only [apply, setProperty, List.contains_iff_mem, hk, if_false]
    have hreachable : ((q.apply (.setProperty key value)).apply (.setProperty key' value')).Reachable :=
      (hq.apply (c := .setProperty key value) hvalue).apply (c := .setProperty key' value') hvalue'
    have hself := (equivalenceAt _).refl hreachable
    rw [commuteAt_iff_agree hq (c := .setProperty key value) (d := .setProperty key' value') hvalue hvalue']
    rw [hset q hfree.1, hset _ hfree.2] at hself ⊢
    rw [hset q hfree.2, hset _ hfree.1]
    refine ⟨rfl, rfl, rfl, hself.filter, hself.filterTree, rfl, rfl, fun k => ?_⟩
    have hfound := hself.properties k
    show Option.Rel _ (Entries.get? k (Entries.insert key' value' (Entries.insert key value q.properties)))
      (Entries.get? k (Entries.insert key value (Entries.insert key' value' q.properties)))
    rwa [← Entries.get?_insert_insert_comm hkey]

end Reachable

theorem haveRoom_of_not_isPaging (q : Query) {c d : Call} (h : c.isPaging = false ∨ d.isPaging = false) :
    q.HaveRoom c d := by
  unfold HaveRoom
  split
  · rcases h with h | h <;> cases h
  · rcases h with h | h <;> cases h
  · trivial

/-- **Calls of different methods commute, but for a limit and a move without room beside each other.
Properties of different keys commute.** -/
theorem commuteAt_iff {q : Query} (hq : q.Reachable) :
    (∀ c d : Call, c.Holds Json.KeysDistinct → d.Holds Json.KeysDistinct → c.method ≠ d.method →
      (q.CommuteAt c d ↔ q.HaveRoom c d)) ∧
    ∀ (key key' : String) (value value' : Json), key ≠ key' → value.KeysDistinct →
      value'.KeysDistinct → q.CommuteAt (.setProperty key value) (.setProperty key' value') := by
  refine ⟨fun c d hc hd hmethod => ?_, fun key key' value value' hkey hvalue hvalue' =>
    commuteAt_setProperty hq hkey hvalue hvalue'⟩
  by_cases hpaging : c.isPaging = false ∨ d.isPaging = false
  · exact iff_of_true (commuteAt_of_eq hq hc hd (apply_apply_comm q hmethod hpaging))
      (haveRoom_of_not_isPaging q hpaging)
  · rw [not_or, Bool.not_eq_false, Bool.not_eq_false] at hpaging
    cases c with
    | limit n =>
      cases d with
      | limit _ => exact absurd rfl hmethod
      | offset m => exact commuteAt_limit_offset_iff hq n m
      | _ => cases hpaging.2
    | offset m =>
      cases d with
      | limit n =>
        exact (commuteAt_comm hq hc hd).trans (commuteAt_limit_offset_iff hq n m)
      | offset _ => exact absurd rfl hmethod
      | _ => cases hpaging.2
    | _ => cases hpaging.1

/-- A query that starts at row ten and has two further properties. -/
def startedCalls : List Call := [.offset 10, .setProperty "b" .null]

/-- Below row ten a move undoes what a limit was cut by. Two properties are written in another order. -/
theorem commuteAt_started :
    ¬(ofCalls startedCalls).CommuteAt (.limit 18446744073709551606) (.offset 9) ∧
    (ofCalls startedCalls).CommuteAt (.limit 18446744073709551605) (.offset 9) ∧
    (ofCalls startedCalls).CommuteAt (.setTickers ["NASDAQ:AAPL"]) (.addIndexes ["SYML:SP;SPX"]) ∧
    (ofCalls startedCalls).CommuteAt (.setProperty "c" .null) (.setProperty "a" (.bool true)) ∧
    (((ofCalls startedCalls).setProperty "c" .null).setProperty "a" (.bool true)).text ≠
      (((ofCalls startedCalls).setProperty "a" (.bool true)).setProperty "c" .null).text := by
  have hq : (ofCalls startedCalls).Reachable := by
    refine ⟨startedCalls, ?_, rfl⟩
    simp [startedCalls, Call.Holds, Json.KeysDistinct]
  obtain ⟨hmethods, hproperties⟩ := commuteAt_iff hq
  refine ⟨?_, ?_, ?_, hproperties "c" "a" .null (.bool true) (by decide) trivial trivial, ?_⟩
  · rw [hmethods (.limit 18446744073709551606) (.offset 9) trivial trivial (by decide)]
    show ¬(_ ≤ Window.maxRow - 10 ∨ 10 ≤ _)
    decide
  · rw [hmethods (.limit 18446744073709551605) (.offset 9) trivial trivial (by decide)]
    exact .inl (by decide)
  · exact (hmethods (.setTickers _) (.addIndexes _) trivial trivial (by decide)).mpr trivial
  · decide +kernel

end Query

end MarketScan
