import MarketScan.Proofs.Query.History
import Mathlib.Data.List.DropRight

/-!
# Which rows a history asks for

A window keeps the width that was last asked for, but once a move has pushed its end against the
greatest row, what was cut off does not come back before the next limit. So the width is bounded by
what is left above the highest start since the last limit, and not above the start there is now.

The ends of a window are numbers of 64 bits. `History.ends` moves them in that arithmetic, where a
sum that would wrap is the greatest number instead, and never meets an end below its start.

* `Query.width_ofCalls` — the width that calls leave, by what they say
* `Query.ends_ofCalls` — the arithmetic of 64 bits gives the same ends
* `Query.window_ofCalls` — both ends
-/

namespace MarketScan.Query

/-! ## What a history says about rows -/

namespace Call

/-- The number of rows that a call asks for. -/
def rows? : Call → Option Nat
  | .limit n => some n.toNat
  | _ => none

/-- The row that a call moves to. -/
def start? : Call → Option Nat
  | .offset n => some n.toNat
  | _ => none

def isPaging : Call → Bool
  | .limit _ | .offset _ => true
  | _ => false

theorem page_of_not_isPaging {c : Call} (h : c.isPaging = false) (w : Window) : c.page w = w := by
  cases c with
  | limit n => cases h
  | offset n => cases h
  | _ => rfl

end Call

theorem window_apply (q : Query) (c : Call) : (q.apply c).window = c.page q.window := by
  rw [apply_eq]

namespace History

/-- The rows that were last asked for. -/
def rows (calls : List Call) : Nat := ((calls.filterMap Call.rows?).getLast?).getD 50

/-- The row that was last moved to. -/
def start (calls : List Call) : Nat := ((calls.filterMap Call.start?).getLast?).getD 0

/-- The calls up to the last limit, and with it. -/
def upToLimit (calls : List Call) : List Call := calls.rdropWhile fun c => c.rows?.isNone

/-- The calls after the last limit. -/
def sinceLimit (calls : List Call) : List Call := calls.rtakeWhile fun c => c.rows?.isNone

/-- The highest row that the window has started at since the last limit. -/
def reach (calls : List Call) : Nat :=
  ((sinceLimit calls).filterMap Call.start?).foldl max (start (upToLimit calls))

theorem start_concat (calls : List Call) (c : Call) :
    start (calls ++ [c]) = c.start?.getD (start calls) := by
  rw [start, List.filterMap_append, List.getLast?_append]
  cases h : c.start? <;> simp [h, start]

theorem rows_concat (calls : List Call) (c : Call) :
    rows (calls ++ [c]) = c.rows?.getD (rows calls) := by
  rw [rows, List.filterMap_append, List.getLast?_append]
  cases h : c.rows? <;> simp [h, rows]

/-- A limit starts the count of highest rows anew. -/
theorem reach_concat_limit (calls : List Call) (n : UInt64) :
    reach (calls ++ [.limit n]) = start calls := by
  have hsome : ¬(Call.limit n).rows?.isNone = true := nofun
  rw [reach, sinceLimit, upToLimit, List.rtakeWhile_concat, if_neg hsome, List.rdropWhile_concat,
    if_neg hsome, start_concat]
  rfl

/-- Any other call goes on with it. -/
theorem reach_concat {c : Call} (h : c.rows? = none) (calls : List Call) :
    reach (calls ++ [c]) = c.start?.toList.foldl max (reach calls) := by
  have hnone : c.rows?.isNone = true := by rw [h]; rfl
  rw [reach, sinceLimit, upToLimit, List.rtakeWhile_concat, if_pos hnone, List.rdropWhile_concat,
    if_pos hnone, List.filterMap_append, List.foldl_append]
  cases hs : c.start? <;> simp [hs, reach, sinceLimit, upToLimit]

end History

theorem start_ofCalls (calls : List Call) : (ofCalls calls).window.start = History.start calls := by
  refine latestD_of_step (f := fun q => q.window.start) (fun q c => ?_) calls
  rw [window_apply]
  cases c <;> rfl

/-- **The width is what was last asked for, cut at what is left above the highest start since.** -/
theorem width_ofCalls (calls : List Call) :
    (ofCalls calls).window.width =
      min (History.rows calls) (Window.maxRow - History.reach calls) := by
  induction calls using List.reverseRecOn with
  | nil => decide
  | append_singleton calls c ih =>
    rw [ofCalls_concat, window_apply, History.rows_concat]
    cases c with
    | limit n =>
      -- the new limit is cut at what is left above the start there is
      rw [History.reach_concat_limit, ← start_ofCalls]
      rfl
    | offset n =>
      -- what was left above the old starts is cut again above the new one
      rw [History.reach_concat rfl]
      show min (ofCalls calls).window.width (Window.maxRow - n.toNat) =
        min (History.rows calls) (Window.maxRow - max (History.reach calls) n.toNat)
      rw [ih]
      omega
    | _ =>
      rw [History.reach_concat rfl]
      exact ih

/-! ## The ends as numbers of 64 bits -/

namespace History

/-- The sum, or the greatest number where the sum would wrap. -/
def saturatingAdd (a b : UInt64) : UInt64 :=
  if a + b < a then UInt64.ofNat Window.maxRow else a + b

/-- The difference, or zero where the difference would wrap. -/
def saturatingSub (a b : UInt64) : UInt64 := if a < b then 0 else a - b

theorem toNat_saturatingAdd (a b : UInt64) :
    (saturatingAdd a b).toNat = min (a.toNat + b.toNat) Window.maxRow := by
  have ha := a.toNat_lt
  have hb := b.toNat_lt
  have hsum := UInt64.toNat_add a b
  have hmax : (UInt64.ofNat Window.maxRow).toNat = Window.maxRow := by decide
  unfold saturatingAdd
  split
  · next h =>
    rw [UInt64.lt_iff_toNat_lt, hsum] at h
    rw [hmax, Window.maxRow]
    omega
  · next h =>
    rw [UInt64.lt_iff_toNat_lt, hsum] at h
    rw [hsum, Window.maxRow]
    omega

theorem toNat_saturatingSub (a b : UInt64) : (saturatingSub a b).toNat = a.toNat - b.toNat := by
  unfold saturatingSub
  split
  · next h =>
    rw [UInt64.lt_iff_toNat_lt] at h
    simp only [UInt64.toNat_zero]
    omega
  · next h => exact UInt64.toNat_sub_of_le a b (UInt64.not_lt.mp h)

/-- Both ends after a call, from both ends before. -/
def move (ends : UInt64 × UInt64) : Call → UInt64 × UInt64
  | .limit n => (ends.1, saturatingAdd ends.1 n)
  | .offset n => (n, saturatingAdd n (saturatingSub ends.2 ends.1))
  | _ => ends

/-- Both ends after calls. -/
def ends (calls : List Call) : UInt64 × UInt64 := calls.foldl move (0, 50)

end History

/-- **Arithmetic of 64 bits gives the ends of the window.** -/
theorem ends_ofCalls (calls : List Call) :
    (History.ends calls).1.toNat = (ofCalls calls).window.start ∧
      (History.ends calls).2.toNat = (ofCalls calls).window.stop := by
  induction calls using List.reverseRecOn with
  | nil => decide
  | append_singleton calls c ih =>
    obtain ⟨hstart, hstop⟩ := ih
    have hends : History.ends (calls ++ [c]) = History.move (History.ends calls) c := by
      rw [History.ends, List.foldl_append]
      rfl
    rw [hends, ofCalls_concat, window_apply]
    cases c with
    | limit n =>
      refine ⟨hstart, ?_⟩
      show (History.saturatingAdd _ n).toNat = (Window.limit n _).stop
      rw [History.toNat_saturatingAdd, hstart, Window.stop_limit]
    | offset n =>
      refine ⟨rfl, ?_⟩
      show (History.saturatingAdd n _).toNat = (Window.offset n _).stop
      -- the end is not below the start, so their difference is the width
      have hwidth : (ofCalls calls).window.stop - (ofCalls calls).window.start =
          (ofCalls calls).window.width := Nat.add_sub_cancel_left ..
      rw [History.toNat_saturatingAdd, History.toNat_saturatingSub, hstart, hstop, hwidth,
        Window.stop_offset]
    | _ => exact ⟨hstart, hstop⟩

/-! ## Both ends -/

/-- Calls that are neither limits nor moves do not touch the window. -/
theorem window_ofCalls_filter (calls : List Call) :
    (ofCalls (calls.filter Call.isPaging)).window = (ofCalls calls).window := by
  induction calls using List.reverseRecOn with
  | nil => rfl
  | append_singleton calls c ih =>
    rw [List.filter_append, List.filter_singleton, ofCalls_concat, window_apply]
    cases h : c.isPaging with
    | true => rw [cond_true, ofCalls_concat, window_apply, ih]
    | false => rw [cond_false, List.append_nil, Call.page_of_not_isPaging h, ih]

/-- **The window of a query, by the limits and moves in its history.** -/
theorem window_ofCalls (calls : List Call) :
    let lower := History.start calls
    let upper := lower + min (History.rows calls) (Window.maxRow - History.reach calls)
    (ofCalls calls).window.bounds.1.value = lower ∧
      (ofCalls calls).window.bounds.2.value = upper ∧
      (History.ends calls).1.toNat = lower ∧ (History.ends calls).2.toNat = upper ∧
      lower ≤ upper ∧ upper ≤ Window.maxRow ∧
      (ofCalls (calls.filter Call.isPaging)).window = (ofCalls calls).window := by
  intro lower upper
  have hstart : (ofCalls calls).window.start = lower := start_ofCalls calls
  have hstop : (ofCalls calls).window.stop = upper := by
    rw [Window.stop, hstart, width_ofCalls]
  obtain ⟨hlow, hhigh⟩ := ends_ofCalls calls
  have hmax : upper ≤ Window.maxRow := by
    rw [← hstop]
    exact Nat.le_pred_of_lt (Window.stop_lt _)
  exact ⟨congrArg Int.ofNat hstart, congrArg Int.ofNat hstop, hlow.trans hstart,
    hhigh.trans hstop, Nat.le_add_right _ _, hmax, window_ofCalls_filter calls⟩

end MarketScan.Query
