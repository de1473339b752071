import MarketScan.Json.Basic

/-!
# The window of rows

A window is the range of rows that a query asks for, kept as its start and its width, so that it
never ends before it starts. Its end is a number of 64 bits: where a move or a new width would pass
that bound, the width is cut to what is left.

* `Window.limit` — another width from the same start
* `Window.offset` — another start with the same width
-/

namespace MarketScan

/-- A range of rows, from `start` up to `start + width`. -/
structure Window where
  start : Nat
  width : Nat
  fits : start + width < 18446744073709551616

namespace Window

/-- The greatest row number, which is the greatest number of 64 bits. -/
def maxRow : Nat := 18446744073709551615

/-- The first fifty rows. -/
def default : Window := ⟨0, 50, by decide⟩

/-- The row after the last one. -/
def stop (w : Window) : Nat := w.start + w.width

/-- `n` rows from the same start on. -/
def limit (n : UInt64) (w : Window) : Window :=
  ⟨w.start, min n.toNat (maxRow - w.start), by have := w.fits; unfold maxRow; omega⟩

/-- The same number of rows from `n` on. -/
def offset (n : UInt64) (w : Window) : Window :=
  ⟨n.toNat, min w.width (maxRow - n.toNat), by have := n.toNat_lt; unfold maxRow; omega⟩

theorem stop_lt (w : Window) : w.stop < 18446744073709551616 := w.fits

theorem start_le_stop (w : Window) : w.start ≤ w.stop := Nat.le_add_right _ _

@[simp] theorem start_limit (n : UInt64) (w : Window) : (w.limit n).start = w.start := rfl

@[simp] theorem start_offset (n : UInt64) (w : Window) : (w.offset n).start = n.toNat := rfl

/-- The end after a new width is the sum, cut at the greatest row. -/
theorem stop_limit (n : UInt64) (w : Window) :
    (w.limit n).stop = min (w.start + n.toNat) maxRow := by
  have := w.fits
  simp only [limit, stop, maxRow]
  omega

/-- The end after a move is the sum, cut at the greatest row. -/
theorem stop_offset (n : UInt64) (w : Window) :
    (w.offset n).stop = min (n.toNat + w.width) maxRow := by
  have := n.toNat_lt
  simp only [offset, stop, maxRow]
  omega

@[ext] theorem ext {v w : Window} (hs : v.start = w.start) (hw : v.width = w.width) : v = w := by
  cases v; cases w; simp_all

instance : DecidableEq Window := fun v w =>
  if h : v.start = w.start ∧ v.width = w.width then .isTrue (ext h.1 h.2)
  else .isFalse (by rintro rfl; simp at h)

/-- The start and the row after the last one, as a document holds them. -/
def bounds (w : Window) : Json.Whole × Json.Whole :=
  (⟨w.start, by omega, by have := w.fits; omega⟩,
   ⟨w.stop, by omega, by have := w.stop_lt; omega⟩)

def json (w : Window) : Json :=
  .array [.number (.whole w.bounds.1), .number (.whole w.bounds.2)]

end Window

end MarketScan
