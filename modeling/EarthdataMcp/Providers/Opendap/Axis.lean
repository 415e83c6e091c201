import EarthdataMcp.Grid.Cells

/-!
# Index ranges of an axis

A regular coordinate axis, and the range of its cells that a window of degrees is mapped to.

* `AxisGeometry` and `indexRange`;
* `indexRange_bounds`: the range is one of the axis, whatever the window;
* `indexRange_covers`: it has every cell that the window touches, and at most one more on each
  side;
* `axisOfExtent`, the axis whose cells fill an extent.
-/

namespace EarthdataMcp

/-- The name of a variable, a path of groups. -/
abbrev VarName := List Char

instance : LawfulBEq VarName := inferInstance

/-- A regular axis: its first value, the signed spacing of its values, and their number. -/
structure AxisGeometry where
  name : VarName
  origin : ℚ
  step : ℚ
  length : ℤ
  deriving DecidableEq, Repr

/-- The first and the last index of a range of cells. -/
abbrev IndexRange := ℤ × ℤ

/-- The window in cells from the first value of the axis; on a descending axis its ends change
places. -/
def AxisGeometry.inCells (axis : AxisGeometry) (lo hi : ℚ) : ℚ × ℚ :=
  let iLo := (lo - axis.origin) / axis.step
  let iHi := (hi - axis.origin) / axis.step
  if 0 < axis.step then (iLo, iHi) else (iHi, iLo)

/-- The cells of a window of degrees; nothing for a malformed axis. -/
def indexRange (axis : AxisGeometry) (lo hi : ℚ) : Option IndexRange :=
  if axis.step = 0 ∨ axis.length ≤ 0 then none
  else
    let low := max 0 (min ⌊(axis.inCells lo hi).1⌋ (axis.length - 1))
    let high := max 0 (min ⌈(axis.inCells lo hi).2⌉ (axis.length - 1))
    some (if low ≤ high then (low, high) else (low, low))

namespace AxisGeometry

/-- The span of a cell, a half step either side of its value, has a degree of the window. -/
def CellMeets (axis : AxisGeometry) (lo hi : ℚ) (i : ℤ) : Prop :=
  axis.origin + i * axis.step - |axis.step| / 2 ≤ hi ∧
    lo ≤ axis.origin + i * axis.step + |axis.step| / 2

variable {axis : AxisGeometry} {lo hi : ℚ}

/-- The axis is well-formed. -/
def WellFormed (axis : AxisGeometry) : Prop := axis.step ≠ 0 ∧ 0 < axis.length

instance (axis : AxisGeometry) : Decidable axis.WellFormed :=
  inferInstanceAs (Decidable (axis.step ≠ 0 ∧ 0 < axis.length))

theorem cellMeets_iff (hstep : axis.step ≠ 0) (i : ℤ) :
    axis.CellMeets lo hi i ↔ Grid.Meets (axis.inCells lo hi).1 (axis.inCells lo hi).2 i := by
  unfold CellMeets Grid.Meets inCells
  rcases lt_or_gt_of_ne hstep with hneg | hpos
  · rw [if_neg hneg.not_gt, abs_of_neg hneg, le_div_iff_of_neg hneg, div_le_iff_of_neg hneg]
    constructor <;> rintro ⟨h, h'⟩ <;> constructor <;> linarith
  · rw [if_pos hpos, abs_of_pos hpos, le_div_iff₀ hpos, div_le_iff₀ hpos]
    constructor <;> rintro ⟨h, h'⟩ <;> constructor <;> linarith

theorem inCells_le (hstep : axis.step ≠ 0) (hle : lo ≤ hi) :
    (axis.inCells lo hi).1 ≤ (axis.inCells lo hi).2 := by
  unfold inCells
  rcases lt_or_gt_of_ne hstep with hneg | hpos
  · rw [if_neg hneg.not_gt]
    exact div_le_div_of_nonpos_of_le hneg.le (by linarith)
  · rw [if_pos hpos]
    exact div_le_div_of_nonneg_right (by linarith) hpos.le

end AxisGeometry

section indexRange

variable {axis : AxisGeometry} {lo hi : ℚ}

theorem indexRange_isSome_iff : (indexRange axis lo hi).isSome ↔ axis.WellFormed := by
  unfold indexRange AxisGeometry.WellFormed
  split_ifs with h
  · simp only [Option.isSome_none, Bool.false_eq_true, false_iff, not_and, not_lt]
    tauto
  · simp only [Option.isSome_some, true_iff]
    exact not_or.1 h |>.imp_right not_le.1

/-- A range is never empty and never beyond the axis. -/
theorem indexRange_bounds {range : IndexRange} (h : indexRange axis lo hi = some range) :
    0 ≤ range.1 ∧ range.1 ≤ range.2 ∧ range.2 < axis.length := by
  unfold indexRange at h
  split_ifs at h with hmalformed
  obtain rfl := Option.some.inj h
  have hlength : 0 < axis.length := not_le.1 (not_or.1 hmalformed).2
  have hnonneg (x : ℤ) := Grid.clamp_nonneg axis.length x
  have hlt (x : ℤ) := Grid.clamp_lt hlength x
  split_ifs with hle
  · exact ⟨hnonneg _, hle, hlt _⟩
  · exact ⟨hnonneg _, le_rfl, hlt _⟩

/-- A window whose ends are in order is rounded outwards. -/
theorem indexRange_eq (haxis : axis.WellFormed) (hle : lo ≤ hi) :
    indexRange axis lo hi = some (Grid.clamp axis.length ⌊(axis.inCells lo hi).1⌋,
      Grid.clamp axis.length ⌈(axis.inCells lo hi).2⌉) := by
  have hmono : ⌊(axis.inCells lo hi).1⌋ ≤ ⌈(axis.inCells lo hi).2⌉ :=
    (Int.floor_le_ceil _).trans (Int.ceil_mono (AxisGeometry.inCells_le haxis.1 hle))
  unfold indexRange
  rw [if_neg (not_or.2 ⟨haxis.1, not_le.2 haxis.2⟩)]
  exact congrArg some (if_pos (Grid.clamp_mono hmono))

/-- The range of a window has every cell of the axis whose span has a degree of the window.  Any
other cell of the range is its first and before all of these, or its last and after all of them. -/
theorem indexRange_covers (axis : AxisGeometry) (haxis : axis.WellFormed) (lo hi : ℚ)
    (hle : lo ≤ hi) :
    ∃ low high, indexRange axis lo hi = some (low, high) ∧
      (0 ≤ low ∧ low ≤ high ∧ high < axis.length) ∧
      (∀ i, 0 ≤ i → i < axis.length → axis.CellMeets lo hi i → low ≤ i ∧ i ≤ high) ∧
      ∀ i, low ≤ i → i ≤ high → ¬ axis.CellMeets lo hi i →
        (i = low ∧ ∀ m, axis.CellMeets lo hi m → i < m) ∨
          (i = high ∧ ∀ m, axis.CellMeets lo hi m → m < i) := by
  have heq := indexRange_eq haxis hle
  refine ⟨_, _, heq, indexRange_bounds heq, ?_⟩
  simp only [AxisGeometry.cellMeets_iff haxis.1]
  exact Grid.covers haxis.2

/-- A descending axis of quarter degrees. -/
theorem indexRange_covers_descending :
    let axis : AxisGeometry := ⟨"lat".toList, 359 / 8, -1 / 4, 600⟩
    indexRange axis 38 43 = some (7, 28) ∧ axis.CellMeets 38 43 28 ∧
      ∃ low high, indexRange axis 38 43 = some (low, high) ∧ low ≤ 28 ∧ 28 ≤ high := by
  intro axis
  have haxis : axis.WellFormed := by decide +kernel
  have hmeets : axis.CellMeets 38 43 28 := by
    unfold AxisGeometry.CellMeets
    norm_num [axis, abs_of_neg]
  obtain ⟨low, high, hrange, -, hcovers, -⟩ :=
    indexRange_covers axis haxis 38 43 (by norm_num)
  exact ⟨by decide +kernel, hmeets, low, high, hrange,
    hcovers 28 (by decide) (by decide +kernel) hmeets⟩

end indexRange

/-! ### The axis of an extent -/

/-- The axis of this many cells between two edges: its first value is half a step inside. -/
def axisOfExtent (name : VarName) (first last : ℚ) (length : ℤ) : AxisGeometry :=
  let step := (last - first) / length
  ⟨name, first + step / 2, step, length⟩

section axisOfExtent

variable {name : VarName} {first last : ℚ} {length : ℤ}

theorem axisOfExtent_wellFormed (hlength : 0 < length) (hne : first ≠ last) :
    (axisOfExtent name first last length).WellFormed := by
  have hcast : (length : ℚ) ≠ 0 := by exact_mod_cast hlength.ne'
  exact ⟨div_ne_zero (sub_ne_zero.2 hne.symm) hcast, hlength⟩

/-- The cells fill the extent: the first begins at one edge, each begins where the one before it
ends, and the last ends at the other edge. -/
theorem axisOfExtent_cells (hlength : 0 < length) (i : ℤ) :
    let axis := axisOfExtent name first last length
    axis.origin + i * axis.step - axis.step / 2 = first + i * axis.step ∧
      axis.origin + i * axis.step + axis.step / 2 = first + (i + 1) * axis.step ∧
      first + length * axis.step = last := by
  have hcast : (length : ℚ) ≠ 0 := by exact_mod_cast hlength.ne'
  simp only [axisOfExtent]
  refine ⟨by ring, by ring, ?_⟩
  rw [mul_div_cancel₀ _ hcast]
  ring

end axisOfExtent

end EarthdataMcp
