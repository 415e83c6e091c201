import Mathlib.Tactic
import Mathlib.Algebra.Order.Floor.Ring

/-!
# The cells of a regular grid

A line of `n` cells of width one, of which cell `i` spans a half either side of `i`.  An interval
is rounded outwards to a range of cells.

* `Meets lo hi i`: cell `i` meets the interval;
* `clamp n`, the nearest cell of the line;
* `covers`: rounding outwards keeps every cell that meets the interval, and only the first and the
  last cell of the range may fail to.
-/

namespace Grid

variable {K : Type} [Field K] [LinearOrder K] [IsStrictOrderedRing K]

/-- The cell with this index and the interval have a point in common. -/
def Meets (lo hi : K) (i : ℤ) : Prop := (i : K) - 1 / 2 ≤ hi ∧ lo ≤ i + 1 / 2

/-- The nearest index of a line of `n` cells. -/
def clamp (n i : ℤ) : ℤ := max 0 (min i (n - 1))

theorem clamp_nonneg (n i : ℤ) : 0 ≤ clamp n i := le_max_left _ _

theorem clamp_lt {n : ℤ} (hn : 0 < n) (i : ℤ) : clamp n i < n := by
  unfold clamp
  omega

theorem clamp_mono {n i j : ℤ} (h : i ≤ j) : clamp n i ≤ clamp n j :=
  max_le_max_left 0 (min_le_min_right (n - 1) h)

theorem clamp_le {n i j : ℤ} (hj : 0 ≤ j) (h : i ≤ j) : clamp n i ≤ j := by
  unfold clamp
  omega

theorem le_clamp {n i j : ℤ} (hj : j < n) (h : j ≤ i) : j ≤ clamp n i := by
  unfold clamp
  omega

section rounding

variable [FloorRing K] {lo hi : K} {i : ℤ}

/-- A cell that meets the interval is not before its lower end, rounded down. -/
theorem Meets.floor_le (h : Meets lo hi i) : ⌊lo⌋ ≤ i := by
  have hlt : lo < (i : K) + 1 := by linarith [h.2]
  exact Int.lt_add_one_iff.1 (Int.floor_lt.2 (by exact_mod_cast hlt))

theorem Meets.le_ceil (h : Meets lo hi i) : i ≤ ⌈hi⌉ := by
  have hlt : (i : K) - 1 < hi := by linarith [h.1]
  have hceil : i - 1 < ⌈hi⌉ := Int.lt_ceil.2 (by exact_mod_cast hlt)
  omega

/-- A cell inside the range of indices reaches over the ends of the interval. -/
theorem le_add_half_of_floor_lt (h : ⌊lo⌋ < i) : lo ≤ i + 1 / 2 := by
  have hlt : lo < i := Int.floor_lt.1 h
  linarith

theorem sub_half_le_of_lt_ceil (h : i < ⌈hi⌉) : (i : K) - 1 / 2 ≤ hi := by
  have hlt : (i : K) < hi := Int.lt_ceil.1 h
  linarith

variable {n : ℤ}

/-- Every cell that meets the interval is between the rounded ends, and an index between them is
that of such a cell, or it is the first and before every such cell, or it is the last and after
every such cell. -/
theorem covers (hn : 0 < n) :
    (∀ i, 0 ≤ i → i < n → Meets lo hi i → clamp n ⌊lo⌋ ≤ i ∧ i ≤ clamp n ⌈hi⌉) ∧
      ∀ i, clamp n ⌊lo⌋ ≤ i → i ≤ clamp n ⌈hi⌉ → ¬ Meets lo hi i →
        (i = clamp n ⌊lo⌋ ∧ ∀ m, Meets lo hi m → i < m) ∨
          (i = clamp n ⌈hi⌉ ∧ ∀ m, Meets lo hi m → m < i) := by
  refine ⟨fun i hi0 hin hmeets => ⟨?_, ?_⟩, fun i hlow hhigh hmiss => ?_⟩
  · exact clamp_le hi0 hmeets.floor_le
  · exact le_clamp hin hmeets.le_ceil
  · have hi0 : 0 ≤ i := (clamp_nonneg n _).trans hlow
    have hin : i < n := hhigh.trans_lt (clamp_lt hn _)
    by_cases hover : lo ≤ i + 1 / 2
    · -- the cell is beyond the upper end
      have hbeyond : hi < (i : K) - 1 / 2 := not_le.1 fun h => hmiss ⟨h, hover⟩
      right
      refine ⟨?_, fun m hm => ?_⟩
      · have hceil : ⌈hi⌉ ≤ i := not_lt.1 fun h => absurd (sub_half_le_of_lt_ceil h) hbeyond.not_ge
        exact le_antisymm hhigh (clamp_le hi0 hceil)
      · have hlt : (m : K) < i := by linarith [hm.1]
        exact_mod_cast hlt
    · -- the cell ends before the lower end
      have hbefore : (i : K) + 1 / 2 < lo := not_le.1 hover
      left
      refine ⟨?_, fun m hm => ?_⟩
      · have hle' : i ≤ ⌊lo⌋ := not_lt.1 fun h => absurd (le_add_half_of_floor_lt h) hbefore.not_ge
        exact le_antisymm (le_clamp hin hle') hlow
      · have hlt : (i : K) < m := by linarith [hm.2]
        exact_mod_cast hlt

end rounding

end Grid
