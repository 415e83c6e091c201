import Mathlib.Data.List.ProdSigma
import Mathlib.Data.Rat.Defs
import Mathlib.Tactic

/-!
# Cutting a grid to a box

A grid with an axis for each coordinate is cut by label slices, one for each axis; a swath, whose
coordinates are arrays of two dimensions, is cut by a mask on the values.

* `AoiBox`, a box that an area of interest can have;
* `bboxSel` and `bboxSel2d`, both on the cells of a rectilinear grid;
* `bboxSel_eq_iff`: when the two agree.
-/

namespace EarthdataMcp

/-- `_validate_bbox`: what a box has to satisfy; the west may be greater than the east. -/
structure AoiBox where
  west : ℚ
  south : ℚ
  east : ℚ
  north : ℚ
  longitudes : (-180 ≤ west ∧ west ≤ 180) ∧ -180 ≤ east ∧ east ≤ 180 := by decide
  latitudes : (-90 ≤ south ∧ south ≤ 90) ∧ -90 ≤ north ∧ north ≤ 90 := by decide
  upright : south ≤ north := by decide

/-- The labels get larger along the axis. -/
def Ascending (axis : List ℚ) : Prop := axis.Pairwise (· < ·)

instance (axis : List ℚ) : Decidable (Ascending axis) :=
  inferInstanceAs (Decidable (axis.Pairwise _))

/-- The labels get larger all along, or smaller all along. -/
def StrictlyMonotone (axis : List ℚ) : Prop := Ascending axis ∨ axis.Pairwise (· > ·)

/-- Slicing by label: the labels between the two bounds, in the direction of the index. -/
def labelSlice (axis : List ℚ) (start stop : ℚ) : List ℚ :=
  if Ascending axis then axis.filter fun x => start ≤ x ∧ x ≤ stop
  else axis.filter fun x => stop ≤ x ∧ x ≤ start

/-- The first label is greater than the last. -/
def Reversed (axis : List ℚ) : Prop :=
  1 < axis.length ∧ ∃ first ∈ axis.head?, ∃ last ∈ axis.getLast?, last < first

instance (axis : List ℚ) : Decidable (Reversed axis) := by unfold Reversed; infer_instance

/-- `_bbox_sel` on two axes: the cells that are left. -/
def bboxSel (lons lats : List ℚ) (box : AoiBox) : Option (List (ℚ × ℚ)) :=
  let lons := labelSlice lons box.west box.east
  let lats :=
    if Reversed lats then labelSlice lats box.north box.south
    else labelSlice lats box.south box.north
  some (lons ×ˢ lats)

/-- The mask of the longitudes; a box across the antimeridian has two intervals. -/
def lonMask (box : AoiBox) (lon : ℚ) : Prop :=
  if box.west ≤ box.east then box.west ≤ lon ∧ lon ≤ box.east
  else box.west ≤ lon ∨ lon ≤ box.east

instance (box : AoiBox) (lon : ℚ) : Decidable (lonMask box lon) := by
  unfold lonMask; infer_instance

def latMask (box : AoiBox) (lat : ℚ) : Prop := box.south ≤ lat ∧ lat ≤ box.north

instance (box : AoiBox) (lat : ℚ) : Decidable (latMask box lat) :=
  inferInstanceAs (Decidable (_ ∧ _))

/-- `_bbox_sel_2d` on the same grid with coordinates of two dimensions; nothing where it raises. -/
def bboxSel2d (lons lats : List ℚ) (box : AoiBox) : Option (List (ℚ × ℚ)) :=
  let cells := (lons ×ˢ lats).filter fun cell => lonMask box cell.1 ∧ latMask box cell.2
  if cells = [] then none else some cells

/-! ### One axis -/

section axis

variable {axis : List ℚ} {box : AoiBox}

/-- A strictly monotone axis has the direction of its first and last label. -/
theorem reversed_iff (h : StrictlyMonotone axis) : Reversed axis ↔ ¬ Ascending axis := by
  cases axis with
  | nil => exact iff_of_false (by simp [Reversed]) (by simp [Ascending])
  | cons first rest =>
    cases rest using List.reverseRecOn with
    | nil => exact iff_of_false (by simp [Reversed]) (by simp [Ascending])
    | append_singleton rest last =>
      have hlast : (first :: (rest ++ [last])).getLast? = some last :=
        List.getLast?_append (l := first :: rest)
      have hends : Reversed (first :: (rest ++ [last])) ↔ last < first := by
        unfold Reversed
        rw [hlast]
        simp
      have hmem : last ∈ rest ++ [last] := by simp
      rw [hends]
      constructor
      · intro hlt hasc
        exact absurd (hlt.trans ((List.pairwise_cons.1 hasc).1 last hmem)) (lt_irrefl _)
      · intro hasc
        exact (List.pairwise_cons.1 (h.resolve_left hasc)).1 last hmem

/-- The latitudes are cut alike, whatever the direction of their axis. -/
theorem latSlice_eq (h : StrictlyMonotone axis) :
    (if Reversed axis then labelSlice axis box.north box.south
      else labelSlice axis box.south box.north) = axis.filter (latMask box) := by
  unfold labelSlice
  by_cases hasc : Ascending axis
  · rw [if_neg (by rw [reversed_iff h]; exact not_not.2 hasc), if_pos hasc]
    rfl
  · rw [if_pos ((reversed_iff h).2 hasc), if_neg hasc]
    rfl

/-- Two filters keep the same labels if they agree on every label. -/
theorem filter_eq_filter_iff {p q : ℚ → Prop} [DecidablePred p] [DecidablePred q] :
    axis.filter (fun x => decide (p x)) = axis.filter (fun x => decide (q x)) ↔
      ∀ x ∈ axis, (p x ↔ q x) := by
  constructor
  · intro h x hx
    have hmem := congrArg (fun kept => x ∈ kept) h
    simpa [List.mem_filter, hx] using hmem
  · intro h
    apply List.filter_congr
    intro x hx
    simp [h x hx]

/-- The slice of the longitudes and their mask agree where something is inside, if the axis runs
eastward and the box does not cross the antimeridian; on an axis that runs westward they do so
only if there is nothing strictly between the bounds or beyond them. -/
theorem lonSlice_eq_iff (h : ∃ lon ∈ axis, lonMask box lon) :
    labelSlice axis box.west box.east = axis.filter (lonMask box) ↔
      if Ascending axis then box.west ≤ box.east
      else box.west = box.east ∨
        box.east < box.west ∧ ∀ lon ∈ axis, lon = box.west ∨ lon = box.east := by
  obtain ⟨lon, hlon, hmask⟩ := h
  unfold labelSlice
  by_cases hasc : Ascending axis
  · rw [if_pos hasc, if_pos hasc, filter_eq_filter_iff]
    constructor
    · intro hsame
      -- what is inside is in the slice, and lies between the bounds
      obtain ⟨hwest, heast⟩ := (hsame lon hlon).2 hmask
      exact hwest.trans heast
    · intro hle x _
      unfold lonMask
      rw [if_pos hle]
  · rw [if_neg hasc, if_neg hasc, filter_eq_filter_iff]
    constructor
    · intro hsame
      obtain ⟨heast, hwest⟩ := (hsame lon hlon).2 hmask
      rcases (heast.trans hwest).eq_or_lt with heq | hlt
      · exact Or.inl heq.symm
      · refine Or.inr ⟨hlt, fun x hx => ?_⟩
        have hx' := hsame x hx
        unfold lonMask at hx'
        rw [if_neg (not_le.2 hlt)] at hx'
        by_contra hne
        obtain ⟨hnewest, hneeast⟩ := not_or.1 hne
        by_cases hbetween : box.east ≤ x ∧ x ≤ box.west
        · rcases hx'.1 hbetween with hle | hle
          · exact hnewest (le_antisymm hbetween.2 hle)
          · exact hneeast (le_antisymm hle hbetween.1)
        · rcases lt_or_ge x box.west with hx'' | hx''
          · have hlt' : x < box.east := not_le.1 fun hle => hbetween ⟨hle, hx''.le⟩
            exact hbetween (hx'.2 (Or.inr hlt'.le))
          · exact hbetween (hx'.2 (Or.inl hx''))
    · rintro (heq | ⟨hlt, hall⟩) x hx
      · unfold lonMask
        rw [if_pos heq.le, heq]
      · unfold lonMask
        rw [if_neg (not_le.2 hlt)]
        rcases hall x hx with rfl | rfl
        · exact iff_of_true ⟨hlt.le, le_rfl⟩ (Or.inl le_rfl)
        · exact iff_of_true ⟨le_rfl, hlt.le⟩ (Or.inr le_rfl)

end axis

/-! ### Both axes -/

section cells

variable {lons lats : List ℚ} {box : AoiBox}

theorem filter_product (p q : ℚ → Prop) [DecidablePred p] [DecidablePred q] :
    (lons ×ˢ lats).filter (fun cell => decide (p cell.1 ∧ q cell.2)) =
      lons.filter p ×ˢ lats.filter q := by
  induction lons with
  | nil => rfl
  | cons lon lons ih =>
    rw [List.product_cons, List.filter_append, ih, List.filter_map]
    by_cases hp : p lon
    · rw [List.filter_cons_of_pos (by simpa using hp), List.product_cons]
      simp [Function.comp_def, hp]
    · rw [List.filter_cons_of_neg (by simpa using hp)]
      simp [Function.comp_def, hp]

/-- Some cell is inside the box. -/
def Meets (lons lats : List ℚ) (box : AoiBox) : Prop :=
  (∃ lon ∈ lons, lonMask box lon) ∧ ∃ lat ∈ lats, latMask box lat

/-- The mask keeps a block of cells, if it keeps any. -/
theorem bboxSel2d_eq : bboxSel2d lons lats box =
    if lons.filter (lonMask box) ×ˢ lats.filter (latMask box) = [] then none
    else some (lons.filter (lonMask box) ×ˢ lats.filter (latMask box)) := by
  unfold bboxSel2d
  rw [filter_product]

theorem kept_eq_nil_iff :
    lons.filter (lonMask box) ×ˢ lats.filter (latMask box) = [] ↔ ¬ Meets lons lats box := by
  unfold Meets
  rw [List.eq_nil_iff_forall_not_mem]
  simp only [Prod.forall, List.mem_product, List.mem_filter, decide_eq_true_eq]
  constructor
  · rintro h ⟨⟨lon, hlon⟩, lat, hlat⟩
    exact h lon lat ⟨hlon, hlat⟩
  · rintro h lon lat ⟨hlon, hlat⟩
    exact h ⟨⟨lon, hlon⟩, lat, hlat⟩

/-- Blocks with the same latitudes are the same if their longitudes are. -/
theorem product_inj {p q : ℚ → Prop} [DecidablePred p] [DecidablePred q] {kept : List ℚ}
    (h : kept ≠ []) :
    lons.filter (fun x => decide (p x)) ×ˢ kept = lons.filter (fun x => decide (q x)) ×ˢ kept ↔
      lons.filter (fun x => decide (p x)) = lons.filter (fun x => decide (q x)) := by
  constructor
  · intro hsame
    obtain ⟨lat, hlat⟩ := List.exists_mem_of_ne_nil kept h
    rw [filter_eq_filter_iff]
    intro x hx
    have hmem := congrArg (fun cells => (x, lat) ∈ cells) hsame
    simpa [List.mem_product, List.mem_filter, hx, hlat] using hmem
  · exact congrArg (· ×ˢ kept)

/-- The two ways of cutting agree if some cell is inside the box, and the longitudes run eastward
over a box that does not cross the antimeridian; westward only where the box is a meridian, or
crosses the antimeridian and has every longitude on one of its bounds. -/
theorem bboxSel_eq_iff (hlats : StrictlyMonotone lats) :
    bboxSel lons lats box = bboxSel2d lons lats box ↔
      Meets lons lats box ∧
        if Ascending lons then box.west ≤ box.east
        else box.west = box.east ∨
          box.east < box.west ∧ ∀ lon ∈ lons, lon = box.west ∨ lon = box.east := by
  have hsel : bboxSel lons lats box =
      some (labelSlice lons box.west box.east ×ˢ lats.filter (latMask box)) := by
    unfold bboxSel
    rw [latSlice_eq hlats]
  rw [hsel, bboxSel2d_eq]
  by_cases hmeets : Meets lons lats box
  · have hkept : lats.filter (latMask box) ≠ [] := by
      obtain ⟨-, lat, hlat, hmask⟩ := hmeets
      exact List.ne_nil_of_mem (List.mem_filter.2 ⟨hlat, decide_eq_true hmask⟩)
    rw [if_neg (kept_eq_nil_iff.not.2 (not_not.2 hmeets)), Option.some_inj,
      ← lonSlice_eq_iff hmeets.1]
    unfold labelSlice
    split_ifs
    · rw [product_inj hkept, and_iff_right hmeets]
    · rw [product_inj hkept, and_iff_right hmeets]
  · rw [if_pos (kept_eq_nil_iff.2 hmeets)]
    exact iff_of_false (by simp) fun h => hmeets h.1

/-- Two longitudes eastward, one latitude, and a box around the first cell. -/
theorem bboxSel_eq_first :
    bboxSel [10, 20] [0] { west := 5, south := -1, east := 15, north := 1 } =
      bboxSel2d [10, 20] [0] { west := 5, south := -1, east := 15, north := 1 } :=
  (bboxSel_eq_iff (Or.inl (by decide))).2
    ⟨⟨⟨10, by simp, by decide⟩, 0, by simp, by decide⟩, by decide⟩

/-- A box across the antimeridian: the mask keeps both cells, the slice none; a box beside the
grid: the mask raises, the slice keeps none. -/
theorem not_bboxSel_eq :
    bboxSel2d [-175, 175] [0] { west := 170, south := -1, east := -170, north := 1 } =
        some [(-175, 0), (175, 0)] ∧
      bboxSel [-175, 175] [0] { west := 170, south := -1, east := -170, north := 1 } = some [] ∧
      bboxSel2d [10, 20] [0] { west := 40, south := -1, east := 50, north := 1 } = none ∧
      bboxSel [10, 20] [0] { west := 40, south := -1, east := 50, north := 1 } = some [] := by
  decide +kernel

end cells

end EarthdataMcp
