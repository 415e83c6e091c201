import EarthdataMcp.Providers.Opendap.Constraint
import EarthdataMcp.Providers.Opendap.Planning

/-!
# Brackets

A server takes the brackets of a variable by their position, so a variable has to have one for each
of its dimensions, or none.

* `BracketArity`, over the inputs that planning gives the builder for a grid;
* `Sliced` and `Whole`, the plans whose dimensions all have a range and those that have none;
* `bracketArity_iff`.
-/

namespace EarthdataMcp

open Text

/-- What the builder is told of a plan. -/
def OpendapPlan.inputs (p : OpendapPlan) : ConstraintInputs where
  coordLat := p.coords.lat
  coordLon := p.coords.lon
  coordTime := p.coords.time
  latAxis := p.geometry.latAxis
  lonAxis := p.geometry.lonAxis
  varDims := some p.geometry.varDims
  varCoords := p.varCoords

section arity

variable (fold : Lowering) (plan : RetrievalPlan) (inputs : ConstraintInputs)

/-- The leaf of the latitude. -/
def latLeaf : VarName := roleLeaf fold inputs.latAxis inputs.coordLat

/-- The leaf of the longitude. -/
def lonLeaf : VarName := roleLeaf fold inputs.lonAxis inputs.coordLon

/-- The dimension plan of a variable, where it is known. -/
def dimPlan (v : VarName) : Option VarDimPlan := inputs.varDims.bind fun varDims => varDims.lookup v

/-- The range of a dimension of a plan. -/
def rangeOf (dim : VarName × Option ℤ) : Option IndexRange :=
  dimRange (latLeaf fold inputs) (lonLeaf fold inputs) (latRange plan inputs)
    (lonRange plan inputs) dim

/-- The number of cells of a dimension: that of its axis, or its size. -/
def dimLength (dim : VarName × Option ℤ) : ℤ :=
  if dim.1 = latLeaf fold inputs then (inputs.latAxis.map AxisGeometry.length).getD 0
  else if dim.1 = lonLeaf fold inputs then (inputs.lonAxis.map AxisGeometry.length).getD 0
  else dim.2.getD 0

/-- The bracket is that of the dimension, and a range of its cells. -/
def IsBracketOf (range : IndexRange) (dim : VarName × Option ℤ) : Prop :=
  rangeOf fold plan inputs dim = some range ∧
    0 ≤ range.1 ∧ range.1 ≤ range.2 ∧ range.2 < dimLength fold inputs dim

/-- There are no brackets, or exactly one for each dimension in their order. -/
def FitsDims (dims : VarDimPlan) (brackets : List IndexRange) : Prop :=
  brackets = [] ∨ List.Forall₂ (IsBracketOf fold plan inputs) brackets dims

/-- Wherever the expression has a variable whose dimensions are known, its brackets fit them. -/
def BracketArity : Prop :=
  ∀ v ∈ plan.variableNames, ∀ dims, dimPlan inputs v = some dims →
    ∀ p ∈ projections fold plan inputs, p.fqn = fqn v → FitsDims fold plan inputs dims p.brackets

/-! ### Plans that are sliced in every dimension, and in none -/

/-- The latitudes are cut: there is a box, and an axis that is well-formed. -/
def LatCut : Prop :=
  ∃ latAxis lonAxis bbox, clipBox plan inputs = some (latAxis, lonAxis, bbox) ∧ latAxis.WellFormed

/-- The longitudes are cut: the box is not across the antimeridian either. -/
def LonCut : Prop :=
  ∃ latAxis lonAxis bbox, clipBox plan inputs = some (latAxis, lonAxis, bbox) ∧
    bbox.west.value ≤ bbox.east.value ∧ lonAxis.WellFormed

/-- The size of every dimension that is not spatial. -/
def OtherSizes (dims : VarDimPlan) (P : Option ℤ → Prop) : Prop :=
  ∀ dim ∈ dims, dim.1 ≠ latLeaf fold inputs → dim.1 ≠ lonLeaf fold inputs → P dim.2

/-- Both spatial dimensions are cut and every other has a cell. -/
structure Sliced (dims : VarDimPlan) : Prop where
  lat : LatCut plan inputs
  lon : LonCut plan inputs ∨ lonLeaf fold inputs = latLeaf fold inputs
  other : OtherSizes fold inputs dims fun size => ∃ n, size = some n ∧ 1 ≤ n

/-- No spatial dimension is cut and no other has a cell. -/
structure Whole (dims : VarDimPlan) : Prop where
  lat : ¬ LatCut plan inputs
  lon : ¬ LonCut plan inputs ∨ lonLeaf fold inputs = latLeaf fold inputs
  other : OtherSizes fold inputs dims fun size => size = none ∨ size = some 0

/-- The range of a coordinate, if it has one, is that of the only dimension. -/
def CoordFits (dims : VarDimPlan) (range : Option IndexRange) : Prop :=
  range = none ∨ ∃ dim, dims = [dim] ∧ rangeOf fold plan inputs dim = range

/-- The variable is no coordinate that is cut, unless its only dimension is cut alike. -/
structure CoordsFit (v : VarName) (dims : VarDimPlan) : Prop where
  lat : ∀ n, inputs.coordLat = some n → fqn n = fqn v →
    CoordFits fold plan inputs dims (latRange plan inputs)
  lon : ∀ n, inputs.coordLon = some n → inputs.coordLat ≠ some n → fqn n = fqn v →
    CoordFits fold plan inputs dims (lonRange plan inputs)

/-- The name is that of a coordinate of the collection. -/
def IsCoord (v : VarName) : Prop :=
  inputs.coordLat = some v ∨ inputs.coordLon = some v ∨ inputs.coordTime = some v ∧ v ≠ []

/-- What planning guarantees about the inputs for a grid. -/
structure GridInputs : Prop where
  spatial : ∀ v dims, dimPlan inputs v = some dims →
    (∃ dim ∈ dims, dim.1 = latLeaf fold inputs) ∧ ∃ dim ∈ dims, dim.1 = lonLeaf fold inputs
  alike : ∀ u v dims dims', fqn u = fqn v → dimPlan inputs u = some dims →
    dimPlan inputs v = some dims' → dims = dims'
  coords : ∀ v dims, dimPlan inputs v = some dims → inputs.varCoords = []
  dims : inputs.varDims ≠ none

end arity

section ranges

variable {fold : Lowering} {plan : RetrievalPlan} {inputs : ConstraintInputs}
  {dims : VarDimPlan} {dim : VarName × Option ℤ} {range : IndexRange}

theorem clipBox_eq_some {latAxis lonAxis : AxisGeometry} {bbox : Bbox}
    (h : clipBox plan inputs = some (latAxis, lonAxis, bbox)) :
    inputs.latAxis = some latAxis ∧ inputs.lonAxis = some lonAxis := by
  unfold clipBox at h
  split_ifs at h
  obtain ⟨latAxis', hlat, h⟩ := Option.bind_eq_some_iff.1 h
  obtain ⟨lonAxis', hlon, h⟩ := Option.bind_eq_some_iff.1 h
  obtain ⟨bbox', -, h⟩ := Option.bind_eq_some_iff.1 h
  cases h
  exact ⟨hlat, hlon⟩

theorem latRange_isSome_iff : (latRange plan inputs).isSome ↔ LatCut plan inputs := by
  unfold latRange LatCut
  cases hclip : clipBox plan inputs with
  | none => simp
  | some clip =>
    obtain ⟨latAxis, lonAxis, bbox⟩ := clip
    show (indexRange latAxis _ _).isSome ↔ _
    rw [indexRange_isSome_iff]
    constructor
    · exact fun h => ⟨_, _, _, rfl, h⟩
    · rintro ⟨_, _, _, heq, h⟩
      cases heq
      exact h

theorem lonRange_isSome_iff : (lonRange plan inputs).isSome ↔ LonCut plan inputs := by
  unfold lonRange LonCut
  cases hclip : clipBox plan inputs with
  | none => simp
  | some clip =>
    obtain ⟨latAxis, lonAxis, bbox⟩ := clip
    show (if bbox.west.value ≤ bbox.east.value then _ else none : Option IndexRange).isSome ↔ _
    constructor
    · intro h
      split_ifs at h with hle
      · exact ⟨_, _, _, rfl, hle, indexRange_isSome_iff.1 h⟩
      · cases h
    · rintro ⟨_, _, _, heq, hle, h⟩
      cases heq
      rw [if_pos hle, indexRange_isSome_iff]
      exact h

theorem latRange_bounds (h : latRange plan inputs = some range) :
    0 ≤ range.1 ∧ range.1 ≤ range.2 ∧
      range.2 < (inputs.latAxis.map AxisGeometry.length).getD 0 := by
  obtain ⟨⟨latAxis, lonAxis, bbox⟩, hclip, hrange⟩ := Option.bind_eq_some_iff.1 h
  rw [(clipBox_eq_some hclip).1]
  exact indexRange_bounds hrange

theorem lonRange_bounds (h : lonRange plan inputs = some range) :
    0 ≤ range.1 ∧ range.1 ≤ range.2 ∧
      range.2 < (inputs.lonAxis.map AxisGeometry.length).getD 0 := by
  obtain ⟨⟨latAxis, lonAxis, bbox⟩, hclip, hrange⟩ := Option.bind_eq_some_iff.1 h
  rw [(clipBox_eq_some hclip).2]
  dsimp only at hrange
  split_ifs at hrange
  exact indexRange_bounds hrange

theorem rangeOf_lat (h : dim.1 = latLeaf fold inputs) :
    rangeOf fold plan inputs dim = latRange plan inputs := if_pos h

theorem rangeOf_lon (hne : dim.1 ≠ latLeaf fold inputs) (h : dim.1 = lonLeaf fold inputs) :
    rangeOf fold plan inputs dim = lonRange plan inputs :=
  (if_neg hne).trans (if_pos h)

theorem rangeOf_other (hlat : dim.1 ≠ latLeaf fold inputs) (hlon : dim.1 ≠ lonLeaf fold inputs) :
    rangeOf fold plan inputs dim = (dim.2.filter (· ≠ 0)).map fun size => (0, size - 1) :=
  (if_neg hlat).trans (if_neg hlon)

/-- A dimension along the latitude has a bracket just if the latitudes are cut. -/
theorem exists_isBracketOf_lat (h : dim.1 = latLeaf fold inputs) :
    (∃ range, IsBracketOf fold plan inputs range dim) ↔ LatCut plan inputs := by
  unfold IsBracketOf dimLength
  rw [rangeOf_lat h, if_pos h, ← latRange_isSome_iff, Option.isSome_iff_exists]
  constructor
  · rintro ⟨range, hrange, -⟩
    exact ⟨range, hrange⟩
  · rintro ⟨range, hrange⟩
    exact ⟨range, hrange, latRange_bounds hrange⟩

theorem exists_isBracketOf_lon (hne : dim.1 ≠ latLeaf fold inputs)
    (h : dim.1 = lonLeaf fold inputs) :
    (∃ range, IsBracketOf fold plan inputs range dim) ↔ LonCut plan inputs := by
  unfold IsBracketOf dimLength
  rw [rangeOf_lon hne h, if_neg hne, if_pos h, ← lonRange_isSome_iff, Option.isSome_iff_exists]
  constructor
  · rintro ⟨range, hrange, -⟩
    exact ⟨range, hrange⟩
  · rintro ⟨range, hrange⟩
    exact ⟨range, hrange, lonRange_bounds hrange⟩

/-- Any other dimension has one just if it has a cell. -/
theorem exists_isBracketOf_other (hlat : dim.1 ≠ latLeaf fold inputs)
    (hlon : dim.1 ≠ lonLeaf fold inputs) :
    (∃ range, IsBracketOf fold plan inputs range dim) ↔ ∃ n, dim.2 = some n ∧ 1 ≤ n := by
  unfold IsBracketOf dimLength
  rw [rangeOf_other hlat hlon, if_neg hlat, if_neg hlon]
  cases dim.2 with
  | none => simp
  | some n =>
    by_cases hzero : n = 0
    · simp [hzero, Option.filter]
    · simp [hzero, Option.filter]

/-- A dimension has no range just if it has no cell. -/
theorem rangeOf_other_eq_none (hlat : dim.1 ≠ latLeaf fold inputs)
    (hlon : dim.1 ≠ lonLeaf fold inputs) :
    rangeOf fold plan inputs dim = none ↔ dim.2 = none ∨ dim.2 = some 0 := by
  rw [rangeOf_other hlat hlon]
  cases dim.2 with
  | none => simp
  | some n => by_cases hzero : n = 0 <;> simp [hzero, Option.filter]

theorem latRange_eq_none_iff : latRange plan inputs = none ↔ ¬ LatCut plan inputs := by
  rw [← latRange_isSome_iff, Option.not_isSome_iff_eq_none]

theorem lonRange_eq_none_iff : lonRange plan inputs = none ↔ ¬ LonCut plan inputs := by
  rw [← lonRange_isSome_iff, Option.not_isSome_iff_eq_none]

/-- Every dimension of a plan has a bracket just if the plan is sliced. -/
theorem sliced_iff (hlat : ∃ dim ∈ dims, dim.1 = latLeaf fold inputs)
    (hlon : ∃ dim ∈ dims, dim.1 = lonLeaf fold inputs) :
    (∀ dim ∈ dims, ∃ range, IsBracketOf fold plan inputs range dim) ↔
      Sliced fold plan inputs dims := by
  constructor
  · intro h
    refine ⟨?_, ?_, fun dim hdim hne hne' => ?_⟩
    · obtain ⟨dim, hdim, hleaf⟩ := hlat
      exact (exists_isBracketOf_lat hleaf).1 (h dim hdim)
    · obtain ⟨dim, hdim, hleaf⟩ := hlon
      by_cases hsame : dim.1 = latLeaf fold inputs
      · exact Or.inr (hleaf.symm.trans hsame)
      · exact Or.inl ((exists_isBracketOf_lon hsame hleaf).1 (h dim hdim))
    · exact (exists_isBracketOf_other hne hne').1 (h dim hdim)
  · rintro ⟨hlat, hlon, hother⟩ dim hdim
    by_cases hleaf : dim.1 = latLeaf fold inputs
    · exact (exists_isBracketOf_lat hleaf).2 hlat
    · by_cases hleaf' : dim.1 = lonLeaf fold inputs
      · refine (exists_isBracketOf_lon hleaf hleaf').2 (hlon.resolve_right fun hsame => ?_)
        exact hleaf (hleaf'.trans hsame)
      · exact (exists_isBracketOf_other hleaf hleaf').2 (hother dim hdim hleaf hleaf')

/-- No dimension of a plan has a range just if the plan is whole. -/
theorem whole_iff (hlat : ∃ dim ∈ dims, dim.1 = latLeaf fold inputs)
    (hlon : ∃ dim ∈ dims, dim.1 = lonLeaf fold inputs) :
    (∀ dim ∈ dims, rangeOf fold plan inputs dim = none) ↔ Whole fold plan inputs dims := by
  constructor
  · intro h
    refine ⟨?_, ?_, fun dim hdim hne hne' => ?_⟩
    · obtain ⟨dim, hdim, hleaf⟩ := hlat
      rw [← latRange_eq_none_iff, ← rangeOf_lat hleaf]
      exact h dim hdim
    · obtain ⟨dim, hdim, hleaf⟩ := hlon
      by_cases hsame : dim.1 = latLeaf fold inputs
      · exact Or.inr (hleaf.symm.trans hsame)
      · left
        rw [← lonRange_eq_none_iff, ← rangeOf_lon hsame hleaf]
        exact h dim hdim
    · exact (rangeOf_other_eq_none hne hne').1 (h dim hdim)
  · rintro ⟨hlat, hlon, hother⟩ dim hdim
    by_cases hleaf : dim.1 = latLeaf fold inputs
    · rw [rangeOf_lat hleaf, latRange_eq_none_iff]
      exact hlat
    · by_cases hleaf' : dim.1 = lonLeaf fold inputs
      · rw [rangeOf_lon hleaf hleaf', lonRange_eq_none_iff]
        exact hlon.resolve_right fun hsame => hleaf (hleaf'.trans hsame)
      · exact (rangeOf_other_eq_none hleaf hleaf').2 (hother dim hdim hleaf hleaf')

end ranges

/-! ### The entries of an expression -/

section entries

variable {fold : Lowering} {plan : RetrievalPlan} {inputs : ConstraintInputs}
  {dims : VarDimPlan} {v : VarName} {p : Projection}

/-- The brackets of a dimension plan fit it just if all of its dimensions have one or none has. -/
theorem fitsDims_plan_iff (hlat : ∃ dim ∈ dims, dim.1 = latLeaf fold inputs)
    (hlon : ∃ dim ∈ dims, dim.1 = lonLeaf fold inputs) :
    FitsDims fold plan inputs dims (dims.map (rangeOf fold plan inputs)).reduceOption ↔
      Sliced fold plan inputs dims ∨ Whole fold plan inputs dims := by
  unfold FitsDims
  rw [Lists.reduceOption_map_eq_nil_iff, whole_iff hlat hlon,
    Lists.forall₂_reduceOption_iff fun range dim h => h.1, sliced_iff hlat hlon, or_comm]

/-- The bracket of a coordinate fits a plan just if the coordinate does. -/
theorem fitsDims_coord_iff {range : Option IndexRange}
    (hbounds : ∀ dim, dims = [dim] → ∀ r, range = some r → rangeOf fold plan inputs dim = some r →
      IsBracketOf fold plan inputs r dim) :
    FitsDims fold plan inputs dims [range].reduceOption ↔
      CoordFits fold plan inputs dims range := by
  unfold FitsDims CoordFits
  cases range with
  | none => simp
  | some r =>
    simp only [List.reduceOption_cons_of_some, List.reduceOption_nil, List.cons_ne_nil, false_or,
      reduceCtorEq]
    constructor
    · intro h
      cases h with
      | cons hr hrest =>
        obtain rfl := List.forall₂_nil_left_iff.1 hrest
        exact ⟨_, rfl, hr.1⟩
    · rintro ⟨dim, rfl, hrange⟩
      exact List.Forall₂.cons (hbounds dim rfl r rfl hrange) List.Forall₂.nil

/-- A range of the plan is one of the cells of its dimension. -/
theorem isBracketOf_of_rangeOf {dim : VarName × Option ℤ} {r : IndexRange}
    (hspatial : dim.1 = latLeaf fold inputs ∨ dim.1 = lonLeaf fold inputs)
    (h : rangeOf fold plan inputs dim = some r) : IsBracketOf fold plan inputs r dim := by
  refine ⟨h, ?_⟩
  unfold dimLength
  by_cases hlat : dim.1 = latLeaf fold inputs
  · rw [if_pos hlat]
    rw [rangeOf_lat hlat] at h
    exact latRange_bounds h
  · have hlon := hspatial.resolve_left hlat
    rw [if_neg hlat, if_pos hlon]
    rw [rangeOf_lon hlat hlon] at h
    exact lonRange_bounds h

/-- The coordinate of the collection that has this name, the first one that has. -/
theorem find?_globalMentions (hbox : plan.needsBbox = true) :
    (globalMentions plan inputs).find? (fun q => q.name = v) = some p ↔
      (inputs.coordLat = some v ∧ p = ⟨v, [latRange plan inputs]⟩) ∨
        (inputs.coordLat ≠ some v ∧ inputs.coordLon = some v ∧
          p = ⟨v, [lonRange plan inputs]⟩) ∨
        inputs.coordLat ≠ some v ∧ inputs.coordLon ≠ some v ∧
          (inputs.coordTime = some v ∧ v ≠ []) ∧ p = ⟨v, []⟩ := by
  have hone (coord : Option VarName) (ranges : List (Option IndexRange)) :
      ((coord.map fun n => (⟨n, ranges⟩ : Projection)).toList.find? fun q => q.name = v) =
        if coord = some v then some ⟨v, ranges⟩ else none := by
    cases coord with
    | none => rfl
    | some n =>
      by_cases hn : n = v
      · subst hn
        simp
      · simp [hn]
  have htime : inputs.coordTime.filter (· ≠ []) = some v ↔ inputs.coordTime = some v ∧ v ≠ [] := by
    rw [Option.filter_eq_some_iff, decide_eq_true_iff]
  unfold globalMentions
  rw [if_pos hbox, List.find?_append, List.find?_append, hone, hone, hone, ← htime]
  by_cases hlat : inputs.coordLat = some v
  · simp [hlat, eq_comm]
  · by_cases hlon : inputs.coordLon = some v
    · simp [hlat, hlon, eq_comm]
    · rw [if_neg hlat, if_neg hlon, Option.or_none, Option.none_or]
      simp only [hlat, hlon, ne_eq, not_false_eq_true, false_and, true_and, false_or]
      split_ifs with hname
      · rw [Option.some.injEq, eq_comm]
        exact (and_iff_right hname).symm
      · exact iff_of_false (by simp) fun h => hname h.1

/-- The coordinates of the collection do not have this name. -/
theorem find?_globalMentions_eq_none (hbox : plan.needsBbox = true) :
    (globalMentions plan inputs).find? (fun q => q.name = v) = none ↔ ¬ IsCoord inputs v := by
  have hnone : (globalMentions plan inputs).find? (fun q => q.name = v) = none ↔
      v ∉ (globalMentions plan inputs).map Projection.name := by
    simp
  rw [hnone, mem_globalMentions]
  unfold IsCoord
  simp only [hbox, true_and, or_assoc]

theorem find?_map_variableMention (names : List VarName) :
    (names.map (variableMention fold plan inputs)).find? (fun q => q.name = v) =
      if v ∈ names then some (variableMention fold plan inputs v) else none := by
  induction names with
  | nil => rfl
  | cons n names ih =>
    rw [List.map_cons, List.find?_cons, variableMention_name, ih]
    by_cases hn : n = v
    · simp [hn]
    · have hn' : v ≠ n := fun h => hn h.symm
      simp only [hn, decide_false, List.mem_cons, hn', false_or]

/-- Where the variables have no coordinates of their own, an entry is the first coordinate of its
name, or else the variable of its name. -/
theorem mem_projections_iff (hplan : plan.variableNames ≠ []) (hbox : plan.needsBbox = true)
    (hcoords : inputs.varCoords = []) : p ∈ projections fold plan inputs ↔
      (globalMentions plan inputs).find? (fun q => q.name = p.name) = some p ∨
        ¬ IsCoord inputs p.name ∧ p.name ∈ plan.variableNames ∧
          p = variableMention fold plan inputs p.name := by
  have hmentions : mentions fold plan inputs = globalMentions plan inputs ++
      plan.variableNames.map (variableMention fold plan inputs) := by
    unfold mentions coordMentions
    rw [hcoords]
    simp only [List.lookup_nil, List.map_eq_flatMap]
  unfold projections
  rw [if_neg hplan, Lists.mem_collect, hmentions, List.find?_append, Option.or_eq_some_iff,
    find?_globalMentions_eq_none hbox, find?_map_variableMention]
  refine or_congr_right (and_congr_right fun _ => ?_)
  split_ifs with hmem
  · simp [hmem, eq_comm]
  · simp [hmem]

/-- Without a box nothing has brackets. -/
theorem brackets_of_not_needsBbox (hbox : plan.needsBbox = false)
    (hp : p ∈ projections fold plan inputs) : p.brackets = [] := by
  have hmem : p ∈ mentions fold plan inputs := by
    unfold projections at hp
    split_ifs at hp
    · cases hp
    · exact Lists.mem_of_mem_collect hp
  have hranges : p.ranges = [] := by
    rcases List.mem_append.1 hmem with hglobal | hvariable
    · unfold globalMentions at hglobal
      rw [hbox, if_neg Bool.false_ne_true, List.nil_append, Option.mem_toList] at hglobal
      obtain ⟨time, -, rfl⟩ := Option.map_eq_some_iff.1 hglobal
      rfl
    · obtain ⟨v, -, hv⟩ := List.mem_flatMap.1 hvariable
      rcases List.mem_cons.1 hv with rfl | hcoord
      · unfold variableMention
        rw [hbox, if_pos Bool.false_ne_true]
      · unfold coordMentions at hcoord
        split at hcoord
        · cases hcoord
        · simp only [List.mem_cons, List.not_mem_nil, or_false] at hcoord
          rcases hcoord with rfl | rfl <;> rfl
  unfold Projection.brackets
  rw [hranges]
  rfl

theorem variableMention_brackets (hbox : plan.needsBbox = true) (hdims : inputs.varDims ≠ none) :
    (variableMention fold plan inputs v).brackets =
      ((dimPlan inputs v).map fun dims =>
        (dims.map (rangeOf fold plan inputs)).reduceOption).getD [] := by
  obtain ⟨varDims, hsome⟩ := Option.ne_none_iff_exists'.1 hdims
  unfold variableMention dimPlan
  rw [if_neg (not_not.2 hbox), hsome]
  dsimp only [Option.bind_some]
  cases varDims.lookup v <;> rfl

/-- For inputs of a grid. -/
theorem bracketArity_iff_of_grid (h : GridInputs fold inputs) :
    BracketArity fold plan inputs ↔ (plan.needsBbox = true → ∀ v ∈ plan.variableNames,
      ∀ dims, dimPlan inputs v = some dims → CoordsFit fold plan inputs v dims ∧
        (IsCoord inputs v ∨ Sliced fold plan inputs dims ∨ Whole fold plan inputs dims)) := by
  have hcoord (v : VarName) (dims : VarDimPlan) (hdims : dimPlan inputs v = some dims)
      (range : Option IndexRange) : FitsDims fold plan inputs dims [range].reduceOption ↔
        CoordFits fold plan inputs dims range := by
    apply fitsDims_coord_iff
    rintro dim rfl r - hr
    obtain ⟨dim', hdim', hlat⟩ := (h.spatial v _ hdims).1
    obtain rfl := List.mem_singleton.1 hdim'
    exact isBracketOf_of_rangeOf (Or.inl hlat) hr
  by_cases hbox : plan.needsBbox = true
  · constructor
    · intro harity _ v hv dims hdims
      have hplan : plan.variableNames ≠ [] := List.ne_nil_of_mem hv
      have hmem (p : Projection) : p ∈ projections fold plan inputs ↔ _ :=
        mem_projections_iff hplan hbox (h.coords v dims hdims)
      refine ⟨⟨fun n hn hfqn => ?_, fun n hn hne hfqn => ?_⟩, ?_⟩
      · rw [← hcoord v dims hdims]
        refine harity v hv dims hdims ⟨n, _⟩ ((hmem _).2 (Or.inl ?_)) hfqn
        exact (find?_globalMentions hbox).2 (Or.inl ⟨hn, rfl⟩)
      · rw [← hcoord v dims hdims]
        refine harity v hv dims hdims ⟨n, _⟩ ((hmem _).2 (Or.inl ?_)) hfqn
        exact (find?_globalMentions hbox).2 (Or.inr (Or.inl ⟨hne, hn, rfl⟩))
      · by_cases hiscoord : IsCoord inputs v
        · exact Or.inl hiscoord
        · right
          obtain ⟨hlat, hlon⟩ := h.spatial v dims hdims
          have hfits := harity v hv dims hdims (variableMention fold plan inputs v)
            ((hmem _).2 (Or.inr (by simpa using ⟨hiscoord, hv⟩)))
            (congrArg fqn variableMention_name)
          rw [variableMention_brackets hbox h.dims, hdims] at hfits
          exact (fitsDims_plan_iff hlat hlon).1 hfits
    · intro hcond v hv dims hdims p hp hfqn
      have hplan : plan.variableNames ≠ [] := List.ne_nil_of_mem hv
      rcases (mem_projections_iff hplan hbox (h.coords v dims hdims)).1 hp with
        hglobal | ⟨hiscoord, hname, hmention⟩
      · have hfit := (hcond hbox v hv dims hdims).1
        rcases (find?_globalMentions hbox).1 hglobal with
          ⟨hn, heq⟩ | ⟨hne, hn, heq⟩ | ⟨-, -, -, heq⟩
        · rw [heq]
          exact (hcoord v dims hdims _).2 (hfit.lat p.name hn hfqn)
        · rw [heq]
          exact (hcoord v dims hdims _).2 (hfit.lon p.name hn hne hfqn)
        · rw [heq]
          exact Or.inl rfl
      · rw [hmention, variableMention_brackets hbox h.dims]
        cases hother : dimPlan inputs p.name with
        | none => exact Or.inl rfl
        | some dims' =>
          -- another spelling of the name has the same dimensions
          obtain rfl := h.alike p.name v dims' dims hfqn hother hdims
          obtain ⟨hlat, hlon⟩ := h.spatial v _ hdims
          exact (fitsDims_plan_iff hlat hlon).2
            ((hcond hbox p.name hname _ hother).2.resolve_left hiscoord)
  · rw [Bool.not_eq_true] at hbox
    simp only [hbox, Bool.false_eq_true, false_imp_iff, iff_true]
    intro v _ dims _ p hp _
    exact Or.inl (brackets_of_not_needsBbox hbox hp)

end entries

/-! ### The inputs that planning gives -/

section planned

variable {fold : Lowering} {urls : List String} {cmrVars : List UmmVariable}
  {dmr : Option DmrTree} {extent : Option Extent} {variableNames : List VarName} {p : OpendapPlan}

/-- What planning for a grid finds out. -/
theorem planSubset_grid (h : planSubset fold urls cmrVars dmr true extent variableNames = .ok p) :
    p.geometry.varDims = [] ∨
      p.geometry =
        discoverGridGeometry fold cmrVars extent p.variableNames p.coords.lat p.coords.lon ∧
      p.coords = discoverCoordinates fold cmrVars ∧ (cmrVars ≠ [] → p.varCoords = []) := by
  unfold planSubset at h
  by_cases hurls : urls = []
  · rw [if_pos hurls] at h
    obtain rfl := Except.ok.inj h
    exact Or.inl rfl
  · rw [if_neg hurls] at h
    cases hr : resolveNames fold cmrVars dmr variableNames with
    | error e =>
      rw [hr] at h
      cases h
    | ok r =>
      rw [hr] at h
      obtain rfl := Except.ok.inj h
      exact Or.inr ⟨rfl, resolveNames_coords hr⟩

/-- The two roles of a plan are those of its record. -/
theorem planned_spatial {latLeaf lonLeaf v : VarName} {dims : VarDimPlan}
    (h : variableDimPlan fold cmrVars v latLeaf lonLeaf = some dims) :
    (∃ dim ∈ dims, dim.1 = latLeaf) ∧ ∃ dim ∈ dims, dim.1 = lonLeaf := by
  obtain ⟨var, -, hplan⟩ := Option.bind_eq_some_iff.1 h
  obtain ⟨hgridded, rfl⟩ := recordDimPlan_eq_some_iff.1 hplan
  constructor
  · obtain ⟨d, hd, hleaf⟩ := hgridded.lat
    exact ⟨_, List.mem_map_of_mem hd, hleaf⟩
  · obtain ⟨d, hd, hleaf⟩ := hgridded.lon
    exact ⟨_, List.mem_map_of_mem hd, hleaf⟩

theorem gridInputs_of_planSubset
    (h : planSubset fold urls cmrVars dmr true extent variableNames = .ok p) :
    GridInputs fold p.inputs := by
  have hdims : p.inputs.varDims ≠ none := Option.some_ne_none _
  have hlookup (v : VarName) : dimPlan p.inputs v = p.geometry.varDims.lookup v := rfl
  rcases planSubset_grid h with hnil | ⟨hgeometry, hcoords, hvarCoords⟩
  · have hnone (v : VarName) (dims : VarDimPlan) : dimPlan p.inputs v ≠ some dims := by
      rw [hlookup, hnil]
      exact Option.some_ne_none dims |>.symm
    exact ⟨fun v dims hv => absurd hv (hnone v dims), fun u v dims dims' _ hu => absurd hu
      (hnone u dims), fun v dims hv => absurd hv (hnone v dims), hdims⟩
  · have hfound (v : VarName) (dims : VarDimPlan) (hv : dimPlan p.inputs v = some dims) :
        p.varCoords = [] ∧
          variableDimPlan fold cmrVars v (latLeaf fold p.inputs) (lonLeaf fold p.inputs) =
            some dims := by
      rw [hlookup, hgeometry] at hv
      obtain ⟨lat, lon, hlat, hlon, hknown, hplan⟩ := lookup_varDims_eq_some hv
      constructor
      · apply hvarCoords
        rintro rfl
        rw [hcoords] at hlat
        cases hlat
      · rw [hlat, hlon] at hgeometry
        obtain ⟨latAxis, lonAxis, heq⟩ := discoverGridGeometry_of_known p.variableNames hknown
        rw [heq] at hgeometry
        have hlatLeaf : latLeaf fold p.inputs = fold.leaf lat := by
          unfold latLeaf OpendapPlan.inputs
          rw [hlat, hgeometry]
          rfl
        have hlonLeaf : lonLeaf fold p.inputs = fold.leaf lon := by
          unfold lonLeaf OpendapPlan.inputs
          rw [hlon, hgeometry]
          rfl
        rw [hlatLeaf, hlonLeaf]
        exact hplan
    refine ⟨fun v dims hv => planned_spatial (hfound v dims hv).2, ?_, fun v dims hv =>
      (hfound v dims hv).1, hdims⟩
    intro u v dims dims' hfqn hu hv
    have hu := (hfound u dims hu).2
    have hv := (hfound v dims' hv).2
    unfold variableDimPlan findCmrVar at hu hv
    rw [fold.leaf_eq_of_fqn hfqn] at hu
    exact Option.some.inj (hu.symm.trans hv)

/-- With what planning gives for a grid, the brackets of every variable fit its dimensions if and
only if the plan needs no box, or for each variable with a dimension plan: it is no coordinate that
is cut; and it is a coordinate of the collection, or its plan is sliced in every dimension, or in
none. -/
theorem bracketArity_iff (fold : Lowering) (urls : List String) (cmrVars : List UmmVariable)
    (dmr : Option DmrTree) (extent : Option Extent) (variableNames : List VarName)
    (p : OpendapPlan) (plan : RetrievalPlan)
    (h : planSubset fold urls cmrVars dmr true extent variableNames = .ok p) :
    BracketArity fold plan p.inputs ↔ (plan.needsBbox = true → ∀ v ∈ plan.variableNames,
      ∀ dims, dimPlan p.inputs v = some dims → CoordsFit fold plan p.inputs v dims ∧
        (IsCoord p.inputs v ∨ Sliced fold plan p.inputs dims ∨ Whole fold plan p.inputs dims)) :=
  bracketArity_iff_of_grid (gridInputs_of_planSubset h)

/-- A catalog of a coarse grid, with a variable that has a time beside. -/
def rainCatalog : List UmmVariable :=
  [.fourLats, .eightLons,
    { name := "rain".toList
      dimensions := [⟨"time".toList, some 1⟩, ⟨"lat".toList, some 4⟩, ⟨"lon".toList, some 8⟩] }]

/-- What planning gives for it. -/
def rainSubset : OpendapPlan where
  opendapUrls := ["granule"]
  coords := { lat := some "lat".toList, lon := some "lon".toList }
  geometry :=
    { latAxis := some ⟨"lat".toList, -135 / 2, 45, 4⟩
      lonAxis := some ⟨"lon".toList, -315 / 2, 45, 8⟩
      varDims :=
        [("rain".toList, [("time".toList, some 1), ("lat".toList, none), ("lon".toList, none)])] }
  variableNames := ["rain".toList]
  cmrVars := rainCatalog

/-- The variable in a box. -/
def RetrievalPlan.ofBox (bbox : Bbox) (variableNames : List VarName) : RetrievalPlan :=
  { RetrievalPlan.ofVariables variableNames with needsBbox := true, aoi := some { bbox := bbox } }

theorem planSubset_rain : planSubset .ascii ["granule"] rainCatalog none true
    (some ⟨-180, -90, 180, 90⟩) ["rain".toList] = .ok rainSubset := by decide +kernel

/-- A box that is not across the antimeridian. -/
theorem bracketArity_iff_rain :
    let plan := RetrievalPlan.ofBox ⟨0, 0, 50, 20⟩ ["rain".toList]
    buildConstraintExpression .ascii plan rainSubset.inputs =
        "/lat[1:2];/lon[3:5];/rain[0:0][1:2][3:5]".toList ∧
      (BracketArity .ascii plan rainSubset.inputs ↔ (plan.needsBbox = true →
        ∀ v ∈ plan.variableNames, ∀ dims, dimPlan rainSubset.inputs v = some dims →
          CoordsFit .ascii plan rainSubset.inputs v dims ∧ (IsCoord rainSubset.inputs v ∨
            Sliced .ascii plan rainSubset.inputs dims ∨
              Whole .ascii plan rainSubset.inputs dims))) :=
  ⟨by decide +kernel, bracketArity_iff .ascii _ _ _ _ _ _ _ planSubset_rain⟩

/-- A box across the antimeridian leaves two brackets for three dimensions. -/
theorem not_bracketArity : ¬ ∀ (fold : Lowering) (urls : List String) (cmrVars : List UmmVariable)
    (dmr : Option DmrTree) (extent : Option Extent) (variableNames : List VarName)
    (p : OpendapPlan) (plan : RetrievalPlan),
    planSubset fold urls cmrVars dmr true extent variableNames = .ok p →
      BracketArity fold plan p.inputs := by
  intro h
  let plan := RetrievalPlan.ofBox ⟨170, 0, { value := -170 }, 20⟩ ["rain".toList]
  have harity := h .ascii _ _ _ _ _ _ plan planSubset_rain "rain".toList (by decide)
    [("time".toList, some 1), ("lat".toList, none), ("lon".toList, none)] (by decide +kernel)
    ⟨"rain".toList, [some (0, 0), some (1, 2), none]⟩ (by decide +kernel) rfl
  rcases harity with hnil | hall
  · exact absurd hnil (by decide)
  · exact absurd hall.length_eq (by decide)

end planned

end EarthdataMcp
