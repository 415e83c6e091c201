import EarthdataMcp.Providers.Opendap.Catalog

/-!
# The geometry of a grid

The axes of a gridded collection, from its extent and the sizes its catalog reports, and the
dimension plan of each requested variable.

* `findCmrVar`, `dimensionLength`, `variableDimPlan` and `discoverGridGeometry`;
* `recordDimPlan_eq_some_iff`, and when two records describe the same plan;
* `ownDimPlans_iff`: when every variable gets the plan of its own record.
-/

namespace EarthdataMcp

open Text

/-- The edges of a collection's extent in degrees. -/
structure Extent where
  west : ℚ
  south : ℚ
  east : ℚ
  north : ℚ
  deriving DecidableEq

/-- The dimensions of a variable in their order, each by its leaf and its size; the two spatial
ones have none, their range comes from the axis. -/
abbrev VarDimPlan := List (VarName × Option ℤ)

/-- `int` of a number, rounded towards zero. -/
def truncate (q : ℚ) : ℤ := if 0 ≤ q then ⌊q⌋ else ⌈q⌉

/-- `int(size) if size else None`. -/
def UmmDimension.length (d : UmmDimension) : Option ℤ := (d.size.filter (· ≠ 0)).map truncate

/-- What planning finds out about a grid. -/
structure GridGeometry where
  latAxis : Option AxisGeometry := none
  lonAxis : Option AxisGeometry := none
  varDims : List (VarName × VarDimPlan) := []
  deriving DecidableEq

section geometry

variable (fold : Lowering)

/-- The first record with the leaf of this name. -/
def findCmrVar (cmrVars : List UmmVariable) (name : VarName) : Option UmmVariable :=
  cmrVars.find? fun r => fold.leaf r.name = fold.leaf name

/-- The size of a coordinate's own dimension. -/
def dimensionLength (cmrVars : List UmmVariable) (coordName : VarName) : Option ℤ :=
  match findCmrVar fold cmrVars coordName with
  | none => none
  | some var =>
      match var.dimensions.find? fun d => fold.leaf d.name = fold.leaf coordName with
      | none => none
      | some d => d.length

/-- The dimension is one of the two spatial ones. -/
def UmmDimension.Spatial (latLeaf lonLeaf : VarName) (d : UmmDimension) : Prop :=
  fold.leaf d.name = latLeaf ∨ fold.leaf d.name = lonLeaf

instance (latLeaf lonLeaf : VarName) (d : UmmDimension) :
    Decidable (d.Spatial fold latLeaf lonLeaf) :=
  inferInstanceAs (Decidable (_ ∨ _))

/-- A dimension as a plan lists it. -/
def UmmDimension.planned (latLeaf lonLeaf : VarName) (d : UmmDimension) : VarName × Option ℤ :=
  (fold.leaf d.name, if d.Spatial fold latLeaf lonLeaf then none else d.length)

/-- The plan that a record describes, if it has both spatial dimensions and a size for every
other. -/
def recordDimPlan (latLeaf lonLeaf : VarName) (var : UmmVariable) : Option VarDimPlan :=
  let dims := var.dimensions
  let leaves := dims.map fun d => fold.leaf d.name
  if dims = [] ∨ latLeaf ∉ leaves ∨ lonLeaf ∉ leaves then none
  else if ∃ d ∈ dims, ¬ d.Spatial fold latLeaf lonLeaf ∧ d.length = none then none
  else some (dims.map (UmmDimension.planned fold latLeaf lonLeaf))

/-- `_variable_dim_plan`. -/
def variableDimPlan (cmrVars : List UmmVariable) (varName latLeaf lonLeaf : VarName) :
    Option VarDimPlan :=
  (findCmrVar fold cmrVars varName).bind (recordDimPlan fold latLeaf lonLeaf)

/-- `_discover_grid_geometry`. -/
def discoverGridGeometry (cmrVars : List UmmVariable) (extent : Option Extent)
    (variableNames : List VarName) (coordLat coordLon : Option VarName) : GridGeometry :=
  match extent, coordLat, coordLon with
  | some extent, some lat, some lon =>
      match dimensionLength fold cmrVars lat, dimensionLength fold cmrVars lon with
      | some latLen, some lonLen =>
          let latAxis := axisOfExtent lat extent.south extent.north latLen
          let lonAxis := axisOfExtent lon extent.west extent.east lonLen
          if latLen = 0 ∨ lonLen = 0 ∨ latAxis.step = 0 ∨ lonAxis.step = 0 then {}
          else
            { latAxis := some latAxis
              lonAxis := some lonAxis
              varDims := variableNames.dedup.filterMap fun v =>
                (variableDimPlan fold cmrVars v (fold.leaf lat) (fold.leaf lon)).map (v, ·) }
      | _, _ => {}
  | _, _, _ => {}

end geometry

/-! ### What a record describes -/

section record

variable (fold : Lowering) (latLeaf lonLeaf : VarName)

/-- A record with both spatial dimensions and a size for every other. -/
structure UmmVariable.Gridded (var : UmmVariable) : Prop where
  lat : ∃ d ∈ var.dimensions, fold.leaf d.name = latLeaf
  lon : ∃ d ∈ var.dimensions, fold.leaf d.name = lonLeaf
  sized : ∀ d ∈ var.dimensions, d.Spatial fold latLeaf lonLeaf ∨ d.length ≠ none

/-- Two records with the same dimensions in the same order, of the same sizes but for the spatial
ones. -/
def UmmVariable.SameShape (var var' : UmmVariable) : Prop :=
  List.Forall₂ (fun d d' => fold.leaf d.name = fold.leaf d'.name ∧
    (d.Spatial fold latLeaf lonLeaf ∨ d.length = d'.length)) var.dimensions var'.dimensions

variable {fold latLeaf lonLeaf} {var var' : UmmVariable} {plan : VarDimPlan}

theorem UmmDimension.planned_eq_iff {d d' : UmmDimension} :
    d.planned fold latLeaf lonLeaf = d'.planned fold latLeaf lonLeaf ↔
      fold.leaf d.name = fold.leaf d'.name ∧
        (d.Spatial fold latLeaf lonLeaf ∨ d.length = d'.length) := by
  unfold planned
  rw [Prod.mk.injEq]
  refine and_congr_right fun hleaf => ?_
  have hspatial : d.Spatial fold latLeaf lonLeaf ↔ d'.Spatial fold latLeaf lonLeaf := by
    unfold Spatial
    rw [hleaf]
  by_cases h : d.Spatial fold latLeaf lonLeaf
  · rw [if_pos h, if_pos (hspatial.1 h)]
    exact iff_of_true rfl (Or.inl h)
  · rw [if_neg h, if_neg fun h' => h (hspatial.2 h')]
    simp only [h, false_or]

theorem recordDimPlan_eq_some_iff :
    recordDimPlan fold latLeaf lonLeaf var = some plan ↔
      var.Gridded fold latLeaf lonLeaf ∧
        var.dimensions.map (UmmDimension.planned fold latLeaf lonLeaf) = plan := by
  unfold recordDimPlan
  have hmem (leaf : VarName) : leaf ∈ (var.dimensions.map fun d => fold.leaf d.name) ↔
      ∃ d ∈ var.dimensions, fold.leaf d.name = leaf := List.mem_map
  dsimp only
  split_ifs with hmissing hunsized
  · refine iff_of_false (by simp) ?_
    rintro ⟨hgridded, -⟩
    rcases hmissing with hnil | hlat | hlon
    · obtain ⟨d, hd, -⟩ := hgridded.lat
      rw [hnil] at hd
      cases hd
    · exact hlat ((hmem _).2 hgridded.lat)
    · exact hlon ((hmem _).2 hgridded.lon)
  · refine iff_of_false (by simp) ?_
    rintro ⟨hgridded, -⟩
    obtain ⟨d, hd, hspatial, hlength⟩ := hunsized
    rcases hgridded.sized d hd with h | h
    · exact hspatial h
    · exact h hlength
  · obtain ⟨-, hlat, hlon⟩ : var.dimensions ≠ [] ∧ _ ∧ _ := by
      simpa only [not_or, not_not] using hmissing
    have hgridded : var.Gridded fold latLeaf lonLeaf := by
      refine ⟨(hmem _).1 hlat, (hmem _).1 hlon, fun d hd => ?_⟩
      by_contra h
      rw [not_or, not_not] at h
      exact hunsized ⟨d, hd, h⟩
    rw [Option.some.injEq]
    simp only [hgridded, true_and]

theorem UmmVariable.sameShape_iff : var.SameShape fold latLeaf lonLeaf var' ↔
    var.dimensions.map (UmmDimension.planned fold latLeaf lonLeaf) =
      var'.dimensions.map (UmmDimension.planned fold latLeaf lonLeaf) := by
  rw [← List.forall₂_eq_eq_eq, List.forall₂_map_left_iff, List.forall₂_map_right_iff]
  simp only [UmmDimension.planned_eq_iff]
  exact Iff.rfl

/-- Records of the same shape are gridded alike. -/
theorem UmmVariable.SameShape.gridded (h : var.SameShape fold latLeaf lonLeaf var')
    (hgridded : var.Gridded fold latLeaf lonLeaf) : var'.Gridded fold latLeaf lonLeaf := by
  have hplanned := UmmVariable.sameShape_iff.1 h
  have hthere (d : UmmDimension) (hd : d ∈ var.dimensions) :
      ∃ d' ∈ var'.dimensions, fold.leaf d'.name = fold.leaf d.name := by
    have hmem := List.mem_map_of_mem (f := UmmDimension.planned fold latLeaf lonLeaf) hd
    rw [hplanned] at hmem
    obtain ⟨d', hd', heq⟩ := List.mem_map.1 hmem
    exact ⟨d', hd', (UmmDimension.planned_eq_iff.1 heq).1⟩
  refine ⟨?_, ?_, fun d' hd' => ?_⟩
  · obtain ⟨d, hd, hlat⟩ := hgridded.lat
    obtain ⟨d', hd', hleaf⟩ := hthere d hd
    exact ⟨d', hd', hleaf.trans hlat⟩
  · obtain ⟨d, hd, hlon⟩ := hgridded.lon
    obtain ⟨d', hd', hleaf⟩ := hthere d hd
    exact ⟨d', hd', hleaf.trans hlon⟩
  · have hmem := List.mem_map_of_mem (f := UmmDimension.planned fold latLeaf lonLeaf) hd'
    rw [← hplanned] at hmem
    obtain ⟨d, hd, heq⟩ := List.mem_map.1 hmem
    obtain ⟨hleaf, hlength⟩ := UmmDimension.planned_eq_iff.1 heq
    have hspatial : d.Spatial fold latLeaf lonLeaf → d'.Spatial fold latLeaf lonLeaf := by
      unfold UmmDimension.Spatial
      rw [hleaf]
      exact id
    rcases hlength with h | hlength
    · exact Or.inl (hspatial h)
    · rw [← hlength]
      exact (hgridded.sized d hd).imp_left hspatial

end record

/-! ### Whose plan a variable gets -/

section ownPlans

variable (fold : Lowering) (cmrVars : List UmmVariable) (extent : Option Extent)
  (variableNames : List VarName) (coordLat coordLon : Option VarName)

/-- The record is that of the variable, up to a leading slash. -/
def OwnRecord (v : VarName) (own : UmmVariable) : Prop := own ∈ cmrVars ∧ fqn own.name = fqn v

/-- The plan of every variable is the one that its own record describes. -/
def OwnDimPlans : Prop :=
  ∀ v ∈ variableNames, ∀ plan,
    (discoverGridGeometry fold cmrVars extent variableNames coordLat coordLon).varDims.lookup v =
        some plan →
      ∃ own, OwnRecord cmrVars v own ∧ ∃ lat ∈ coordLat, ∃ lon ∈ coordLon,
        recordDimPlan fold (fold.leaf lat) (fold.leaf lon) own = some plan

/-- The first record with a variable's leaf is its own, or is not one of a grid, or has the shape
of its own. -/
def FirstIsOwn (lat lon v : VarName) : Prop :=
  ∀ r, findCmrVar fold cmrVars v = some r → r.Gridded fold (fold.leaf lat) (fold.leaf lon) →
    ∃ own, OwnRecord cmrVars v own ∧ r.SameShape fold (fold.leaf lat) (fold.leaf lon) own

/-- The extent has a width and a height, and the catalog has both coordinates and their sizes. -/
structure GridKnown (lat lon : VarName) : Prop where
  extent : ∃ e ∈ extent, e.south ≠ e.north ∧ e.west ≠ e.east
  lat : ∃ n ∈ dimensionLength fold cmrVars lat, n ≠ 0
  lon : ∃ n ∈ dimensionLength fold cmrVars lon, n ≠ 0

variable {fold cmrVars extent variableNames coordLat coordLon}

theorem lookup_planned_of_notMem {f : VarName → Option VarDimPlan} {names : List VarName}
    {v : VarName} (hv : v ∉ names) :
    (names.filterMap fun v => (f v).map (v, ·)).lookup v = none := by
  apply List.lookup_eq_none_iff.2
  intro entry hentry
  obtain ⟨v', hv', hsome⟩ := List.mem_filterMap.1 hentry
  obtain ⟨plan, -, rfl⟩ := Option.map_eq_some_iff.1 hsome
  exact bne_iff_ne.2 fun heq => hv (heq ▸ hv')

theorem lookup_planned {f : VarName → Option VarDimPlan} {names : List VarName} {v : VarName}
    (hv : v ∈ names) : (names.filterMap fun v => (f v).map (v, ·)).lookup v = f v := by
  induction names with
  | nil => cases hv
  | cons name names ih =>
    by_cases hname : v = name
    · subst hname
      cases hf : f v with
      | none =>
        rw [List.filterMap_cons_none (by simp [hf])]
        -- a later mention of the variable has no plan either
        by_cases hlater : v ∈ names
        · rw [ih hlater, hf]
        · exact lookup_planned_of_notMem hlater
      | some plan => simp [hf]
    · have hmem : v ∈ names := (List.mem_cons.1 hv).resolve_left hname
      cases hf : f name with
      | none => rw [List.filterMap_cons_none (by simp [hf]), ih hmem]
      | some plan =>
        rw [List.filterMap_cons_some (by simp [hf]; rfl), List.lookup_cons, ih hmem]
        simp only [beq_eq_false_iff_ne.2 hname]

theorem axisOfExtent_step_eq_zero {name : VarName} {first last : ℚ} {length : ℤ}
    (hlength : length ≠ 0) : (axisOfExtent name first last length).step = 0 ↔ first = last := by
  have hcast : (length : ℚ) ≠ 0 := by exact_mod_cast hlength
  show (last - first) / length = 0 ↔ _
  rw [div_eq_zero_iff, or_iff_left hcast, sub_eq_zero, eq_comm]

/-- The axes and the plans of a grid that is known. -/
theorem discoverGridGeometry_of_known (variableNames : List VarName) {lat lon : VarName}
    (hknown : GridKnown fold cmrVars extent lat lon) : ∃ latAxis lonAxis,
      discoverGridGeometry fold cmrVars extent variableNames (some lat) (some lon) =
        { latAxis := some latAxis
          lonAxis := some lonAxis
          varDims := variableNames.dedup.filterMap fun v =>
            (variableDimPlan fold cmrVars v (fold.leaf lat) (fold.leaf lon)).map (v, ·) } := by
  obtain ⟨⟨e, rfl, hheight, hwidth⟩, ⟨m, hm, hm0⟩, n, hn, hn0⟩ := hknown
  rw [Option.mem_def] at hm hn
  simp only [discoverGridGeometry, hm, hn]
  rw [if_neg]
  · exact ⟨_, _, rfl⟩
  · rw [axisOfExtent_step_eq_zero hm0, axisOfExtent_step_eq_zero hn0]
    simp only [hm0, hn0, hheight, hwidth, or_self, not_false_eq_true]

theorem discoverGridGeometry_varDims {lat lon : VarName}
    (hknown : GridKnown fold cmrVars extent lat lon) :
    (discoverGridGeometry fold cmrVars extent variableNames (some lat) (some lon)).varDims =
      variableNames.dedup.filterMap fun v =>
        (variableDimPlan fold cmrVars v (fold.leaf lat) (fold.leaf lon)).map (v, ·) := by
  obtain ⟨latAxis, lonAxis, heq⟩ := discoverGridGeometry_of_known variableNames hknown
  rw [heq]

/-- There are no plans if nothing is known of the grid. -/
theorem discoverGridGeometry_of_not (h : ∀ lat ∈ coordLat, ∀ lon ∈ coordLon,
    ¬ GridKnown fold cmrVars extent lat lon) :
    discoverGridGeometry fold cmrVars extent variableNames coordLat coordLon = {} := by
  unfold discoverGridGeometry
  split
  · rename_i e lat lon
    split
    · rename_i m n hm hn
      dsimp only
      rw [if_pos]
      by_contra hzero
      simp only [not_or] at hzero
      obtain ⟨hm0, hn0, hheight, hwidth⟩ := hzero
      rw [axisOfExtent_step_eq_zero hm0] at hheight
      rw [axisOfExtent_step_eq_zero hn0] at hwidth
      exact h lat rfl lon rfl ⟨⟨e, rfl, hheight, hwidth⟩, ⟨m, hm, hm0⟩, n, hn, hn0⟩
    · rfl
  · rfl

/-- A variable with a plan is one of a grid that is known, and its plan is that of the first record
with its leaf. -/
theorem lookup_varDims_eq_some {v : VarName} {plan : VarDimPlan}
    (h : (discoverGridGeometry fold cmrVars extent variableNames coordLat coordLon).varDims.lookup
      v = some plan) : ∃ lat lon, coordLat = some lat ∧ coordLon = some lon ∧
        GridKnown fold cmrVars extent lat lon ∧
          variableDimPlan fold cmrVars v (fold.leaf lat) (fold.leaf lon) = some plan := by
  by_cases hknown : ∃ lat ∈ coordLat, ∃ lon ∈ coordLon, GridKnown fold cmrVars extent lat lon
  · obtain ⟨lat, rfl, lon, rfl, hknown⟩ := hknown
    refine ⟨lat, lon, rfl, rfl, hknown, ?_⟩
    rw [discoverGridGeometry_varDims hknown] at h
    by_cases hv : v ∈ variableNames
    · rwa [lookup_planned (List.mem_dedup.2 hv)] at h
    · rw [lookup_planned_of_notMem fun hmem => hv (List.mem_dedup.1 hmem)] at h
      cases h
  · rw [discoverGridGeometry_of_not fun lat hlat lon hlon h =>
      hknown ⟨lat, hlat, lon, hlon, h⟩] at h
    cases h

/-- Every variable gets the plan of its own record if and only if, in a grid that is known, the
first record with its leaf is its own, or is no better than none, or has the same shape. -/
theorem ownDimPlans_iff (fold : Lowering) (cmrVars : List UmmVariable) (extent : Option Extent)
    (variableNames : List VarName) (coordLat coordLon : Option VarName) :
    OwnDimPlans fold cmrVars extent variableNames coordLat coordLon ↔
      ∀ lat ∈ coordLat, ∀ lon ∈ coordLon, GridKnown fold cmrVars extent lat lon →
        ∀ v ∈ variableNames, FirstIsOwn fold cmrVars lat lon v := by
  constructor
  · rintro hown lat rfl lon rfl hknown v hv r hr hgridded
    have hplan := recordDimPlan_eq_some_iff.2 ⟨hgridded, rfl⟩
    have hlookup := hown v hv _ (by
      rw [discoverGridGeometry_varDims hknown, lookup_planned (List.mem_dedup.2 hv),
        variableDimPlan, hr]
      exact hplan)
    obtain ⟨own, howns, lat', hlat, lon', hlon, hsame⟩ := hlookup
    obtain rfl := Option.some.inj hlat
    obtain rfl := Option.some.inj hlon
    exact ⟨own, howns, UmmVariable.sameShape_iff.2 (recordDimPlan_eq_some_iff.1 hsame).2.symm⟩
  · intro hfirst v hv plan hlookup
    obtain ⟨lat, lon, rfl, rfl, hknown, hplan⟩ := lookup_varDims_eq_some hlookup
    obtain ⟨r, hr, hplan⟩ := Option.bind_eq_some_iff.1 hplan
    obtain ⟨hgridded, rfl⟩ := recordDimPlan_eq_some_iff.1 hplan
    obtain ⟨own, howns, hshape⟩ := hfirst lat rfl lon rfl hknown v hv r hr hgridded
    refine ⟨own, howns, lat, rfl, lon, rfl, recordDimPlan_eq_some_iff.2 ⟨?_, ?_⟩⟩
    · exact hshape.gridded hgridded
    · exact (UmmVariable.sameShape_iff.1 hshape).symm

/-- A latitude of four cells. -/
def UmmVariable.fourLats : UmmVariable :=
  { name := "lat".toList, dimensions := [⟨"lat".toList, some 4⟩] }

/-- A longitude of eight cells. -/
def UmmVariable.eightLons : UmmVariable :=
  { name := "lon".toList, dimensions := [⟨"lon".toList, some 8⟩] }

/-- A variable with its dimensions the other way round. -/
def UmmVariable.turned : UmmVariable :=
  { name := "night/ndvi".toList
    dimensions := [⟨"lon".toList, some 8⟩, ⟨"lat".toList, some 4⟩] }

/-- Two variables with one leaf, the dimensions of one the other way round. -/
def twinVariables : List UmmVariable :=
  [.fourLats, .eightLons,
    { name := "day/ndvi".toList, dimensions := [⟨"lat".toList, some 4⟩, ⟨"lon".toList, some 8⟩] },
    .turned]

/-- The second of them gets the plan of the first. -/
theorem not_ownDimPlans : ¬ ∀ (fold : Lowering) (cmrVars : List UmmVariable)
    (extent : Option Extent) (variableNames : List VarName) (coordLat coordLon : Option VarName),
    OwnDimPlans fold cmrVars extent variableNames coordLat coordLon := by
  intro h
  have hplan := h .ascii twinVariables (some ⟨0, 0, 8, 4⟩) ["night/ndvi".toList] (some "lat".toList)
    (some "lon".toList) "night/ndvi".toList List.mem_cons_self
    [("lat".toList, none), ("lon".toList, none)] (by decide +kernel)
  obtain ⟨own, ⟨hown, hname⟩, lat, hlat, lon, hlon, hplan⟩ := hplan
  obtain rfl := Option.some.inj hlat
  obtain rfl := Option.some.inj hlon
  have hturned : ∀ own ∈ twinVariables, fqn own.name = fqn "night/ndvi".toList → own = .turned := by
    decide +kernel
  obtain rfl := hturned own hown hname
  exact absurd hplan (by decide +kernel)

end ownPlans

end EarthdataMcp
