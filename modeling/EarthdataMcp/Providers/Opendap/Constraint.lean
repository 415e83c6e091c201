import EarthdataMcp.Lists.Collect
import EarthdataMcp.Providers.RetrievalPlan
import EarthdataMcp.Providers.Opendap.Geometry

/-!
# Constraint expressions

The projection that a granule is asked for: the variables of a plan and the coordinates that go
with them, each by its fully-qualified name and with the ranges of its brackets.

* `projections` and `buildConstraintExpression`, their text;
* `NeedsName`, the names that a projection is to have;
* `projectsOnce_iff`: when every fully-qualified name occurs once.
-/

namespace EarthdataMcp

open Text

/-- A projected variable, and the ranges of its brackets where it has them. -/
structure Projection where
  name : VarName
  ranges : List (Option IndexRange) := []
  deriving DecidableEq

namespace Projection

/-- The name in the expression. -/
def fqn (p : Projection) : VarName := Text.fqn p.name

/-- The brackets in the expression: a range that is missing leaves none. -/
def brackets (p : Projection) : List IndexRange := p.ranges.reduceOption

/-- `_fqn_sliced`. -/
def render (p : Projection) : List Char :=
  p.fqn ++ p.brackets.flatMap fun range =>
    ("[" ++ toString range.1 ++ ":" ++ toString range.2 ++ "]").toList

/-- An integer is written with digits and a minus sign. -/
theorem notMem_toString {c : Char} (hc : c.isDigit = false) (hminus : c ≠ '-') (i : ℤ) :
    c ∉ (toString i).toList := by
  have hnat : ∀ n : ℕ, c ∉ n.repr.toList := fun n hmem => by
    rw [Nat.toList_repr] at hmem
    have hdigit := Nat.isDigit_of_mem_toDigits (by decide) (by decide) hmem
    rw [hdigit] at hc
    exact absurd hc (by decide)
  cases i with
  | ofNat n => exact hnat n
  | negSucc n =>
    change c ∉ ("-" ++ (n + 1).repr).toList
    rw [String.toList_append, List.mem_append, not_or]
    exact ⟨by simpa using hminus, hnat (n + 1)⟩

/-- No bracket has a semicolon, -/
theorem notMem_render {p : Projection} (h : ';' ∉ p.name) : ';' ∉ p.render := by
  unfold render fqn
  rw [List.mem_append, not_or]
  refine ⟨notMem_fqn (by decide) h, ?_⟩
  rw [List.mem_flatMap]
  rintro ⟨range, -, hmem⟩
  simp only [String.toList_append, List.mem_append] at hmem
  have hdigits : ∀ i : ℤ, ';' ∉ (toString i).toList := notMem_toString (by decide) (by decide)
  rcases hmem with (((h | h) | h) | h) | h
  · exact absurd h (by decide)
  · exact hdigits _ h
  · exact absurd h (by decide)
  · exact hdigits _ h
  · exact absurd h (by decide)

/-- and what stands before the first one is the name. -/
theorem takeWhile_render {p : Projection} (h : '[' ∉ p.name) :
    p.render.takeWhile (· ≠ '[') = p.fqn := by
  have hname : ∀ c ∈ p.fqn, (decide (c ≠ '[')) = true := fun c hc =>
    decide_eq_true fun heq => notMem_fqn (by decide) h (heq ▸ hc)
  unfold render
  rw [List.takeWhile_append_of_pos hname]
  cases p.brackets with
  | nil => simp
  | cons range ranges => simp

end Projection

/-- What the builder is told beside the plan. -/
structure ConstraintInputs where
  coordLat : Option VarName := some "lat".toList
  coordLon : Option VarName := some "lon".toList
  coordTime : Option VarName := none
  latAxis : Option AxisGeometry := none
  lonAxis : Option AxisGeometry := none
  varDims : Option (List (VarName × VarDimPlan)) := none
  varCoords : List (VarName × VarName × VarName) := []

/-- The range of a dimension by its role; one that is not spatial is taken whole. -/
def dimRange (latLeaf lonLeaf : VarName) (latRange lonRange : Option IndexRange)
    (dim : VarName × Option ℤ) : Option IndexRange :=
  if dim.1 = latLeaf then latRange
  else if dim.1 = lonLeaf then lonRange
  else (dim.2.filter (· ≠ 0)).map fun size => (0, size - 1)

/-- `_var_bracket_ranges`: one range for each dimension, in the order of the variable. -/
def varBracketRanges (dims : VarDimPlan) (latLeaf lonLeaf : VarName)
    (latRange lonRange : Option IndexRange) : List (Option IndexRange) :=
  dims.map (dimRange latLeaf lonLeaf latRange lonRange)

section builder

variable (fold : Lowering) (plan : RetrievalPlan) (inputs : ConstraintInputs)

/-- The box that the axes are cut to. -/
def clipBox : Option (AxisGeometry × AxisGeometry × Bbox) :=
  if plan.needsBbox then do
    let latAxis ← inputs.latAxis
    let lonAxis ← inputs.lonAxis
    let bbox ← plan.bbox
    pure (latAxis, lonAxis, bbox)
  else none

/-- The range of latitudes. -/
def latRange : Option IndexRange := do
  let (latAxis, _, bbox) ← clipBox plan inputs
  indexRange latAxis bbox.south.value bbox.north.value

/-- The range of longitudes; a box across the antimeridian has none. -/
def lonRange : Option IndexRange := do
  let (_, lonAxis, bbox) ← clipBox plan inputs
  if bbox.west.value ≤ bbox.east.value then
    indexRange lonAxis bbox.west.value bbox.east.value
  else none

/-- The leaf of a spatial dimension, by the axis and the coordinate it is known from. -/
def roleLeaf (axis : Option AxisGeometry) (coord : Option VarName) : VarName :=
  match axis, coord with
  | some _, some coord => fold.leaf coord
  | _, _ => []

/-- What is projected of one requested variable. -/
def variableMention (var : VarName) : Projection :=
  if ¬ plan.needsBbox then ⟨var, []⟩
  else
    match inputs.varDims with
    | none => ⟨var, [latRange plan inputs, lonRange plan inputs]⟩
    | some varDims =>
        match varDims.lookup var with
        | none => ⟨var, []⟩
        | some dims =>
            ⟨var, varBracketRanges dims (roleLeaf fold inputs.latAxis inputs.coordLat)
              (roleLeaf fold inputs.lonAxis inputs.coordLon) (latRange plan inputs)
              (lonRange plan inputs)⟩

/-- The coordinates of one requested variable. -/
def coordMentions (var : VarName) : List Projection :=
  match inputs.varCoords.lookup var with
  | none => []
  | some (varLat, varLon) => [⟨varLat, []⟩, ⟨varLon, []⟩]

/-- The coordinates of the collection. -/
def globalMentions : List Projection :=
  (if plan.needsBbox then
    (inputs.coordLat.map fun lat => ⟨lat, [latRange plan inputs]⟩).toList ++
      (inputs.coordLon.map fun lon => ⟨lon, [lonRange plan inputs]⟩).toList
  else []) ++
    ((inputs.coordTime.filter (· ≠ [])).map fun time => ⟨time, []⟩).toList

/-- What the builder adds, one after the other. -/
def mentions : List Projection :=
  globalMentions plan inputs ++ plan.variableNames.flatMap fun var =>
    variableMention fold plan inputs var :: coordMentions inputs var

/-- The projection: a name that has been added is not added again. -/
def projections : List Projection :=
  if plan.variableNames = [] then []
  else Lists.collect Projection.name (mentions fold plan inputs)

/-- `build_constraint_expression`. -/
def buildConstraintExpression : List Char :=
  [';'].intercalate ((projections fold plan inputs).map Projection.render)

/-! ### What is projected -/

/-- The names that the plan needs: its variables, the coordinates of the collection that are
confirmed, the horizontal ones for a box, and those of each variable. -/
inductive NeedsName : VarName → Prop
  | lat {n : VarName} (hbox : plan.needsBbox = true) (h : inputs.coordLat = some n) : NeedsName n
  | lon {n : VarName} (hbox : plan.needsBbox = true) (h : inputs.coordLon = some n) : NeedsName n
  | time {n : VarName} (h : inputs.coordTime = some n) (hne : n ≠ []) : NeedsName n
  | var {n : VarName} (h : n ∈ plan.variableNames) : NeedsName n
  | varLat {v n lon : VarName} (hv : v ∈ plan.variableNames)
      (h : inputs.varCoords.lookup v = some (n, lon)) : NeedsName n
  | varLon {v n lat : VarName} (hv : v ∈ plan.variableNames)
      (h : inputs.varCoords.lookup v = some (lat, n)) : NeedsName n

/-- The names that are read off an expression, one from each entry. -/
def projectedNames (expression : List Char) : List VarName :=
  (expression.splitOn ';').map (List.takeWhile (· ≠ '['))

/-- Every name that is needed is projected, and every fully-qualified name once. -/
def ProjectsOnce : Prop :=
  (∀ n, NeedsName plan inputs n →
      fqn n ∈ (projections fold plan inputs).map Projection.fqn) ∧
    ((projections fold plan inputs).map Projection.fqn).Nodup

end builder

section names

variable {fold : Lowering} {plan : RetrievalPlan} {inputs : ConstraintInputs} {n v : VarName}

@[simp] theorem variableMention_name : (variableMention fold plan inputs v).name = v := by
  unfold variableMention
  split_ifs
  · split
    · rfl
    · split <;> rfl
  · rfl

theorem mem_globalMentions : n ∈ (globalMentions plan inputs).map Projection.name ↔
    (plan.needsBbox = true ∧ (inputs.coordLat = some n ∨ inputs.coordLon = some n)) ∨
      inputs.coordTime = some n ∧ n ≠ [] := by
  unfold globalMentions
  split_ifs with hbox
  · simp [hbox, Option.filter_eq_some_iff, or_assoc]
  · simp [hbox, Option.filter_eq_some_iff]

theorem mem_coordMentions : n ∈ (coordMentions inputs v).map Projection.name ↔
    (∃ lon, inputs.varCoords.lookup v = some (n, lon)) ∨
      ∃ lat, inputs.varCoords.lookup v = some (lat, n) := by
  unfold coordMentions
  split
  · rename_i hnone
    simp [hnone]
  · rename_i varLat varLon hsome
    simp [hsome, eq_comm]

/-- What the builder adds are the names that are needed. -/
theorem mem_mentions : n ∈ (mentions fold plan inputs).map Projection.name ↔
    NeedsName plan inputs n := by
  unfold mentions
  rw [List.map_append, List.mem_append, mem_globalMentions, List.map_flatMap, List.mem_flatMap]
  simp only [List.map_cons, variableMention_name, List.mem_cons, mem_coordMentions]
  constructor
  · rintro ((⟨hbox, hlat | hlon⟩ | ⟨htime, hne⟩) | ⟨v, hv, rfl | ⟨lon, hlat⟩ | ⟨lat, hlon⟩⟩)
    · exact .lat hbox hlat
    · exact .lon hbox hlon
    · exact .time htime hne
    · exact .var hv
    · exact .varLat hv hlat
    · exact .varLon hv hlon
  · intro h
    cases h with
    | lat hbox h => exact Or.inl (Or.inl ⟨hbox, Or.inl h⟩)
    | lon hbox h => exact Or.inl (Or.inl ⟨hbox, Or.inr h⟩)
    | time h hne => exact Or.inl (Or.inr ⟨h, hne⟩)
    | var h => exact Or.inr ⟨n, h, Or.inl rfl⟩
    | varLat hv h => exact Or.inr ⟨_, hv, Or.inr (Or.inl ⟨_, h⟩)⟩
    | varLon hv h => exact Or.inr ⟨_, hv, Or.inr (Or.inr ⟨_, h⟩)⟩

theorem mem_projections (hplan : plan.variableNames ≠ []) :
    n ∈ (projections fold plan inputs).map Projection.name ↔ NeedsName plan inputs n := by
  unfold projections
  rw [if_neg hplan, Lists.mem_map_collect, mem_mentions]

/-- No name that is needed is lost. -/
theorem fqn_mem_projections (hplan : plan.variableNames ≠ []) (hn : NeedsName plan inputs n) :
    fqn n ∈ (projections fold plan inputs).map Projection.fqn := by
  have hmem : n ∈ (projections fold plan inputs).map Projection.name :=
    (mem_projections hplan).2 hn
  obtain ⟨p, hp, rfl⟩ := List.mem_map.1 hmem
  exact List.mem_map_of_mem hp

theorem nodup_projections : ((projections fold plan inputs).map Projection.name).Nodup := by
  unfold projections
  split_ifs
  · exact List.nodup_nil
  · exact Lists.nodup_collect _

/-- What is read off the expression is what is projected, in its order. -/
theorem projectedNames_buildConstraintExpression (hplan : plan.variableNames ≠ [])
    (hmarks : ∀ n, NeedsName plan inputs n → ';' ∉ n ∧ '[' ∉ n) :
    projectedNames (buildConstraintExpression fold plan inputs) =
      (projections fold plan inputs).map Projection.fqn := by
  have hname : ∀ p ∈ projections fold plan inputs, ';' ∉ p.name ∧ '[' ∉ p.name := fun p hp =>
    hmarks p.name ((mem_projections hplan).1 (List.mem_map_of_mem hp))
  have hrender : ∀ text ∈ (projections fold plan inputs).map Projection.render, ';' ∉ text := by
    intro text hmem
    obtain ⟨p, hp, rfl⟩ := List.mem_map.1 hmem
    exact Projection.notMem_render (hname p hp).1
  have hne : (projections fold plan inputs).map Projection.render ≠ [] := by
    obtain ⟨v, hv⟩ := List.exists_mem_of_ne_nil _ hplan
    have hmem : v ∈ (projections fold plan inputs).map Projection.name :=
      (mem_projections hplan).2 (.var hv)
    obtain ⟨p, hp, -⟩ := List.mem_map.1 hmem
    exact List.ne_nil_of_mem (List.mem_map_of_mem hp)
  unfold projectedNames buildConstraintExpression
  rw [List.splitOn_intercalate ';' hrender hne, List.map_map]
  exact List.map_congr_left fun p hp => Projection.takeWhile_render (hname p hp).2

/-- The projection has every name once if and only if no two of the names that the plan needs are
one name, spelled with a leading slash and without; and where no name has one of the marks of the
syntax, these are the names that the expression itself has. -/
theorem projectsOnce_iff (fold : Lowering) (plan : RetrievalPlan) (inputs : ConstraintInputs)
    (hplan : plan.variableNames ≠ []) :
    (ProjectsOnce fold plan inputs ↔ ∀ m n, NeedsName plan inputs m → NeedsName plan inputs n →
      fqn m = fqn n → m = n) ∧
    ((∀ n, NeedsName plan inputs n → ';' ∉ n ∧ '[' ∉ n) →
      projectedNames (buildConstraintExpression fold plan inputs) =
        (projections fold plan inputs).map Projection.fqn) := by
  refine ⟨?_, projectedNames_buildConstraintExpression hplan⟩
  have hnames : (projections fold plan inputs).map Projection.fqn =
      ((projections fold plan inputs).map Projection.name).map fqn := by
    rw [List.map_map]
    rfl
  unfold ProjectsOnce
  rw [hnames, List.nodup_map_iff_inj_on nodup_projections, ← hnames]
  simp only [mem_projections hplan]
  constructor
  · rintro ⟨-, hinj⟩ m n hm hn heq
    exact hinj m hm n hn heq
  · intro hinj
    exact ⟨fun n => fqn_mem_projections hplan, fun m hm n hn => hinj m n hm hn⟩

/-- A plan for these variables. -/
def RetrievalPlan.ofVariables (variableNames : List VarName) : RetrievalPlan :=
  { outputFormat := "application/netcdf4"
    transform := some { outputFormat := "application/netcdf4", variableNames := variableNames } }

/-- One variable and its coordinates. -/
theorem projectsOnce_iff_one :
    let plan := RetrievalPlan.ofVariables ["/gt1l/h".toList]
    let inputs : ConstraintInputs :=
      { varCoords := [("/gt1l/h".toList, "/gt1l/latitude".toList, "/gt1l/longitude".toList)] }
    buildConstraintExpression .ascii plan inputs =
        "/gt1l/h;/gt1l/latitude;/gt1l/longitude".toList ∧
      (ProjectsOnce .ascii plan inputs ↔ ∀ m n, NeedsName plan inputs m →
        NeedsName plan inputs n → fqn m = fqn n → m = n) := by
  intro plan inputs
  exact ⟨by decide +kernel, (projectsOnce_iff .ascii plan inputs (by decide +kernel)).1⟩

/-- A variable that is asked for in both spellings is projected twice. -/
theorem not_projectsOnce : ¬ ∀ (fold : Lowering) (plan : RetrievalPlan)
    (inputs : ConstraintInputs), plan.variableNames ≠ [] → ProjectsOnce fold plan inputs := by
  intro h
  have honce := h .ascii (.ofVariables ["A".toList, "/A".toList]) {} (by decide +kernel)
  exact absurd honce.2 (by decide +kernel)

end names

end EarthdataMcp
