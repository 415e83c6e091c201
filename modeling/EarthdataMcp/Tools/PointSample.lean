import EarthdataMcp.Providers.SpecRoundTrip
import EarthdataMcp.Tools.Area

/-!
# The point of a sample

AppEEARS samples one point of an area: the task is built from the plan that the worker rebuilds
from the stored specification.

* `buildTask` and `pointFromAoi`;
* `SamplesWithin`: the point that is sent lies in the box of the area;
* `samplesWithin_iff`: exactly when it does.
-/

namespace EarthdataMcp

open Text

/-! ### The task -/

/-- A point of a task. -/
structure AppeearsCoordinate where
  latitude : ℚ
  longitude : ℚ
  id : String := "0"
  category : String := "site"
  deriving DecidableEq

/-- A layer of a product. -/
structure AppeearsLayer where
  product : String
  layer : String
  deriving DecidableEq

/-- The body of a point task. -/
structure AppeearsTask where
  taskType : String := "point"
  taskName : List Char
  coordinates : List AppeearsCoordinate
  layers : List AppeearsLayer
  /-- The first and the last date. -/
  dates : Option (String × String) := none
  deriving DecidableEq

/-- A value as a summand; what is no number cannot be halved in the end. -/
def summand (v : Json) : Except ReadError ℚ :=
  match number v with
  | some q => .ok q
  | none => .error .typeError

/-- `_point_from_aoi`, latitude first; an area of a plan that was rebuilt has no geometry. -/
def pointFromAoi : Option (Option (List Json)) → Except ReadError (ℚ × ℚ)
  | some (some [west, south, east, north]) => do
      let s ← summand south
      let n ← summand north
      let w ← summand west
      let e ← summand east
      pure ((s + n) / 2, (w + e) / 2)
  -- there is no area, it has no box, or the box has not four edges
  | _ => .error .valueError

/-- `_build_task`; `strftime` is that of an instant. -/
def buildTask (strftime : String → DateTime → String) (plan : LoadedPlan) (product : String)
    (layers : List AppeearsLayer) : Except ReadError AppeearsTask := do
  let (lat, lon) ← pointFromAoi plan.aoi
  pure
    { taskName := strip ("earthdata-mcp ".toList ++ product.toList)
      coordinates := [{ latitude := lat, longitude := lon }]
      layers := layers
      dates := plan.timeRange.map fun range =>
        (strftime "%m-%d-%Y" range.start, strftime "%m-%d-%Y" range.stop) }

/-! ### The point and the box -/

/-- `_validate_bbox` admits the box. -/
def Bbox.Admitted (b : Bbox) : Prop :=
  validateBbox (.finite b.west.value) (.finite b.south.value) (.finite b.east.value)
    (.finite b.north.value) = .ok ()

/-- Every point that is sent lies in the box, and in the valid ranges. -/
def SamplesWithin (b : Bbox) (task : AppeearsTask) : Prop :=
  ∀ c ∈ task.coordinates, LongitudeWithin b.west.value b.east.value c.longitude ∧
    (b.south.value ≤ c.latitude ∧ c.latitude ≤ b.north.value) ∧
    (-180 ≤ c.longitude ∧ c.longitude ≤ 180) ∧ -90 ≤ c.latitude ∧ c.latitude ≤ 90

/-- The edges of a box that is admitted. -/
theorem Bbox.Admitted.valid {b : Bbox} (h : b.Admitted) :
    BoxValid b.west.value b.south.value b.east.value b.north.value := by
  obtain ⟨west, south, east, north, hw, hs, he, hn, hvalid⟩ := validateBbox_eq_ok h
  obtain rfl := PyFloat.finite.inj hw
  obtain rfl := PyFloat.finite.inj hs
  obtain rfl := PyFloat.finite.inj he
  obtain rfl := PyFloat.finite.inj hn
  exact hvalid

/-- The middle of two longitudes is between them if west is not greater than east; else it is
between east and west, outside the box. -/
theorem longitudeWithin_middle_iff (w e : ℚ) : LongitudeWithin w e ((w + e) / 2) ↔ w ≤ e := by
  unfold LongitudeWithin
  split_ifs with h
  · refine iff_of_true ⟨?_, ?_⟩ h
    · linarith
    · linarith
  · refine iff_of_false ?_ h
    rintro (⟨hwest, -⟩ | ⟨-, heast⟩)
    · linarith
    · linarith

/-- The task of a box has its middle for a point. -/
theorem buildTask_json (strftime : String → DateTime → String) {plan : LoadedPlan} {b : Bbox}
    (h : plan.aoi = some (some b.json)) (product : String) (layers : List AppeearsLayer) :
    ∃ task, buildTask strftime plan product layers = .ok task ∧ task.coordinates =
      [{ latitude := (b.south.value + b.north.value) / 2
         longitude := (b.west.value + b.east.value) / 2 }] := by
  have hpoint : pointFromAoi plan.aoi =
      .ok ((b.south.value + b.north.value) / 2, (b.west.value + b.east.value) / 2) := by
    rw [h]
    rfl
  unfold buildTask
  rw [hpoint]
  exact ⟨_, rfl, rfl⟩

/-- The box of a plan is the one that the worker's plan has. -/
theorem aoi_of_stored {fromisoformat : String → Option DateTime} {s : DurableSpec} {b : Bbox}
    (hbbox : s.aoiBbox = some b) {loaded : LoadedSpec} (hload : specFromJsonb s.toJsonb = .ok loaded)
    {plan : LoadedPlan} (hplan : loaded.toPlan fromisoformat = .ok plan) :
    plan.aoi = some (some b.json) := by
  have hread := specFromJsonb_ok.1 hload
  rw [s.readSpec_toJsonb] at hread
  obtain rfl := Except.ok.inj hread
  obtain ⟨range, -, hplan⟩ := Lists.bind_eq_ok.1 hplan
  obtain rfl := Except.ok.inj hplan
  show ((s.aoiBbox.map Bbox.json).filter (· ≠ [])).map some = _
  rw [hbbox]
  rfl

/-- **The point that is sampled lies in the area if and only if its box does not cross the
antimeridian.** -/
theorem samplesWithin_iff (cfg : Settings) (strftime : String → DateTime → String)
    (plan : RetrievalPlan) (decision : RoutingDecision) (caps : SpecCapabilities)
    (workspaceId jobHandle obsHandle : String) (timeRange : Option String)
    (variableNames : Option (List VarName)) (discovered : DiscoveryOutputs) (b : Bbox)
    (hbbox : plan.bbox = some b) (hadmitted : b.Admitted) (loaded : LoadedSpec)
    (hload : specFromJsonb (fromPlan cfg plan decision caps workspaceId jobHandle obsHandle timeRange
      variableNames discovered).toJsonb = .ok loaded)
    (rebuilt : LoadedPlan) (hplan : loaded.toPlan cfg.fromisoformat = .ok rebuilt)
    (product : String) (layers : List AppeearsLayer) :
    ∃ task, buildTask strftime rebuilt product layers = .ok task ∧
      (SamplesWithin b task ↔ b.west.value ≤ b.east.value) := by
  have haoi : rebuilt.aoi = some (some b.json) := aoi_of_stored hbbox hload hplan
  obtain ⟨task, htask, hcoordinates⟩ := buildTask_json strftime haoi product layers
  refine ⟨task, htask, ?_⟩
  obtain ⟨hwest, heast, hsouth, hnorth, hordered⟩ := hadmitted.valid
  unfold SamplesWithin
  rw [hcoordinates, List.forall_mem_singleton, longitudeWithin_middle_iff]
  constructor
  · exact fun h => h.1
  · intro hle
    refine ⟨hle, ⟨?_, ?_⟩, ⟨?_, ?_⟩, ?_, ?_⟩ <;> linarith

/-- A plan to sample a point of an area. -/
def samplePlan (b : Bbox) : RetrievalPlan where
  outputFormat := "application/netcdf4"
  needsPointSample := true
  aoi := some { bbox := some b }

/-- The same plan, as the worker rebuilds it. -/
def rebuiltSample (b : Bbox) : LoadedPlan where
  outputFormat := .str "application/netcdf4"
  needsPointSample := true
  shortName := .str "MOD11A1"
  aoi := some (some b.json)

/-- The specification that is stored for it. -/
def storedSample (b : Bbox) : DurableSpec :=
  fromPlan {} (samplePlan b) { path := .appeears }
    { shortName := some "MOD11A1", outputShape := some "grid" } "default" "job_1" "obs_1" none none {}

theorem load_storedSample (b : Bbox) :
    specFromJsonb (storedSample b).toJsonb = .ok (storedSample b).loaded :=
  (storedSample b).specFromJsonb_toJsonb_iff.2 (show "application/netcdf4" ≠ "" by decide)

theorem toPlan_storedSample (b : Bbox) :
    (storedSample b).loaded.toPlan ({} : Settings).fromisoformat = .ok (rebuiltSample b) := rfl

/-- A box around Colorado. -/
def colorado : Bbox := ⟨{ value := -109 }, { value := 37 }, { value := -102 }, { value := 41 }⟩

/-- A box around Fiji, across the antimeridian. -/
def fiji : Bbox := ⟨{ value := 170 }, { value := -20 }, { value := -170 }, { value := -10 }⟩

theorem samplesWithin_iff_colorado :
    ∃ task, buildTask (fun _ _ => "") (rebuiltSample colorado) "MOD11A1" [] = .ok task ∧
      (SamplesWithin colorado task ↔ colorado.west.value ≤ colorado.east.value) := by
  have hadmitted : colorado.Admitted := by
    unfold Bbox.Admitted
    decide +kernel
  exact samplesWithin_iff {} _ (samplePlan colorado) { path := .appeears }
    { shortName := some "MOD11A1", outputShape := some "grid" } "default" "job_1" "obs_1" none none {}
    colorado rfl hadmitted _ (load_storedSample colorado) _ (toPlan_storedSample colorado) _ _

/-- The middle of a box around Fiji is on the other side of the globe. -/
theorem not_samplesWithin : ¬ ∀ (cfg : Settings) (strftime : String → DateTime → String)
    (plan : RetrievalPlan) (decision : RoutingDecision) (caps : SpecCapabilities)
    (workspaceId jobHandle obsHandle : String) (timeRange : Option String)
    (variableNames : Option (List VarName)) (discovered : DiscoveryOutputs) (b : Bbox),
    plan.bbox = some b → b.Admitted → ∀ loaded,
    specFromJsonb (fromPlan cfg plan decision caps workspaceId jobHandle obsHandle timeRange
      variableNames discovered).toJsonb = .ok loaded → ∀ rebuilt,
    loaded.toPlan cfg.fromisoformat = .ok rebuilt → ∀ product layers task,
    buildTask strftime rebuilt product layers = .ok task → SamplesWithin b task := by
  intro h
  have hadmitted : fiji.Admitted := by
    unfold Bbox.Admitted
    decide +kernel
  have hwithin := h {} (fun _ _ => "") (samplePlan fiji) { path := .appeears }
    { shortName := some "MOD11A1", outputShape := some "grid" } "default" "job_1" "obs_1" none none {}
    fiji rfl hadmitted _ (load_storedSample fiji) _ (toPlan_storedSample fiji) "MOD11A1" []
    { taskName := "earthdata-mcp MOD11A1".toList, coordinates := [{ latitude := -15, longitude := 0 }]
      layers := [] } (by decide +kernel)
  have hlongitude := (hwithin _ List.mem_cons_self).1
  unfold LongitudeWithin at hlongitude
  norm_num [fiji] at hlongitude

end EarthdataMcp
