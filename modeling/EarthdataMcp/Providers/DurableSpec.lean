import EarthdataMcp.Text.Json
import EarthdataMcp.Config
import EarthdataMcp.Providers.RetrievalPlan
import EarthdataMcp.Providers.Opendap.Geometry

/-!
# The durable specification

The specification of a retrieval with all of its fields, the dictionary it is stored as, and what
the worker makes of a stored dictionary.

* `DurableSpec`, `fromPlan` and `toJsonb`;
* `LoadedSpec`, the fields as they were stored, whatever they are; `specFromJsonb`, which may raise
  `InvalidSpecError`, and `LoadedSpec.toPlan`.
-/

namespace EarthdataMcp

open Text

/-- The durable specification of a retrieval. -/
structure DurableSpec where
  conceptId : Option String
  shortName : Option String
  outputFormat : String
  outputShape : Option String
  needsBbox : Bool
  needsVariable : Bool
  needsTemporal : Bool
  needsPointSample : Bool
  aoiBbox : Option Bbox
  timeRange : Option String
  variableNames : List VarName
  provider : Provider
  serviceName : Option String
  opendapUrls : List String
  coordLat : Option VarName
  coordLon : Option VarName
  coordTime : Option VarName
  latAxis : Option AxisGeometry
  lonAxis : Option AxisGeometry
  varDims : List (VarName × VarDimPlan)
  varCoords : List (VarName × VarName × VarName)
  variableExpansions : List (VarName × List VarName)
  workspaceId : String
  jobHandle : String
  obsHandle : String
  cacheKeyValue : String
  deriving DecidableEq

/-! ### Construction -/

/-- What routing decides: the path, and the service if one is pinned. -/
structure RoutingDecision where
  path : Provider
  serviceName : Option String := none

/-- The capabilities of a collection that a specification records. -/
structure SpecCapabilities where
  shortName : Option String
  outputShape : Option String
  capabilitiesVersion : String := ""

/-- What planning hands over beside the plan. -/
structure DiscoveryOutputs where
  opendapUrls : List String := []
  coordLat : Option VarName := none
  coordLon : Option VarName := none
  coordTime : Option VarName := none
  latAxis : Option AxisGeometry := none
  lonAxis : Option AxisGeometry := none
  varDims : List (VarName × VarDimPlan) := []
  varCoords : List (VarName × VarName × VarName) := []
  variableExpansions : List (VarName × List VarName) := []

/-- `compute_cache_key`. -/
def computeCacheKey (cfg : Settings) (shortName : Option String) (outputFormat : String)
    (bbox : Option Bbox) (timeRange : Option String) (variableNames : List VarName)
    (serviceName : Option String) (serviceVersion : String) : String :=
  let aoi := (bbox.map fun b =>
    ",".intercalate ([b.west, b.south, b.east, b.north].map cfg.renderCoordinate)).getD ""
  let names := (variableNames.map String.ofList).insertionSort (· ≤ ·)
  cfg.sha256Prefix 24 (":".intercalate
    [shortName.getD "", outputFormat, aoi, timeRange.getD "", ",".intercalate names,
      serviceName.getD "", serviceVersion])

/-- `RequestSpec.from_plan`. -/
def fromPlan (cfg : Settings) (plan : RetrievalPlan) (decision : RoutingDecision)
    (caps : SpecCapabilities) (workspaceId jobHandle obsHandle : String)
    (timeRange : Option String) (variableNames : Option (List VarName)) (d : DiscoveryOutputs) :
    DurableSpec :=
  let resolved := variableNames.getD plan.variableNames
  { conceptId := plan.conceptId
    shortName := caps.shortName
    outputFormat := plan.outputFormat
    outputShape := caps.outputShape
    needsBbox := plan.needsBbox
    needsVariable := plan.needsVariable
    needsTemporal := plan.needsTemporal
    needsPointSample := plan.needsPointSample
    aoiBbox := plan.bbox
    timeRange := timeRange
    variableNames := resolved
    provider := decision.path
    serviceName := decision.serviceName
    opendapUrls := d.opendapUrls
    coordLat := d.coordLat
    coordLon := d.coordLon
    coordTime := d.coordTime
    latAxis := d.latAxis
    lonAxis := d.lonAxis
    varDims := d.varDims
    varCoords := d.varCoords
    variableExpansions := d.variableExpansions
    workspaceId := workspaceId
    jobHandle := jobHandle
    obsHandle := obsHandle
    cacheKeyValue := computeCacheKey cfg caps.shortName plan.outputFormat plan.bbox timeRange
      resolved decision.serviceName caps.capabilitiesVersion }

/-! ### Storing -/

/-- A name as a text. -/
def nameJson (name : VarName) : Json := .str (String.ofList name)

/-- A name or `null`. -/
def optionalNameJson (name : Option VarName) : Json := Json.ofText (name.map String.ofList)

/-- The edges of a box; a coordinate is the number it is equal to. -/
def Bbox.json (b : Bbox) : List Json :=
  [.num b.west.value, .num b.south.value, .num b.east.value, .num b.north.value]

/-- `_serialize_axis`. -/
def serializeAxis : Option AxisGeometry → Json
  | none => .null
  | some axis => .obj [("name", nameJson axis.name), ("origin", .num axis.origin),
      ("step", .num axis.step), ("length", .num axis.length)]

/-- A dimension of a plan, its leaf and its size. -/
def dimJson (dim : VarName × Option ℤ) : List Json :=
  [nameJson dim.1, (dim.2.map fun size => Json.num size).getD .null]

/-- `_serialize_var_dims`. -/
def serializeVarDims (varDims : List (VarName × VarDimPlan)) : Json :=
  .obj (varDims.map fun e => (String.ofList e.1, .arr (e.2.map fun dim => .arr (dimJson dim))))

/-- `_serialize_var_coords`. -/
def serializeVarCoords (varCoords : List (VarName × VarName × VarName)) : Json :=
  .obj (varCoords.map fun e => (String.ofList e.1, .arr [nameJson e.2.1, nameJson e.2.2]))

/-- `_serialize_expansions`. -/
def serializeExpansions (expansions : List (VarName × List VarName)) : Json :=
  .obj (expansions.map fun e => (String.ofList e.1, .arr (e.2.map nameJson)))

/-- `to_jsonb`, the dictionary that is stored. -/
def DurableSpec.toJsonb (s : DurableSpec) : List (String × Json) :=
  [("concept_id", Json.ofText s.conceptId),
    ("short_name", Json.ofText s.shortName),
    ("output_format", .str s.outputFormat),
    ("output_shape", Json.ofText s.outputShape),
    ("needs_bbox", .bool s.needsBbox),
    ("needs_variable", .bool s.needsVariable),
    ("needs_temporal", .bool s.needsTemporal),
    ("needs_point_sample", .bool s.needsPointSample),
    ("aoi_bbox", (s.aoiBbox.map fun b => Json.arr b.json).getD .null),
    ("time_range", Json.ofText s.timeRange),
    ("variables", .arr (s.variableNames.map nameJson)),
    ("provider", .str s.provider.name),
    ("service_name", Json.ofText s.serviceName),
    ("opendap_urls", if s.opendapUrls = [] then .null else .arr (s.opendapUrls.map .str)),
    ("opendap_url", Json.ofText s.opendapUrls.head?),
    ("coord_lat", optionalNameJson s.coordLat),
    ("coord_lon", optionalNameJson s.coordLon),
    ("coord_time", optionalNameJson s.coordTime),
    ("lat_axis", serializeAxis s.latAxis),
    ("lon_axis", serializeAxis s.lonAxis),
    ("var_dims", serializeVarDims s.varDims),
    ("var_coords", serializeVarCoords s.varCoords),
    ("variable_expansions", serializeExpansions s.variableExpansions),
    ("workspace_id", .str s.workspaceId),
    ("job_handle", .str s.jobHandle),
    ("obs_handle", .str s.obsHandle),
    ("cache_key", .str s.cacheKeyValue)]

/-! ### Loading -/

/-- An axis as it was stored. -/
structure LoadedAxis where
  name : Json
  origin : Json
  step : Json
  length : Json

/-- A specification as it was stored: its fields are whatever the dictionary has, as far as the
loader has not looked at them. -/
structure LoadedSpec where
  conceptId : Json
  shortName : Json
  outputFormat : Json
  outputShape : Json
  needsBbox : Bool
  needsVariable : Bool
  needsTemporal : Bool
  needsPointSample : Bool
  aoiBbox : Option (List Json)
  timeRange : Json
  variableNames : List Json
  provider : Json
  serviceName : Json
  opendapUrls : List Json
  coordLat : Json
  coordLon : Json
  coordTime : Json
  latAxis : Option LoadedAxis
  lonAxis : Option LoadedAxis
  varDims : List (String × List (List Json))
  varCoords : List (String × Json × Json)
  variableExpansions : List (String × List Json)
  workspaceId : Json
  jobHandle : Json
  obsHandle : Json
  cacheKeyValue : Json

/-- `_axis_from_jsonb`. -/
def axisFromJsonb (data : Json) : Except ReadError (Option LoadedAxis) :=
  if ¬ data.truthy then .ok none
  else do
    let name ← data.item "name"
    let origin ← data.item "origin"
    let step ← data.item "step"
    let length ← data.item "length"
    pure (some ⟨name, origin, step, length⟩)

/-- A dictionary with each of its values read; nothing is read of what counts as empty. -/
def readEntries {α : Type} (read : Json → Except ReadError α) (data : Json) :
    Except ReadError (List (String × α)) :=
  if ¬ data.truthy then .ok []
  else do
    let entries ← data.items
    entries.mapM fun e => do
      let a ← read e.2
      pure (e.1, a)

/-- `_var_dims_from_jsonb`. -/
def varDimsFromJsonb : Json → Except ReadError (List (String × List (List Json))) :=
  readEntries fun dims => do
    let pairs ← dims.iter
    pairs.mapM Json.iter

/-- `_var_coords_from_jsonb`. -/
def varCoordsFromJsonb : Json → Except ReadError (List (String × Json × Json)) :=
  readEntries fun pair => do
    let lat ← pair.nth 0
    let lon ← pair.nth 1
    pure (lat, lon)

/-- `_expansions_from_jsonb`. -/
def expansionsFromJsonb : Json → Except ReadError (List (String × List Json)) :=
  readEntries Json.iter

/-- The links of the granules; a specification of an earlier version has only one. -/
def urlsOf (data : List (String × Json)) : Json :=
  let urls := Json.get data "opendap_urls"
  let url := Json.get data "opendap_url"
  if ¬ urls.truthy ∧ url.truthy then .arr [url] else urls

/-- The box, where there is one. -/
def bboxFromJsonb (bbox : Json) : Except ReadError (Option (List Json)) :=
  if bbox.truthy then some <$> bbox.iter else .ok none

/-- The fields in the order they are read, with the exceptions of reading them. -/
def readSpec (data : List (String × Json)) : Except ReadError LoadedSpec := do
  let aoiBbox ← bboxFromJsonb (Json.get data "aoi_bbox")
  let variableNames ← (Json.get data "variables").iterOrNil
  let opendapUrls ← (urlsOf data).iterOrNil
  let latAxis ← axisFromJsonb (Json.get data "lat_axis")
  let lonAxis ← axisFromJsonb (Json.get data "lon_axis")
  let varDims ← varDimsFromJsonb (Json.get data "var_dims")
  let varCoords ← varCoordsFromJsonb (Json.get data "var_coords")
  let variableExpansions ← expansionsFromJsonb (Json.get data "variable_expansions")
  pure
    { conceptId := Json.get data "concept_id"
      shortName := Json.get data "short_name"
      outputFormat := (Json.get data "output_format").orElse (.str defaultFormat)
      outputShape := Json.get data "output_shape"
      needsBbox := (Json.get data "needs_bbox").truthy
      needsVariable := (Json.get data "needs_variable").truthy
      needsTemporal := (Json.get data "needs_temporal").truthy
      needsPointSample := (Json.get data "needs_point_sample").truthy
      aoiBbox := aoiBbox
      timeRange := Json.get data "time_range"
      variableNames := variableNames
      provider := (Json.get data "provider").orElse (.str "harmony")
      serviceName := Json.get data "service_name"
      opendapUrls := opendapUrls
      coordLat := Json.get data "coord_lat"
      coordLon := Json.get data "coord_lon"
      coordTime := Json.get data "coord_time"
      latAxis := latAxis
      lonAxis := lonAxis
      varDims := varDims
      varCoords := varCoords
      variableExpansions := variableExpansions
      workspaceId := Json.get data "workspace_id"
      jobHandle := Json.get data "job_handle"
      obsHandle := Json.get data "obs_handle"
      cacheKeyValue := (Json.get data "cache_key").orElse (.str "") }

/-- How loading a specification fails. -/
inductive LoadError
  /-- `InvalidSpecError`, with what it was raised from. -/
  | invalidSpec (cause : ReadError)
  /-- Any other exception. -/
  | raised (e : ReadError)
  deriving DecidableEq, Repr

/-- `RequestSpec.from_jsonb`. -/
def specFromJsonb (data : List (String × Json)) : Except LoadError LoadedSpec :=
  match readSpec data with
  | .ok spec => .ok spec
  | .error e => .error (if e.caught then .invalidSpec e else .raised e)

/-! ### The plan that was rebuilt -/

/-- The transformations of a plan that was rebuilt. -/
structure LoadedTransform where
  outputFormat : Json
  variableNames : List Json
  reproject : Option String := none
  resample : Option String := none

/-- A plan that was rebuilt from a specification as it was stored. -/
structure LoadedPlan where
  outputFormat : Json
  needsBbox : Bool := false
  needsVariable : Bool := false
  needsTemporal : Bool := false
  needsShape : Bool := false
  needsDimension : Bool := false
  needsReproject : Bool := false
  needsPointSample : Bool := false
  conceptId : Json := .null
  shortName : Json := .null
  aoi : Option (Option (List Json)) := none
  timeRange : Option TimeRange := none
  transform : Option LoadedTransform := none

/-- The window of a plan, where there is one: `from_cmr` raises unless it is a text that can be
read, and what is no text cannot even be partitioned. -/
def windowOf (fromisoformat : String → Option DateTime) (timeRange : Json) :
    Except ReadError (Option TimeRange) :=
  if ¬ timeRange.truthy then .ok none
  else
    match timeRange with
    | .str value =>
        match TimeRange.fromCmr fromisoformat value with
        | some range => .ok (some range)
        | none => .error .valueError
    | _ => .error .attributeError

/-- `to_plan`. -/
def LoadedSpec.toPlan (fromisoformat : String → Option DateTime) (s : LoadedSpec) :
    Except ReadError LoadedPlan := do
  let timeRange ← windowOf fromisoformat s.timeRange
  pure
    { outputFormat := s.outputFormat
      needsBbox := s.needsBbox
      needsVariable := s.needsVariable
      needsTemporal := s.needsTemporal
      needsPointSample := s.needsPointSample
      conceptId := s.conceptId
      shortName := s.shortName
      aoi := (s.aoiBbox.filter (· ≠ [])).map some
      timeRange := timeRange
      transform := if s.variableNames = [] then none
        else some { outputFormat := s.outputFormat, variableNames := s.variableNames } }

end EarthdataMcp
