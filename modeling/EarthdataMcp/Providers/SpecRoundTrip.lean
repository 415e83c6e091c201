import EarthdataMcp.Providers.SpecLoading

/-!
# The round trip of a specification

What the loader makes of a specification that was stored: it reads each field as it was written,
but for an output format that is empty, for which it takes the default.

* `DurableSpec.loaded` and `RetrievalPlan.loaded`, the same fields as the loader holds them;
* `readSpec_toJsonb`, `specFromJsonb_toJsonb_iff`;
* `abstracts_loaded`: this is what `RequestSpec.loaded` says of the worker's specification;
* `toPlan_loaded`: the plan that is rebuilt.
-/

namespace EarthdataMcp

open Text Text.Json

/-! ### One field at a time -/

/-- The same axis, as the loader holds it. -/
def AxisGeometry.loaded (axis : AxisGeometry) : LoadedAxis :=
  ⟨nameJson axis.name, .num axis.origin, .num axis.step, .num axis.length⟩

theorem axisFromJsonb_serializeAxis (axis : Option AxisGeometry) :
    axisFromJsonb (serializeAxis axis) = .ok (axis.map AxisGeometry.loaded) := by
  cases axis <;> rfl

/-- A table that was written is read if its values are. -/
theorem readEntries_obj {α β : Type} {read : Json → Except ReadError α} {key : β → String}
    {write : β → Json} {held : β → α} (xs : List β) (h : ∀ x, read (write x) = .ok (held x)) :
    readEntries read (.obj (xs.map fun x => (key x, write x))) =
      .ok (xs.map fun x => (key x, held x)) := by
  have hentries : (xs.map fun x => (key x, write x)).mapM (fun e => do
      let a ← read e.2
      (pure (e.1, a) : Except ReadError (String × α))) = .ok (xs.map fun x => (key x, held x)) := by
    induction xs with
    | nil => rfl
    | cons x xs ih =>
      rw [List.map_cons, List.mapM_cons, ih, h]
      rfl
  cases xs with
  | nil => rfl
  | cons x xs => exact hentries

/-- The dimensions, the coordinates and the expansions as the loader holds them. -/
def loadedVarDims (varDims : List (VarName × VarDimPlan)) : List (String × List (List Json)) :=
  varDims.map fun e => (String.ofList e.1, e.2.map dimJson)

def loadedVarCoords (varCoords : List (VarName × VarName × VarName)) :
    List (String × Json × Json) :=
  varCoords.map fun e => (String.ofList e.1, nameJson e.2.1, nameJson e.2.2)

def loadedExpansions (expansions : List (VarName × List VarName)) : List (String × List Json) :=
  expansions.map fun e => (String.ofList e.1, e.2.map nameJson)

theorem varDimsFromJsonb_serialize (varDims : List (VarName × VarDimPlan)) :
    varDimsFromJsonb (serializeVarDims varDims) = .ok (loadedVarDims varDims) := by
  apply readEntries_obj
  intro e
  show (e.2.map fun dim => arr (dimJson dim)).mapM Json.iter = _
  induction e.2 with
  | nil => rfl
  | cons dim dims ih =>
    rw [List.map_cons, List.mapM_cons, ih]
    rfl

theorem varCoordsFromJsonb_serialize (varCoords : List (VarName × VarName × VarName)) :
    varCoordsFromJsonb (serializeVarCoords varCoords) = .ok (loadedVarCoords varCoords) :=
  readEntries_obj varCoords fun _ => rfl

theorem expansionsFromJsonb_serialize (expansions : List (VarName × List VarName)) :
    expansionsFromJsonb (serializeExpansions expansions) = .ok (loadedExpansions expansions) :=
  readEntries_obj expansions fun _ => rfl

theorem bboxFromJsonb_json (bbox : Option Bbox) :
    bboxFromJsonb ((bbox.map fun b => Json.arr b.json).getD .null) =
      .ok (bbox.map Bbox.json) := by
  cases bbox <;> rfl

theorem Provider.name_ne_empty (p : Provider) : p.name ≠ "" := by
  cases p <;> decide

/-! ### The whole specification -/

namespace DurableSpec

variable (s : DurableSpec)

/-- The same specification, as the loader holds it. -/
def loaded : LoadedSpec where
  conceptId := Json.ofText s.conceptId
  shortName := Json.ofText s.shortName
  outputFormat := .str s.outputFormat
  outputShape := Json.ofText s.outputShape
  needsBbox := s.needsBbox
  needsVariable := s.needsVariable
  needsTemporal := s.needsTemporal
  needsPointSample := s.needsPointSample
  aoiBbox := s.aoiBbox.map Bbox.json
  timeRange := Json.ofText s.timeRange
  variableNames := s.variableNames.map nameJson
  provider := .str s.provider.name
  serviceName := Json.ofText s.serviceName
  opendapUrls := s.opendapUrls.map .str
  coordLat := optionalNameJson s.coordLat
  coordLon := optionalNameJson s.coordLon
  coordTime := optionalNameJson s.coordTime
  latAxis := s.latAxis.map AxisGeometry.loaded
  lonAxis := s.lonAxis.map AxisGeometry.loaded
  varDims := loadedVarDims s.varDims
  varCoords := loadedVarCoords s.varCoords
  variableExpansions := loadedExpansions s.variableExpansions
  workspaceId := .str s.workspaceId
  jobHandle := .str s.jobHandle
  obsHandle := .str s.obsHandle
  cacheKeyValue := .str s.cacheKeyValue

/-- The links are read from the list, not from the single link beside it. -/
theorem urlsOf_toJsonb : (urlsOf s.toJsonb).iterOrNil = .ok (s.opendapUrls.map .str) := by
  have hurls : Json.get s.toJsonb "opendap_urls" =
      if s.opendapUrls = [] then .null else .arr (s.opendapUrls.map .str) := rfl
  have hurl : Json.get s.toJsonb "opendap_url" = Json.ofText s.opendapUrls.head? := rfl
  unfold urlsOf
  rw [hurls, hurl]
  cases s.opendapUrls <;> rfl

/-- The fields are read as they were written, an empty output format apart. -/
theorem readSpec_toJsonb : readSpec s.toJsonb = .ok
    { s.loaded with outputFormat := (str s.outputFormat).orElse (.str defaultFormat) } := by
  have hbbox : bboxFromJsonb (Json.get s.toJsonb "aoi_bbox") = .ok (s.aoiBbox.map Bbox.json) :=
    bboxFromJsonb_json s.aoiBbox
  have hnames : (Json.get s.toJsonb "variables").iterOrNil =
      .ok (s.variableNames.map nameJson) := iterOrNil_arr _
  have hlat : axisFromJsonb (Json.get s.toJsonb "lat_axis") =
      .ok (s.latAxis.map AxisGeometry.loaded) := axisFromJsonb_serializeAxis s.latAxis
  have hlon : axisFromJsonb (Json.get s.toJsonb "lon_axis") =
      .ok (s.lonAxis.map AxisGeometry.loaded) := axisFromJsonb_serializeAxis s.lonAxis
  have hdims : varDimsFromJsonb (Json.get s.toJsonb "var_dims") =
      .ok (loadedVarDims s.varDims) := varDimsFromJsonb_serialize s.varDims
  have hcoords : varCoordsFromJsonb (Json.get s.toJsonb "var_coords") =
      .ok (loadedVarCoords s.varCoords) := varCoordsFromJsonb_serialize s.varCoords
  have hexpansions : expansionsFromJsonb (Json.get s.toJsonb "variable_expansions") =
      .ok (loadedExpansions s.variableExpansions) :=
    expansionsFromJsonb_serialize s.variableExpansions
  have hprovider : (Json.get s.toJsonb "provider").orElse (.str "harmony") =
      .str s.provider.name := orElse_str s.provider.name_ne_empty _
  have hkey : (Json.get s.toJsonb "cache_key").orElse (.str "") = .str s.cacheKeyValue :=
    orElse_empty _
  unfold readSpec
  rw [hbbox, hnames, s.urlsOf_toJsonb, hlat, hlon, hdims, hcoords, hexpansions, hprovider, hkey]
  rfl

/-- The specification that is stored is the one that is loaded, unless its format is empty. -/
theorem specFromJsonb_toJsonb_iff :
    specFromJsonb s.toJsonb = .ok s.loaded ↔ s.outputFormat ≠ "" := by
  rw [specFromJsonb_ok, readSpec_toJsonb]
  constructor
  · intro h hformat
    have hheld : (str s.outputFormat).orElse (.str defaultFormat) = .str s.outputFormat :=
      congrArg LoadedSpec.outputFormat (Except.ok.inj h)
    rw [hformat] at hheld
    exact absurd (str.inj hheld) (by decide)
  · intro hformat
    rw [orElse_str hformat]
    rfl

end DurableSpec

/-! ### The specification of the worker -/

/-- The loader's fields are those of the specification that the worker goes by. -/
structure LoadedSpec.Abstracts (l : LoadedSpec) (r : RequestSpec) : Prop where
  conceptId : l.conceptId = Json.ofText r.conceptId
  shortName : l.shortName = Json.ofText r.shortName
  outputFormat : l.outputFormat = .str r.outputFormat
  needsPointSample : l.needsPointSample = r.needsPointSample
  aoiBbox : l.aoiBbox = r.aoiBbox.map Bbox.json
  timeRange : l.timeRange = Json.ofText r.timeRange
  variableNames : l.variableNames = r.variableNames.map .str
  provider : l.provider = .str r.provider.name
  opendapUrls : l.opendapUrls = r.opendapUrls.map .str

/-- Storing and loading is `RequestSpec.loaded`. -/
theorem abstracts_loaded {s : DurableSpec} {r : RequestSpec} (h : s.loaded.Abstracts r) :
    ∃ l, specFromJsonb s.toJsonb = .ok l ∧ l.Abstracts r.loaded := by
  refine ⟨_, specFromJsonb_ok.2 s.readSpec_toJsonb, ?_⟩
  have hformat : s.outputFormat = r.outputFormat := str.inj h.outputFormat
  have hloaded : (str s.outputFormat).orElse (.str defaultFormat) = .str r.loaded.outputFormat := by
    rw [hformat]
    unfold RequestSpec.loaded
    by_cases hempty : r.outputFormat = ""
    · rw [if_pos hempty, hempty]
      rfl
    · rw [if_neg hempty, orElse_str hempty]
  exact { h with outputFormat := hloaded }

/-! ### The plan -/

/-- The same plan, as one that was rebuilt. -/
def RetrievalPlan.loaded (plan : RetrievalPlan) : LoadedPlan where
  outputFormat := .str plan.outputFormat
  needsBbox := plan.needsBbox
  needsVariable := plan.needsVariable
  needsTemporal := plan.needsTemporal
  needsShape := plan.needsShape
  needsDimension := plan.needsDimension
  needsReproject := plan.needsReproject
  needsPointSample := plan.needsPointSample
  conceptId := Json.ofText plan.conceptId
  shortName := Json.ofText plan.shortName
  aoi := plan.aoi.map fun aoi => aoi.bbox.map Bbox.json
  timeRange := plan.timeRange
  transform := plan.transform.map fun t =>
    { outputFormat := .str t.outputFormat, variableNames := t.variableNames.map nameJson
      reproject := t.reproject, resample := t.resample }

/-- The window of a request, if it has one; nothing where `from_cmr` raises. -/
def requestWindow (fromisoformat : String → Option DateTime) (timeRange : String) :
    Option (Option TimeRange) :=
  if timeRange = "" then some none else (TimeRange.fromCmr fromisoformat timeRange).map some

theorem windowOf_str {fromisoformat : String → Option DateTime} {timeRange : String}
    {range : Option TimeRange} (h : requestWindow fromisoformat timeRange = some range) :
    windowOf fromisoformat (.str timeRange) = .ok range := by
  unfold requestWindow at h
  split_ifs at h with hempty
  · subst hempty
    obtain rfl := Option.some.inj h
    rfl
  · obtain ⟨r, hr, rfl⟩ := Option.map_eq_some_iff.1 h
    have htruthy : (Json.str timeRange).truthy = true := decide_eq_true hempty
    unfold windowOf
    rw [if_neg (not_not.2 htruthy)]
    dsimp only
    rw [hr]

/-- The plan that is rebuilt from a specification, its fields in typed form. -/
theorem toPlan_loaded {fromisoformat : String → Option DateTime} {s : DurableSpec}
    {timeRange : String} {range : Option TimeRange} (htime : s.timeRange = some timeRange)
    (hrange : requestWindow fromisoformat timeRange = some range) :
    s.loaded.toPlan fromisoformat = .ok (RetrievalPlan.loaded
      { outputFormat := s.outputFormat
        needsBbox := s.needsBbox
        needsVariable := s.needsVariable
        needsTemporal := s.needsTemporal
        needsPointSample := s.needsPointSample
        conceptId := s.conceptId
        shortName := s.shortName
        aoi := s.aoiBbox.map fun bbox => { bbox := some bbox }
        timeRange := range
        transform := transformFor s.outputFormat s.variableNames }) := by
  have hwindow : windowOf fromisoformat s.loaded.timeRange = .ok range := by
    show windowOf fromisoformat (Json.ofText s.timeRange) = _
    rw [htime]
    exact windowOf_str hrange
  have hbbox : (s.loaded.aoiBbox.filter (· ≠ [])).map some =
      (s.aoiBbox.map fun bbox => ({ bbox := some bbox } : Aoi)).map fun aoi =>
        aoi.bbox.map Bbox.json := by
    show ((s.aoiBbox.map Bbox.json).filter (· ≠ [])).map some = _
    cases s.aoiBbox <;> rfl
  have hnames : s.loaded.variableNames = s.variableNames.map nameJson := rfl
  unfold LoadedSpec.toPlan RetrievalPlan.loaded transformFor
  rw [hwindow, hbbox, hnames]
  by_cases hnil : s.variableNames = []
  · rw [hnil]
    rfl
  · rw [if_neg hnil, if_neg (by simpa using hnil)]
    rfl

end EarthdataMcp
