import EarthdataMcp.Service
import EarthdataMcp.Providers.SpecRoundTrip
import EarthdataMcp.Providers.Opendap.Planning

/-!
# The specification of a submitted retrieval

What `_submit_retrieval` routes and what it persists: the plan has the names of the caller, the
specification the resolved ones.

* `Submission.plan` and `Submission.spec`;
* `planSubset_nil_iff`: a resolved list of names is empty if the requested one is;
* `roundTrips_iff`: a job resumed from the stored specification asks for what was planned, unless
  the caller gave an empty format.
-/

namespace EarthdataMcp

open Text

/-! ### Names that are resolved -/

section names

variable {fold : Lowering} {variableNames : List VarName}

/-- A name that is resolved has a path. -/
theorem DmrTree.resolve_ne_nil {tree : DmrTree} {userVar : VarName} {found : List VarName}
    (h : tree.resolve fold userVar = .ok found) : found ≠ [] := by
  unfold DmrTree.resolve at h
  split_ifs at h
  · obtain rfl := Except.ok.inj h
    exact List.cons_ne_nil _ _
  · split at h
    · cases h
    · rename_i paths hne
      obtain rfl := Except.ok.inj h
      exact hne

theorem resolveFromCmr_nil_iff {cmrVars : List UmmVariable} {out : Coordinates × List VarName}
    (h : resolveFromCmr fold cmrVars variableNames = .ok out) :
    out.2 = [] ↔ variableNames = [] := by
  unfold resolveFromCmr at h
  cases hnames : variableNames.mapM (resolveName fold cmrVars) with
  | error e =>
    rw [hnames] at h
    cases h
  | ok resolved =>
    rw [hnames] at h
    obtain rfl := Except.ok.inj h
    have hlength := (Lists.forall₂_of_mapM hnames).length_eq
    rw [← List.length_eq_zero_iff, ← List.length_eq_zero_iff, hlength]

theorem resolveVariables_nil_iff {tree : DmrTree}
    {out : List VarName × List (VarName × List VarName)}
    (h : resolveVariables fold tree variableNames = .ok out) :
    out.1 = [] ↔ variableNames = [] := by
  unfold resolveVariables at h
  cases hfound : variableNames.mapM (tree.resolve fold) with
  | error e =>
    rw [hfound] at h
    cases h
  | ok found =>
    rw [hfound] at h
    obtain rfl := Except.ok.inj h
    show found.flatten = [] ↔ _
    cases Lists.forall₂_of_mapM hfound with
    | nil => simp
    | cons hfirst _ => simp [DmrTree.resolve_ne_nil hfirst]

theorem resolveNames_nil_iff {cmrVars : List UmmVariable} {dmr : Option DmrTree} {r : Resolution}
    (h : resolveNames fold cmrVars dmr variableNames = .ok r) :
    r.variableNames = [] ↔ variableNames = [] := by
  unfold resolveNames at h
  cases hcmr : resolveFromCmr fold cmrVars variableNames with
  | error e =>
    rw [hcmr] at h
    cases h
  | ok out =>
    rw [← resolveFromCmr_nil_iff hcmr]
    rw [hcmr] at h
    cases dmr with
    | none =>
      obtain rfl := Except.ok.inj h
      rfl
    | some tree =>
      simp only [bind, Except.bind] at h
      split_ifs at h with hcatalog hgroup
      · cases hfound : resolveVariables fold tree out.2 with
        | error e =>
          rw [hfound] at h
          cases h
        | ok found =>
          rw [hfound] at h
          obtain rfl := Except.ok.inj h
          exact resolveVariables_nil_iff hfound
      · obtain rfl := Except.ok.inj h
        exact List.map_eq_nil_iff
      · obtain rfl := Except.ok.inj h
        rfl

/-- A resolved list of names is empty if the requested one is. -/
theorem planSubset_nil_iff {urls : List String} {cmrVars : List UmmVariable}
    {dmr : Option DmrTree} {grid : Bool} {extent : Option Extent} {p : OpendapPlan}
    (h : planSubset fold urls cmrVars dmr grid extent variableNames = .ok p) :
    p.variableNames = [] ↔ variableNames = [] := by
  unfold planSubset at h
  by_cases hurls : urls = []
  · rw [if_pos hurls] at h
    obtain rfl := Except.ok.inj h
    rfl
  · rw [if_neg hurls] at h
    cases hr : resolveNames fold cmrVars dmr variableNames with
    | error e =>
      rw [hr] at h
      cases h
    | ok r =>
      rw [hr] at h
      obtain rfl := Except.ok.inj h
      exact resolveNames_nil_iff hr

end names

/-! ### What is planned and persisted -/

/-- What `_submit_retrieval` has at hand when it plans: the request, with its window normalized,
the flags of the tool, and what it has looked up. -/
structure Submission where
  request : RetrievalRequest
  needsBbox : Bool
  needsVariable : Bool
  needsTemporal : Bool
  conceptId : String
  bbox : Option Bbox
  caps : Capabilities
  capabilitiesVersion : String
  workspaceId : String

namespace Submission

variable (s : Submission)

/-- The names of the caller. -/
def variableNames : List VarName := s.request.variableNames.map String.toList

/-- `fmt`. -/
def format : String := outputFormat s.request s.caps

/-- The plan, with its window. -/
def planFor (timeRange : Option TimeRange) : RetrievalPlan where
  outputFormat := s.format
  needsBbox := s.needsBbox
  needsVariable := s.needsVariable
  needsTemporal := s.needsTemporal
  needsPointSample := s.request.needsPointSample
  conceptId := some s.conceptId
  shortName := s.caps.shortName
  aoi := s.bbox.map fun bbox => { bbox := some bbox }
  timeRange := timeRange
  transform := transformFor s.format s.variableNames

/-- The plan that is routed; nothing where `from_cmr` raises. -/
def plan (fromisoformat : String → Option DateTime) : Option RetrievalPlan :=
  (requestWindow fromisoformat s.request.timeRange).map s.planFor

/-- The subset is planned for OPeNDAP as well. -/
def Gridded : Prop :=
  s.request.needsPointSample = false ∧ s.caps.outputShape ∈ ["grid", "swath"] ∧ s.bbox.isSome

/-- What planning for OPeNDAP has made of the names: a plan, if the retrieval is gridded. -/
def Discovered (fold : Lowering) (opendap : Option OpendapPlan) : Prop :=
  (¬ s.Gridded ∧ opendap = none) ∨
    s.Gridded ∧ ∃ urls cmrVars dmr extent p, opendap = some p ∧
      planSubset fold urls cmrVars dmr (s.caps.outputShape = "grid") extent s.variableNames = .ok p

/-- The resolved names. -/
def resolved (opendap : Option OpendapPlan) : List VarName :=
  (opendap.map OpendapPlan.variableNames).getD s.variableNames

/-- What planning for OPeNDAP has found; the coordinates are kept if there is a link. -/
def discoveryOutputs : Option OpendapPlan → DiscoveryOutputs
  | none => {}
  | some p =>
      { opendapUrls := p.opendapUrls
        coordLat := if p.opendapUrls = [] then none else p.coords.lat
        coordLon := if p.opendapUrls = [] then none else p.coords.lon
        coordTime := if p.opendapUrls = [] then none else p.coords.time
        latAxis := p.geometry.latAxis
        lonAxis := p.geometry.lonAxis
        varDims := p.geometry.varDims
        varCoords := p.varCoords
        variableExpansions := p.variableExpansions }

/-- The specification that is persisted. -/
def spec (cfg : Settings) (plan : RetrievalPlan) (opendap : Option OpendapPlan)
    (decision : RoutingDecision) (jobHandle obsHandle : String) : DurableSpec :=
  fromPlan cfg plan decision
    ⟨s.caps.shortName, some s.caps.outputShape, s.capabilitiesVersion⟩ s.workspaceId jobHandle
    obsHandle (some s.request.timeRange) (some (s.resolved opendap)) (discoveryOutputs opendap)

variable {s} {cfg : Settings} {fold : Lowering} {opendap : Option OpendapPlan}

theorem resolved_nil_iff (h : s.Discovered fold opendap) :
    s.resolved opendap = [] ↔ s.variableNames = [] := by
  rcases h with ⟨-, rfl⟩ | ⟨-, urls, cmrVars, dmr, extent, p, rfl, hp⟩
  · rfl
  · exact planSubset_nil_iff hp

theorem formatByShape_ne_empty (shape : String) :
    (formatByShape.lookup shape).getD "application/netcdf4" ≠ "" := by
  unfold formatByShape
  simp only [List.lookup_cons, List.lookup_nil]
  cases shape == "grid" <;> cases shape == "point" <;> cases shape == "swath" <;> decide

/-- The format is empty if the caller says so, but for a point sample. -/
theorem format_eq_empty_iff :
    s.format = "" ↔ s.request.outputFormat = some "" ∧ s.request.needsPointSample = false := by
  unfold format outputFormat
  cases s.request.outputFormat with
  | none =>
    apply iff_of_false _ (by simp)
    cases s.request.needsPointSample with
    | false => exact formatByShape_ne_empty _
    | true => exact (by decide : "application/x-parquet" ≠ "")
  | some format =>
    cases s.request.needsPointSample with
    | false => simp
    | true =>
      by_cases hempty : format = "" <;> simp [hempty]

/-- A job that is resumed from what was stored has the same specification, and asks for the plan
that was routed with the resolved names. -/
def RoundTrips (fromisoformat : String → Option DateTime) (spec : DurableSpec)
    (planned : RetrievalPlan) : Prop :=
  ∃ loaded, specFromJsonb spec.toJsonb = .ok loaded ∧ loaded = spec.loaded ∧
    loaded.toPlan fromisoformat = .ok planned.loaded

/-- The plan that is rebuilt is the one that was routed, for the resolved names. -/
theorem toPlan_spec {plan : RetrievalPlan} (hopendap : s.Discovered fold opendap)
    (hplan : s.plan cfg.fromisoformat = some plan) (decision : RoutingDecision)
    (jobHandle obsHandle : String) :
    (s.spec cfg plan opendap decision jobHandle obsHandle).loaded.toPlan cfg.fromisoformat =
      .ok (plan.withVariables (s.resolved opendap)).loaded := by
  obtain ⟨range, hrange, rfl⟩ := Option.map_eq_some_iff.1 hplan
  have htime : (s.spec cfg (s.planFor range) opendap decision jobHandle obsHandle).timeRange =
      some s.request.timeRange := rfl
  rw [toPlan_loaded htime hrange]
  have hnil := resolved_nil_iff hopendap
  have hbbox : ((s.bbox.map fun bbox => ({ bbox := some bbox } : Aoi)).bind Aoi.bbox).map
      (fun bbox => ({ bbox := some bbox } : Aoi)) = s.bbox.map fun bbox => { bbox := some bbox } := by
    cases s.bbox <;> rfl
  have htransform : transformFor s.format (s.resolved opendap) =
      (transformFor s.format s.variableNames).map fun t =>
        { t with variableNames := s.resolved opendap } := by
    unfold transformFor
    by_cases hnames : s.variableNames = []
    · rw [if_pos hnames, if_pos (hnil.2 hnames)]
      rfl
    · rw [if_neg hnames, if_neg (hnil.not.2 hnames)]
      rfl
  apply congrArg (fun plan => Except.ok (RetrievalPlan.loaded plan))
  unfold RetrievalPlan.withVariables
  dsimp only [spec, fromPlan, planFor, RetrievalPlan.bbox, Option.getD_some]
  rw [hbbox, htransform]

/-- The round trip holds unless the caller gave an empty format for what is no point sample. -/
theorem roundTrips_iff {plan : RetrievalPlan} (hopendap : s.Discovered fold opendap)
    (hplan : s.plan cfg.fromisoformat = some plan) (decision : RoutingDecision)
    (jobHandle obsHandle : String) :
    RoundTrips cfg.fromisoformat (s.spec cfg plan opendap decision jobHandle obsHandle)
        (plan.withVariables (s.resolved opendap)) ↔
      s.request.outputFormat ≠ some "" ∨ s.request.needsPointSample = true := by
  have hformat : (s.spec cfg plan opendap decision jobHandle obsHandle).outputFormat = s.format := by
    obtain ⟨range, -, rfl⟩ := Option.map_eq_some_iff.1 hplan
    rfl
  have hempty : s.format ≠ "" ↔
      s.request.outputFormat ≠ some "" ∨ s.request.needsPointSample = true := by
    rw [Ne, format_eq_empty_iff, not_and_or, Bool.not_eq_false]
  rw [← hempty, ← hformat, ← DurableSpec.specFromJsonb_toJsonb_iff]
  constructor
  · rintro ⟨loaded, hload, rfl, -⟩
    exact hload
  · intro hload
    exact ⟨_, hload, rfl, toPlan_spec hopendap hplan decision jobHandle obsHandle⟩

/-- A request for one day of a gridded collection, without a box, in the given format. -/
def daily (format : Option String) : Submission where
  request := { RetrievalRequest.plain with outputFormat := format, variableNames := ["ndvi"] }
  needsBbox := false
  needsVariable := true
  needsTemporal := true
  conceptId := "C1-LPCLOUD"
  bbox := none
  caps := {}
  capabilitiesVersion := "1"
  workspaceId := "default"

/-- The plan for the day. -/
def dailyPlan (format : Option String) : RetrievalPlan :=
  (daily format).planFor
    ((requestWindow Settings.oneKey.fromisoformat (daily format).request.timeRange).getD none)

theorem roundTrips_default :
    RoundTrips Settings.oneKey.fromisoformat
      ((daily none).spec .oneKey (dailyPlan none) none ⟨.harmony, none⟩ "job_1" "obs_1")
      ((dailyPlan none).withVariables ["ndvi".toList]) := by
  have hopendap : (daily none).Discovered .ascii none := Or.inl ⟨by simp [Gridded, daily], rfl⟩
  have hplan : (daily none).plan Settings.oneKey.fromisoformat = some (dailyPlan none) := rfl
  exact (roundTrips_iff hopendap hplan ⟨.harmony, none⟩ "job_1" "obs_1").2 (Or.inl (by decide))

/-- An empty format is persisted, and loaded as the default. -/
theorem not_roundTrips_empty :
    ¬ RoundTrips Settings.oneKey.fromisoformat
      ((daily (some "")).spec .oneKey (dailyPlan (some "")) none ⟨.harmony, none⟩ "job_1" "obs_1")
      ((dailyPlan (some "")).withVariables ["ndvi".toList]) := by
  rintro ⟨loaded, hload, rfl, -⟩
  exact (DurableSpec.specFromJsonb_toJsonb_iff _).1 hload rfl

end Submission

end EarthdataMcp
