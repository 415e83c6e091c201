import EarthdataMcp.Providers.Capabilities
import EarthdataMcp.Text.Fields

/-!
# Routing

One path is chosen for a plan: AppEEARS for a sample of points, the archive's own storage for data
as it is, and Harmony for everything else, with a service pinned if one meets the whole plan. The
choice is written down beside it, and nothing is submitted.

* `Router.route`, and `serviceTrace`, which tells why a service was or was not pinned;
* `firstUnmetNeed_eq_some`: the need that is told is one that the service fails;
* `Explains`: a trace that tells it of every listed service.
-/

namespace EarthdataMcp

open Text

/-! ### The choice -/

/-- No path can satisfy the plan. -/
structure NotRetrievable where
  reason : String
  available : List ServiceCapability

/-- The settings and the surroundings that decide whether the archive's storage can be reached; a
variable that is not set is empty, and `lower` is `str.lower`. -/
structure RoutingEnvironment where
  s3DirectEnabled : Bool := false
  awsRegion : String := ""
  awsDefaultRegion : String := ""
  lower : List Char → List Char := id

/-- What routing is given beside the capabilities: whether Harmony is wired, and what the other
providers can handle if they are. -/
structure Router where
  harmony : Bool := true
  opendap : Option (RetrievalPlan → Bool) := none
  appeears : Option (RetrievalPlan → Bool) := none
  environment : RoutingEnvironment := {}

/-- A trace, which is a dictionary. -/
abbrev Trace := List (String × Json)

/-- The path that is chosen; the service, if one is pinned; the provider, if one is wired. -/
structure Router.Decision where
  path : Provider
  service : Option ServiceCapability := none
  provider : Option Provider := none
  trace : Trace := []

/-- `_plan_need_names`. -/
def planNeedNames (plan : RetrievalPlan) : List String :=
  (if plan.needsBbox then ["bbox"] else []) ++
    (if plan.needsVariable then ["variable"] else []) ++
    (if plan.needsTemporal then ["temporal"] else []) ++
    (if plan.needsShape then ["shape"] else []) ++
    (if plan.needsDimension then ["dimension"] else []) ++
    (if plan.needsReproject then ["reproject"] else []) ++ ["output_format"]

/-- `_first_unmet_need`. -/
def firstUnmetNeed (service : ServiceCapability) (plan : RetrievalPlan) : Option Need :=
  if plan.needsBbox && !service.subsetBbox then some .bbox
  else if plan.needsVariable && !service.subsetVariable then some .variableNames
  else if plan.needsTemporal && !service.subsetTemporal then some .temporal
  else if plan.needsShape && !service.subsetShape then some .shape
  else if plan.needsDimension && !service.subsetDimension then some .dimension
  else if plan.needsReproject && !service.reproject then some .reproject
  else if !service.outputFormats.any (Json.isText plan.outputFormat) then some .outputFormat
  else none

/-- What a trace says of a service that was not pinned. -/
def serviceNote (plan : RetrievalPlan) (s : ServiceCapability) : Json :=
  .obj [("service_name", s.serviceName),
    ("first_unmet_need", Json.ofText ((firstUnmetNeed s plan).map Need.name))]

/-- `_service_trace`. -/
def serviceTrace (caps : CollectionCapabilities) (plan : RetrievalPlan) :
    Option ServiceCapability → Trace
  | some svc =>
      [("pinned_service", svc.serviceName),
        ("pinned_concept_id", .str svc.conceptId),
        ("satisfied_needs", .arr ((planNeedNames plan).map .str))]
  | none =>
      [("pinned_service", .null),
        ("reason", .str (if caps.services.isEmpty then "no_registered_services"
          else "no_single_service_satisfies")),
        ("services", .arr (caps.services.map (serviceNote plan)))]

/-- `_is_data_as_is`. -/
def isDataAsIs (plan : RetrievalPlan) : Bool :=
  !(plan.needsBbox || plan.needsVariable || plan.needsTemporal || plan.needsShape ||
    plan.needsDimension || plan.needsReproject)

/-- `_s3_connected`. -/
def s3Connected (direct : S3DirectAccess) (env : RoutingEnvironment) : Bool :=
  let want := env.lower (strip direct.region.toList)
  let current := if env.awsRegion = "" then env.awsDefaultRegion else env.awsRegion
  env.s3DirectEnabled && want ≠ [] && want = env.lower (strip current.toList)

namespace Router

/-- A path that is taken before Harmony is asked: AppEEARS for what it can handle, the archive's own
storage for data as it is. -/
def Shortcut (r : Router) (directS3 : Option S3DirectAccess) (plan : RetrievalPlan) : Prop :=
  r.appeears.any (· plan) ∨ (directS3.filter fun direct =>
    isDataAsIs plan && s3Connected direct r.environment).isSome

/-- `route`. -/
def route (r : Router) (caps : CollectionCapabilities) (plan : RetrievalPlan) :
    Except NotRetrievable Decision :=
  if r.appeears.any (· plan) then
    .ok {
      path := .appeears
      provider := some .appeears
      trace := [("path", .str "appeears"), ("reason", .str "point_sample_intent"),
        ("needs_point_sample", .bool plan.needsPointSample)] }
  else
    match caps.directS3.filter fun direct => isDataAsIs plan && s3Connected direct r.environment with
    | some direct =>
        .ok {
          path := .direct
          trace := [("path", .str "direct"), ("reason", .str "data_as_is_in_region_s3"),
            ("region", .str direct.region),
            ("s3_direct_enabled", .bool r.environment.s3DirectEnabled)] }
    | none =>
        let svc := findService plan caps.services
        if r.harmony then
          .ok {
            path := .harmony
            service := svc
            provider := some .harmony
            trace := serviceTrace caps plan svc ++ [("path", .str "harmony")] }
        else if svc.isSome then
          -- the provider is Harmony's slot, which is empty here
          .ok {
            path := .harmony
            service := svc
            trace := serviceTrace caps plan svc ++ [("path", .str "harmony")] }
        else if r.opendap.any (· plan) then
          .ok {
            path := .opendap
            provider := some .opendap
            trace := [("path", .str "opendap"), ("reason", .str "harmony_not_wired"),
              ("harmony_unmatched", .obj (serviceTrace caps plan none))] }
        else
          .error {
            reason := "no single service satisfies this request and no retrieval path " ++
              "is available; relax the request to match one service's capabilities"
            available := caps.services }

end Router

/-! ### What a trace tells -/

/-- The need that is told is one that the service fails. -/
theorem firstUnmetNeed_eq_some {s : ServiceCapability} {plan : RetrievalPlan} {need : Need}
    (h : firstUnmetNeed s plan = some need) : plan.asks need ∧ ¬ s.offers plan need := by
  unfold firstUnmetNeed at h
  split_ifs at h with hbbox hvariable htemporal hshape hdimension hreproject hformat
  all_goals obtain rfl := Option.some.inj h
  · exact Classical.not_imp.1 (lacks_iff.1 hbbox)
  · exact Classical.not_imp.1 (lacks_iff.1 hvariable)
  · exact Classical.not_imp.1 (lacks_iff.1 htemporal)
  · exact Classical.not_imp.1 (lacks_iff.1 hshape)
  · exact Classical.not_imp.1 (lacks_iff.1 hdimension)
  · exact Classical.not_imp.1 (lacks_iff.1 hreproject)
  · refine ⟨rfl, fun hoffers : s.outputFormats.any _ = true => ?_⟩
    rw [hoffers] at hformat
    cases hformat

/-- A need is told of every service that does not meet them all. -/
theorem meets_of_firstUnmetNeed {s : ServiceCapability} {plan : RetrievalPlan}
    (h : firstUnmetNeed s plan = none) : s.Meets plan := by
  unfold firstUnmetNeed at h
  split_ifs at h with hbbox hvariable htemporal hshape hdimension hreproject hformat
  refine ServiceCapability.meets_iff.2 ⟨meets_of_not_lacks hbbox, meets_of_not_lacks hvariable,
    meets_of_not_lacks htemporal, meets_of_not_lacks hshape, meets_of_not_lacks hdimension,
    meets_of_not_lacks hreproject, ?_⟩
  simpa using hformat

/-- The note of a trace tells a need of the plan that the service of this block fails. -/
def NamesUnmetNeed (plan : RetrievalPlan) (note svc : Json) : Prop :=
  ∃ serviceName need, svc.getOr "name" (.str "") = .ok serviceName ∧
    note = .obj [("service_name", serviceName), ("first_unmet_need", .str need.name)] ∧
    plan.asks need ∧ ¬ Declares svc plan need

/-- The trace tells of every service that the document lists which need it fails. -/
def Explains (doc : List (String × Json)) (plan : RetrievalPlan) (trace : Trace) : Prop :=
  ∃ notes svcs, trace.lookup "services" = some (.arr notes) ∧ listedServices doc = .ok svcs ∧
    List.Forall₂ (NamesUnmetNeed plan) notes svcs

theorem namesUnmetNeed_serviceNote {svc : Json} {s : ServiceCapability} {plan : RetrievalPlan}
    (h : parseService svc = .ok s) (hmeets : ¬ s.Meets plan) :
    NamesUnmetNeed plan (serviceNote plan s) svc := by
  cases hneed : firstUnmetNeed s plan with
  | none => exact absurd (meets_of_firstUnmetNeed hneed) hmeets
  | some need =>
    obtain ⟨hasks, hfails⟩ := firstUnmetNeed_eq_some hneed
    refine ⟨s.serviceName, need, serviceName_of_parse h, ?_, hasks, ?_⟩
    · unfold serviceNote
      rw [hneed]
      rfl
    · rwa [← offers_iff_declares h]

/-- If no service is found, the trace explains it, whatever is added to it. -/
theorem explains_serviceTrace {doc : List (String × Json)} {caps : CollectionCapabilities}
    {plan : RetrievalPlan} (hparse : parseServiceCapabilities doc = .ok caps.services)
    (hfind : findService plan caps.services = none) (rest : Trace) :
    Explains doc plan (serviceTrace caps plan none ++ rest) := by
  obtain ⟨svcs, hlisted, hall⟩ := forall₂_of_parse hparse
  refine ⟨caps.services.map (serviceNote plan), svcs, rfl, hlisted, ?_⟩
  rw [findService_eq, List.find?_eq_none] at hfind
  have hnone : ∀ s ∈ caps.services, ¬ s.Meets plan := by simpa using hfind
  rw [List.forall₂_map_left_iff]
  exact ((List.forall₂_and_left _ _).2 ⟨hnone, hall.flip⟩).imp fun s svc h =>
    namesUnmetNeed_serviceNote h.2 h.1

/-! ### The decision -/

section route

variable {r : Router} {doc : List (String × Json)} {caps : CollectionCapabilities}
  {plan : RetrievalPlan} {decision : Router.Decision}

/-- What a decision says: a plan goes to Harmony if no shortcut takes it, and Harmony is wired or a
service is found; there it pins the service that is found, or explains why there is none. On any
other path it pins none, and the one to OPeNDAP explains that too. -/
theorem route_eq_ok (hparse : parseServiceCapabilities doc = .ok caps.services)
    (h : r.route caps plan = .ok decision) :
    (¬ r.Shortcut caps.directS3 plan ∧ (r.harmony ∨ (findService plan caps.services).isSome)) ∧
        decision.path = .harmony ∧ decision.service = findService plan caps.services ∧
        (decision.service = none → Explains doc plan decision.trace) ∨
      (r.Shortcut caps.directS3 plan ∨ ¬ (r.harmony ∨ (findService plan caps.services).isSome)) ∧
        decision.path ≠ .harmony ∧ decision.service = none ∧
        (decision.path = .opendap → ∃ trace,
          decision.trace.lookup "harmony_unmatched" = some (.obj trace) ∧
            Explains doc plan trace) := by
  unfold Router.route at h
  -- the two shortcuts: AppEEARS, and data as they are in the region
  split at h
  · rename_i hpoint
    obtain rfl := Except.ok.inj h
    exact Or.inr ⟨Or.inl (Or.inl hpoint), Provider.noConfusion, rfl, fun hpath => by cases hpath⟩
  rename_i hpoint
  split at h
  · rename_i direct hdirect
    obtain rfl := Except.ok.inj h
    refine Or.inr ⟨Or.inl (Or.inr ?_), Provider.noConfusion, rfl, fun hpath => by cases hpath⟩
    rw [hdirect]
    rfl
  rename_i hdirect
  have hno : ¬ r.Shortcut caps.directS3 plan := by
    rintro (hpoint' | hdirect')
    · exact hpoint hpoint'
    · rw [hdirect] at hdirect'
      cases hdirect'
  -- Harmony, wired or for the sake of a service; else OPeNDAP
  dsimp only at h
  split_ifs at h with hharmony hfound hopendap
  · obtain rfl := Except.ok.inj h
    refine Or.inl ⟨⟨hno, Or.inl hharmony⟩, rfl, rfl,
      fun hnone : findService plan caps.services = none => ?_⟩
    show Explains doc plan (serviceTrace caps plan (findService plan caps.services) ++ _)
    rw [hnone]
    exact explains_serviceTrace hparse hnone _
  · obtain rfl := Except.ok.inj h
    refine Or.inl ⟨⟨hno, Or.inr hfound⟩, rfl, rfl,
      fun hnone : findService plan caps.services = none => ?_⟩
    rw [hnone] at hfound
    cases hfound
  · obtain rfl := Except.ok.inj h
    refine Or.inr ⟨Or.inr ?_, Provider.noConfusion, rfl,
      fun _ => ⟨serviceTrace caps plan none, rfl, ?_⟩⟩
    · rintro (hwired | hsome)
      · exact hharmony hwired
      · exact hfound hsome
    · rw [Option.not_isSome_iff_eq_none] at hfound
      rw [← List.append_nil (serviceTrace caps plan none)]
      exact explains_serviceTrace hparse hfound []

end route

end EarthdataMcp
