import EarthdataMcp.Providers.Router

/-!
# The pinned service

The service is chosen twice: by the router when a retrieval is planned, and by Harmony's provider
when it is submitted, which may know the name of the first choice. From one document they choose
the same, and what they choose rests on the blocks of the services alone.

* `HarmonyProvider.submit`, the request that is handed to Harmony's client;
* `planned` and `resubmitted`, the two choices as functions of the document;
* `PinsOneService`, what holds of them, and `pinsOneService_of_planned`.
-/

namespace EarthdataMcp

open Text

/-! ### Submitting to Harmony -/

/-- `HarmonyProvider`, with the name of the service that was matched before, or `null`. -/
structure HarmonyProvider where
  caps : CollectionCapabilities
  serviceNameHint : Json := .null

/-- A request to Harmony; what is not requested is missing or empty. -/
structure HarmonyRequest where
  collection : Json
  format : String
  serviceId : Option Json
  spatial : Option Bbox
  temporal : Option TimeRange
  variableNames : List VarName
  crs : Option String
  concatenate : Bool

/-- The exceptions that building a request can end in. -/
inductive RequestError
  | typeError
  | overflowError
  deriving DecidableEq, Repr

/-- The range as Harmony accepts it, not of zero width. A naive instant cannot be compared with an
aware one. -/
def harmonyTemporal (range : TimeRange) : Except RequestError TimeRange :=
  if range.start.utcoffset.isSome ≠ range.stop.utcoffset.isSome then .error .typeError
  else if range.stop.instant ≤ range.start.instant then
    match range.start.add secondLength with
    | some stop => .ok { range with stop := stop }
    | none => .error .overflowError
  else .ok range

namespace HarmonyProvider

variable (p : HarmonyProvider) (plan : RetrievalPlan)

/-- The service that `submit` pins: the one that matches, or the stored one if there are no
services to match. -/
def pinnedService : Option ServiceCapability :=
  match findService plan p.caps.services with
  | some svc => some svc
  | none =>
      if p.serviceNameHint.truthy && p.caps.services.isEmpty then
        some { serviceName := p.serviceNameHint }
      else none

/-- `_build_request`. -/
def buildRequest (svc : Option ServiceCapability) : Except RequestError HarmonyRequest := do
  let temporal ← plan.timeRange.mapM harmonyTemporal
  return {
    collection := (Json.ofText plan.conceptId).orElse p.caps.conceptId
    format := plan.outputFormat
    serviceId := svc.map ServiceCapability.serviceName
    spatial := plan.bbox
    temporal := temporal
    variableNames := plan.variableNames
    crs := (plan.transform.bind TransformSpec.reproject).filter (· ≠ "")
    concatenate := svc.any ServiceCapability.concatenate }

/-- `submit`, up to the call of Harmony's client. -/
def submit : Except RequestError HarmonyRequest := p.buildRequest plan (p.pinnedService plan)

end HarmonyProvider

/-- `build`, where it builds the provider for Harmony. -/
def buildHarmony (provider : Provider) (serviceName : Json) (caps : CollectionCapabilities) :
    Option HarmonyProvider :=
  if provider = .harmony then some { caps := caps, serviceNameHint := serviceName } else none

/-! ### The two choices -/

/-- What a decision stores of the service it pins. -/
def Router.Decision.serviceName (d : Router.Decision) : Json :=
  (d.service.map ServiceCapability.serviceName).getD .null

/-- Planning fails: the document cannot be read, or no path can satisfy the plan. -/
inductive PlanError
  | unreadable (e : ReadError)
  | notRetrievable (e : NotRetrievable)

/-- The decision on a plan, from a document. -/
def planned (r : Router) (directS3 : Option S3DirectAccess) (doc : List (String × Json))
    (plan : RetrievalPlan) : Except PlanError Router.Decision :=
  match fromHarmonyCapabilities doc directS3 with
  | .error e => .error (.unreadable e)
  | .ok caps => (r.route caps plan).mapError .notRetrievable

/-- The service that a submit pins, from a document. -/
def resubmitted (directS3 : Option S3DirectAccess) (serviceNameHint : Json)
    (doc : List (String × Json)) (plan : RetrievalPlan) :
    Except ReadError (Option ServiceCapability) := do
  let caps ← fromHarmonyCapabilities doc directS3
  return HarmonyProvider.pinnedService { caps := caps, serviceNameHint := serviceNameHint } plan

/-- A submit to Harmony with this provider pins the service of the decision, whatever comes of it;
it comes to a request if the window of the plan, where there is one, is not refused. -/
structure SubmitsAs (plan : RetrievalPlan) (decision : Router.Decision) (p : HarmonyProvider) :
    Prop where
  pinned : p.pinnedService plan = decision.service
  submit : p.submit plan = p.buildRequest plan decision.service
  serviceId : ∀ request, p.submit plan = .ok request →
    request.serviceId = decision.service.map ServiceCapability.serviceName
  answers : (∀ range ∈ plan.timeRange, ∃ range', harmonyTemporal range = .ok range') →
    ∃ request, p.submit plan = .ok request

/-- The provider that was built for the decision, from the same document, with or without the
stored name, pins the service of the decision. -/
def AgreesLater (doc : List (String × Json)) (plan : RetrievalPlan) (decision : Router.Decision) :
    Prop :=
  ∀ directS3 caps serviceName, fromHarmonyCapabilities doc directS3 = .ok caps →
    serviceName = .null ∨ serviceName = decision.serviceName →
    ∃ p, buildHarmony decision.path serviceName caps = some p ∧ SubmitsAs plan decision p

/-- What holds of a decision that was made on a plan from a document. -/
structure PinsOneService (r : Router) (directS3 : Option S3DirectAccess)
    (doc : List (String × Json)) (plan : RetrievalPlan) (decision : Router.Decision) :
    Prop where
  path : decision.path = .harmony ↔
    ¬ r.Shortcut directS3 plan ∧ (r.harmony ∨ ∃ s, FirstToMeet doc plan s)
  pinned : decision.path = .harmony → ∀ s, decision.service = some s ↔ FirstToMeet doc plan s
  agrees : decision.path = .harmony → AgreesLater doc plan decision
  explained : decision.path = .harmony → decision.service = none →
    Explains doc plan decision.trace
  elsewhere : decision.path ≠ .harmony → decision.service = none ∧
    ∀ serviceName caps, buildHarmony decision.path serviceName caps = none
  explainedUnwired : decision.path = .opendap → ∃ trace,
    decision.trace.lookup "harmony_unmatched" = some (.obj trace) ∧ Explains doc plan trace

/-- The documents list the same services; the booleans beside them may differ. -/
def SameServices (doc doc' : List (String × Json)) : Prop :=
  doc'.lookup "services" = doc.lookup "services"

/-- What is decided, and what is pinned later, does not depend on what the document says beside
its list of services. -/
def Blind (r : Router) (plan : RetrievalPlan) (doc doc' : List (String × Json)) : Prop :=
  ∀ directS3, planned r directS3 doc' plan = planned r directS3 doc plan ∧
    ∀ serviceNameHint, resubmitted directS3 serviceNameHint doc' plan =
      resubmitted directS3 serviceNameHint doc plan

/-! ### They agree -/

section agree

variable {doc doc' : List (String × Json)} {directS3 directS3' : Option S3DirectAccess}
  {caps caps' : CollectionCapabilities} {plan : RetrievalPlan} {decision : Router.Decision}
  {r : Router}

theorem services_of_read (h : fromHarmonyCapabilities doc directS3 = .ok caps) :
    parseServiceCapabilities doc = .ok caps.services := by
  obtain ⟨services, hparse, h⟩ := Lists.bind_eq_ok.1 h
  obtain rfl := Except.ok.inj h
  exact hparse

theorem directS3_of_read (h : fromHarmonyCapabilities doc directS3 = .ok caps) :
    caps.directS3 = directS3 := by
  obtain ⟨services, -, h⟩ := Lists.bind_eq_ok.1 h
  obtain rfl := Except.ok.inj h
  rfl

theorem route_of_planned (h : planned r directS3 doc plan = .ok decision) :
    ∃ caps, fromHarmonyCapabilities doc directS3 = .ok caps ∧ r.route caps plan = .ok decision := by
  unfold planned at h
  split at h
  · cases h
  · rename_i caps hread
    refine ⟨caps, hread, ?_⟩
    cases hroute : r.route caps plan with
    | error e =>
      rw [hroute] at h
      cases h
    | ok d =>
      rw [hroute] at h
      exact congrArg _ (Except.ok.inj h)

/-- Without a stored name, the service that matches is pinned, or none is. -/
theorem pinnedService_null (caps : CollectionCapabilities) (plan : RetrievalPlan) :
    HarmonyProvider.pinnedService { caps := caps } plan = findService plan caps.services := by
  unfold HarmonyProvider.pinnedService
  cases findService plan caps.services <;> rfl

/-- A name stored at planning makes no difference to a submit that reads the same services. -/
theorem pinnedService_eq {serviceName : Json}
    (hname : serviceName = .null ∨ serviceName =
      ((findService plan caps.services).map ServiceCapability.serviceName).getD .null) :
    HarmonyProvider.pinnedService { caps := caps, serviceNameHint := serviceName } plan =
      findService plan caps.services := by
  cases hfind : findService plan caps.services with
  | none =>
    have hnull : serviceName = .null := by
      rw [hfind] at hname
      exact hname.elim id id
    rw [hnull, pinnedService_null, hfind]
  | some svc =>
    unfold HarmonyProvider.pinnedService
    rw [hfind]

theorem serviceId_of_submit {p : HarmonyProvider} {request : HarmonyRequest}
    (h : p.submit plan = .ok request) :
    request.serviceId = (p.pinnedService plan).map ServiceCapability.serviceName := by
  unfold HarmonyProvider.submit HarmonyProvider.buildRequest at h
  obtain ⟨temporal, -, h⟩ := Lists.bind_eq_ok.1 h
  obtain rfl := Except.ok.inj h
  rfl

/-- Only the window of a plan can keep a submit from a request. -/
theorem submit_answers {p : HarmonyProvider}
    (h : ∀ range ∈ plan.timeRange, ∃ range', harmonyTemporal range = .ok range') :
    ∃ request, p.submit plan = .ok request := by
  unfold HarmonyProvider.submit HarmonyProvider.buildRequest
  cases hrange : plan.timeRange with
  | none => exact ⟨_, rfl⟩
  | some range =>
    obtain ⟨range', hrange'⟩ := h range hrange
    have hmap : (some range).mapM harmonyTemporal = .ok (some range') := by
      rw [Option.mapM_some, hrange']
      rfl
    rw [hmap]
    exact ⟨_, rfl⟩

theorem agreesLater_of_route (hparse : parseServiceCapabilities doc = .ok caps.services)
    (hpath : decision.path = .harmony)
    (hservice : decision.service = findService plan caps.services) :
    AgreesLater doc plan decision := by
  intro directS3 caps' serviceName hread hname
  have hservices : caps'.services = caps.services :=
    Except.ok.inj ((services_of_read hread).symm.trans hparse)
  have hpin : HarmonyProvider.pinnedService { caps := caps', serviceNameHint := serviceName } plan =
      decision.service := by
    rw [← hservices] at hservice
    unfold Router.Decision.serviceName at hname
    rw [hservice] at hname ⊢
    exact pinnedService_eq hname
  refine ⟨_, if_pos hpath, hpin, ?_, fun request hrequest => ?_, submit_answers⟩
  · unfold HarmonyProvider.submit
    rw [hpin]
  · rw [serviceId_of_submit hrequest, hpin]

theorem pinsOneService_of_route (hparse : parseServiceCapabilities doc = .ok caps.services)
    (hroute : r.route caps plan = .ok decision) :
    PinsOneService r caps.directS3 doc plan decision := by
  have hfound (s : ServiceCapability) : findService plan caps.services = some s ↔
      FirstToMeet doc plan s := findService_eq_some_iff hparse
  have hsome : (findService plan caps.services).isSome ↔ ∃ s, FirstToMeet doc plan s := by
    rw [Option.isSome_iff_exists]
    exact exists_congr hfound
  rcases route_eq_ok hparse hroute with
    ⟨htaken, hpath, hservice, hexplains⟩ | ⟨hnot, hpath, hnone, hexplains⟩
  · rw [hsome] at htaken
    refine ⟨iff_of_true hpath htaken, fun _ s => ?_,
      fun _ => agreesLater_of_route hparse hpath hservice,
      fun _ => hexplains, fun hne => absurd hpath hne, fun hopendap => ?_⟩
    · rw [hservice, hfound]
    · rw [hpath] at hopendap
      cases hopendap
  · rw [hsome] at hnot
    refine ⟨iff_of_false hpath fun h => ?_, fun h => absurd h hpath, fun h => absurd h hpath,
      fun h => absurd h hpath, fun _ => ⟨hnone, fun _ _ => if_neg hpath⟩, hexplains⟩
    exact hnot.elim h.1 fun hno => hno h.2

/-- A document is read for its services, and for the concept id that it echoes. -/
theorem fromHarmonyCapabilities_congr (h : SameServices doc doc')
    (directS3 : Option S3DirectAccess) : fromHarmonyCapabilities doc' directS3 =
      (fromHarmonyCapabilities doc directS3).map fun caps =>
        { caps with conceptId := (Json.get doc' "conceptId").orElse (.str "") } := by
  unfold fromHarmonyCapabilities
  rw [parseServiceCapabilities_congr h]
  cases parseServiceCapabilities doc <;> rfl

theorem blind_of_sameServices (r : Router) (plan : RetrievalPlan) (h : SameServices doc doc') :
    Blind r plan doc doc' := by
  intro directS3
  constructor
  · unfold planned
    rw [fromHarmonyCapabilities_congr h]
    cases fromHarmonyCapabilities doc directS3 <;> rfl
  · intro serviceNameHint
    unfold resubmitted
    rw [fromHarmonyCapabilities_congr h]
    cases fromHarmonyCapabilities doc directS3 <;> rfl

end agree

/-- A plan that routing sends to Harmony has one service pinned by routing and by submitting, the
first to meet it, or none by either; a plan that a shortcut takes has none. All of it rests on the
blocks of the services, and on nothing that a document rolls up beside them. -/
theorem pinsOneService_of_planned (r : Router) (doc : List (String × Json)) (plan : RetrievalPlan) :
    (∀ directS3 decision, planned r directS3 doc plan = .ok decision →
      PinsOneService r directS3 doc plan decision) ∧
      ∀ doc', SameServices doc doc' → Blind r plan doc doc' := by
  refine ⟨fun directS3 decision h => ?_, fun doc' h => blind_of_sameServices r plan h⟩
  obtain ⟨caps, hread, hroute⟩ := route_of_planned h
  rw [← directS3_of_read hread]
  exact pinsOneService_of_route (services_of_read hread) hroute

/-- Two services, of which one cuts out boxes and the other draws images. -/
def disjointServices : List (String × Json) :=
  [("bboxSubset", .bool true), ("outputFormats", .arr [.str "application/netcdf", .str "image/png"]),
    ("services", .arr [
      .obj [("name", .str "subsetter"), ("capabilities", .obj [
        ("subsetting", .obj [("bbox", .bool true)]),
        ("output_formats", .arr [.str "application/netcdf"])])],
      .obj [("name", .str "imagenator"), ("capabilities", .obj [
        ("output_formats", .arr [.str "image/png"])])]])]

/-- The two services together could draw an image of a box, which neither can alone: none is
pinned, then or later, and the trace tells why. -/
theorem pinsOneService_of_planned_disjoint :
    let plan : RetrievalPlan := { outputFormat := "image/png", needsBbox := true }
    ∃ decision, planned {} none disjointServices plan = .ok decision ∧ decision.service = none ∧
      decision.path = .harmony ∧ Explains disjointServices plan decision.trace ∧
      AgreesLater disjointServices plan decision := by
  intro plan
  have hpins := (pinsOneService_of_planned {} disjointServices plan).1 none _ rfl
  exact ⟨_, rfl, by rfl, rfl, hpins.explained rfl (by rfl), hpins.agrees rfl⟩

/-- A sample of points goes to AppEEARS, which pins no service and tells of none, although one of
the services meets the plan and Harmony's provider would pin it. -/
theorem not_pinsOneService : ¬ ∀ (r : Router) (directS3 : Option S3DirectAccess)
    (doc : List (String × Json)) (plan : RetrievalPlan) (decision : Router.Decision)
    (caps : CollectionCapabilities), planned r directS3 doc plan = .ok decision →
      fromHarmonyCapabilities doc directS3 = .ok caps →
        HarmonyProvider.pinnedService { caps := caps } plan = decision.service ∧
          (decision.service = none → Explains doc plan decision.trace) := by
  intro h
  let plan : RetrievalPlan := { outputFormat := "image/png", needsPointSample := true }
  let r : Router := { appeears := some RetrievalPlan.needsPointSample }
  obtain ⟨notes, svcs, hnotes, -⟩ := (h r none disjointServices plan _ _ rfl rfl).2 rfl
  cases (show (none : Option Json) = some (.arr notes) from hnotes)

end EarthdataMcp
