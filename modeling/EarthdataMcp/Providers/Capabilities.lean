import EarthdataMcp.Providers.RetrievalPlan
import EarthdataMcp.Text.Json
import EarthdataMcp.Text.Paths

/-!
# What the services of a collection can do

Harmony lists the services of a collection, each with a block of its own. What a document says
beside the list, the rolled-up booleans above all, is a union over services that have nothing to
do with each other, and is not read.

* `parseServiceCapabilities`, one `ServiceCapability` for each listed service;
* `findService`, the first service that meets every need of a plan;
* `Declares`: a block, as it stands in the document, meets a need;
* `findService_blocks`: what is found, said of the blocks of the document.
-/

namespace Text.Json

/-- `hash(v)` does not raise. -/
def hashable : Json → Bool
  | arr _ => false
  | obj _ => false
  | _ => true

/-- `frozenset(v)`, as the list of what was put into it. -/
def frozenset (v : Json) : Except ReadError (List Json) := do
  let members ← v.iter
  if members.all hashable then .ok members else .error .typeError

/-- What stands at the end of a path of keys, `null` if nothing does. -/
def atPath (v : Json) : List String → Json
  | [] => v
  | key :: path =>
      match v with
      | obj entries => ((entries.lookup key).getD null).atPath path
      | _ => null

theorem frozenset_eq_ok {v : Json} {members : List Json} (h : v.frozenset = .ok members) :
    v.iter = .ok members := by
  unfold frozenset at h
  cases hiter : v.iter with
  | error e =>
    rw [hiter] at h
    cases h
  | ok xs =>
    rw [hiter] at h
    change (if _ then Except.ok xs else _) = _ at h
    split_ifs at h
    exact congrArg _ (Except.ok.inj h)

@[simp] theorem atPath_null (path : List String) : null.atPath path = null := by
  cases path <;> rfl

/-- A path goes on from the value it has reached, or from the empty object if there is none. -/
theorem atPath_of_getOr {key : String} {v x : Json} (h : v.getOr key (.obj []) = .ok x)
    (key' : String) (path : List String) :
    v.atPath (key :: key' :: path) = x.atPath (key' :: path) := by
  obtain ⟨entries, rfl, rfl⟩ := getOr_eq_ok h
  show ((entries.lookup key).getD null).atPath _ = _
  cases entries.lookup key with
  | none =>
    rw [Option.getD_none, Option.getD_none, atPath_null]
    exact (atPath_null path).symm
  | some w => rfl

/-- A value that is not there counts as `null`, if its default is falsy. -/
theorem truthy_of_getOr {key : String} {default v x : Json} (h : v.getOr key default = .ok x)
    (hdefault : default.truthy = false) : x.truthy = (v.atPath [key]).truthy := by
  obtain ⟨entries, rfl, rfl⟩ := getOr_eq_ok h
  show _ = ((entries.lookup key).getD null).truthy
  cases entries.lookup key with
  | none => exact hdefault
  | some w => rfl

end Text.Json

namespace EarthdataMcp

open Text

/-! ### The merged view -/

/-- Direct access to the storage of the archive, in its own region; a missing region is empty. -/
structure S3DirectAccess where
  region : String
  deriving DecidableEq, Repr

/-- The capabilities of one service. -/
structure ServiceCapability where
  serviceName : Json
  conceptId : String := ""
  subsetBbox : Bool := false
  subsetVariable : Bool := false
  subsetTemporal : Bool := false
  subsetShape : Bool := false
  subsetDimension : Bool := false
  concatenate : Bool := false
  reproject : Bool := false
  outputFormats : List Json := []

/-- The capabilities of a collection, as far as routing and the providers read them. -/
structure CollectionCapabilities where
  conceptId : Json
  directS3 : Option S3DirectAccess
  services : List ServiceCapability

/-- `_concept_id_from_href`. -/
def conceptIdFromHref (href : Json) : Except ReadError String :=
  if href.truthy then
    match href with
    | .str s => .ok (String.ofList (lastSegment (s.toList.rdropWhile (· = '/'))))
    | _ => .error .attributeError
  else .ok ""

/-- The capabilities of a listed service. -/
def parseService (svc : Json) : Except ReadError ServiceCapability := do
  let caps ← svc.getOr "capabilities" (.obj [])
  let subset ← caps.getOr "subsetting" (.obj [])
  let serviceName ← svc.getOr "name" (.str "")
  let conceptId ← conceptIdFromHref (← svc.getOr "href" (.str ""))
  let bbox ← subset.getOr "bbox" (.bool false)
  let variableNames ← subset.getOr "variable" (.bool false)
  let temporal ← subset.getOr "temporal" (.bool false)
  let shape ← subset.getOr "shape" (.bool false)
  let dimension ← subset.getOr "dimension" (.bool false)
  let concatenation ← caps.getOr "concatenation" (.bool false)
  let reprojection ← caps.getOr "reprojection" (.bool false)
  let outputFormats ← (← caps.getOr "output_formats" (.arr [])).frozenset
  return {
    serviceName := serviceName
    conceptId := conceptId
    subsetBbox := bbox.truthy
    subsetVariable := variableNames.truthy
    subsetTemporal := temporal.truthy
    subsetShape := shape.truthy
    subsetDimension := dimension.truthy
    concatenate := concatenation.truthy
    reproject := reprojection.truthy
    outputFormats := outputFormats }

/-- The services that a document lists. -/
def listedServices (harmonyCaps : List (String × Json)) : Except ReadError (List Json) :=
  ((harmonyCaps.lookup "services").getD (.arr [])).iter

/-- `parse_service_capabilities`. -/
def parseServiceCapabilities (harmonyCaps : List (String × Json)) :
    Except ReadError (List ServiceCapability) := do
  (← listedServices harmonyCaps).mapM parseService

/-- `from_harmony_capabilities`; of the record of the collection, its direct access is read. -/
def fromHarmonyCapabilities (harmonyCaps : List (String × Json))
    (directS3 : Option S3DirectAccess) : Except ReadError CollectionCapabilities := do
  let services ← parseServiceCapabilities harmonyCaps
  return {
    conceptId := (Json.get harmonyCaps "conceptId").orElse (.str "")
    directS3 := directS3
    services := services }

/-- `find_service`. -/
def findService (plan : RetrievalPlan) : List ServiceCapability → Option ServiceCapability
  | [] => none
  | s :: services =>
      if plan.needsBbox && !s.subsetBbox then findService plan services
      else if plan.needsVariable && !s.subsetVariable then findService plan services
      else if plan.needsTemporal && !s.subsetTemporal then findService plan services
      else if plan.needsShape && !s.subsetShape then findService plan services
      else if plan.needsDimension && !s.subsetDimension then findService plan services
      else if plan.needsReproject && !s.reproject then findService plan services
      else if !s.outputFormats.any (Json.isText plan.outputFormat) then findService plan services
      else some s

/-! ### Needs -/

/-- What a plan can need of a service. -/
inductive Need
  | bbox
  | variableNames
  | temporal
  | shape
  | dimension
  | reproject
  | outputFormat
  deriving DecidableEq, Repr

namespace Need

/-- The name of a need, as a trace has it. -/
def name : Need → String
  | bbox => "bbox"
  | variableNames => "variable"
  | temporal => "temporal"
  | shape => "shape"
  | dimension => "dimension"
  | reproject => "reproject"
  | outputFormat => "output_format"

/-- All of them, in the order they are checked in. -/
def all : List Need := [bbox, variableNames, temporal, shape, dimension, reproject, outputFormat]

theorem mem_all (need : Need) : need ∈ all := by cases need <;> decide

end Need

/-- The plan has this need. -/
def RetrievalPlan.asks (plan : RetrievalPlan) : Need → Bool
  | .bbox => plan.needsBbox
  | .variableNames => plan.needsVariable
  | .temporal => plan.needsTemporal
  | .shape => plan.needsShape
  | .dimension => plan.needsDimension
  | .reproject => plan.needsReproject
  | .outputFormat => true

/-- The service meets this need of the plan. -/
def ServiceCapability.offers (s : ServiceCapability) (plan : RetrievalPlan) : Need → Bool
  | .bbox => s.subsetBbox
  | .variableNames => s.subsetVariable
  | .temporal => s.subsetTemporal
  | .shape => s.subsetShape
  | .dimension => s.subsetDimension
  | .reproject => s.reproject
  | .outputFormat => s.outputFormats.any (Json.isText plan.outputFormat)

/-- The service meets every need of the plan. -/
def ServiceCapability.Meets (s : ServiceCapability) (plan : RetrievalPlan) : Prop :=
  ∀ need, plan.asks need → s.offers plan need

instance (s : ServiceCapability) (plan : RetrievalPlan) : Decidable (s.Meets plan) :=
  decidable_of_iff (∀ need ∈ Need.all, plan.asks need → s.offers plan need)
    ⟨fun h need => h need need.mem_all, fun h need _ => h need⟩

theorem ServiceCapability.meets_iff {s : ServiceCapability} {plan : RetrievalPlan} :
    s.Meets plan ↔ (plan.needsBbox → s.subsetBbox) ∧ (plan.needsVariable → s.subsetVariable) ∧
      (plan.needsTemporal → s.subsetTemporal) ∧ (plan.needsShape → s.subsetShape) ∧
      (plan.needsDimension → s.subsetDimension) ∧ (plan.needsReproject → s.reproject) ∧
      s.outputFormats.any (Json.isText plan.outputFormat) := by
  constructor
  · intro h
    exact ⟨h .bbox, h .variableNames, h .temporal, h .shape, h .dimension, h .reproject,
      h .outputFormat rfl⟩
  · rintro ⟨hbbox, hvariable, htemporal, hshape, hdimension, hreproject, hformat⟩ need
    cases need
    · exact hbbox
    · exact hvariable
    · exact htemporal
    · exact hshape
    · exact hdimension
    · exact hreproject
    · exact fun _ => hformat

/-- The check of a need that the loops make. -/
theorem lacks_iff {need offer : Bool} : (need && !offer) = true ↔ ¬ (need → offer) := by
  cases need <;> cases offer <;> decide

theorem meets_of_not_lacks {need offer : Bool} (h : ¬ (need && !offer) = true) : need → offer :=
  not_not.1 fun hlacks => h (lacks_iff.2 hlacks)

theorem findService_cons (plan : RetrievalPlan) (s : ServiceCapability)
    (services : List ServiceCapability) : findService plan (s :: services) =
      if s.Meets plan then some s else findService plan services := by
  rw [findService]
  by_cases hmeets : s.Meets plan
  · obtain ⟨hbbox, hvariable, htemporal, hshape, hdimension, hreproject, hformat⟩ :=
      ServiceCapability.meets_iff.1 hmeets
    rw [if_pos hmeets, if_neg fun h => lacks_iff.1 h hbbox, if_neg fun h => lacks_iff.1 h hvariable,
      if_neg fun h => lacks_iff.1 h htemporal, if_neg fun h => lacks_iff.1 h hshape,
      if_neg fun h => lacks_iff.1 h hdimension, if_neg fun h => lacks_iff.1 h hreproject, if_neg]
    rw [hformat]
    exact Bool.false_ne_true
  · rw [if_neg hmeets]
    split_ifs with hbbox hvariable htemporal hshape hdimension hreproject hformat
    iterate 7 rfl
    refine absurd (ServiceCapability.meets_iff.2 ⟨meets_of_not_lacks hbbox,
      meets_of_not_lacks hvariable, meets_of_not_lacks htemporal, meets_of_not_lacks hshape,
      meets_of_not_lacks hdimension, meets_of_not_lacks hreproject, ?_⟩) hmeets
    simpa using hformat

/-- The loop finds the first service that meets every need. -/
theorem findService_eq (plan : RetrievalPlan) (services : List ServiceCapability) :
    findService plan services = services.find? fun s => s.Meets plan := by
  induction services with
  | nil => rfl
  | cons s services ih =>
    rw [findService_cons, List.find?_cons, ih]
    by_cases hmeets : s.Meets plan <;> simp [hmeets]

/-! ### Blocks -/

/-- The block of a service, as it stands in the document, meets this need of the plan. -/
def Declares (svc : Json) (plan : RetrievalPlan) : Need → Prop
  | .bbox => (svc.atPath ["capabilities", "subsetting", "bbox"]).truthy
  | .variableNames => (svc.atPath ["capabilities", "subsetting", "variable"]).truthy
  | .temporal => (svc.atPath ["capabilities", "subsetting", "temporal"]).truthy
  | .shape => (svc.atPath ["capabilities", "subsetting", "shape"]).truthy
  | .dimension => (svc.atPath ["capabilities", "subsetting", "dimension"]).truthy
  | .reproject => (svc.atPath ["capabilities", "reprojection"]).truthy
  | .outputFormat => ∃ formats, (svc.atPath ["capabilities", "output_formats"]).iter = .ok formats ∧
      formats.any (Json.isText plan.outputFormat)

/-- What is read of a service is what its own block declares. -/
theorem offers_iff_declares {svc : Json} {s : ServiceCapability} (h : parseService svc = .ok s)
    (plan : RetrievalPlan) (need : Need) : s.offers plan need ↔ Declares svc plan need := by
  obtain ⟨caps, hcaps, h⟩ := Lists.bind_eq_ok.1 h
  obtain ⟨subset, hsubset, h⟩ := Lists.bind_eq_ok.1 h
  obtain ⟨serviceName, -, h⟩ := Lists.bind_eq_ok.1 h
  obtain ⟨href, -, h⟩ := Lists.bind_eq_ok.1 h
  obtain ⟨conceptId, -, h⟩ := Lists.bind_eq_ok.1 h
  obtain ⟨bbox, hbbox, h⟩ := Lists.bind_eq_ok.1 h
  obtain ⟨variableNames, hvariable, h⟩ := Lists.bind_eq_ok.1 h
  obtain ⟨temporal, htemporal, h⟩ := Lists.bind_eq_ok.1 h
  obtain ⟨shape, hshape, h⟩ := Lists.bind_eq_ok.1 h
  obtain ⟨dimension, hdimension, h⟩ := Lists.bind_eq_ok.1 h
  obtain ⟨concatenation, -, h⟩ := Lists.bind_eq_ok.1 h
  obtain ⟨reprojection, hreprojection, h⟩ := Lists.bind_eq_ok.1 h
  obtain ⟨formats, hformats, h⟩ := Lists.bind_eq_ok.1 h
  obtain ⟨outputFormats, houtput, h⟩ := Lists.bind_eq_ok.1 h
  obtain rfl := (Except.ok.inj h).symm
  -- a missing block reads as an empty one, at every level
  have hpath (key : String) :
      svc.atPath ["capabilities", "subsetting", key] = subset.atPath [key] := by
    rw [Json.atPath_of_getOr hcaps, Json.atPath_of_getOr hsubset]
  have hsubset {key : String} {x : Json} (hx : subset.getOr key (.bool false) = .ok x) :
      x.truthy = (svc.atPath ["capabilities", "subsetting", key]).truthy := by
    rw [hpath, Json.truthy_of_getOr hx rfl]
  cases need with
  | bbox => exact Eq.congr_left (hsubset hbbox)
  | variableNames => exact Eq.congr_left (hsubset hvariable)
  | temporal => exact Eq.congr_left (hsubset htemporal)
  | shape => exact Eq.congr_left (hsubset hshape)
  | dimension => exact Eq.congr_left (hsubset hdimension)
  | reproject =>
    show reprojection.truthy = true ↔ _
    rw [Json.truthy_of_getOr hreprojection rfl, ← Json.atPath_of_getOr hcaps]
    exact Iff.rfl
  | outputFormat =>
    have hiter := Json.frozenset_eq_ok houtput
    show outputFormats.any _ = true ↔ ∃ members, _ ∧ _
    rw [Json.atPath_of_getOr hcaps]
    obtain ⟨entries, rfl, rfl⟩ := Json.getOr_eq_ok hformats
    show _ ↔ ∃ members, ((entries.lookup "output_formats").getD .null).iter = .ok members ∧ _
    cases hlookup : entries.lookup "output_formats" with
    | none =>
      rw [hlookup] at hiter
      obtain rfl := Except.ok.inj hiter
      constructor
      · intro hany
        cases hany
      · rintro ⟨members, hmembers, -⟩
        cases hmembers
    | some w =>
      rw [hlookup] at hiter
      rw [Option.getD_some] at hiter ⊢
      constructor
      · exact fun hany => ⟨outputFormats, hiter, hany⟩
      · rintro ⟨members, hmembers, hany⟩
        rw [hiter] at hmembers
        obtain rfl := Except.ok.inj hmembers
        exact hany

theorem serviceName_of_parse {svc : Json} {s : ServiceCapability} (h : parseService svc = .ok s) :
    svc.getOr "name" (.str "") = .ok s.serviceName := by
  obtain ⟨caps, -, h⟩ := Lists.bind_eq_ok.1 h
  obtain ⟨subset, -, h⟩ := Lists.bind_eq_ok.1 h
  obtain ⟨serviceName, hname, h⟩ := Lists.bind_eq_ok.1 h
  iterate 11 obtain ⟨_, -, h⟩ := Lists.bind_eq_ok.1 h
  obtain rfl := (Except.ok.inj h).symm
  exact hname

/-- The service of this block fails a need of the plan. -/
def Fails (plan : RetrievalPlan) (svc : Json) : Prop :=
  ∃ need, plan.asks need ∧ ¬ Declares svc plan need

theorem meets_iff_declares {svc : Json} {s : ServiceCapability} (h : parseService svc = .ok s)
    (plan : RetrievalPlan) : s.Meets plan ↔ ∀ need, plan.asks need → Declares svc plan need :=
  forall_congr' fun need => imp_congr_right fun _ => offers_iff_declares h plan need

/-- The service that is found meets every need by its own block, and is the first one to. -/
theorem findService_blocks {plan : RetrievalPlan} {svcs : List Json}
    {services : List ServiceCapability} {s : ServiceCapability}
    (h : List.Forall₂ (fun svc s => parseService svc = .ok s) svcs services)
    (hfind : findService plan services = some s) :
    ∃ before svc after, svcs = before ++ svc :: after ∧ parseService svc = .ok s ∧
      (∀ need, plan.asks need → Declares svc plan need) ∧ ∀ svc' ∈ before, Fails plan svc' := by
  induction h with
  | nil => cases hfind
  | @cons svc t svcs services hparse _ ih =>
    rw [findService_cons] at hfind
    by_cases hmeets : t.Meets plan
    · rw [if_pos hmeets] at hfind
      obtain rfl := Option.some.inj hfind
      exact ⟨[], svc, svcs, rfl, hparse, (meets_iff_declares hparse plan).1 hmeets,
        fun _ h => absurd h List.not_mem_nil⟩
    · rw [if_neg hmeets] at hfind
      obtain ⟨before, found, after, rfl, hfound, hdeclares, hbefore⟩ := ih hfind
      refine ⟨svc :: before, found, after, rfl, hfound, hdeclares, ?_⟩
      rw [meets_iff_declares hparse plan] at hmeets
      push Not at hmeets
      exact List.forall_mem_cons.2 ⟨hmeets, hbefore⟩

/-- The first service that meets every need by its own block is found. -/
theorem findService_of_blocks {plan : RetrievalPlan} {before after : List Json} {svc : Json}
    {services : List ServiceCapability} {s : ServiceCapability}
    (h : List.Forall₂ (fun svc s => parseService svc = .ok s) (before ++ svc :: after) services)
    (hparse : parseService svc = .ok s) (hmeets : ∀ need, plan.asks need → Declares svc plan need)
    (hbefore : ∀ svc' ∈ before, Fails plan svc') : findService plan services = some s := by
  induction before generalizing services with
  | nil =>
    cases h with
    | cons hfirst hrest =>
      obtain rfl := Except.ok.inj (hfirst.symm.trans hparse)
      rw [findService_cons, if_pos ((meets_iff_declares hparse plan).2 hmeets)]
  | cons svc' before ih =>
    cases h with
    | cons hfirst hrest =>
      obtain ⟨need, hasks, hfails⟩ := hbefore svc' List.mem_cons_self
      rw [findService_cons, if_neg fun hmeets' =>
        hfails ((meets_iff_declares hfirst plan).1 hmeets' need hasks)]
      exact ih hrest fun svc'' hmem => hbefore svc'' (List.mem_cons_of_mem _ hmem)

/-- The services that are read are those that the document lists. -/
theorem forall₂_of_parse {harmonyCaps : List (String × Json)} {services : List ServiceCapability}
    (h : parseServiceCapabilities harmonyCaps = .ok services) :
    ∃ svcs, listedServices harmonyCaps = .ok svcs ∧
      List.Forall₂ (fun svc s => parseService svc = .ok s) svcs services := by
  obtain ⟨svcs, hlisted, h⟩ := Lists.bind_eq_ok.1 h
  exact ⟨svcs, hlisted, Lists.forall₂_of_mapM h⟩

/-- The first of the services that a document lists, in order, to meet every need of the plan by its
own block. -/
def FirstToMeet (doc : List (String × Json)) (plan : RetrievalPlan) (s : ServiceCapability) :
    Prop :=
  ∃ before svc after, listedServices doc = .ok (before ++ svc :: after) ∧ parseService svc = .ok s ∧
    (∀ need, plan.asks need → Declares svc plan need) ∧ ∀ svc' ∈ before, Fails plan svc'

theorem findService_eq_some_iff {doc : List (String × Json)} {services : List ServiceCapability}
    (h : parseServiceCapabilities doc = .ok services) {plan : RetrievalPlan}
    {s : ServiceCapability} :
    findService plan services = some s ↔ FirstToMeet doc plan s := by
  obtain ⟨svcs, hlisted, hall⟩ := forall₂_of_parse h
  constructor
  · intro hfind
    obtain ⟨before, svc, after, rfl, hfound⟩ := findService_blocks hall hfind
    exact ⟨before, svc, after, hlisted, hfound⟩
  · rintro ⟨before, svc, after, hlisted', hparse, hmeets, hbefore⟩
    obtain rfl := Except.ok.inj (hlisted.symm.trans hlisted')
    exact findService_of_blocks hall hparse hmeets hbefore

/-- Reading the list of services is reading what stands under one key. -/
theorem parseServiceCapabilities_congr {doc doc' : List (String × Json)}
    (h : doc'.lookup "services" = doc.lookup "services") :
    parseServiceCapabilities doc' = parseServiceCapabilities doc := by
  unfold parseServiceCapabilities listedServices
  rw [h]

end EarthdataMcp
