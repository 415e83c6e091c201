import EarthdataMcp.Providers.Opendap.Constraint
import EarthdataMcp.Text.Fields
import EarthdataMcp.Text.Percent

/-!
# The durable coordinates of a subset

An OPeNDAP job is its constraint URLs: they are built when it is submitted, stored as one text,
and read back by the task that fetches them.

* `OpendapProvider.submit` and `OpendapProvider.materialize`;
* `Fetches`, what a job fetches, and what it records as fetched;
* `coordinatesRoundTrip`: both are what was submitted.
-/

namespace EarthdataMcp

open Text

/-! ### The provider -/

/-- A URL. -/
abbrev Url := List Char

/-- `_DAP4_SUFFIX`. -/
def dap4Suffix : Url := ".dap.nc4".toList

/-- A reference to the job of a provider. -/
structure JobRef where
  provider : String
  providerJobId : Option String := none
  providerJobUrl : Option Url := none
  jobHandle : Option String := none
  deriving DecidableEq

/-- `OPeNDAPProvider`, with the endpoints of its granules and what the builder is told. -/
structure OpendapProvider where
  outputShape : Option String
  opendapUrls : List Url
  inputs : ConstraintInputs

/-- `[u.rstrip("/") for u in (opendap_urls or []) if u]`. -/
def plannedEndpoints (opendapUrls : Option (List Url)) : List Url :=
  ((opendapUrls.getD []).filter (!·.isEmpty)).map (List.rdropWhile (· = '/'))

/-- `OPeNDAPProvider.__init__`. -/
def OpendapProvider.init (outputShape : Option String) (opendapUrls : Option (List Url))
    (inputs : ConstraintInputs) : OpendapProvider where
  outputShape := outputShape
  opendapUrls := plannedEndpoints opendapUrls
  inputs := inputs

/-- A granule as it was fetched: its size, and its name in the bundle. -/
structure FetchedGranule where
  size : ℕ
  arcname : String
  deriving DecidableEq, Repr

/-- What the provider is given from outside: the fetch of a list of URLs, in their order, which
may raise, and the size of a bundle. -/
structure GranuleServer (ε : Type) where
  fetchAll : List Url → Except ε (List FetchedGranule)
  bundleSize : List FetchedGranule → ℕ

/-- The result of a job, with what is reported beside it. -/
structure MaterializedBundle where
  storageKey : String
  mediaType : String
  sizeBytes : ℕ
  granuleCount : ℕ
  uncompressedBytes : ℕ
  granuleIds : List Url
  deriving DecidableEq

/-- How submitting or materializing a job fails. -/
inductive OpendapError (ε : Type)
  | cannotHandle
  | noConstraintUrl
  | fetch (e : ε)
  deriving DecidableEq

/-- `_granule_of`: the URL before its query, and without the suffix. -/
def granuleOf (url : Url) : Url :=
  let base := (partition '?' url).1
  if dap4Suffix <:+ base then base.take (base.length - dap4Suffix.length) else base

/-- The URLs of a job, as they are read off its reference. -/
def readUrls (joined : Url) : List Url := (joined.splitOn '\n').filter (!·.isEmpty)

namespace OpendapProvider

section lifecycle

variable {ε : Type} (fold : Lowering) (p : OpendapProvider)

/-- `can_handle`. -/
def canHandle (plan : RetrievalPlan) : Bool :=
  if plan.needsPointSample then false
  else if p.opendapUrls.isEmpty then false
  else if p.outputShape ≠ some "grid" ∧ p.outputShape ≠ some "swath" then false
  else if ¬(plan.needsVariable || plan.needsBbox || plan.needsTemporal) then false
  else "netcdf".toList <:+: fold.lower plan.outputFormat.toList

/-- What the builder is told: the axes only of a grid. -/
def constraintInputs : ConstraintInputs :=
  if p.outputShape = some "grid" then p.inputs
  else { p.inputs with latAxis := none, lonAxis := none, varDims := none }

/-- `_build_dap4_url`. -/
def buildDap4Url (plan : RetrievalPlan) (baseUrl : Url) : Url :=
  let ce := buildConstraintExpression fold plan p.constraintInputs
  let url := baseUrl ++ dap4Suffix
  if ce = [] then url else url ++ "?dap4.ce=".toList ++ quote ce

/-- The URLs that `submit` builds, one for each granule. -/
def builtUrls (plan : RetrievalPlan) : List Url :=
  p.opendapUrls.map (p.buildDap4Url fold plan)

/-- `submit`. -/
def submit (plan : RetrievalPlan) : Except (OpendapError ε) JobRef :=
  if p.canHandle fold plan then
    .ok { provider := "opendap"
          providerJobUrl := some (['\n'].intercalate (p.builtUrls fold plan)) }
  else .error .cannotHandle

end lifecycle

/-- `materialize`; it reads nothing of the provider but what fetches. -/
def materialize {ε : Type} (server : GranuleServer ε) (job : JobRef) :
    Except (OpendapError ε) MaterializedBundle :=
  let joined := job.providerJobUrl.getD []
  if joined.isEmpty then .error .noConstraintUrl
  else
    let urls := readUrls joined
    match server.fetchAll urls with
    | .error e => .error (.fetch e)
    | .ok fetched =>
        let handle := if job.jobHandle.getD "" = "" then "result" else job.jobHandle.getD ""
        .ok {
          storageKey := "opendap/" ++ handle ++ "/subset.nc.zip"
          mediaType := "application/netcdf-bundle+zip"
          sizeBytes := server.bundleSize fetched
          granuleCount := urls.length
          uncompressedBytes := (fetched.map FetchedGranule.size).sum
          granuleIds := urls.map granuleOf }

/-! ### One URL -/

section url

variable {fold : Lowering} {p : OpendapProvider} {plan : RetrievalPlan} {base : Url}

/-- A URL is its endpoint, the suffix, and a query whose text is quoted, if there is one. -/
theorem buildDap4Url_cases (fold : Lowering) (p : OpendapProvider) (plan : RetrievalPlan)
    (base : Url) : p.buildDap4Url fold plan base = base ++ dap4Suffix ∨
      ∃ ce, p.buildDap4Url fold plan base =
        base ++ dap4Suffix ++ '?' :: ("dap4.ce=".toList ++ quote ce) := by
  unfold buildDap4Url
  dsimp only
  split_ifs
  · exact Or.inl rfl
  · right
    exact ⟨_, by rw [List.append_assoc (base ++ dap4Suffix)]; rfl⟩

/-- A URL is on one line if its endpoint is. -/
theorem newline_notMem_buildDap4Url (h : '\n' ∉ base) :
    '\n' ∉ p.buildDap4Url fold plan base := by
  have hsuffix : '\n' ∉ dap4Suffix := by decide
  have hkey : '\n' ∉ "dap4.ce=".toList := by decide
  obtain heq | ⟨ce, heq⟩ := buildDap4Url_cases fold p plan base
  · rw [heq, List.mem_append, not_or]
    exact ⟨h, hsuffix⟩
  · have hquote : '\n' ∉ quote ce := notMem_quote (by decide) (by decide) ce
    rw [heq]
    simp only [List.mem_append, List.mem_cons, not_or]
    exact ⟨⟨h, hsuffix⟩, by decide, hkey, hquote⟩

theorem buildDap4Url_ne_nil : p.buildDap4Url fold plan base ≠ [] := by
  have hsuffix : base ++ dap4Suffix ≠ [] := List.append_ne_nil_of_right_ne_nil _ (by decide)
  obtain heq | ⟨ce, heq⟩ := buildDap4Url_cases fold p plan base
  · rw [heq]
    exact hsuffix
  · rw [heq]
    exact List.append_ne_nil_of_left_ne_nil hsuffix _

/-- The granule of a URL is its endpoint. -/
theorem granuleOf_buildDap4Url (h : '?' ∉ base) :
    granuleOf (p.buildDap4Url fold plan base) = base := by
  have hbase : '?' ∉ base ++ dap4Suffix := by
    rw [List.mem_append, not_or]
    exact ⟨h, by decide⟩
  have hcut : (partition '?' (p.buildDap4Url fold plan base)).1 = base ++ dap4Suffix := by
    obtain heq | ⟨ce, heq⟩ := buildDap4Url_cases fold p plan base
    · rw [heq, partition_of_notMem hbase]
    · rw [heq, partition_cut _ hbase]
  unfold granuleOf
  rw [hcut]
  simp

end url

/-! ### All URLs -/

section urls

variable {fold : Lowering} {p : OpendapProvider} {plan : RetrievalPlan}

/-- What is joined is read back. -/
theorem readUrls_join {urls : List Url} (hnil : urls ≠ []) (hempty : ∀ url ∈ urls, url ≠ [])
    (h : ∀ url ∈ urls, '\n' ∉ url) : readUrls (['\n'].intercalate urls) = urls := by
  unfold readUrls
  rw [List.splitOn_intercalate '\n' h hnil]
  apply List.filter_eq_self.2
  intro url hurl
  simpa using hempty url hurl

/-- The endpoints are among the URLs that were given, with less at the end. -/
theorem prefix_of_mem_plannedEndpoints {urls : Option (List Url)} {endpoint : Url}
    (h : endpoint ∈ plannedEndpoints urls) : ∃ u ∈ urls.getD [], endpoint <+: u := by
  obtain ⟨u, hu, rfl⟩ := List.mem_map.1 h
  exact ⟨u, List.mem_of_mem_filter hu, List.rdropWhile_prefix _ u⟩

theorem opendapUrls_ne_nil (h : p.canHandle fold plan = true) : p.opendapUrls ≠ [] := by
  unfold canHandle at h
  split_ifs at h with _ hempty
  intro hnil
  exact hempty (by rw [hnil]; rfl)

/-- A provider submits exactly the plans that it can handle. -/
theorem submit_eq_ok_iff {ε : Type} {job : JobRef} :
    p.submit (ε := ε) fold plan = .ok job ↔ p.canHandle fold plan = true ∧
      job = { provider := "opendap"
              providerJobUrl := some (['\n'].intercalate (p.builtUrls fold plan)) } := by
  unfold submit
  split_ifs with h
  · simp [h, eq_comm]
  · simp [h]

end urls

end OpendapProvider

/-! ### Every job -/

/-- A job fetches these URLs, and records these granules; it fails if the fetch does. -/
structure Fetches {ε : Type} (server : GranuleServer ε) (job : JobRef) (urls granules : List Url) :
    Prop where
  failed : ∀ e, server.fetchAll urls = .error e →
    OpendapProvider.materialize server job = .error (.fetch e)
  fetched : ∀ granuleFiles, server.fetchAll urls = .ok granuleFiles → ∃ bundle,
    OpendapProvider.materialize server job = .ok bundle ∧ bundle.granuleIds = granules ∧
      bundle.granuleCount = granules.length

/-- What is read off a reference is what is fetched. -/
theorem fetches_of_readUrls {ε : Type} (server : GranuleServer ε) {job : JobRef}
    {joined : Url} {urls : List Url} (hjob : job.providerJobUrl = some joined) (hne : joined ≠ [])
    (hread : readUrls joined = urls) : Fetches server job urls (urls.map granuleOf) := by
  have hempty : joined.isEmpty = false := by simpa using hne
  constructor
  · intro e he
    simp [OpendapProvider.materialize, hjob, hempty, hread, he]
  · intro granuleFiles hfiles
    simp [OpendapProvider.materialize, hjob, hempty, hread, hfiles]

/-- **The durable coordinates are read back as they were built.** -/
theorem coordinatesRoundTrip {ε : Type} (fold : Lowering) (shape : Option String)
    (urls : Option (List Url)) (inputs : ConstraintInputs) (plan : RetrievalPlan) (job : JobRef)
    (hurls : ∀ u ∈ urls.getD [], '\n' ∉ u ∧ '?' ∉ u)
    (hsubmit : (OpendapProvider.init shape urls inputs).submit (ε := ε) fold plan = .ok job) :
    let p := OpendapProvider.init shape urls inputs
    (∃ joined, job.providerJobUrl = some joined ∧ readUrls joined = p.builtUrls fold plan) ∧
      (p.builtUrls fold plan).length = (plannedEndpoints urls).length ∧
      ∀ (server : GranuleServer ε) (job' : JobRef), job'.providerJobUrl = job.providerJobUrl →
        Fetches server job' (p.builtUrls fold plan) (plannedEndpoints urls) := by
  intro p
  obtain ⟨hhandle, rfl⟩ := OpendapProvider.submit_eq_ok_iff.1 hsubmit
  have hplain : ∀ endpoint ∈ plannedEndpoints urls, '\n' ∉ endpoint ∧ '?' ∉ endpoint := by
    intro endpoint hendpoint
    obtain ⟨u, hu, hcut⟩ := OpendapProvider.prefix_of_mem_plannedEndpoints hendpoint
    exact ⟨fun h => (hurls u hu).1 (hcut.subset h), fun h => (hurls u hu).2 (hcut.subset h)⟩
  have hbuilt : p.builtUrls fold plan ≠ [] := by
    simpa [OpendapProvider.builtUrls] using OpendapProvider.opendapUrls_ne_nil hhandle
  have hlines : ∀ url ∈ p.builtUrls fold plan, url ≠ [] ∧ '\n' ∉ url := by
    intro url hurl
    obtain ⟨endpoint, hendpoint, rfl⟩ := List.mem_map.1 hurl
    exact ⟨OpendapProvider.buildDap4Url_ne_nil,
      OpendapProvider.newline_notMem_buildDap4Url (hplain endpoint hendpoint).1⟩
  have hread : readUrls (['\n'].intercalate (p.builtUrls fold plan)) = p.builtUrls fold plan :=
    OpendapProvider.readUrls_join hbuilt (fun url h => (hlines url h).1) fun url h => (hlines url h).2
  have hgranules : (p.builtUrls fold plan).map granuleOf = plannedEndpoints urls := by
    have hsame : ∀ endpoint ∈ plannedEndpoints urls,
        granuleOf (p.buildDap4Url fold plan endpoint) = id endpoint := by
      intro endpoint hendpoint
      exact OpendapProvider.granuleOf_buildDap4Url (hplain endpoint hendpoint).2
    calc (p.builtUrls fold plan).map granuleOf
        = (plannedEndpoints urls).map fun endpoint => granuleOf (p.buildDap4Url fold plan endpoint) :=
          List.map_map
      _ = (plannedEndpoints urls).map id := List.map_congr_left hsame
      _ = plannedEndpoints urls := List.map_id _
  refine ⟨⟨_, rfl, hread⟩, List.length_map _, ?_⟩
  intro server job' hjob'
  have hne : ['\n'].intercalate (p.builtUrls fold plan) ≠ [] := by
    intro hnil
    rw [hnil] at hread
    exact hbuilt hread.symm
  have hfetches := fetches_of_readUrls server hjob' hne hread
  rwa [hgranules] at hfetches

/-- A plan for one variable. -/
def subsetPlan : RetrievalPlan :=
  { RetrievalPlan.ofVariables ["LST".toList] with needsVariable := true }

/-- Two granules, of which one is given with a slash at its end. -/
theorem coordinatesRoundTrip_two :
    let urls := some ["https://dap/g1.nc4/".toList, [], "https://dap/g2.nc4".toList]
    let p := OpendapProvider.init (some "grid") urls {}
    let job : JobRef :=
      { provider := "opendap"
        providerJobUrl := some
          "https://dap/g1.nc4.dap.nc4?dap4.ce=%2FLST\nhttps://dap/g2.nc4.dap.nc4?dap4.ce=%2FLST".toList }
    let server : GranuleServer Unit :=
      { fetchAll := fun urls => .ok (urls.map fun _ => ⟨1, "g"⟩), bundleSize := List.length }
    p.submit (ε := Unit) .ascii subsetPlan = .ok job ∧
      Fetches server { job with jobHandle := some "job_1" } (p.builtUrls .ascii subsetPlan)
        ["https://dap/g1.nc4".toList, "https://dap/g2.nc4".toList] := by
  intro urls p job server
  have hsubmit : p.submit (ε := Unit) .ascii subsetPlan = .ok job := by decide +kernel
  have hplain : ∀ u ∈ urls.getD [], '\n' ∉ u ∧ '?' ∉ u := by decide +kernel
  exact ⟨hsubmit, (coordinatesRoundTrip .ascii (some "grid") urls {} subsetPlan job hplain
    hsubmit).2.2 server _ rfl⟩

end EarthdataMcp
