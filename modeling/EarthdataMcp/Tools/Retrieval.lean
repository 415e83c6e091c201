import EarthdataMcp.Jobs.Worker
import EarthdataMcp.Providers.TimeRangeGrammar

/-!
# The retrieval tools

`cancelRetrieval`, and `submitRetrieval`, the shared core of the `retrieve_*` tools, with the
exact-match reuse of `retrieve_subset`.

The reuse has four ways to a new job: a fresh handle that wins the unique insert, a loser of
that race whose match turns out dead, the replay of an expired match, and a fresh job over a
match whose job failed or was cancelled.
-/

namespace EarthdataMcp

/-! ### Cancelling -/

/-- What came of the provider-side cancel. -/
inductive Upstream
  | requested
  | unsupported
  | error
  deriving DecidableEq, Repr

/-- The answer of `cancel_retrieval`: not found, refused with a note, already ended, or
cancelled. -/
inductive CancelAnswer
  | notFound
  | refused (state : JobState)
  | alreadyTerminal (state : JobState)
  | cancelled (upstream : Upstream)
  deriving DecidableEq, Repr

/-- The provider-side cancel of a job read as `row`. -/
def cancelUpstream (row : Job) (spec : RequestSpec) (token : Option Token) : Program Unit :=
  if spec.provider = .direct then raise (.other "no retrieval provider for spec provider")
  else perform (.provider (.cancel row.jobId spec.provider row.providerJobUrl token))

/-- Best-effort provider-side cancel; its failure is reported and nothing is undone. -/
def attemptProviderCancel (row : Job) (token : Option Token) : Program Upstream :=
  if row.provider = .opendap ∨ row.providerJobUrl.getD "" = "" then pure .unsupported
  else
    match fromJsonb row.requestSpec with
    | .error _ => pure .error
    | .ok spec => do
        match ← attempt (cancelUpstream row spec token) with
        | .ok _ => pure .requested
        | .error e => if e.isException then pure .error else raise e

/-- The transaction of a cancel: a row with an edge to `cancelled` takes it. -/
def cancelRow : Edit := fun now job =>
  if job.state.Legal .cancelled then enterState .cancelled {} now job else .ok job

/-- The identity of the upstream cancel: the caller's, else the one stored on the row, else
none. -/
def cancelToken (cfg : Settings) (identity : Option Token) (stored : Option Credential) :
    Option Token :=
  identity.or (stored.bind fun c => (decryptCredential cfg c).toOption)

/-- Cancel a cancellable job; a friendly answer otherwise. -/
def cancelRetrieval (cfg : Settings) (ws : WorkspaceId) (jobHandle : HandleId)
    (token : Option Token) : Program CancelAnswer := do
  let now ← perform .now
  match parseEdlToken now token with
  | .error e => raise e
  | .ok identity =>
      if jobHandle.type ≠ .job then raise (.other "expected a job_ handle")
      else do
        match ← attempt (perform (.handles (.getHandle ws jobHandle))) with
        | .error (.handleNotFound _) => pure .notFound
        | .error (.crossWorkspace _) => pure .notFound
        | .error e => raise e
        | .ok _ => do
            match ← perform (.jobs (.transact (.getJobByHandle jobHandle) cancelRow)) with
            | [] => pure .notFound
            | job :: _ =>
                if job.state.Terminal then pure (.alreadyTerminal job.state)
                else if ¬ job.state.Legal .cancelled then pure (.refused job.state)
                else do
                  let upstream ← attemptProviderCancel job
                    (cancelToken cfg identity job.credentialEncrypted)
                  pure (.cancelled upstream)

/-! ### Reuse -/

/-- The answer of a `retrieve_*` tool. -/
structure RetrievalAnswer where
  jobHandle : Option HandleId
  obsHandle : HandleId
  status : Option HandleStatus
  provider : Option Provider
  reused : Bool := false
  deriving DecidableEq, Repr

/-- The caller's credential as it is stored on a job row; a key is configured by then. -/
def storedCredential (cfg : Settings) (identity : Option Token) : Option Credential :=
  identity.bind (encryptCredential cfg)

/-- Re-enqueue the durable job behind a handle from its stored specification. -/
def reenqueueReplay (cfg : Settings) (ws : WorkspaceId) (handle : HandleId) (job : Job)
    (identity : Option Token) : Program RetrievalAnswer := do
  let jobHandle ← perform (.handles (.putHandle ws .job { obsHandle := some handle }))
  let _ ← perform (.handles (.updateHandle ws handle { status := some .pending }))
  let jobId ← perform (.jobs (.create
    { jobHandle, obsHandle := some handle, provider := job.provider
      requestSpec := job.requestSpec, credentialEncrypted := storedCredential cfg identity }))
  perform (.provenance (.event ws handle .reMaterialized))
  perform (.queue (.enqueueJob .submitJob jobId none 0))
  pure { jobHandle := some jobHandle, obsHandle := handle, status := some .pending
         provider := some job.provider }

/-- A prefetched handle that a request has matched is not speculative any more. -/
def promoteIfSpeculative (ws : WorkspaceId) (row : Handle) : Program Unit :=
  if row.payload.speculative then do
    let _ ← perform (.handles (.updateHandle ws row.handle { speculative := some false }))
    perform (.provenance (.event ws row.handle .promoted))
  else pure ()

/-- A job that has failed or was cancelled: it will never fill its handle. -/
def Job.Dead (job : Job) : Prop := job.state = .failed ∨ job.state = .cancelled

instance (job : Job) : Decidable job.Dead :=
  inferInstanceAs (Decidable (job.state = .failed ∨ job.state = .cancelled))

/-- The answer a match gives without a new job. -/
def existingAnswer (row : Handle) (job : Option Job) : RetrievalAnswer where
  jobHandle := job.map Job.jobHandle
  obsHandle := row.handle
  status := row.payload.status
  provider := job.map Job.provider

/-- Record the reuse of a match and mark the answer. -/
def reuseAnswer (ws : WorkspaceId) (row : Handle) (answer : RetrievalAnswer) :
    Program (Option RetrievalAnswer) := do
  perform (.provenance (.event ws row.handle .reused))
  pure (some { answer with reused := true })

/-- The reuse response for a handle known to match the signature, or nothing if the match is
unusable. -/
def reuseResponseForMatch (cfg : Settings) (ws : WorkspaceId) (row : Handle)
    (identity : Option Token) : Program (Option RetrievalAnswer) := do
  promoteIfSpeculative ws row
  let jobs ← perform (.jobs (.read (.getJobByObsHandle row.handle)))
  match row.payload.status, jobs.head? with
  | some .expired, none => pure none
  | some .expired, some job => do
      let answer ← reenqueueReplay cfg ws row.handle job identity
      reuseAnswer ws row answer
  | some .ready, job => reuseAnswer ws row (existingAnswer row job)
  | _, none => pure none
  | _, some job =>
      if job.Dead then pure none else reuseAnswer ws row (existingAnswer row (some job))

/-- Exact-match reuse lookup. -/
def checkReuse (cfg : Settings) (ws : WorkspaceId) (signature : String)
    (identity : Option Token) : Program (Option RetrievalAnswer) := do
  match ← perform (.handles (.findBySignature ws signature)) with
  | none => pure none
  | some row => reuseResponseForMatch cfg ws row identity

/-- How often a lost race is retried. -/
def raceRetryAttempts : ℕ := 20

/-- Resolve the loser side of a unique-insert race: the winner's job may not be there yet. -/
def awaitReuse (cfg : Settings) (ws : WorkspaceId) (row : Handle) (identity : Option Token) :
    ℕ → Program (Option RetrievalAnswer)
  | 0 => pure none
  | attempts + 1 => do
      match ← reuseResponseForMatch cfg ws row identity with
      | some answer => pure (some answer)
      | none => awaitReuse cfg ws row identity attempts

/-! ### Submitting -/

/-- Tabular output for a point, netCDF-4 for a grid or a swath. -/
def formatByShape : List (String × String) :=
  [("grid", "application/netcdf4"), ("point", "application/x-parquet"),
    ("swath", "application/netcdf4")]

/-- The output format: the caller's, else the one for the shape; only for a point sample does an
empty format count as none. -/
def outputFormat (request : RetrievalRequest) (caps : Capabilities) : String :=
  match request.outputFormat with
  | some format =>
      if request.needsPointSample ∧ format = "" then "application/x-parquet" else format
  | none =>
      if request.needsPointSample then "application/x-parquet"
      else (formatByShape.lookup caps.outputShape).getD "application/netcdf4"

/-- What is known when the handles are minted: the request as it was resolved and planned. -/
structure ResolvedRequest where
  request : RetrievalRequest
  conceptId : String
  bbox : Option Bbox
  caps : Capabilities
  format : String

/-- The durable specification of a planned retrieval. -/
def ResolvedRequest.spec (r : ResolvedRequest) (plan : PlannedRetrieval) (ws : WorkspaceId)
    (jobHandle obsHandle : HandleId) : RequestSpec where
  conceptId := some r.conceptId
  shortName := r.caps.shortName
  outputFormat := r.format
  needsPointSample := r.request.needsPointSample
  aoiBbox := r.bbox
  timeRange := some r.request.timeRange
  variableNames := plan.variableNames
  provider := plan.path
  opendapUrls := plan.opendapUrls
  workspaceId := some ws
  jobHandle := some jobHandle
  obsHandle := some obsHandle

/-- Persist the job of a planned retrieval behind its handle, and enqueue it. -/
def createRetrieval (cfg : Settings) (ws : WorkspaceId) (r : ResolvedRequest)
    (plan : PlannedRetrieval) (obsHandle : HandleId) (identity : Option Token) :
    Program RetrievalAnswer := do
  perform (.provenance (.event ws obsHandle .routed))
  let jobHandle ← perform (.handles (.putHandle ws .job
    { obsHandle := some obsHandle, datasetHandle := some r.request.datasetHandle }))
  let jobId ← perform (.jobs (.create
    { jobHandle, obsHandle := some obsHandle, provider := plan.path
      requestSpec := (r.spec plan ws jobHandle obsHandle).toJsonb
      credentialEncrypted := storedCredential cfg identity }))
  perform (.provenance (.edge ws obsHandle r.request.datasetHandle))
  perform (.queue (.enqueueJob .submitJob jobId none 0))
  pure { jobHandle := some jobHandle, obsHandle, status := some .pending
         provider := some plan.path }

/-- Plan a request, mint its handle (or lose the race for its signature), and persist its
job. -/
def planAndCreate (cfg : Settings) (ws : WorkspaceId) (r : ResolvedRequest)
    (signature : Option String) (identity : Option Token) : Program RetrievalAnswer := do
  let plan ← perform (.planning (.planRetrieval r.request identity))
  match signature with
  | none => do
      let obsHandle ← perform (.handles (.putHandle ws .obs { status := some .pending }))
      createRetrieval cfg ws r plan obsHandle identity
  | some signature => do
      let (row, created) ← putHandleUniqueSignature ws .obs signature { status := some .pending }
      if created then createRetrieval cfg ws r plan row.handle identity
      else do
        match ← awaitReuse cfg ws row identity raceRetryAttempts with
        | some answer => pure answer
        | none => do
            let _ ← perform (.handles (.updateHandle ws row.handle { status := some .pending }))
            createRetrieval cfg ws r plan row.handle identity

/-- The identity dimension of a request: none only for a collection known to be open. -/
def reuseIdentityScope (cfg : Settings) (now : Time) (caps : Capabilities) (conceptId : String)
    (identity : Option Token) : Program (Option String) :=
  if caps.accessRestricted = some true then pure (some (identityScope cfg now identity))
  else do
    let flagged ← perform (.access (.collectionRestriction conceptId))
    if flagged = some true ∨ caps.accessRestricted ≠ some false then
      pure (some (identityScope cfg now identity))
    else pure none

/-- The texts of the refusals, without the text that is refused and the grammar they quote. -/
def TimeRangeError.message : TimeRangeError → String
  | empty => "time_range is required and cannot be empty."
  | noDelimiter => "time_range has no '/' or ',' delimiter."
  | noBound => "time_range needs at least one bound."
  | openRange => "time_range must specify both a start and an end."
  | notIso _ => "time_range endpoint is not ISO-8601."
  | endBeforeStart => "time_range has end before start."
  | typeError => "can't compare offset-naive and offset-aware datetimes"

/-- The request with its time range in the canonical form; both ends of the range must be there. -/
def RetrievalRequest.normalize (cfg : Settings) (request : RetrievalRequest) :
    Except TimeRangeError RetrievalRequest :=
  (normalizeTimeRange cfg.fromisoformat request.timeRange.toList false).map fun timeRange =>
    { request with timeRange := String.ofList timeRange }

theorem RetrievalRequest.normalize_eq_ok {cfg : Settings} {request canonical : RetrievalRequest}
    (h : request.normalize cfg = .ok canonical) : ∃ timeRange,
      normalizeTimeRange cfg.fromisoformat request.timeRange.toList false = .ok timeRange ∧
        canonical = { request with timeRange := String.ofList timeRange } := by
  unfold RetrievalRequest.normalize at h
  cases hrange : normalizeTimeRange cfg.fromisoformat request.timeRange.toList false with
  | error e =>
    rw [hrange] at h
    cases h
  | ok timeRange =>
    rw [hrange] at h
    exact ⟨timeRange, rfl, (Except.ok.inj h).symm⟩

/-- The rest of `_submit_retrieval`, for a request in the canonical form. -/
def submitNormalized (cfg : Settings) (ws : WorkspaceId) (request : RetrievalRequest)
    (dedupe : Bool) (now : Time) (identity : Option Token) : Program RetrievalAnswer := do
  let (conceptId, bbox) ← perform (.planning (.resolveHandles ws request))
  let caps ← perform (.planning (.collectionCapabilities (some conceptId) identity))
  let r : ResolvedRequest :=
    { request, conceptId, bbox, caps, format := outputFormat request caps }
  if dedupe then do
    let scope ← reuseIdentityScope cfg now caps conceptId identity
    let signature := computeRequestSignature cfg (some conceptId) bbox
      (some request.timeRange) request.variableNames r.format scope
    match ← checkReuse cfg ws signature identity with
    | some answer => pure answer
    | none => planAndCreate cfg ws r (some signature) identity
  else planAndCreate cfg ws r none identity

/-- Plan, persist a durable job, enqueue; with `dedupe`, look for a reusable handle first. -/
def submitRetrieval (cfg : Settings) (ws : WorkspaceId) (request : RetrievalRequest)
    (dedupe : Bool) (token : Option Token) : Program RetrievalAnswer := do
  let now ← perform .now
  match parseEdlToken now token with
  | .error e => raise e
  | .ok identity =>
      if identity.isSome ∧ cfg.earthdataCredentialKey = [] then raise .credentialKeyUnavailable
      else
        match request.normalize cfg with
        | .error e => raise (.other e.message)
        | .ok canonical => submitNormalized cfg ws canonical dedupe now identity

/-- `retrieve_subset`, with the exact-match reuse. -/
def retrieveSubset (cfg : Settings) (ws : WorkspaceId) (request : RetrievalRequest)
    (token : Option Token) : Program RetrievalAnswer :=
  submitRetrieval cfg ws { request with needsPointSample := false } true token

/-- `retrieve_data` and `retrieve_timeseries`, which never reuse. -/
def retrieveData (cfg : Settings) (ws : WorkspaceId) (request : RetrievalRequest)
    (token : Option Token) : Program RetrievalAnswer :=
  submitRetrieval cfg ws request false token

end EarthdataMcp
