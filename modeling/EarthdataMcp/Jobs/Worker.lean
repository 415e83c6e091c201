import EarthdataMcp.Jobs.Prefetch
import EarthdataMcp.Providers.ContentDigest

/-!
# The lifecycle tasks of the worker

`submitJob`, `pollJob` and `materializeJob` walk a job through the state machine, each
enqueueing the next; `startup` and `sweepStalledJobs` put stranded jobs back on the queue.
Every task reads the row first, decides from what it read, and writes in a later transaction.
-/

namespace EarthdataMcp

/-- The workspace of a specification that names none. -/
def defaultWorkspace : WorkspaceId := 0

/-- Delay before the next poll while a job is still running. -/
def pollInterval : Time := seconds 5

/-- Delay before re-polling after a transient fault. -/
def pollTransientRetryInterval : ℕ := 30

/-- Load a job, apply one guarded transition, and commit. -/
def transitionState (j : JobId) (new : JobState) (extra : Extra) : Program Unit := do
  match ← perform (.jobs (.transact (.getJob j) (enterState new extra))) with
  | [] => raise (.jobNotFound j)
  | _ :: _ => pure ()

/-- Record a provenance event without ever letting it block the lifecycle. -/
def recordEventSafe (ws : Option WorkspaceId) (h : Option HandleId) (type : ProvenanceEventType) :
    Program Unit :=
  match ws, h with
  | some ws, some h => swallow (perform (.provenance (.event ws h type)))
  | _, _ => pure ()

/-- The way of every exception handler to `failed`. -/
def failJob (cfg : Settings) (j : JobId) (spec : RequestSpec) (errorPrefix : String) (e : Exn) :
    Program Unit := do
  transitionState j .failed { error := some (some (errorPrefix ++ ": " ++ excMessage cfg e)) }
  recordEventSafe spec.workspaceId spec.obsHandle .jobFailed

/-- The prefix of a failure in a lifecycle stage. -/
def stagePrefix (stage : String) (spec : RequestSpec) : String :=
  stage ++ "/" ++ spec.provider.name ++ " failed"

/-- The message of a job whose specification cannot be rebuilt. -/
def invalidSpecError (defect : String) : Extra :=
  { error := some (some ("invalid job spec: " ++ defect)) }

/-- `_load_spec_or_fail` in the transaction that loads the row: a row that the task would go
on with, but whose specification cannot be rebuilt, is failed. -/
def failInvalidSpec (wanted : JobState → Bool) : Edit := fun now job =>
  if wanted job.state then
    match fromJsonb job.requestSpec with
    | .error defect => enterState .failed (invalidSpecError defect) now job
    | .ok _ => .ok job
  else .ok job

/-- Durably flag a collection restricted, without ever blocking the caller. -/
def markRestrictedSafe (conceptId : Option String) : Program Unit :=
  match conceptId with
  | none => pure ()
  | some conceptId =>
      if conceptId = "" then pure ()
      else swallow (perform (.access (.markCollectionRestricted conceptId)))

/-- The token a stored credential yields now, or why it is unusable. -/
def usableToken (cfg : Settings) (now : Time) (c : Credential) : Except Exn (Option Token) :=
  match decryptCredential cfg c with
  | .error e => .error e
  | .ok token => parseEdlToken now (some token)

/-- Decrypt this attempt's per-job credential; an unusable one fails the job and raises. -/
def loadJobIdentity (cfg : Settings) (j : JobId) (spec : RequestSpec) :
    Option Credential → Program (Option Token)
  | none => pure none
  | some c => do
      let now ← perform .now
      match usableToken cfg now c with
      | .ok identity => pure identity
      | .error e => do
          failJob cfg j spec "job credential unusable" e
          raise e

/-- An unaccepted licence marks the collection restricted. -/
def markIfEula (c : CredentialClass) (conceptId : Option String) : Program Unit :=
  if c = .eulaNotAccepted then markRestrictedSafe conceptId else pure ()

/-- Terminate a job on a classified credential failure. -/
def failClassifiedCredential (cfg : Settings) (j : JobId) (spec : RequestSpec) (stage : String)
    (c : CredentialClass) : Program Unit := do
  markIfEula c spec.conceptId
  failJob cfg j spec (stagePrefix stage spec) (.credential c)

/-- Fetch fresh capabilities and build the specification's provider. -/
def loadProvider (spec : RequestSpec) (token : Option Token) : Program Unit := do
  let _ ← perform (.planning (.collectionCapabilities spec.conceptId token))
  if spec.provider = .direct then raise (.other "no retrieval provider for spec provider")
  else pure ()

/-- The credential failure behind an exception; a cancellation is never one. -/
def credentialFailure (now : Time) (identity : Option Token) (e : Exn) : Option CredentialClass :=
  if e.isException then classifyCredentialFailure now identity e else none

/-- Fail a job in a stage, as a classified credential failure if it is one. -/
def failStage (cfg : Settings) (j : JobId) (spec : RequestSpec) (stage : String) (e : Exn) :
    Option CredentialClass → Program Unit
  | some c => failClassifiedCredential cfg j spec stage c
  | none => failJob cfg j spec (stagePrefix stage spec) e

/-! ### Submitting -/

/-- Re-route the row to OPeNDAP: the column and the durable specification. -/
def rerouteToOpendap : Edit := fun _ job =>
  .ok { job with provider := .opendap, requestSpec := job.requestSpec.withProvider .opendap }

/-- The fallback after Harmony could not be reached: re-route the row and submit again. -/
def fallBackToOpendap (j : JobId) (spec : RequestSpec) : Program Unit := do
  recordEventSafe spec.workspaceId spec.obsHandle .providerFallback
  match ← perform (.jobs (.transact (.getJob j) rerouteToOpendap)) with
  | [] => pure ()
  | _ :: _ => perform (.queue (.enqueueJob .submitJob j none 0))

/-- A submit that raised: the job fails, or falls back to OPeNDAP. -/
def submitFailed (cfg : Settings) (j : JobId) (spec : RequestSpec) (identity : Option Token)
    (e : Exn) : Program Unit := do
  let now ← perform .now
  match credentialFailure now identity e with
  | some c => do
      failClassifiedCredential cfg j spec "submit" c
      raise e
  | none =>
      if spec.provider = .harmony then
        if classifySubmitFailure cfg e = .infrastructure ∧ spec.opendapUrls ≠ [] then
          fallBackToOpendap j spec
        else if classifySubmitFailure cfg e = .invalidRequest then do
          failJob cfg j spec "Harmony rejected the request" e
          raise e
        else do
          recordEventSafe spec.workspaceId spec.obsHandle .opendapNotApplicable
          failJob cfg j spec
            "Harmony failed and no OPeNDAP fallback is available for this collection" e
          raise e
      else do
        failJob cfg j spec (stagePrefix "submit" spec) e
        raise e

/-- A submit that was answered: record the upstream job and start polling it. -/
def submitSucceeded (j : JobId) (spec : RequestSpec) (url : Option String) : Program Unit := do
  transitionState j .submitted { providerJobUrl := some url }
  recordEventSafe spec.workspaceId spec.obsHandle .submitted
  perform (.queue (.enqueueJob .pollJob j none 0))

/-- Submit a `pending` job as read. -/
def submitRow (cfg : Settings) (j : JobId) (spec : RequestSpec) (credential : Option Credential) :
    Program Unit := do
  let identity ← loadJobIdentity cfg j spec credential
  loadProvider spec identity
  match ← attempt (perform (.provider (.submit j spec identity))) with
  | .error e => submitFailed cfg j spec identity e
  | .ok url => submitSucceeded j spec url

/-- Go on with a row that was loaded in one of the wanted states, if there is one. -/
def withRow (wanted : JobState → Bool) (rows : List Job) (go : Job → RequestSpec → Program Unit) :
    Program Unit :=
  match rows with
  | [] => pure ()
  | job :: _ =>
      if wanted job.state then
        match fromJsonb job.requestSpec with
        | .error _ => pure ()
        | .ok spec => go job spec
      else pure ()

/-- Submit a `pending` job to its provider and advance to `submitted`. -/
def submitJob (cfg : Settings) (j : JobId) : Program Unit := do
  let wanted := fun s => s = JobState.pending
  let rows ← perform (.jobs (.transact (.getJob j) (failInvalidSpec (wanted ·))))
  withRow (wanted ·) rows fun job spec => submitRow cfg j spec job.credentialEncrypted

/-! ### Polling -/

/-- The second transaction of a poll: stamp the proof of life and apply the status. -/
def applyStatus (status : JobStatus) : Edit := fun now job =>
  if job.state.Terminal then .ok job
  else
    match applyPoll now { job with lastPolledAt := some now } status with
    | .ok a => .ok a.job
    | .error edge => .error (.illegalTransition edge)

/-- The task a poll of this row enqueues; it does not depend on the time. -/
def nextTask (status : JobStatus) (job : Job) : Option Task :=
  if job.state.Terminal then none
  else
    match applyPoll 0 job status with
    | .ok a => a.next
    | .error _ => none

/-- Enqueue what follows a poll. -/
def enqueueNext (j : JobId) : Option Task → Program Unit
  | some .materializeJob => perform (.queue (.enqueueJob .materializeJob j none 0))
  | some .pollJob => perform (.queue (.enqueueJob .pollJob j none pollInterval))
  | _ => pure ()

/-- Ask the provider for the job's status. -/
def pollProvider (j : JobId) (spec : RequestSpec) (url : Option String) (identity : Option Token) :
    Program JobStatus := do
  loadProvider spec identity
  perform (.provider (.poll j spec.provider url identity))

/-- A poll that raised: a transient fault decides nothing, any other fails the job. -/
def pollFailed (cfg : Settings) (j : JobId) (spec : RequestSpec) (identity : Option Token)
    (e : Exn) : Program Unit :=
  if ¬ e.isException ∨ isTransientFault e then raise e
  else do
    let now ← perform .now
    failStage cfg j spec "poll" e (classifyCredentialFailure now identity e)
    raise e

/-- Poll a `submitted` or `running` job as read. -/
def pollRow (cfg : Settings) (j : JobId) (spec : RequestSpec) (job : Job) : Program Unit := do
  let identity ← loadJobIdentity cfg j spec job.credentialEncrypted
  match ← attempt (pollProvider j spec job.providerJobUrl identity) with
  | .error e => pollFailed cfg j spec identity e
  | .ok status => do
      match ← perform (.jobs (.transact (.getJob j) (applyStatus status))) with
      | [] => pure ()
      | job :: _ => enqueueNext j (nextTask status job)

/-- One poll cycle. -/
def pollOnce (cfg : Settings) (j : JobId) : Program Unit := do
  let wanted := fun s => JobState.Polled s
  let rows ← perform (.jobs (.transact (.getJob j) (failInvalidSpec (wanted ·))))
  withRow (wanted ·) rows fun job spec => pollRow cfg j spec job

/-- A cancellation is raised again once the next poll is queued. -/
def reraiseCancelled (e : Exn) : Program Unit := if e = .cancelled then raise e else pure ()

/-- Poll once; a transient fault or a cancellation anywhere in the cycle reschedules. -/
def pollJob (cfg : Settings) (j : JobId) : Program Unit := do
  match ← attempt (pollOnce cfg j) with
  | .ok _ => pure ()
  | .error e =>
      if e = .cancelled ∨ isTransientFault e then do
        perform (.queue (.enqueueJob .pollJob j none pollTransientRetryInterval))
        reraiseCancelled e
      else raise e

/-! ### Materializing -/

/-- The last path segment of a URL, without query and fragment. -/
def jobIdFromUrl (url : Option String) : Option String :=
  match url with
  | none => none
  | some url =>
      let url := ((url.splitOn "?").headD "").splitOn "#" |>.headD ""
      let segments := url.splitOn "/"
      let path := if contains "://" url then segments.drop 3 else segments
      match path.reverse.dropWhile (· = "") with
      | [] => none
      | segment :: _ => some segment

/-- The storage key of a provider's result. -/
def materializedKey (provider : Provider) (jobHandle : Option HandleId) (url : Option String)
    (name : String) : Key :=
  let owner : KeyOwner :=
    match jobHandle with
    | some h => .jobHandle h
    | none =>
        if provider = .opendap then .result
        else match jobIdFromUrl url with
          | some id => .providerJob id
          | none => .result
  match provider with
  | .appeears => .retrieval .appeears owner "series.parquet"
  | .opendap => .retrieval .opendap owner "subset.nc.zip"
  | _ => .retrieval provider owner name

/-- Describe what a result delivered. -/
def MaterializationRecord.fromResult (out : Fetched) (spec : RequestSpec) :
    MaterializationRecord where
  granuleIds := out.granuleIds
  providerUsed := spec.provider
  serviceChain := out.serviceChain
  outputFormat := spec.outputFormat

/-- The blob of a result that was fetched under this identity. -/
def fetchedBlob (spec : RequestSpec) (identity : Option Token) (out : Fetched) : Blob where
  size := out.sizeBytes
  bytes := out.bytes
  fetchedAs := identity
  made := some { record := .fromResult out spec, mediaType := out.mediaType }

/-- `RetrievalProvider.materialize`: download the result and put it into the storage. -/
def providerMaterialize (j : JobId) (spec : RequestSpec) (url : Option String)
    (identity : Option Token) : Program (Key × Fetched) := do
  let out ← perform (.provider (.fetch j spec.provider url identity))
  let key := materializedKey spec.provider spec.jobHandle url out.name
  perform (.storage (.put key (fetchedBlob spec identity out)))
  pure (key, out)

/-- The delivered-content fields of a record, as they are written onto the handle. -/
def deliveredProjection (cfg : Settings) (record : MaterializationRecord) : PayloadUpdate where
  contentDigest := some (record.texts.contentDigest cfg)
  isPartial := some record.granuleIds.isNone
  granuleCount := record.granuleIds.map fun ids => ids.dedup.length

/-- Compare with the previous materialization of the handle; only a log line comes of it. -/
def logMaterializationDrift (j : JobId) (spec : RequestSpec) : Program Unit :=
  match spec.obsHandle with
  | none => pure ()
  | some h => swallow do
      let _ ← perform (.jobs (.read (.previousMaterialization h j)))
      pure ()

/-- Resolve the pending handle to the durable storage key. -/
def resolveHandle (cfg : Settings) (spec : RequestSpec) (key : Key) (out : Fetched) :
    Program Unit :=
  match spec.obsHandle with
  | none => pure ()
  | some h => do
      let _ ← perform (.handles (.updateHandle (spec.workspaceId.getD defaultWorkspace) h
        { deliveredProjection cfg (.fromResult out spec) with
          status := some .ready
          storageKey := some (some key)
          mediaType := some out.mediaType
          sizeBytes := some (some out.sizeBytes) }))
      pure ()

/-- A materialization that raised fails the job. -/
def materializeFailed (cfg : Settings) (j : JobId) (spec : RequestSpec)
    (identity : Option Token) (e : Exn) : Program Unit := do
  let now ← perform .now
  failStage cfg j spec "materialize" e (credentialFailure now identity e)
  raise e

/-- What follows once the job is `ready`: the sweep, then the prefetch. -/
def afterReady (cfg : Settings) (spec : RequestSpec) (job : Job) (sizeBytes : ℕ) :
    Program Unit := do
  swallow (cfg.eviction.sweep spec.obsHandle)
  swallow do
    let _ ← maybePrefetch cfg spec job.speculative (some sizeBytes) job.credentialEncrypted
    pure ()

/-- The result is stored: resolve the handle, mark the job `ready`, sweep and prefetch. -/
def materializeDelivered (cfg : Settings) (j : JobId) (spec : RequestSpec) (job : Job)
    (key : Key) (out : Fetched) : Program Unit := do
  logMaterializationDrift j spec
  resolveHandle cfg spec key out
  recordEventSafe spec.workspaceId spec.obsHandle .materialized
  transitionState j .ready
    { progress := some 100, materialization := some (.fromResult out spec) }
  afterReady cfg spec job out.sizeBytes

/-- Persist the result of a `materializing` job as read. -/
def materializeRow (cfg : Settings) (j : JobId) (spec : RequestSpec) (job : Job) :
    Program Unit := do
  let identity ← loadJobIdentity cfg j spec job.credentialEncrypted
  loadProvider spec identity
  match ← attempt (providerMaterialize j spec job.providerJobUrl identity) with
  | .error e => materializeFailed cfg j spec identity e
  | .ok (key, out) => materializeDelivered cfg j spec job key out

/-- Persist a `materializing` job's result and advance to `ready`. -/
def materializeJob (cfg : Settings) (j : JobId) : Program Unit := do
  let wanted := fun s => s = JobState.materializing
  let rows ← perform (.jobs (.transact (.getJob j) (failInvalidSpec (wanted ·))))
  withRow (wanted ·) rows fun job spec => materializeRow cfg j spec job

/-! ### Reclaiming -/

/-- A reclaimed row that can never make progress is failed. -/
def triage (staleBefore : Time) : Edit := fun now job =>
  match fromJsonb job.requestSpec with
  | .error defect => enterState .failed (invalidSpecError defect) now job
  | .ok _ =>
      if job.createdAt < staleBefore then
        enterState .failed
          { error := some (some
              ("reclaimed as stale: non-terminal since " ++ toString job.createdAt)) } now job
      else .ok job

/-- The row is to be resumed. -/
def resumable (staleBefore : Time) (job : Job) : Bool :=
  (fromJsonb job.requestSpec).toBool && staleBefore ≤ job.createdAt

/-- Dispatch a reclaimed job to the task that resumes its state, under its deterministic id. -/
def resumeOne (job : Job) : Program Unit :=
  match resumeTask job.state with
  | none => pure ()
  | some task =>
      perform (.queue (.enqueueJob task job.jobId (some (lifecycleJobId task job.jobId)) 0))

/-- Triage the rows of a reclaim query and resume those that can make progress. -/
def reclaim (q : JobQuery) (staleBefore : Time) : Program Unit := do
  let rows ← perform (.jobs (.transact q (triage staleBefore)))
  forEach resumeOne (rows.filter (resumable staleBefore))

/-- Reclaim every non-terminal job on boot, then sweep the cache. -/
def startup (cfg : Settings) : Program Unit := do
  let now ← perform .now
  reclaim .reclaimNonTerminal (now - seconds cfg.jobStaleAfterSeconds)
  swallow (cfg.eviction.sweep none)

/-- Re-enqueue every job that shows no sign of life. -/
def sweepStalledJobs (cfg : Settings) : Program Unit := do
  let now ← perform .now
  reclaim
    (.reclaimStalled (now - seconds cfg.jobStalledAfterSeconds)
      (now - seconds cfg.jobMaterializingStalledAfterSeconds))
    (now - seconds cfg.jobStaleAfterSeconds)

end EarthdataMcp
