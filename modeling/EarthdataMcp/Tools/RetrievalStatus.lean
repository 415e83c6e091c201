import EarthdataMcp.Tools.Export

/-!
# The status of a retrieval

`getRetrievalStatus`: what a job pertains to and how far it has got, read from its row.
-/

namespace EarthdataMcp

/-- Whether a tally of granules is what was delivered, or what was planned. -/
inductive GranuleCountSource
  | materialized
  | planned
  deriving DecidableEq, Repr

/-- `_PHASE_BY_STATE`. -/
def phaseByState : JobState → String
  | .pending => "queued"
  | .submitted => "queued at provider"
  | .running => "processing"
  | .materializing => "materializing"
  | .ready => "ready"
  | .failed => "failed"
  | .expired => "expired"
  | .cancelled => "cancelled"

/-- What a job pertains to: the curated part of its specification, and a tally of granules with
its source. -/
structure StatusEnrichment where
  shortName : Option String
  variableNames : List String
  aoiBbox : Option Bbox
  timeRange : Option String
  provider : Provider
  outputFormat : String
  granuleCount : Option (ℕ × GranuleCountSource)
  deriving DecidableEq, Repr

/-- The tally of granules: those that were delivered where they are named, else the URLs that
were planned, if there are any. -/
def granuleCount (spec : RequestSpec) (materialization : Option MaterializationRecord) :
    Option (ℕ × GranuleCountSource) :=
  match materialization.bind MaterializationRecord.granuleIds with
  | some ids => some (ids.dedup.length, .materialized)
  | none => if spec.opendapUrls = [] then none else some (spec.opendapUrls.length, .planned)

/-- `_status_enrichment`. -/
def statusEnrichment (stored : StoredSpec) (materialization : Option MaterializationRecord) :
    StatusEnrichment where
  shortName := stored.spec.shortName
  variableNames := stored.spec.variableNames
  aoiBbox := stored.spec.aoiBbox
  timeRange := stored.spec.timeRange
  provider := stored.spec.provider
  outputFormat := stored.spec.outputFormat
  granuleCount := granuleCount stored.spec materialization

/-- What is told of a job. -/
structure JobStatusReport where
  jobHandle : HandleId
  obsHandle : Option HandleId
  status : JobState
  progress : ℤ
  phase : String
  message : Option String
  error : Option String
  submittedAt : Time
  lastPolledAt : Time
  providerJobUrl : Option String
  enrichment : StatusEnrichment
  deriving DecidableEq, Repr

/-- The answer of `get_retrieval_status`: a handle that is not the caller's, one of the caller's
with no job behind it, or the job. -/
inductive StatusAnswer
  | notFound
  | orphaned
  | found (report : JobStatusReport)
  deriving DecidableEq, Repr

/-- What is told of a row. -/
def Job.report (job : Job) : JobStatusReport where
  jobHandle := job.jobHandle
  obsHandle := job.obsHandle
  status := job.state
  progress := job.progress
  phase := phaseByState job.state
  message := job.message
  error := job.error
  submittedAt := job.createdAt
  lastPolledAt := job.lastPolledAt.getD job.updatedAt
  providerJobUrl := job.providerJobUrl
  enrichment := statusEnrichment job.requestSpec job.materialization

/-- Read a job's current state from its row. -/
def getRetrievalStatus (ws : WorkspaceId) (jobHandle : HandleId) (token : Option Token) :
    Program StatusAnswer := do
  let now ← perform .now
  match parseEdlToken now token with
  | .error e => raise e
  | .ok _ =>
      if jobHandle.type ≠ .job then raise (.other "expected a job_ handle")
      else do
        match ← attempt (perform (.handles (.getHandle ws jobHandle))) with
        | .error (.handleNotFound _) => pure .notFound
        | .error (.crossWorkspace _) => pure .notFound
        | .error e => raise e
        | .ok _ => do
            match ← perform (.jobs (.read (.getJobByHandle jobHandle))) with
            | [] => pure .orphaned
            | job :: _ => pure (.found job.report)

end EarthdataMcp
