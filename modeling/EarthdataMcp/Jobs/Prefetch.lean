import EarthdataMcp.Jobs.Eviction
import EarthdataMcp.Providers.RequestSpec

/-!
# Adjacent-window prefetch

After a retrieval has reached `ready`, at most one speculative job is issued for the window
its request predicts, unless a gate refuses.

* `putHandleUniqueSignature`: the insert that the unique index on the signature decides;
* `maybePrefetch`, the gates in their order, and `enqueuePrefetch`.
-/

namespace EarthdataMcp

/-- Insert a handle whose signature is unique in its workspace, or find the row that already
holds the signature; the answer says which. -/
def putHandleUniqueSignature (ws : WorkspaceId) (type : HandleType) (signature : String)
    (payload : Payload) : Program (Handle × Bool) := do
  match ← perform (.handles (.insertUnique ws type { payload with signature := some signature })) with
  | some row => pure (row, true)
  | none => do
      match ← perform (.handles (.findBySignature ws signature)) with
      | some row => pure (row, false)
      | none => raise (.other "unique-signature insert conflicted but no existing handle was found")

/-- What `maybePrefetch` did. -/
inductive PrefetchDecision
  | issued (job : JobId) (obsHandle : HandleId)
  | disabled
  | chained
  | noPrediction
  | realWorkQueued
  | overBudget
  | overFairShare
  | nrtWindow
  | tooLarge
  | unknownSize
  | alreadyHeld
  | restrictedNoIdentity
  | noDataForWindow
  deriving DecidableEq, Repr

/-- Would the workspace still be within its share of the cache with `extra` bytes more? -/
def underFairShare (maxBytes extra : ℕ) (ws : WorkspaceId) (rows : List Handle) : Bool :=
  let ready := rows.filter fun row => row.Ready && row.payload.sizeBytes.isSome
  let held := ((ready.filter fun row => row.workspaceId = ws).map fun row =>
    row.payload.sizeBytes.getD 0).sum
  let workspaces := (ws :: ready.map Handle.workspaceId).dedup
  (held + extra) * workspaces.length ≤ maxBytes

/-- Has the predicted window been complete upstream for long enough? -/
def windowIsSettled (cfg : Settings) (now : Time) (predicted : RequestSpec) : Bool :=
  match predicted.timeRange.bind cfg.parseTimeRange with
  | some window => window.stop.ByTimestamp ((now : ℤ) - seconds cfg.prefetchMinWindowAgeSeconds)
  | none => false

/-- The originating job's token, if it can still be decrypted. -/
def inheritedToken (cfg : Settings) : Option Credential → Option Token
  | none => none
  | some c => (decryptCredential cfg c).toOption

/-- The `dataset_` handle the originating retrieval descended from. -/
def originDatasetHandle (ws : WorkspaceId) (originJobHandle : Option HandleId) :
    Program (Option HandleId) :=
  match originJobHandle with
  | none => pure none
  | some h => do
      match ← attempt (perform (.handles (.getHandle ws h))) with
      | .ok row => pure row.payload.datasetHandle
      | .error (.handleNotFound _) => pure none
      | .error (.crossWorkspace _) => pure none
      | .error e => raise e

/-- Record an edge to the `dataset_` handle, where there is one. -/
def recordEdgeFrom (ws : WorkspaceId) (target : HandleId) : Option HandleId → Program Unit
  | none => pure ()
  | some source => perform (.provenance (.edge ws target source))

/-- Mint the speculative handles and job, then enqueue it like any other. -/
def enqueuePrefetch (predicted : RequestSpec) (signature : String)
    (originJobHandle : Option HandleId) (ws : WorkspaceId)
    (credentialEncrypted : Option Credential) : Program PrefetchDecision := do
  let (obs, created) ← putHandleUniqueSignature ws .obs signature
    { status := some .pending, speculative := true }
  if ¬ created then pure .alreadyHeld
  else do
    let datasetHandle ← originDatasetHandle ws originJobHandle
    let jobHandle ← perform (.handles (.putHandle ws .job
      { obsHandle := some obs.handle, datasetHandle }))
    let spec : RequestSpec :=
      { predicted with
        workspaceId := some ws, jobHandle := some jobHandle, obsHandle := some obs.handle }
    let jobId ← perform (.jobs (.create
      { jobHandle, obsHandle := some obs.handle, provider := predicted.provider
        requestSpec := spec.toJsonb, credentialEncrypted, speculative := true }))
    recordEdgeFrom ws obs.handle datasetHandle
    perform (.provenance (.event ws obs.handle .prefetched))
    perform (.queue (.enqueueJob .submitJob jobId none 0))
    pure (.issued jobId obs.handle)

/-- The scope of the prefetched bytes: shared only when the collection is known to be open. -/
def prefetchScope (cfg : Settings) (now : Time) (restricted : Option Bool)
    (token : Option Token) : Except Exn (Option String) :=
  if restricted = some false then .ok none
  else
    match parseEdlToken now token with
    | .ok identity => .ok (some (identityScope cfg now identity))
    | .error e => .error e

/-- Whether the window's collection is restricted: by its plan, or by what was observed. -/
def windowRestriction (plan : WindowPlan) (conceptId : String) : Program (Option Bool) :=
  if plan.accessRestricted = some true then pure (some true)
  else do
    let flag ← perform (.access (.collectionRestriction conceptId))
    pure (if flag = some true then some true else plan.accessRestricted)

/-- The gates that need the services: plan the window, decide its scope, look for a holder. -/
def prefetchWindow (cfg : Settings) (spec predicted : RequestSpec) (ws : WorkspaceId)
    (conceptId : String) (credentialEncrypted : Option Credential) :
    Program PrefetchDecision := do
  let token := inheritedToken cfg credentialEncrypted
  let plan ← perform (.planning (.planWindow predicted token))
  match plan.spec with
  | none => pure .noDataForWindow
  | some planned => do
      let flagged ← windowRestriction plan conceptId
      if flagged = some true ∧ token = none then pure .restrictedNoIdentity
      else do
        let now ← perform .now
        match prefetchScope cfg now flagged token with
        | .error e => raise e
        | .ok scope => do
            let signature := computeRequestSignature cfg (some conceptId) predicted.aoiBbox
              predicted.timeRange planned.variableNames predicted.outputFormat scope
            match ← perform (.handles (.findBySignature ws signature)) with
            | some _ => pure .alreadyHeld
            | none => enqueuePrefetch planned signature spec.jobHandle ws credentialEncrypted

/-- Issue at most one speculative job for the window `spec` predicts. -/
def maybePrefetch (cfg : Settings) (spec : RequestSpec) (speculativeOrigin : Bool)
    (sizeBytes : Option ℕ) (credentialEncrypted : Option Credential) :
    Program PrefetchDecision :=
  if ¬ cfg.prefetchEnabled then pure .disabled
  else if speculativeOrigin then pure .chained
  else
    match predictNext cfg spec, spec.workspaceId, spec.conceptId with
    | some predicted, some ws, some conceptId => do
        let busy ← perform (.jobs (.read .userWorkInFlight))
        if busy ≠ [] then pure .realWorkQueued
        else
          match sizeBytes with
          | none => pure .unknownSize
          | some size =>
              if cfg.prefetchMaxBytes < size then pure .tooLarge
              else do
                let now ← perform .now
                let issued ← perform (.jobs (.read (.speculativeJobsSince ws (now - seconds 86400))))
                if cfg.prefetchBudgetPerWorkspacePerDay ≤ issued.length then pure .overBudget
                else do
                  let rows ← perform (.handles .selectEvictable)
                  if ¬ underFairShare cfg.cacheMaxBytes size ws rows then pure .overFairShare
                  else if ¬ windowIsSettled cfg now predicted then pure .nrtWindow
                  else prefetchWindow cfg spec predicted ws conceptId credentialEncrypted
    | _, _, _ => pure .noPrediction

end EarthdataMcp
