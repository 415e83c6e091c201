import EarthdataMcp.World

/-!
# Cache eviction

The sweep of the materialization cache: orphan blobs are reclaimed when the timer says so,
then results are evicted until the cache is under its cap.

* `reclaimOrphans`: the referenced keys are read once, then every stored key of each prefix
  that is not among them is deleted;
* `Candidate` and its eviction order: speculative results first, then by value density;
* `evictOverCap`, which takes from the workspace that holds most;
* `evictOne`: delete the blob, mark the handle expired, walk its job to `expired`.
-/

namespace EarthdataMcp

/-- `EvictionService`'s parameters. -/
structure EvictionService where
  maxBytes : ℕ
  defaultRebuildCost : ℚ
  orphanInterval : Time

/-- The process's own service. -/
def Settings.eviction (cfg : Settings) : EvictionService where
  maxBytes := cfg.cacheMaxBytes
  defaultRebuildCost := cfg.rebuildCostDefaultSeconds
  orphanInterval := seconds cfg.orphanSweepIntervalSeconds

/-- Run a program for its effect; an `Exception` is logged and swallowed. -/
def swallow (p : Program Unit) : Program Unit := do
  match ← attempt p with
  | .ok _ => pure ()
  | .error e => if e.isException then pure () else raise e

/-- A change of state as a transaction's edit. -/
def enterState (new : JobState) (extra : Extra := {}) : Edit := fun now job =>
  match setState now job new extra with
  | .ok job' => .ok job'
  | .error edge => .error (.illegalTransition edge)

theorem enterState_eq_ok {new : JobState} {extra : Extra} {now : Time} {job job' : Job}
    (h : enterState new extra now job = .ok job') : setState now job new extra = .ok job' := by
  unfold enterState at h
  cases hs : setState now job new extra with
  | error e => simp [hs] at h
  | ok j =>
    rw [hs] at h
    obtain rfl := Except.ok.inj h
    rfl

theorem enterState_disciplined (new : JobState) (extra : Extra) :
    (enterState new extra).Disciplined :=
  fun _ _ _ h => Job.Moves.setState (enterState_eq_ok h)

/-! ### Orphan reclamation -/

/-- Every storage key a cached handle carries, whatever its status. -/
def referencedStorageKeys : Program (List Key) := do
  let rows ← perform (.handles .selectEvictable)
  pure (rows.filterMap fun row => row.payload.storageKey)

/-- Delete a listed key that the snapshot does not reference. -/
def deleteUnreferenced (referenced : List Key) (key : Key) : Program Unit :=
  if key ∈ referenced then pure () else perform (.storage (.delete key))

/-- List one prefix and delete what is not referenced. -/
def reclaimPrefix (referenced : List Key) (pfx : Prefix) : Program Unit := do
  let keys ← perform (.storage (.list pfx))
  forEach (deleteUnreferenced referenced) keys

/-- Delete every blob that no handle references. -/
def reclaimOrphans : Program Unit := do
  let referenced ← referencedStorageKeys
  forEach (reclaimPrefix referenced) materializationPrefixes

/-- Run the orphan pass at most once per interval. -/
def reclaimOrphansIfDue (svc : EvictionService) : Program Unit := do
  let due ← perform (.orphanSweepDue svc.orphanInterval)
  if due then reclaimOrphans else pure ()

/-! ### Cost-aware eviction -/

/-- One ready result the sweep may evict. -/
structure Candidate where
  handle : HandleId
  workspaceId : WorkspaceId
  storageKey : Key
  sizeBytes : ℕ
  lastUsed : Time
  rebuildCostSeconds : ℚ
  pinned : Bool
  speculative : Bool

/-- Value density: bytes reclaimed per unit of rebuild pain, aged up. -/
def Candidate.score (now : Time) (c : Candidate) : ℚ :=
  let ageHours : ℚ := (now - c.lastUsed : ℕ) / seconds 3600
  c.sizeBytes * (1 + ageHours) / c.rebuildCostSeconds

/-- `c` is evicted no earlier than `c'`: its `eviction_key` is no larger. -/
def Candidate.before (now : Time) (c c' : Candidate) : Bool :=
  if c.speculative = c'.speculative then c.score now ≤ c'.score now else c'.speculative

/-- A ready result with a storage key, as a candidate of this size. -/
def Handle.candidate (svc : EvictionService) (costs : List Job) (row : Handle) (key : Key)
    (size : ℕ) : Candidate where
  handle := row.handle
  workspaceId := row.workspaceId
  storageKey := key
  sizeBytes := size
  lastUsed := row.lastAccessedAt.getD row.updatedAt
  rebuildCostSeconds :=
    let cost := ((costs.filter fun job => job.obsHandle = some row.handle).getLast?).bind
      Job.rebuildCostSeconds
    -- a cost of zero is no cost: `costs.get(handle) or default`
    (cost.filter (· ≠ 0)).getD svc.defaultRebuildCost
  pinned := row.payload.pinned
  speculative := row.payload.speculative

/-- A result's size: from the payload, or `stat`; nothing for a key that has vanished. -/
def sizeOf (payload : Payload) (key : Key) : Program (Option ℕ) :=
  match payload.sizeBytes with
  | some size => pure (some size)
  | none => do
      match ← attempt (perform (.storage (.stat key))) with
      | .ok size => pure (some size)
      | .error .missingKey => pure none
      | .error e => raise e

/-- The candidate of a row, if the row is a ready result. -/
def candidateOf (svc : EvictionService) (costs : List Job) (row : Handle) :
    Program (Option Candidate) :=
  match row.payload.storageKey with
  | none => pure none
  | some key =>
      if row.Ready then do
        let size ← sizeOf row.payload key
        pure (size.map (row.candidate svc costs key))
      else pure none

/-- Every ready, evictable result. -/
def candidates (svc : EvictionService) : Program (List Candidate) := do
  let rows ← perform (.handles .selectEvictable)
  let costs ← perform (.jobs (.read (.rebuildCosts (rows.map Handle.handle))))
  let found ← collect (candidateOf svc costs) rows
  pure (found.filterMap id)

/-- Bytes held, in total. -/
def totalBytes (cs : List Candidate) : ℕ := (cs.map Candidate.sizeBytes).sum

/-- Bytes held by one workspace. -/
def heldBy (cs : List Candidate) (ws : WorkspaceId) : ℕ :=
  totalBytes (cs.filter fun c => c.workspaceId = ws)

/-- The workspace furthest over its fair share: the first one that holds most, since the
share is the same for all. -/
def furthestOver (held : WorkspaceId → ℕ) : List (WorkspaceId × List Candidate) →
    Option WorkspaceId
  | [] => none
  | (ws, _) :: queues =>
      match furthestOver held queues with
      | none => some ws
      | some ws' => if held ws < held ws' then some ws' else some ws

/-- Put a candidate on its workspace's queue. -/
def enqueueCandidate (c : Candidate) : List (WorkspaceId × List Candidate) →
    List (WorkspaceId × List Candidate)
  | [] => [(c.workspaceId, [c])]
  | (ws, cs) :: queues =>
      if ws = c.workspaceId then (ws, cs ++ [c]) :: queues
      else (ws, cs) :: enqueueCandidate c queues

/-- Take the last candidate of a workspace's queue; an emptied queue goes. -/
def popCandidate (ws : WorkspaceId) : List (WorkspaceId × List Candidate) →
    Option (Candidate × List (WorkspaceId × List Candidate))
  | [] => none
  | (ws', cs) :: queues =>
      if ws' = ws then
        cs.getLast?.map fun c =>
          (c, if cs.dropLast = [] then queues else (ws', cs.dropLast) :: queues)
      else (popCandidate ws queues).map fun (c, qs) => (c, (ws', cs) :: qs)

/-- Walk a `ready` job to `expired`; any other is left alone. -/
def expireReady : Edit := fun now job =>
  if job.state = .ready then enterState .expired {} now job else .ok job

/-- Evict one result. -/
def evictOne (c : Candidate) : Program Unit := do
  perform (.storage (.delete c.storageKey))
  let _ ← perform (.handles (.updateHandle c.workspaceId c.handle
    { status := some .expired, storageKey := some none }))
  perform (.provenance (.event c.workspaceId c.handle .expired))
  let _ ← perform (.jobs (.transact (.getJobByObsHandle c.handle) expireReady))
  pure ()

/-- Evict until under the cap, or until every queue is empty; each round takes one candidate,
so as many rounds as there are candidates are enough. -/
def evictLoop (svc : EvictionService) : ℕ → ℕ → (WorkspaceId → ℕ) →
    List (WorkspaceId × List Candidate) → Program Unit
  | 0, _, _, _ => pure ()
  | rounds + 1, total, held, queues =>
      if total ≤ svc.maxBytes then pure ()
      else
        match furthestOver held queues with
        | none => pure ()
        | some ws =>
            match popCandidate ws queues with
            | none => pure ()
            | some (c, queues) => do
                evictOne c
                evictLoop svc rounds (total - c.sizeBytes)
                  (Function.update held ws (held ws - c.sizeBytes)) queues

/-- Neither pinned nor the protected result. -/
def Candidate.Open (protectedHandle : Option HandleId) (c : Candidate) : Prop :=
  ¬ c.pinned ∧ some c.handle ≠ protectedHandle

instance (protectedHandle : Option HandleId) (c : Candidate) :
    Decidable (c.Open protectedHandle) :=
  inferInstanceAs (Decidable (_ ∧ _))

/-- The eviction order of the candidates that may be evicted. -/
def evictionQueues (now : Time) (protectedHandle : Option HandleId) (cs : List Candidate) :
    List (WorkspaceId × List Candidate) :=
  let open_ := cs.filter fun c => c.Open protectedHandle
  (open_.foldl (fun queues c => enqueueCandidate c queues) []).map fun (ws, queue) =>
    (ws, queue.insertionSort fun c c' => c.before now c')

/-- Evict candidates by value while they are over the cap; nothing is evicted when the pinned
ones alone exceed it.  The sort asks every candidate in a queue for its score, which divides by
the rebuild cost. -/
def evictByValue (svc : EvictionService) (protectedHandle : Option HandleId)
    (cs : List Candidate) : Program Unit :=
  if totalBytes cs ≤ svc.maxBytes then pure ()
  else if svc.maxBytes < totalBytes (cs.filter Candidate.pinned) then pure ()
  else do
    let now ← perform .now
    if ∃ c ∈ cs, c.Open protectedHandle ∧ c.rebuildCostSeconds = 0 then
      raise (.other "float division by zero")
    else
      evictLoop svc cs.length (totalBytes cs) (heldBy cs) (evictionQueues now protectedHandle cs)

/-- Evict over-cap results by value. -/
def evictOverCap (svc : EvictionService) (protectedHandle : Option HandleId) : Program Unit := do
  let cs ← candidates svc
  evictByValue svc protectedHandle cs

/-- Reclaim orphan blobs if due, then evict over-cap results by value. -/
def EvictionService.sweep (svc : EvictionService) (protectedHandle : Option HandleId) :
    Program Unit := do
  reclaimOrphansIfDue svc
  evictOverCap svc protectedHandle

end EarthdataMcp
