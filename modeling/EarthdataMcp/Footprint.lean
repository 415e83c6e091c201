import EarthdataMcp.Service

/-!
# What each program touches

For every program the operations it may perform, on any path and whatever the answers.  The
results about interleavings use these to dispose of the programs that do not matter to them.

* one predicate on operations per family of programs;
* `Origin.Touches`, and `Origin.program_only`: every program stays within its footprint.
-/

namespace EarthdataMcp

open Concurrency (Prog)
open Concurrency.Prog

section combinators

variable {φ : Op → Prop} {α β : Type}

theorem only_swallow {p : Program Unit} (hp : p.Only φ) : (swallow p).Only φ := by
  unfold swallow
  refine hp.attempt.bind fun r => ?_
  cases r with
  | ok _ => trivial
  | error e => dsimp only; split_ifs <;> trivial

theorem only_map {p : Program α} (hp : p.Only φ) {f : α → β} :
    (do let a ← p; pure (f a) : Program β).Only φ :=
  hp.bind fun _ => trivial

end combinators

/-! ### The sweep -/

/-- The operations of a cache sweep. -/
inductive SweepOp : Op → Prop
  | now : SweepOp .now
  | due (n) : SweepOp (.orphanSweepDue n)
  | select : SweepOp (.handles .selectEvictable)
  | list (p) : SweepOp (.storage (.list p))
  | delete (k) : SweepOp (.storage (.delete k))
  | stat (k) : SweepOp (.storage (.stat k))
  | costs (hs) : SweepOp (.jobs (.read (.rebuildCosts hs)))
  | expire (ws h) : SweepOp (.handles (.updateHandle ws h
      { status := some .expired, storageKey := some none }))
  | event (ws h) : SweepOp (.provenance (.event ws h .expired))
  | expireJob (h) : SweepOp (.jobs (.transact (.getJobByObsHandle h) expireReady))

theorem reclaimOrphans_only : reclaimOrphans.Only SweepOp := by
  unfold reclaimOrphans referencedStorageKeys
  refine (only_map (only_perform.2 SweepOp.select)).bind fun referenced => .forEach fun pfx _ => ?_
  refine (only_perform.2 (.list pfx)).bind fun keys => .forEach fun key _ => ?_
  unfold deleteUnreferenced
  split_ifs
  · trivial
  · exact only_perform.2 (.delete key)

theorem candidates_only (svc : EvictionService) : (candidates svc).Only SweepOp := by
  unfold candidates
  refine (only_perform.2 .select).bind fun rows => (only_perform.2 (.costs _)).bind fun costs => ?_
  refine (Only.collect fun row _ => ?_).bind fun _ => trivial
  unfold candidateOf sizeOf
  split
  · trivial
  · split_ifs
    · refine Only.bind ?_ fun _ => trivial
      split
      · trivial
      · refine (only_perform.2 (.stat _)).attempt.bind fun r => ?_
        split <;> trivial
    · trivial

theorem evictOne_only (c : Candidate) : (evictOne c).Only SweepOp :=
  (only_perform.2 (.delete _)).bind fun _ => (only_perform.2 (.expire _ _)).bind fun _ =>
    (only_perform.2 (.event _ _)).bind fun _ => only_map (only_perform.2 (.expireJob _))

theorem evictLoop_only (svc : EvictionService) (rounds total : ℕ) (held : WorkspaceId → ℕ)
    (queues : List (WorkspaceId × List Candidate)) :
    (evictLoop svc rounds total held queues).Only SweepOp := by
  induction rounds generalizing total held queues with
  | zero => trivial
  | succ rounds ih =>
    unfold evictLoop
    split_ifs
    · trivial
    · split
      · trivial
      · split
        · trivial
        · exact (evictOne_only _).bind fun _ => ih _ _ _

theorem sweep_only (svc : EvictionService) (h : Option HandleId) : (svc.sweep h).Only SweepOp := by
  unfold EvictionService.sweep reclaimOrphansIfDue evictOverCap evictByValue
  refine Only.bind ((only_perform.2 (.due _)).bind fun due => ?_) fun _ => ?_
  · split_ifs
    · exact reclaimOrphans_only
    · trivial
  · refine (candidates_only svc).bind fun cs => ?_
    split_ifs
    · trivial
    · trivial
    · exact (only_perform.2 .now).bind fun _ => only_raise
    · exact (only_perform.2 .now).bind fun _ => evictLoop_only _ _ _ _ _

/-! ### The prefetch -/

/-- The operations of a prefetch that inherits a credential. -/
inductive PrefetchOp (credential : Option Credential) : Op → Prop
  | now : PrefetchOp credential .now
  | read (q) : PrefetchOp credential (.jobs (.read q))
  | select : PrefetchOp credential (.handles .selectEvictable)
  | find (ws s) : PrefetchOp credential (.handles (.findBySignature ws s))
  | get (ws h) : PrefetchOp credential (.handles (.getHandle ws h))
  | planning (o) : PrefetchOp credential (.planning o)
  | restriction (c) : PrefetchOp credential (.access (.collectionRestriction c))
  | insert (ws s) : PrefetchOp credential (.handles (.insertUnique ws .obs
      { status := some .pending, speculative := true, signature := some s }))
  | mintJob (ws o d) : PrefetchOp credential (.handles (.putHandle ws .job
      { obsHandle := o, datasetHandle := d }))
  | create (new) (h : new.credentialEncrypted = credential) (hs : new.speculative = true) :
      PrefetchOp credential (.jobs (.create new))
  | provenance (w) : PrefetchOp credential (.provenance w)
  | enqueue (j) : PrefetchOp credential (.queue (.enqueueJob .submitJob j none 0))

theorem enqueuePrefetch_only (predicted : RequestSpec) (signature : String)
    (origin : Option HandleId) (ws : WorkspaceId) (credential : Option Credential) :
    (enqueuePrefetch predicted signature origin ws credential).Only (PrefetchOp credential) := by
  unfold enqueuePrefetch putHandleUniqueSignature
  refine Only.bind ?_ fun (obs, created) => ?_
  · refine (only_perform.2 (.insert ws signature)).bind fun row => ?_
    split
    · trivial
    · refine (only_perform.2 (.find _ _)).bind fun row => ?_
      split <;> trivial
  · dsimp only
    split_ifs
    · refine Only.bind ?_ fun dataset => (only_perform.2 (.mintJob _ _ _)).bind fun jobHandle =>
        (only_perform.2 (.create _ rfl rfl)).bind fun j => Only.bind ?_ fun _ =>
          (only_perform.2 (.provenance _)).bind fun _ => only_map (only_perform.2 (.enqueue _))
      · unfold originDatasetHandle
        split
        · trivial
        · refine (only_perform.2 (.get _ _)).attempt.bind fun r => ?_
          split <;> trivial
      · unfold recordEdgeFrom
        split
        · trivial
        · exact only_perform.2 (.provenance _)
    · trivial

theorem prefetchWindow_only (cfg : Settings) (spec predicted : RequestSpec) (ws : WorkspaceId)
    (conceptId : String) (credential : Option Credential) :
    (prefetchWindow cfg spec predicted ws conceptId credential).Only (PrefetchOp credential) := by
  unfold prefetchWindow
  refine (only_perform.2 (.planning _)).bind fun plan => ?_
  split
  · trivial
  · refine Only.bind ?_ fun flagged => ?_
    · unfold windowRestriction
      split_ifs
      · trivial
      · exact only_map (only_perform.2 (.restriction _))
    · split_ifs
      · trivial
      · refine (only_perform.2 .now).bind fun now => ?_
        split
        · trivial
        · refine (only_perform.2 (.find _ _)).bind fun row => ?_
          split
          · trivial
          · exact enqueuePrefetch_only _ _ _ _ _

theorem maybePrefetch_only (cfg : Settings) (spec : RequestSpec) (speculative : Bool)
    (size : Option ℕ) (credential : Option Credential) :
    (maybePrefetch cfg spec speculative size credential).Only (PrefetchOp credential) := by
  unfold maybePrefetch
  by_cases henabled : ¬ cfg.prefetchEnabled
  · rw [if_pos henabled]; trivial
  rw [if_neg henabled]
  by_cases hspec : speculative
  · rw [if_pos hspec]; trivial
  rw [if_neg hspec]
  split
  · refine (only_perform.2 (.read _)).bind fun busy => ?_
    by_cases hbusy : busy ≠ []
    · rw [if_pos hbusy]; trivial
    rw [if_neg hbusy]
    split
    · trivial
    split
    · trivial
    refine (only_perform.2 .now).bind fun now => (only_perform.2 (.read _)).bind fun issued => ?_
    by_cases hbudget : cfg.prefetchBudgetPerWorkspacePerDay ≤ issued.length
    · rw [if_pos hbudget]; trivial
    rw [if_neg hbudget]
    refine (only_perform.2 .select).bind fun rows => ?_
    split
    · trivial
    split
    · trivial
    · exact prefetchWindow_only _ _ _ _ _ _
  · trivial

/-! ### The lifecycle tasks -/

/-- The operations every lifecycle task of job `j` shares once it has loaded the row: fetch
capabilities, and fail the job. -/
inductive TaskOp (j : JobId) : Op → Prop
  | now : TaskOp j .now
  | fail (error) : TaskOp j (.jobs (.transact (.getJob j)
      (enterState .failed { error := some (some error) })))
  | capabilities (c t) : TaskOp j (.planning (.collectionCapabilities c t))
  | restrict (c) : TaskOp j (.access (.markCollectionRestricted c))
  | provenance (w) : TaskOp j (.provenance w)

theorem recordEventSafe_only {φ : Op → Prop} (hφ : ∀ w, φ (.provenance w))
    (ws : Option WorkspaceId) (h : Option HandleId) (type : ProvenanceEventType) :
    (recordEventSafe ws h type).Only φ := by
  unfold recordEventSafe
  split
  · exact only_swallow (only_perform.2 (hφ _))
  · trivial

theorem transitionState_only {φ : Op → Prop} {j : JobId} {new : JobState} {extra : Extra}
    (hφ : φ (.jobs (.transact (.getJob j) (enterState new extra)))) :
    (transitionState j new extra).Only φ := by
  unfold transitionState
  refine (only_perform.2 hφ).bind fun rows => ?_
  split <;> trivial

theorem failJob_only (j : JobId) (spec : RequestSpec) (pfx : String) (e : Exn) :
    (failJob cfg j spec pfx e).Only (TaskOp j) :=
  (transitionState_only (.fail _)).bind fun _ => recordEventSafe_only .provenance _ _ _

theorem failClassifiedCredential_only (j : JobId) (spec : RequestSpec) (stage : String)
    (c : CredentialClass) : (failClassifiedCredential cfg j spec stage c).Only (TaskOp j) := by
  unfold failClassifiedCredential markIfEula
  refine Only.bind ?_ fun _ => failJob_only _ _ _ _
  split_ifs
  · unfold markRestrictedSafe
    split
    · trivial
    · split_ifs
      · trivial
      · exact only_swallow (only_perform.2 (.restrict _))
  · trivial

theorem failStage_only (j : JobId) (spec : RequestSpec) (stage : String) (e : Exn)
    (c : Option CredentialClass) : (failStage cfg j spec stage e c).Only (TaskOp j) := by
  cases c with
  | none => exact failJob_only _ _ _ _
  | some c => exact failClassifiedCredential_only _ _ _ _

theorem loadJobIdentity_only (cfg : Settings) (j : JobId) (spec : RequestSpec)
    (c : Option Credential) : (loadJobIdentity cfg j spec c).Only (TaskOp j) := by
  unfold loadJobIdentity
  split
  · trivial
  · refine (only_perform.2 .now).bind fun now => ?_
    split
    · trivial
    · exact (failJob_only _ _ _ _).bind fun _ => trivial

theorem loadProvider_only {j : JobId} (spec : RequestSpec) (token : Option Token) :
    (loadProvider spec token).Only (TaskOp j) := by
  unfold loadProvider
  refine (only_perform.2 (.capabilities _ _)).bind fun _ => ?_
  split_ifs <;> trivial

theorem withRow_only {φ : Op → Prop} {wanted : JobState → Bool} {rows : List Job}
    {go : Job → RequestSpec → Program Unit} (hgo : ∀ job spec, (go job spec).Only φ) :
    (withRow wanted rows go).Only φ := by
  unfold withRow
  split
  · trivial
  · split_ifs
    · split
      · trivial
      · exact hgo _ _
    · trivial

/-- The operations of `submitJob` after a submit that raised. -/
inductive SubmitFailedOp (j : JobId) (spec : RequestSpec) : Op → Prop
  | task {o} (h : TaskOp j o) : SubmitFailedOp j spec o
  | reroute (h : spec.provider = .harmony) :
      SubmitFailedOp j spec (.jobs (.transact (.getJob j) rerouteToOpendap))
  | enqueue : SubmitFailedOp j spec (.queue (.enqueueJob .submitJob j none 0))

/-- The operations of `submitJob` after a submit that was answered. -/
inductive SubmitSucceededOp (j : JobId) (url : Option String) : Op → Prop
  | submitted : SubmitSucceededOp j url (.jobs (.transact (.getJob j)
      (enterState .submitted { providerJobUrl := some url })))
  | provenance (w) : SubmitSucceededOp j url (.provenance w)
  | enqueue : SubmitSucceededOp j url (.queue (.enqueueJob .pollJob j none 0))

/-- The operations of `submitJob`. -/
inductive SubmitOp (j : JobId) : Op → Prop
  | load (wanted) : SubmitOp j (.jobs (.transact (.getJob j) (failInvalidSpec wanted)))
  | task {o} (h : TaskOp j o) : SubmitOp j o
  | submit (spec token) : SubmitOp j (.provider (.submit j spec token))
  | failed {spec o} (h : SubmitFailedOp j spec o) : SubmitOp j o
  | succeeded {url o} (h : SubmitSucceededOp j url o) : SubmitOp j o

theorem submitFailed_only (j : JobId) (spec : RequestSpec) (identity : Option Token) (e : Exn) :
    (submitFailed cfg j spec identity e).Only (SubmitFailedOp j spec) := by
  have hprov : ∀ w, SubmitFailedOp j spec (.provenance w) := fun w => .task (.provenance w)
  have hfail (pfx : String) : (failJob cfg j spec pfx e).Only (SubmitFailedOp j spec) :=
    (failJob_only _ _ _ _).mono fun _ => .task
  unfold submitFailed
  refine (only_perform.2 (.task .now)).bind fun now => ?_
  split
  · exact ((failClassifiedCredential_only _ _ _ _).mono fun _ => .task).bind fun _ => trivial
  · split_ifs with hharmony
    · unfold fallBackToOpendap
      refine (recordEventSafe_only hprov _ _ _).bind fun _ =>
        (only_perform.2 (.reroute hharmony)).bind fun rows => ?_
      split
      · trivial
      · exact only_perform.2 .enqueue
    · exact (hfail _).bind fun _ => trivial
    · exact (recordEventSafe_only hprov _ _ _).bind fun _ => (hfail _).bind fun _ => trivial
    · exact (hfail _).bind fun _ => trivial

theorem submitSucceeded_only (j : JobId) (spec : RequestSpec) (url : Option String) :
    (submitSucceeded j spec url).Only (SubmitSucceededOp j url) :=
  (transitionState_only .submitted).bind fun _ =>
    (recordEventSafe_only .provenance _ _ _).bind fun _ => only_perform.2 .enqueue

theorem submitJob_only (cfg : Settings) (j : JobId) : (submitJob cfg j).Only (SubmitOp j) := by
  unfold submitJob
  refine (only_perform.2 (.load _)).bind fun rows => withRow_only fun job spec => ?_
  unfold submitRow
  refine ((loadJobIdentity_only _ _ _ _).mono fun _ => .task).bind fun identity =>
    ((loadProvider_only _ _).mono fun _ => .task).bind fun _ =>
      (only_perform.2 (.submit _ _)).attempt.bind fun r => ?_
  split
  · exact (submitFailed_only _ _ _ _).mono fun _ => .failed
  · exact (submitSucceeded_only _ _ _).mono fun _ => .succeeded

/-- The operations of `pollJob`. -/
inductive PollOp (j : JobId) : Op → Prop
  | load (wanted) : PollOp j (.jobs (.transact (.getJob j) (failInvalidSpec wanted)))
  | task {o} (h : TaskOp j o) : PollOp j o
  | poll (p url token) : PollOp j (.provider (.poll j p url token))
  | apply (status) : PollOp j (.jobs (.transact (.getJob j) (applyStatus status)))
  | enqueueMaterialize : PollOp j (.queue (.enqueueJob .materializeJob j none 0))
  | enqueuePoll (d) : PollOp j (.queue (.enqueueJob .pollJob j none d))

theorem pollFailed_only (j : JobId) (spec : RequestSpec) (identity : Option Token) (e : Exn) :
    (pollFailed cfg j spec identity e).Only (TaskOp j) := by
  unfold pollFailed
  split_ifs
  · trivial
  · exact (only_perform.2 .now).bind fun _ => (failStage_only _ _ _ _ _).bind fun _ => trivial

theorem enqueueNext_only {φ : Op → Prop} {j : JobId}
    (hmat : φ (.queue (.enqueueJob .materializeJob j none 0)))
    (hpoll : φ (.queue (.enqueueJob .pollJob j none pollInterval))) (t : Option Task) :
    (enqueueNext j t).Only φ := by
  unfold enqueueNext
  split
  · exact only_perform.2 hmat
  · exact only_perform.2 hpoll
  · trivial

theorem pollOnce_only (cfg : Settings) (j : JobId) : (pollOnce cfg j).Only (PollOp j) := by
  unfold pollOnce
  refine (only_perform.2 (.load _)).bind fun rows => withRow_only fun job spec => ?_
  unfold pollRow pollProvider
  refine ((loadJobIdentity_only _ _ _ _).mono fun _ => .task).bind fun identity =>
    Only.bind (Only.attempt (((loadProvider_only _ _).mono fun _ => .task).bind fun _ =>
      only_perform.2 (.poll _ _ _))) fun r => ?_
  split
  · exact (pollFailed_only _ _ _ _).mono fun _ => .task
  · refine (only_perform.2 (.apply _)).bind fun rows => ?_
    split
    · trivial
    · exact enqueueNext_only .enqueueMaterialize (.enqueuePoll _) _

theorem pollJob_only (cfg : Settings) (j : JobId) : (pollJob cfg j).Only (PollOp j) := by
  unfold pollJob reraiseCancelled
  refine (pollOnce_only cfg j).attempt.bind fun r => ?_
  split
  · trivial
  · split_ifs
    · exact (only_perform.2 (.enqueuePoll _)).bind fun _ => trivial
    · exact (only_perform.2 (.enqueuePoll _)).bind fun _ => trivial
    · trivial

/-- The operations of `materializeJob` once the result is stored. -/
inductive DeliverOp (j : JobId) (credential : Option Credential) : Op → Prop
  | task {o} (h : TaskOp j o) : DeliverOp j credential o
  | read (q) : DeliverOp j credential (.jobs (.read q))
  | resolve (ws h key mediaType size contentDigest isPartial granuleCount) : DeliverOp j credential
      (.handles (.updateHandle ws h
        { status := some .ready, storageKey := some (some key), mediaType := some mediaType
          sizeBytes := some (some size), contentDigest, isPartial, granuleCount }))
  | ready (extra) (h : extra.providerJobUrl = none) : DeliverOp j credential
      (.jobs (.transact (.getJob j) (enterState .ready extra)))
  | sweep {o} (h : SweepOp o) : DeliverOp j credential o
  | prefetch {o} (h : PrefetchOp credential o) : DeliverOp j credential o

/-- The operations of `materializeJob`. -/
inductive MaterializeOp (j : JobId) : Op → Prop
  | load (wanted) : MaterializeOp j (.jobs (.transact (.getJob j) (failInvalidSpec wanted)))
  | deliver {c o} (h : DeliverOp j c o) : MaterializeOp j o
  | fetch (p url token) : MaterializeOp j (.provider (.fetch j p url token))
  | put (p h url name blob) :
      MaterializeOp j (.storage (.put (materializedKey p h url name) blob))

theorem afterReady_only (cfg : Settings) (j : JobId) (spec : RequestSpec) (job : Job) (size : ℕ) :
    (afterReady cfg spec job size).Only (DeliverOp j job.credentialEncrypted) :=
  (only_swallow ((sweep_only _ _).mono fun _ => .sweep)).bind fun _ =>
    only_swallow (only_map ((maybePrefetch_only _ _ _ _ _).mono fun _ => .prefetch))

theorem materializeDelivered_only (cfg : Settings) (j : JobId) (spec : RequestSpec) (job : Job)
    (key : Key) (out : Fetched) :
    (materializeDelivered cfg j spec job key out).Only (DeliverOp j job.credentialEncrypted) := by
  unfold materializeDelivered
  refine Only.bind ?_ fun _ => Only.bind ?_ fun _ =>
    (recordEventSafe_only (fun w => .task (.provenance w)) _ _ _).bind fun _ =>
      (transitionState_only (.ready _ rfl)).bind fun _ => afterReady_only _ _ _ _ _
  · unfold logMaterializationDrift
    split
    · trivial
    · exact only_swallow (only_map (only_perform.2 (.read _)))
  · unfold resolveHandle
    split
    · trivial
    · exact only_map (only_perform.2 (.resolve _ _ _ _ _ _ _ _))

theorem materializeFailed_only (j : JobId) (spec : RequestSpec) (identity : Option Token)
    (e : Exn) : (materializeFailed cfg j spec identity e).Only (TaskOp j) :=
  (only_perform.2 .now).bind fun _ => (failStage_only _ _ _ _ _).bind fun _ => trivial

theorem materializeJob_only (cfg : Settings) (j : JobId) :
    (materializeJob cfg j).Only (MaterializeOp j) := by
  have htask {o : Op} (h : TaskOp j o) : MaterializeOp j o :=
    .deliver (.task h : DeliverOp j none o)
  unfold materializeJob
  refine (only_perform.2 (.load _)).bind fun rows => withRow_only fun job spec => ?_
  unfold materializeRow providerMaterialize
  refine ((loadJobIdentity_only _ _ _ _).mono fun _ => htask).bind fun identity =>
    ((loadProvider_only _ _).mono fun _ => htask).bind fun _ =>
      Only.bind (Only.attempt ((only_perform.2 (.fetch _ _ _)).bind fun out =>
        only_map (only_perform.2 (.put _ _ _ _ _)))) fun r => ?_
  split
  · exact (materializeFailed_only _ _ _ _).mono fun _ => htask
  · exact (materializeDelivered_only _ _ _ _ _ _).mono fun _ => .deliver

/-- The operations of the two reclaim passes. -/
inductive ReclaimOp : Op → Prop
  | now : ReclaimOp .now
  | triage (q t) : ReclaimOp (.jobs (.transact q (triage t)))
  | resume (task j) : ReclaimOp (.queue (.enqueueJob task j (some (lifecycleJobId task j)) 0))
  | sweep {o} (h : SweepOp o) : ReclaimOp o

/-- The operations of a reclaim pass, without the sweep that follows it on boot. -/
inductive ResumeOp : Op → Prop
  | now : ResumeOp .now
  | triage (q t) : ResumeOp (.jobs (.transact q (triage t)))
  | resume (task j) : ResumeOp (.queue (.enqueueJob task j (some (lifecycleJobId task j)) 0))

theorem ResumeOp.reclaim {o : Op} (h : ResumeOp o) : ReclaimOp o := by
  cases h with
  | now => exact .now
  | triage q t => exact .triage q t
  | resume task j => exact .resume task j

theorem reclaim_resumes (q : JobQuery) (t : Time) : (reclaim q t).Only ResumeOp := by
  unfold reclaim
  refine (only_perform.2 (.triage q t)).bind fun rows => .forEach fun job _ => ?_
  unfold resumeOne
  split
  · trivial
  · exact only_perform.2 (.resume _ _)

theorem reclaim_only (q : JobQuery) (t : Time) : (reclaim q t).Only ReclaimOp :=
  (reclaim_resumes q t).mono fun _ => ResumeOp.reclaim

theorem startup_only (cfg : Settings) : (startup cfg).Only ReclaimOp :=
  (only_perform.2 .now).bind fun _ => (reclaim_only _ _).bind fun _ =>
    only_swallow ((sweep_only _ _).mono fun _ => .sweep)

theorem sweepStalledJobs_only (cfg : Settings) : (sweepStalledJobs cfg).Only ReclaimOp :=
  (only_perform.2 .now).bind fun _ => reclaim_only _ _

/-! ### The tools -/

/-- The operations of `cancelRetrieval`. -/
inductive CancelOp : Op → Prop
  | now : CancelOp .now
  | get (ws h) : CancelOp (.handles (.getHandle ws h))
  | cancelRow (h) : CancelOp (.jobs (.transact (.getJobByHandle h) cancelRow))
  | upstream (j p url token) : CancelOp (.provider (.cancel j p url token))

theorem attemptProviderCancel_only (row : Job) (token : Option Token) :
    (attemptProviderCancel row token).Only CancelOp := by
  unfold attemptProviderCancel
  split_ifs
  · trivial
  · split
    · trivial
    · refine Only.bind (Only.attempt ?_) fun r => ?_
      · unfold cancelUpstream
        split_ifs
        · trivial
        · exact only_perform.2 (.upstream _ _ _ _)
      · split
        · trivial
        · split_ifs <;> trivial

theorem cancelRetrieval_only (cfg : Settings) (ws : WorkspaceId) (h : HandleId)
    (token : Option Token) : (cancelRetrieval cfg ws h token).Only CancelOp := by
  unfold cancelRetrieval
  refine (only_perform.2 .now).bind fun now => ?_
  split
  · trivial
  · split_ifs
    · trivial
    · refine (only_perform.2 (.get _ _)).attempt.bind fun r => ?_
      split
      · trivial
      · trivial
      · trivial
      · refine (only_perform.2 (.cancelRow _)).bind fun rows => ?_
        split
        · trivial
        · split_ifs
          · trivial
          · exact only_map (attemptProviderCancel_only _ _)
          · trivial

/-- The operations of the tools that create a retrieval job. -/
inductive RetrievalOp (cfg : Settings) : Op → Prop
  | now : RetrievalOp cfg .now
  | planning (o) : RetrievalOp cfg (.planning o)
  | restriction (c) : RetrievalOp cfg (.access (.collectionRestriction c))
  | find (ws s) : RetrievalOp cfg (.handles (.findBySignature ws s))
  | get (ws h) : RetrievalOp cfg (.handles (.getHandle ws h))
  | promote (ws h) : RetrievalOp cfg (.handles (.updateHandle ws h { speculative := some false }))
  | pending (ws h) : RetrievalOp cfg (.handles (.updateHandle ws h { status := some .pending }))
  | insert (ws s) : RetrievalOp cfg (.handles (.insertUnique ws .obs
      { status := some .pending, signature := some s }))
  | mintObs (ws) : RetrievalOp cfg (.handles (.putHandle ws .obs { status := some .pending }))
  | mintJob (ws o d) : RetrievalOp cfg (.handles (.putHandle ws .job
      { obsHandle := o, datasetHandle := d }))
  | latest (h) : RetrievalOp cfg (.jobs (.read (.getJobByObsHandle h)))
  | create (new) (identity) (h : new.credentialEncrypted = storedCredential cfg identity)
      (hs : new.speculative = false) : RetrievalOp cfg (.jobs (.create new))
  | provenance (w) : RetrievalOp cfg (.provenance w)
  | enqueue (j) : RetrievalOp cfg (.queue (.enqueueJob .submitJob j none 0))

theorem reenqueueReplay_only (cfg : Settings) (ws : WorkspaceId) (h : HandleId) (job : Job)
    (identity : Option Token) : (reenqueueReplay cfg ws h job identity).Only (RetrievalOp cfg) :=
  (only_perform.2 (.mintJob _ _ _)).bind fun _ => (only_perform.2 (.pending _ _)).bind fun _ =>
    (only_perform.2 (.create _ identity rfl rfl)).bind fun _ =>
      (only_perform.2 (.provenance _)).bind fun _ =>
      only_map (only_perform.2 (.enqueue _))

theorem reuseResponseForMatch_only (cfg : Settings) (ws : WorkspaceId) (row : Handle)
    (identity : Option Token) :
    (reuseResponseForMatch cfg ws row identity).Only (RetrievalOp cfg) := by
  have hanswer (answer : RetrievalAnswer) : (reuseAnswer ws row answer).Only (RetrievalOp cfg) :=
    only_map (only_perform.2 (.provenance _))
  unfold reuseResponseForMatch promoteIfSpeculative
  refine Only.bind ?_ fun _ => (only_perform.2 (.latest _)).bind fun jobs => ?_
  · split_ifs
    · exact (only_perform.2 (.promote _ _)).bind fun _ => only_perform.2 (.provenance _)
    · trivial
  · split
    · trivial
    · exact (reenqueueReplay_only _ _ _ _ _).bind fun _ => hanswer _
    · exact hanswer _
    · trivial
    · split_ifs
      · trivial
      · exact hanswer _

theorem awaitReuse_only (cfg : Settings) (ws : WorkspaceId) (row : Handle)
    (identity : Option Token) (n : ℕ) : (awaitReuse cfg ws row identity n).Only (RetrievalOp cfg) := by
  induction n with
  | zero => trivial
  | succ n ih =>
    unfold awaitReuse
    refine (reuseResponseForMatch_only _ _ _ _).bind fun r => ?_
    split
    · trivial
    · exact ih

theorem createRetrieval_only (cfg : Settings) (ws : WorkspaceId) (r : ResolvedRequest)
    (plan : PlannedRetrieval) (h : HandleId) (identity : Option Token) :
    (createRetrieval cfg ws r plan h identity).Only (RetrievalOp cfg) :=
  (only_perform.2 (.provenance _)).bind fun _ => (only_perform.2 (.mintJob _ _ _)).bind fun _ =>
    (only_perform.2 (.create _ identity rfl rfl)).bind fun _ =>
      (only_perform.2 (.provenance _)).bind fun _ =>
      only_map (only_perform.2 (.enqueue _))

theorem planAndCreate_only (cfg : Settings) (ws : WorkspaceId) (r : ResolvedRequest)
    (signature : Option String) (identity : Option Token) :
    (planAndCreate cfg ws r signature identity).Only (RetrievalOp cfg) := by
  unfold planAndCreate putHandleUniqueSignature
  refine (only_perform.2 (.planning _)).bind fun plan => ?_
  split
  · exact (only_perform.2 (.mintObs _)).bind fun h => createRetrieval_only _ _ _ _ _ _
  · refine Only.bind ?_ fun (row, created) => ?_
    · refine (only_perform.2 (.insert _ _)).bind fun row => ?_
      split
      · trivial
      · refine (only_perform.2 (.find _ _)).bind fun row => ?_
        split <;> trivial
    · dsimp only
      split_ifs
      · exact createRetrieval_only _ _ _ _ _ _
      · refine (awaitReuse_only _ _ _ _ _).bind fun answer => ?_
        split
        · trivial
        · exact (only_perform.2 (.pending _ _)).bind fun _ => createRetrieval_only _ _ _ _ _ _

theorem submitNormalized_only (cfg : Settings) (ws : WorkspaceId) (request : RetrievalRequest)
    (dedupe : Bool) (now : Time) (identity : Option Token) :
    (submitNormalized cfg ws request dedupe now identity).Only (RetrievalOp cfg) := by
  unfold submitNormalized
  refine (only_perform.2 (.planning _)).bind fun (conceptId, bbox) =>
    (only_perform.2 (.planning _)).bind fun caps => ?_
  dsimp only
  split_ifs
  · refine Only.bind ?_ fun scope => ?_
    · unfold reuseIdentityScope
      split_ifs
      · trivial
      · refine (only_perform.2 (.restriction _)).bind fun flagged => ?_
        split_ifs <;> trivial
    · unfold checkReuse
      refine Only.bind ((only_perform.2 (.find _ _)).bind fun row => ?_) fun answer => ?_
      · split
        · trivial
        · exact reuseResponseForMatch_only _ _ _ _
      · split
        · trivial
        · exact planAndCreate_only _ _ _ _ _
  · exact planAndCreate_only _ _ _ _ _

theorem submitRetrieval_only (cfg : Settings) (ws : WorkspaceId) (request : RetrievalRequest)
    (dedupe : Bool) (token : Option Token) :
    (submitRetrieval cfg ws request dedupe token).Only (RetrievalOp cfg) := by
  unfold submitRetrieval
  refine (only_perform.2 .now).bind fun now => ?_
  split
  · trivial
  · split_ifs
    · trivial
    · split
      · trivial
      · exact submitNormalized_only _ _ _ _ _ _

theorem resolveCached_only {φ : Op → Prop} {ws : WorkspaceId} {h : HandleId}
    (hφ : φ (.handles (.getHandle ws h))) : (resolveCached ws h).Only φ := by
  unfold resolveCached
  refine (only_perform.2 hφ).attempt.bind fun r => ?_
  split <;> trivial

theorem rematerialize_only (cfg : Settings) (ws : WorkspaceId) (h : HandleId)
    (token : Option Token) : (rematerialize cfg ws h token).Only (RetrievalOp cfg) := by
  unfold rematerialize
  refine (only_perform.2 .now).bind fun now => ?_
  split
  · trivial
  · split_ifs
    · trivial
    · refine (resolveCached_only (.get _ _)).bind fun row => ?_
      split
      · trivial
      · refine (only_perform.2 (.latest _)).bind fun jobs => ?_
        split_ifs
        · trivial
        · split
          · trivial
          · exact only_map (reenqueueReplay_only _ _ _ _ _)
    · trivial

/-- The operations of `exportResult` and `pinResult`. -/
inductive ReadingOp : Op → Prop
  | now : ReadingOp .now
  | get (ws h) : ReadingOp (.handles (.getHandle ws h))
  | listHandles (ws type) : ReadingOp (.handles (.listHandles ws type))
  | touch (ws h) : ReadingOp (.handles (.touchHandle ws h))
  | pin (ws h b) : ReadingOp (.handles (.updateHandle ws h { pinned := some b }))
  | stat (k) : ReadingOp (.storage (.stat k))
  | uri (k) : ReadingOp (.storage (.uri k))

/-- The operations of `exportResult` alone. -/
inductive ExportOp : Op → Prop
  | now : ExportOp .now
  | get (ws h) : ExportOp (.handles (.getHandle ws h))
  | touch (ws h) : ExportOp (.handles (.touchHandle ws h))
  | stat (k) : ExportOp (.storage (.stat k))
  | uri (k) : ExportOp (.storage (.uri k))

theorem ExportOp.reading {o : Op} (h : ExportOp o) : ReadingOp o := by
  cases h with
  | now => exact .now
  | get ws h => exact .get ws h
  | touch ws h => exact .touch ws h
  | stat k => exact .stat k
  | uri k => exact .uri k

theorem exportResult_exports (ws : WorkspaceId) (h : HandleId) (token : Option Token) :
    (exportResult ws h token).Only ExportOp := by
  unfold exportResult
  refine (only_perform.2 .now).bind fun now => ?_
  split
  · trivial
  split
  · trivial
  refine (resolveCached_only (.get _ _)).bind fun row => ?_
  split
  · trivial
  split
  · trivial
  split
  · split
    · refine Only.bind ?_ fun size => (only_perform.2 (.uri _)).bind fun uri =>
        only_map (only_perform.2 (.touch _ _))
      unfold exportSize
      split
      · trivial
      · exact only_perform.2 (.stat _)
    · trivial
  · trivial

theorem exportResult_only (ws : WorkspaceId) (h : HandleId) (token : Option Token) :
    (exportResult ws h token).Only ReadingOp :=
  (exportResult_exports ws h token).mono fun _ => ExportOp.reading

theorem pinnedSizeOf_only (payload : Payload) : (pinnedSizeOf payload).Only ReadingOp := by
  unfold pinnedSizeOf
  split
  · trivial
  · trivial
  · refine (only_perform.2 (.stat _)).attempt.bind fun r => ?_
    split <;> trivial

theorem pinnedBytes_only (ws : WorkspaceId) (h : HandleId) :
    (pinnedBytes ws h).Only ReadingOp := by
  have hof (row : Handle) : (pinnedBytesOf h row).Only ReadingOp := by
    unfold pinnedBytesOf
    split_ifs
    · trivial
    · exact pinnedSizeOf_only _
  exact (only_perform.2 (.listHandles _ _)).bind fun _ => (Only.collect fun r _ => hof r).bind
    fun _ => (only_perform.2 (.listHandles _ _)).bind fun _ =>
      (Only.collect fun r _ => hof r).bind fun _ => trivial

theorem pinReady_only (cfg : Settings) (ws : WorkspaceId) (row : Handle) :
    (pinReady cfg ws row).Only ReadingOp := by
  unfold pinReady
  refine (pinnedBytes_only _ _).bind fun others => (pinnedSizeOf_only _).bind fun size => ?_
  split_ifs
  · trivial
  · exact only_map (only_perform.2 (.pin _ _ _))

theorem pinResult_only (cfg : Settings) (ws : WorkspaceId) (h : HandleId) (pinned : Bool)
    (token : Option Token) : (pinResult cfg ws h pinned token).Only ReadingOp := by
  unfold pinResult
  refine (only_perform.2 .now).bind fun now => ?_
  split
  · trivial
  · split_ifs
    · refine (resolveCached_only (.get _ _)).bind fun row => ?_
      split
      · trivial
      · split_ifs
        · trivial
        · exact pinReady_only _ _ _
        · trivial
    · refine (resolveCached_only (.get _ _)).bind fun row => ?_
      split
      · trivial
      · exact (only_perform.2 (.pin _ _ _)).bind fun _ => only_map (pinnedBytes_only _ _)
    · trivial

/-- The operations of `emitCube`. -/
inductive CubeOp (cfg : Settings) (cube : CubeResult) : Op → Prop
  | put : CubeOp cfg cube
      (.storage (.put (cube.storageKey cfg) { size := cube.size, bytes := cube.bytes }))
  | mint (ws) : CubeOp cfg cube (.handles (.putHandle ws .cube
      { status := some .ready, storageKey := some (cube.storageKey cfg)
        mediaType := some cube.mediaType }))
  | provenance (w) : CubeOp cfg cube (.provenance w)

theorem emitCube_only (cfg : Settings) (ws : WorkspaceId) (cube : CubeResult) :
    (emitCube cfg ws cube).Only (CubeOp cfg cube) :=
  (only_perform.2 .put).bind fun _ => (only_perform.2 (.mint ws)).bind fun _ =>
    (Only.forEach fun _ _ => only_perform.2 (.provenance _)).bind fun _ =>
      only_map (only_perform.2 (.provenance _))

/-! ### Every program -/

/-- The operations of a lifecycle task. -/
def Task.Touches : Task → JobId → Op → Prop
  | .submitJob => SubmitOp
  | .pollJob => PollOp
  | .materializeJob => MaterializeOp

/-- The operations of each origin's program. -/
inductive Origin.Touches (cfg : Settings) : Origin → Op → Prop
  | task {id t j o} (h : Task.Touches t j o) : Touches cfg (.task id t j) o
  | finish {id t j raised} : Touches cfg (.task id t j) (.queue (.finish id raised))
  | startup {o} (h : ReclaimOp o) : Touches cfg .startup o
  | sweepStalledJobs {o} (h : ReclaimOp o) : Touches cfg .sweepStalledJobs o
  | evictionSweep {svc p o} (h : SweepOp o) : Touches cfg (.evictionSweep svc p) o
  | retrieveSubset {ws r t o} (h : RetrievalOp cfg o) : Touches cfg (.retrieveSubset ws r t) o
  | retrieveData {ws r t o} (h : RetrievalOp cfg o) : Touches cfg (.retrieveData ws r t) o
  | rematerialize {ws h t o} (hop : RetrievalOp cfg o) : Touches cfg (.rematerialize ws h t) o
  | cancelRetrieval {ws h t o} (hop : CancelOp o) : Touches cfg (.cancelRetrieval ws h t) o
  | exportResult {ws h t o} (hop : ReadingOp o) : Touches cfg (.exportResult ws h t) o
  | pinResult {ws h p t o} (hop : ReadingOp o) : Touches cfg (.pinResult ws h p t) o
  | emitCube {ws cube o} (h : CubeOp cfg cube o) : Touches cfg (.emitCube ws cube) o

theorem taskProgram_only (cfg : Settings) (t : Task) (j : JobId) :
    (t.program cfg j).Only (t.Touches j) := by
  cases t with
  | submitJob => exact submitJob_only cfg j
  | pollJob => exact pollJob_only cfg j
  | materializeJob => exact materializeJob_only cfg j

/-- Every program stays within its footprint. -/
theorem Origin.program_only (cfg : Settings) (g : Origin) :
    (g.program cfg).Only (g.Touches cfg) := by
  cases g with
  | task id t j =>
    refine ((taskProgram_only cfg t j).mono fun _ => .task).attempt.bind fun r => ?_
    split
    · exact only_map (only_perform.2 .finish)
    · exact (only_perform.2 .finish).bind fun _ => trivial
  | startup => exact only_map ((startup_only cfg).mono fun _ => .startup)
  | sweepStalledJobs =>
    exact only_map ((sweepStalledJobs_only cfg).mono fun _ => .sweepStalledJobs)
  | evictionSweep svc p => exact only_map ((sweep_only svc p).mono fun _ => .evictionSweep)
  | retrieveSubset ws r t =>
    exact only_map ((submitRetrieval_only cfg ws _ _ t).mono fun _ => Touches.retrieveSubset)
  | retrieveData ws r t =>
    exact only_map ((submitRetrieval_only cfg ws _ _ t).mono fun _ => Touches.retrieveData)
  | rematerialize ws h t =>
    exact only_map ((rematerialize_only cfg ws h t).mono fun _ => Touches.rematerialize)
  | cancelRetrieval ws h t =>
    exact only_map ((cancelRetrieval_only cfg ws h t).mono fun _ => Touches.cancelRetrieval)
  | exportResult ws h t =>
    exact only_map ((exportResult_only ws h t).mono fun _ => Touches.exportResult)
  | pinResult ws h p t =>
    exact only_map ((pinResult_only cfg ws h p t).mono fun _ => Touches.pinResult)
  | emitCube ws cube => exact only_map ((emitCube_only cfg ws cube).mono fun _ => Touches.emitCube)

/-! ### The handles -/

/-- The operations on handles of all programs; `pins` says whether the program may pin. -/
inductive HandleUse (pins : Prop) : HandleOp → Prop
  | get (ws h) : HandleUse pins (.getHandle ws h)
  | find (ws s) : HandleUse pins (.findBySignature ws s)
  | listHandles (ws type) : HandleUse pins (.listHandles ws type)
  | select : HandleUse pins .selectEvictable
  | touch (ws h) : HandleUse pins (.touchHandle ws h)
  | expire (ws h) : HandleUse pins
      (.updateHandle ws h { status := some .expired, storageKey := some none })
  | pending (ws h) : HandleUse pins (.updateHandle ws h { status := some .pending })
  | resolve (ws h key mediaType size contentDigest isPartial granuleCount) : HandleUse pins
      (.updateHandle ws h
        { status := some .ready, storageKey := some (some key), mediaType := some mediaType
          sizeBytes := some (some size), contentDigest, isPartial, granuleCount })
  | promote (ws h) : HandleUse pins (.updateHandle ws h { speculative := some false })
  | pin (ws h b) (hp : pins) : HandleUse pins (.updateHandle ws h { pinned := some b })
  | insert (ws s speculative) : HandleUse pins (.insertUnique ws .obs
      { status := some .pending, speculative, signature := some s })
  | mintObs (ws) : HandleUse pins (.putHandle ws .obs { status := some .pending })
  | mintJob (ws o d) : HandleUse pins (.putHandle ws .job { obsHandle := o, datasetHandle := d })
  | mintCube (ws key mediaType) : HandleUse pins (.putHandle ws .cube
      { status := some .ready, storageKey := some key, mediaType := some mediaType })

section handles

variable {cfg : Settings} {pins : Prop} {x : HandleOp}

theorem SweepOp.handles (h : SweepOp (.handles x)) : HandleUse pins x := by
  cases h with
  | select => exact .select
  | expire ws h => exact .expire ws h

theorem PrefetchOp.handles {credential : Option Credential}
    (h : PrefetchOp credential (.handles x)) : HandleUse pins x := by
  cases h with
  | select => exact .select
  | find ws s => exact .find ws s
  | get ws h => exact .get ws h
  | insert ws s => exact .insert ws s true
  | mintJob ws o d => exact .mintJob ws o d

theorem Task.Touches.handles {t : Task} {j : JobId} (h : t.Touches j (.handles x)) :
    HandleUse pins x := by
  cases t with
  | submitJob =>
    cases h with
    | task h => cases h
    | failed h =>
      cases h with
      | task h => cases h
    | succeeded h => cases h
  | pollJob =>
    cases h with
    | task h => cases h
  | materializeJob =>
    cases h with
    | deliver h =>
      cases h with
      | task h => cases h
      | resolve ws h key mediaType size contentDigest isPartial granuleCount =>
        exact .resolve ws h key mediaType size contentDigest isPartial granuleCount
      | sweep h => exact h.handles
      | prefetch h => exact h.handles

theorem ReclaimOp.handles (h : ReclaimOp (.handles x)) : HandleUse pins x := by
  cases h with
  | sweep h => exact h.handles

theorem RetrievalOp.handles (h : RetrievalOp cfg (.handles x)) : HandleUse pins x := by
  cases h with
  | find ws s => exact .find ws s
  | get ws h => exact .get ws h
  | promote ws h => exact .promote ws h
  | pending ws h => exact .pending ws h
  | insert ws s => exact .insert ws s false
  | mintObs ws => exact .mintObs ws
  | mintJob ws o d => exact .mintJob ws o d

theorem ExportOp.handles (h : ExportOp (.handles x)) : HandleUse pins x := by
  cases h with
  | get ws h => exact .get ws h
  | touch ws h => exact .touch ws h

theorem ReadingOp.handles (hpins : pins) (h : ReadingOp (.handles x)) : HandleUse pins x := by
  cases h with
  | get ws h => exact .get ws h
  | listHandles ws type => exact .listHandles ws type
  | touch ws h => exact .touch ws h
  | pin ws h b => exact .pin ws h b hpins

theorem CubeOp.handles {cube : CubeResult} (h : CubeOp cfg cube (.handles x)) :
    HandleUse pins x := by
  cases h with
  | mint ws => exact .mintCube ws _ _

/-- Whatever a program does to handles, it does in one of these ways. -/
theorem Origin.Touches.handles {g : Origin} (h : g.Touches cfg (.handles x)) :
    HandleUse True x := by
  cases h with
  | task h => exact h.handles
  | startup h | sweepStalledJobs h => exact h.handles
  | evictionSweep h => exact h.handles
  | retrieveSubset h | retrieveData h | rematerialize h => exact h.handles
  | cancelRetrieval h =>
    cases h with
    | get ws h => exact .get ws h
  | exportResult h | pinResult h => exact h.handles trivial
  | emitCube h => exact h.handles

/-- Only `pinResult` pins. -/
theorem Origin.program_handles (cfg : Settings) (g : Origin) :
    (g.program cfg).Only fun o => ∀ x, o = Op.handles x →
      HandleUse (∃ ws h pinned token, g = .pinResult ws h pinned token) x := by
  by_cases hexport : ∃ ws h token, g = .exportResult ws h token
  · obtain ⟨ws, h, token, rfl⟩ := hexport
    refine only_map ((exportResult_exports ws h token).mono ?_)
    rintro _ ho x rfl
    exact ho.handles
  · refine (g.program_only cfg).mono ?_
    rintro _ ho x rfl
    cases ho with
    | task h => exact h.handles
    | startup h | sweepStalledJobs h => exact h.handles
    | evictionSweep h => exact h.handles
    | retrieveSubset h | retrieveData h | rematerialize h => exact h.handles
    | cancelRetrieval h =>
      cases h with
      | get ws h => exact .get ws h
    | exportResult h => exact absurd ⟨_, _, _, rfl⟩ hexport
    | pinResult h => exact h.handles ⟨_, _, _, _, rfl⟩
    | emitCube h => exact h.handles

end handles

/-! ### The jobs -/

/-- The transactions of all programs on job rows. -/
inductive LifecycleEdit : Edit → Prop
  | load (wanted) : LifecycleEdit (failInvalidSpec wanted)
  | enter (new extra) : LifecycleEdit (enterState new extra)
  | reroute : LifecycleEdit rerouteToOpendap
  | apply (status) : LifecycleEdit (applyStatus status)
  | cancel : LifecycleEdit cancelRow
  | expire : LifecycleEdit expireReady
  | triage (staleBefore) : LifecycleEdit (triage staleBefore)

/-- The operations on jobs of all programs; `guesses` says whether the program may create
speculative ones. -/
inductive JobUse (guesses : Prop) : JobOp → Prop
  | read (q) : JobUse guesses (.read q)
  | transact (q) {edit} (h : LifecycleEdit edit) : JobUse guesses (.transact q edit)
  | request (new) (h : new.speculative = false) : JobUse guesses (.create new)
  | guess (new) (hg : guesses) (h : new.speculative = true) : JobUse guesses (.create new)

section jobs

variable {cfg : Settings} {guesses : Prop} {x : JobOp}

theorem SweepOp.jobs (h : SweepOp (.jobs x)) : JobUse guesses x := by
  cases h with
  | costs hs => exact .read _
  | expireJob h => exact .transact _ .expire

theorem TaskOp.jobs {j : JobId} (h : TaskOp j (.jobs x)) : JobUse guesses x := by
  cases h with
  | fail error => exact .transact _ (.enter _ _)

theorem PrefetchOp.jobs {credential : Option Credential} (hg : guesses)
    (h : PrefetchOp credential (.jobs x)) : JobUse guesses x := by
  cases h with
  | read q => exact .read q
  | create new h hs => exact .guess new hg hs

theorem Task.Touches.jobs {t : Task} {j : JobId} (hg : t = .materializeJob → guesses)
    (h : t.Touches j (.jobs x)) : JobUse guesses x := by
  cases t with
  | submitJob =>
    cases h with
    | load wanted => exact .transact _ (.load wanted)
    | task h => exact h.jobs
    | failed h =>
      cases h with
      | task h => exact h.jobs
      | reroute h => exact .transact _ .reroute
    | succeeded h =>
      cases h with
      | submitted => exact .transact _ (.enter _ _)
  | pollJob =>
    cases h with
    | load wanted => exact .transact _ (.load wanted)
    | task h => exact h.jobs
    | apply status => exact .transact _ (.apply status)
  | materializeJob =>
    cases h with
    | load wanted => exact .transact _ (.load wanted)
    | deliver h =>
      cases h with
      | task h => exact h.jobs
      | read q => exact .read q
      | ready extra h => exact .transact _ (.enter _ _)
      | sweep h => exact h.jobs
      | prefetch h => exact h.jobs (hg rfl)

theorem ReclaimOp.jobs (h : ReclaimOp (.jobs x)) : JobUse guesses x := by
  cases h with
  | triage q t => exact .transact q (.triage t)
  | sweep h => exact h.jobs

theorem RetrievalOp.jobs (h : RetrievalOp cfg (.jobs x)) : JobUse guesses x := by
  cases h with
  | latest h => exact .read _
  | create new identity h hs => exact .request new hs

/-- Whatever a program does to jobs, it does in one of these ways; only a materialization
creates speculative ones. -/
theorem Origin.Touches.jobs {g : Origin} (h : g.Touches cfg (.jobs x)) :
    JobUse (∃ id j, g = .task id .materializeJob j) x := by
  cases h with
  | @task id t j o h => exact h.jobs fun ht => ⟨id, j, by rw [ht]⟩
  | startup h | sweepStalledJobs h => exact h.jobs
  | evictionSweep h => exact h.jobs
  | retrieveSubset h | retrieveData h | rematerialize h => exact h.jobs
  | cancelRetrieval h =>
    cases h with
    | cancelRow h => exact .transact _ .cancel
  | exportResult h | pinResult h => cases h
  | emitCube h => cases h

end jobs

end EarthdataMcp
