import EarthdataMcp.Concurrency.Machine
import EarthdataMcp.Jobs.Table
import EarthdataMcp.Jobs.Queue
import EarthdataMcp.Workspace.Store

/-!
# The world of the server and its operations

Everything the tools and the worker share (the two Postgres tables, the storage, the task
queue, the recorded access restrictions) and the services they call.  Each operation is one
database transaction, one storage call, one queue call or one call of an outside service.

* `Op`, its answers `Op.Ans`, and `Api`, the interface programs are written against;
* `World`, with `calls`, the record of every call made to a retrieval provider;
* `Choice`, what is left open by the world: faults and the answers of outside services;
* `World.exec`.
-/

namespace EarthdataMcp

/-! ### Outside services -/

/-- What a provider reports about a downloaded result. -/
structure Fetched where
  name : String
  mediaType : String
  sizeBytes : ℕ
  granuleIds : Option (List String) := none
  serviceChain : Option (List String) := none
  bytes : String := ""
  deriving DecidableEq, Repr

/-- The collection's capabilities, as far as the modelled functions read them. -/
structure Capabilities where
  accessRestricted : Option Bool := none
  outputShape : String := "grid"
  shortName : Option String := none
  deriving DecidableEq, Repr

/-- What planning a retrieval decides: the path and the outputs of granule discovery. -/
structure PlannedRetrieval where
  path : Provider
  opendapUrls : List String := []
  variableNames : List String := []
  deriving DecidableEq, Repr

/-- What a fresh planning pass says about a predicted window. -/
structure WindowPlan where
  spec : Option RequestSpec
  accessRestricted : Option Bool := none
  deriving DecidableEq, Repr

/-- A retrieval as a tool is asked for it. -/
structure RetrievalRequest where
  datasetHandle : HandleId
  aoiHandle : Option HandleId
  timeRange : String
  variableNames : List String
  outputFormat : Option String
  needsPointSample : Bool := false
  deriving DecidableEq, Repr

/-- The calls of a retrieval provider, made for a job; `token` is the per-call identity, and
`none` the environment's own credential. -/
inductive ProviderOp
  | submit (job : JobId) (spec : RequestSpec) (token : Option Token)
  | poll (job : JobId) (provider : Provider) (url : Option String) (token : Option Token)
  | fetch (job : JobId) (provider : Provider) (url : Option String) (token : Option Token)
  | cancel (job : JobId) (provider : Provider) (url : Option String) (token : Option Token)

/-- `submit` answers the `provider_job_url` of the job it created. -/
@[reducible] def ProviderOp.Ans : ProviderOp → Type
  | submit _ _ _ => Option String
  | poll _ _ _ _ => JobStatus
  | fetch _ _ _ _ => Fetched
  | cancel _ _ _ _ => Unit

/-- The record of a provider call. -/
inductive Call
  | submit (job : JobId) (provider : Provider) (token : Option Token)
  /-- The provider has created an upstream job. -/
  | created (job : JobId) (provider : Provider) (url : String)
  | poll (job : JobId) (provider : Provider) (token : Option Token)
  | fetch (job : JobId) (provider : Provider) (token : Option Token)
  | cancel (job : JobId) (provider : Provider) (url : Option String) (token : Option Token)
  deriving DecidableEq, Repr

/-- The record a call leaves, whatever comes of it. -/
def ProviderOp.call : ProviderOp → Call
  | submit j spec token => .submit j spec.provider token
  | poll j p _ token => .poll j p token
  | fetch j p _ token => .fetch j p token
  | cancel j p url token => .cancel j p url token

/-- The services consulted while a request is planned. -/
inductive PlanningOp
  | resolveHandles (ws : WorkspaceId) (request : RetrievalRequest)
  | collectionCapabilities (conceptId : Option String) (token : Option Token)
  | planRetrieval (request : RetrievalRequest) (token : Option Token)
  | planWindow (predicted : RequestSpec) (token : Option Token)

@[reducible] def PlanningOp.Ans : PlanningOp → Type
  | resolveHandles _ _ => String × Option Bbox
  | collectionCapabilities _ _ => Capabilities
  | planRetrieval _ _ => PlannedRetrieval
  | planWindow _ _ => WindowPlan

/-- The durable memory of observed access restrictions. -/
inductive AccessOp
  | collectionRestriction (conceptId : String)
  | markCollectionRestricted (conceptId : String)

@[reducible] def AccessOp.Ans : AccessOp → Type
  | collectionRestriction _ => Option Bool
  | markCollectionRestricted _ => Unit

/-- First-class provenance events. -/
inductive ProvenanceEventType
  | created
  | routed
  | submitted
  | providerFallback
  | opendapNotApplicable
  | jobFailed
  | materialized
  | expired
  | reMaterialized
  | reused
  | prefetched
  | promoted
  deriving DecidableEq, Repr

/-- What is written to the provenance tables: an event on a handle, or an edge.  No modelled
function reads them back. -/
inductive ProvenanceWrite
  | event (ws : WorkspaceId) (handle : HandleId) (type : ProvenanceEventType)
  | edge (ws : WorkspaceId) (target source : HandleId)

/-! ### Operations -/

/-- Every operation of the server. -/
inductive Op
  | now
  | jobs (o : JobOp)
  | handles (o : HandleOp)
  | storage (o : StorageOp)
  | queue (o : QueueOp)
  | provider (o : ProviderOp)
  | planning (o : PlanningOp)
  | access (o : AccessOp)
  | provenance (write : ProvenanceWrite)
  /-- The in-process timer of the orphan pass: whether it is due, and restart it if so. -/
  | orphanSweepDue (interval : Time)

/-- What each operation answers. -/
@[reducible] def Op.Ans : Op → Type
  | now => Time
  | jobs o => o.Ans
  | handles o => o.Ans
  | storage o => o.Ans
  | queue o => o.Ans
  | provider o => o.Ans
  | planning o => o.Ans
  | access o => o.Ans
  | provenance _ => Unit
  | orphanSweepDue _ => Bool

/-- The interface the programs of the server are written against. -/
abbrev Api : Concurrency.Interface where
  Op := Op
  Ans := Op.Ans
  Err := Exn

/-- Programs of the server. -/
abbrev Program (α : Type) := Concurrency.Prog Api α

export Concurrency.Prog (attempt forEach collect)

/-- Perform one operation. -/
abbrev perform (o : Op) : Program o.Ans := @Concurrency.Prog.perform Api o

/-- Raise an exception. -/
abbrev raise {α : Type} (e : Exn) : Program α := @Concurrency.Prog.raise Api α e

/-- The shared state. -/
structure World where
  clock : Time := 0
  jobs : JobTable := {}
  handles : HandleTable := {}
  storage : BlobStore := {}
  queue : Queue := {}
  restricted : List String := []
  orphanSweptAt : Option Time := none
  calls : List Call := []

/-- What the world leaves open about an operation. -/
inductive Choice
  /-- The operation takes effect. -/
  | ok
  /-- It raises, without effect. -/
  | fault (e : Exn)
  /-- A submit raises although the provider has created the job. -/
  | lost (url : String) (e : Exn)
  /-- The queue tries a task that raised again. -/
  | again
  | submitted (url : String)
  | polled (payload : StatusPayload)
  | fetched (result : Fetched)
  | resolved (conceptId : String) (bbox : Option Bbox)
  | capabilities (caps : Capabilities)
  | planned (plan : PlannedRetrieval)
  | window (plan : WindowPlan)

/-- The answer of a provider, where the choice fits the call.  Every provider answers a submit
with a URL that is not empty: of a status page, of a task, of the granules of a plan that has
some.  OPeNDAP is synchronous, its poll is answered at once. -/
def ProviderOp.answer : (o : ProviderOp) → Choice → Option (Except Exn o.Ans)
  | submit _ _ _, .submitted url => if url = "" then none else some (.ok (some url))
  | submit _ _ _, .lost _ e => some (.error e)
  | poll _ .harmony _ _, .polled (.harmony raw) => some (.ok (Harmony.toJobStatus raw))
  | poll _ .appeears _ _, .polled (.appeears raw) => some (.ok (Appeears.toJobStatus raw))
  | poll _ .opendap _ _, .ok => some (.ok { state := .ready, progress := 100 })
  | fetch _ _ _ _, .fetched result => some (.ok result)
  | cancel _ _ _ _, .ok => some (.ok ())
  | _, .fault e => some (.error e)
  | _, _ => none

/-- What the call leaves in the record besides itself. -/
def ProviderOp.creates : ProviderOp → Choice → List Call
  | submit j spec _, .submitted url => [.created j spec.provider url]
  | submit j spec _, .lost url _ => [.created j spec.provider url]
  | _, _ => []

/-- The answer of a planning service, where the choice fits the call. -/
def PlanningOp.answer : (o : PlanningOp) → Choice → Option (Except Exn o.Ans)
  | resolveHandles _ _, .resolved conceptId bbox => some (.ok (conceptId, bbox))
  | collectionCapabilities _ _, .capabilities caps => some (.ok caps)
  | planRetrieval _ _, .planned plan => some (.ok plan)
  | planWindow _ _, .window plan => some (.ok plan)
  | _, .fault e => some (.error e)
  | _, _ => none

/-- The effect of an operation, where the choice fits it. -/
def World.exec (w : World) : (o : Op) → Choice → Option (Except Exn o.Ans × World)
  | .now, .ok => some (.ok w.clock, w)
  | .jobs o, .ok =>
      some ((w.jobs.exec w.clock o).1, { w with jobs := (w.jobs.exec w.clock o).2 })
  | .jobs _, .fault e => some (.error e, w)
  | .handles o, .ok =>
      some ((w.handles.exec w.clock o).1, { w with handles := (w.handles.exec w.clock o).2 })
  | .handles _, .fault e => some (.error e, w)
  | .storage o, .ok => some ((w.storage.exec o).1, { w with storage := (w.storage.exec o).2 })
  | .storage _, .fault e => some (.error e, w)
  | .queue o, .ok => some (.ok (), { w with queue := w.queue.exec w.clock false o })
  | .queue (.finish id raised), .again =>
      some (.ok (), { w with queue := w.queue.exec w.clock true (.finish id raised) })
  | .queue (.enqueueJob _ _ _ _), .fault e => some (.error e, w)
  | .provider o, c =>
      match o.answer c with
      | some a => some (a, { w with calls := w.calls ++ o.call :: o.creates c })
      | none => none
  | .planning o, c =>
      match o.answer c with
      | some a => some (a, w)
      | none => none
  | .access (.collectionRestriction conceptId), .ok =>
      some (.ok (if conceptId ∈ w.restricted then some true else none), w)
  | .access (.markCollectionRestricted conceptId), .ok =>
      some (.ok (), { w with restricted := conceptId :: w.restricted })
  | .access _, .fault e => some (.error e, w)
  | .provenance _, .ok => some (.ok (), w)
  | .provenance _, .fault e => some (.error e, w)
  | .orphanSweepDue interval, .ok =>
      match w.orphanSweptAt with
      | some last =>
          if w.clock - last < interval then some (.ok false, w)
          else some (.ok true, { w with orphanSweptAt := some w.clock })
      | none => some (.ok true, { w with orphanSweptAt := some w.clock })
  | _, _ => none

/-- The query whose rows an operation hands out. -/
def Op.query : Op → Option JobQuery
  | .jobs (.read q) => some q
  | .jobs (.transact q _) => some q
  | _ => none

/-- The rows an operation has handed out. -/
def Op.rowsRead : (o : Op) → Except Exn o.Ans → List Job
  | .jobs (.read _), .ok rows => rows
  | .jobs (.transact _ _), .ok rows => rows
  | _, _ => []

/-- Every row handed out is one the query asks for. -/
def Op.Told (o : Op) (a : Except Exn o.Ans) : Prop :=
  ∀ q ∈ o.query, ∀ row ∈ o.rowsRead a, q.Matches row

/-! ### What each operation does -/

namespace World

section effect

attribute [local simp] exec

variable {w w' : World} {c : Choice}

theorem exec_now {a : Except Exn Time} (h : w.exec .now c = some (a, w')) :
    a = .ok w.clock ∧ w' = w := by
  cases c <;> simp [exec] at h
  exact ⟨h.1.symm, h.2.symm⟩

/-- A transaction takes effect, or raises without effect. -/
theorem exec_jobs {o : JobOp} {a : Except Exn o.Ans} (h : w.exec (.jobs o) c = some (a, w')) :
    c = .ok ∧ a = (w.jobs.exec w.clock o).1 ∧ w' = { w with jobs := (w.jobs.exec w.clock o).2 } ∨
      ∃ e, a = .error e ∧ w' = w := by
  cases c <;> simp [exec] at h
  · exact Or.inl ⟨rfl, h.1.symm, h.2.symm⟩
  · exact Or.inr ⟨_, h.1.symm, h.2.symm⟩

/-- A transaction commits what it has made of the rows it selects, or it raises. -/
theorem exec_transact {q : JobQuery} {edit : Edit} {a : Except Exn (List Job)}
    (h : w.exec (.jobs (.transact q edit)) c = some (a, w')) :
    firstError w.clock edit (q.select w.jobs.rows) = none ∧ a = .ok (q.select w.jobs.rows) ∧
        w' = { w with jobs := (w.jobs.exec w.clock (.transact q edit)).2 } ∨
      ∃ e, a = .error e ∧ w' = w := by
  rcases exec_jobs h with ⟨-, ha, hw⟩ | hfailed
  · cases hfirst : firstError w.clock edit (q.select w.jobs.rows) with
    | none => exact Or.inl ⟨rfl, by rw [ha]; simp only [JobTable.exec, hfirst], hw⟩
    | some e =>
      simp only [JobTable.exec, hfirst] at ha hw
      exact Or.inr ⟨e, ha, hw⟩
  · exact Or.inr hfailed

theorem exec_handles {o : HandleOp} {a : Except Exn o.Ans}
    (h : w.exec (.handles o) c = some (a, w')) :
    c = .ok ∧ a = (w.handles.exec w.clock o).1 ∧
        w' = { w with handles := (w.handles.exec w.clock o).2 } ∨
      ∃ e, a = .error e ∧ w' = w := by
  cases c <;> simp [exec] at h
  · exact Or.inl ⟨rfl, h.1.symm, h.2.symm⟩
  · exact Or.inr ⟨_, h.1.symm, h.2.symm⟩

theorem exec_storage {o : StorageOp} {a : Except Exn o.Ans}
    (h : w.exec (.storage o) c = some (a, w')) :
    c = .ok ∧ a = (w.storage.exec o).1 ∧ w' = { w with storage := (w.storage.exec o).2 } ∨
      ∃ e, a = .error e ∧ w' = w := by
  cases c <;> simp [exec] at h
  · exact Or.inl ⟨rfl, h.1.symm, h.2.symm⟩
  · exact Or.inr ⟨_, h.1.symm, h.2.symm⟩

/-- An enqueue may raise without effect; the end of a task is always noted. -/
theorem exec_queue {o : QueueOp} {a : Except Exn o.Ans}
    (h : w.exec (.queue o) c = some (a, w')) :
    (∃ again, (again = true → ∃ id raised, o = .finish id raised ∧ c = .again) ∧ a = .ok () ∧
        w' = { w with queue := w.queue.exec w.clock again o }) ∨
      ∃ e, a = .error e ∧ w' = w := by
  cases o <;> cases c <;> simp [exec] at h
  · exact Or.inl ⟨false, by simp, h.1.symm, h.2.symm⟩
  · exact Or.inr ⟨_, h.1.symm, h.2.symm⟩
  · exact Or.inl ⟨false, by simp, h.1.symm, h.2.symm⟩
  · exact Or.inl ⟨true, fun _ => ⟨_, _, rfl, rfl⟩, h.1.symm, h.2.symm⟩

/-- Every call is recorded, whatever comes of it. -/
theorem exec_provider {o : ProviderOp} {a : Except Exn o.Ans}
    (h : w.exec (.provider o) c = some (a, w')) :
    o.answer c = some a ∧ w' = { w with calls := w.calls ++ o.call :: o.creates c } := by
  simp only [exec] at h
  split at h
  · rename_i b hb
    simp only [Option.some.injEq, Prod.mk.injEq] at h
    exact ⟨hb.trans (congrArg some h.1), h.2.symm⟩
  · cases h

theorem exec_planning {o : PlanningOp} {a : Except Exn o.Ans}
    (h : w.exec (.planning o) c = some (a, w')) : o.answer c = some a ∧ w' = w := by
  simp only [exec] at h
  split at h
  · rename_i b hb
    simp only [Option.some.injEq, Prod.mk.injEq] at h
    exact ⟨hb.trans (congrArg some h.1), h.2.symm⟩
  · cases h

theorem exec_access {o : AccessOp} {a : Except Exn o.Ans}
    (h : w.exec (.access o) c = some (a, w')) :
    ∃ names, w' = { w with restricted := names } := by
  cases o <;> cases c <;> simp [exec] at h <;> obtain ⟨-, rfl⟩ := h <;> exact ⟨_, rfl⟩

theorem exec_provenance {write : ProvenanceWrite} {a : Except Exn Unit}
    (h : w.exec (.provenance write) c = some (a, w')) : w' = w := by
  cases c <;> simp [exec] at h <;> exact h.2.symm

theorem exec_orphanSweepDue {n : Time} {a : Except Exn Bool}
    (h : w.exec (.orphanSweepDue n) c = some (a, w')) :
    ∃ last, w' = { w with orphanSweptAt := last } := by
  cases c <;> simp [exec] at h
  split at h
  · split_ifs at h <;> simp only [Option.some.injEq, Prod.mk.injEq] at h <;>
      obtain ⟨-, rfl⟩ := h <;> exact ⟨_, rfl⟩
  · simp only [Option.some.injEq, Prod.mk.injEq] at h
    obtain ⟨-, rfl⟩ := h
    exact ⟨_, rfl⟩

end effect

/-! ### What each operation leaves alone -/

section frame

variable {w w' : World} {o : Op} {c : Choice} {a : Except Exn o.Ans}

/-- Only an operation on a table changes it, and only a call extends the record. -/
theorem exec_frame (h : w.exec o c = some (a, w')) :
    w'.clock = w.clock ∧
    ((∀ jo, o ≠ .jobs jo) → w'.jobs = w.jobs) ∧
    ((∀ ho, o ≠ .handles ho) → w'.handles = w.handles) ∧
    ((∀ so, o ≠ .storage so) → w'.storage = w.storage) ∧
    ((∀ qo, o ≠ .queue qo) → w'.queue = w.queue) ∧
    ((∀ po, o ≠ .provider po) → w'.calls = w.calls) := by
  cases o with
  | now => obtain ⟨-, rfl⟩ := exec_now h; simp
  | jobs jo => rcases exec_jobs h with ⟨-, -, rfl⟩ | ⟨e, -, rfl⟩ <;> simp
  | handles ho => rcases exec_handles h with ⟨-, -, rfl⟩ | ⟨e, -, rfl⟩ <;> simp
  | storage so => rcases exec_storage h with ⟨-, -, rfl⟩ | ⟨e, -, rfl⟩ <;> simp
  | queue qo => rcases exec_queue h with ⟨g, -, -, rfl⟩ | ⟨e, -, rfl⟩ <;> simp
  | provider po => obtain ⟨-, rfl⟩ := exec_provider h; simp
  | planning po => obtain ⟨-, rfl⟩ := exec_planning h; simp
  | access ao => obtain ⟨names, rfl⟩ := exec_access h; simp
  | provenance write => obtain rfl := exec_provenance h; simp
  | orphanSweepDue n => obtain ⟨last, rfl⟩ := exec_orphanSweepDue h; simp

theorem exec_clock (h : w.exec o c = some (a, w')) : w'.clock = w.clock := (exec_frame h).1

theorem exec_jobs_eq_self (h : w.exec o c = some (a, w')) (ho : ∀ jo, o ≠ .jobs jo) :
    w'.jobs = w.jobs := (exec_frame h).2.1 ho

theorem exec_handles_eq_self (h : w.exec o c = some (a, w')) (ho : ∀ x, o ≠ .handles x) :
    w'.handles = w.handles := (exec_frame h).2.2.1 ho

theorem exec_storage_eq_self (h : w.exec o c = some (a, w')) (ho : ∀ x, o ≠ .storage x) :
    w'.storage = w.storage := (exec_frame h).2.2.2.1 ho

theorem exec_queue_eq_self (h : w.exec o c = some (a, w')) (ho : ∀ x, o ≠ .queue x) :
    w'.queue = w.queue := (exec_frame h).2.2.2.2.1 ho

theorem exec_calls_eq_self (h : w.exec o c = some (a, w')) (ho : ∀ x, o ≠ .provider x) :
    w'.calls = w.calls := (exec_frame h).2.2.2.2.2 ho

theorem exec_numbered (he : w.exec o c = some (a, w')) (hw : w.handles.Numbered) :
    w'.handles.Numbered := by
  by_cases ho : ∃ ho, o = .handles ho
  · obtain ⟨ho, rfl⟩ := ho
    rcases exec_handles he with ⟨-, -, rfl⟩ | ⟨e, -, rfl⟩
    · exact hw.exec _ _
    · exact hw
  · rw [exec_handles_eq_self he fun x hx => ho ⟨x, hx⟩]
    exact hw

end frame

/-! ### What a thread is told -/

/-- What is handed out are rows of the table. -/
theorem rowsRead_mem {w w' : World} {o : Op} {c : Choice} {a : Except Exn o.Ans}
    (h : w.exec o c = some (a, w')) {row : Job} (hrow : row ∈ o.rowsRead a) :
    row ∈ w.jobs.rows ∧ ∀ q ∈ o.query, q.Matches row := by
  unfold Op.rowsRead at hrow
  split at hrow
  · rename_i q rows
    rcases exec_jobs h with ⟨-, ha, -⟩ | ⟨e, ha, -⟩
    · obtain rfl : rows = q.select w.jobs.rows := Except.ok.inj ha
      refine ⟨JobQuery.mem_of_select hrow, fun q' hq' => ?_⟩
      obtain rfl : q = q' := Option.some.inj hq'
      exact JobQuery.matches_of_select hrow
    · cases ha
  · rename_i q edit rows
    rcases exec_jobs h with ⟨-, ha, -⟩ | ⟨e, ha, -⟩
    · simp only [JobTable.exec] at ha
      split at ha
      · cases ha
      · obtain rfl : rows = q.select w.jobs.rows := Except.ok.inj ha
        refine ⟨JobQuery.mem_of_select hrow, fun q' hq' => ?_⟩
        obtain rfl : q = q' := Option.some.inj hq'
        exact JobQuery.matches_of_select hrow
    · cases ha
  · cases hrow

theorem told {w w' : World} {o : Op} {c : Choice} {a : Except Exn o.Ans}
    (h : w.exec o c = some (a, w')) : o.Told a :=
  fun q hq _ hrow => (rowsRead_mem h hrow).2 q hq

end World

end EarthdataMcp
