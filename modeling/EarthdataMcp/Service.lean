import EarthdataMcp.Tools.Export

/-!
# The service

The tools and the worker as one system of threads: callers invoke tools, a worker takes tasks
off the queue, time passes, and every thread performs its operations one by one.

* `Origin`, everything that can be running; `Origin.program`;
* `Service.env`: time passes, a queued task is taken, a tool or a periodic pass is called;
* `service cfg`, the system, from the empty world.
-/

namespace EarthdataMcp

open Concurrency (System)

/-- Everything that can be running. -/
inductive Origin
  | task (id : ArqId) (task : Task) (job : JobId)
  | startup
  | sweepStalledJobs
  | evictionSweep (svc : EvictionService) (protectedHandle : Option HandleId)
  | retrieveSubset (ws : WorkspaceId) (request : RetrievalRequest) (token : Option Token)
  | retrieveData (ws : WorkspaceId) (request : RetrievalRequest) (token : Option Token)
  | rematerialize (ws : WorkspaceId) (h : HandleId) (token : Option Token)
  | cancelRetrieval (ws : WorkspaceId) (jobHandle : HandleId) (token : Option Token)
  | exportResult (ws : WorkspaceId) (h : HandleId) (token : Option Token)
  | pinResult (ws : WorkspaceId) (h : HandleId) (pinned : Bool) (token : Option Token)
  | emitCube (ws : WorkspaceId) (cube : CubeResult)

/-- What a thread ends with. -/
inductive Outcome
  | done
  | retrieval (answer : RetrievalAnswer)
  | rematerialize (answer : RematerializeAnswer)
  | cancel (answer : CancelAnswer)
  | exported (answer : ExportAnswer)
  | pin (answer : PinAnswer)
  | cube (h : HandleId)
  deriving DecidableEq, Repr

/-- The lifecycle tasks by name. -/
def Task.program (cfg : Settings) : Task → JobId → Program Unit
  | .submitJob => EarthdataMcp.submitJob cfg
  | .pollJob => EarthdataMcp.pollJob cfg
  | .materializeJob => EarthdataMcp.materializeJob cfg

/-- A worker runs a task it has taken; however it ends, the queue is told. -/
def runTask (id : ArqId) (p : Program Unit) : Program Outcome := do
  match ← attempt p with
  | .ok _ => do
      perform (.queue (.finish id false))
      pure .done
  | .error e => do
      perform (.queue (.finish id true))
      raise e

/-- The program behind each origin. -/
def Origin.program (cfg : Settings) : Origin → Program Outcome
  | task id t j => runTask id (t.program cfg j)
  | startup => do EarthdataMcp.startup cfg; pure .done
  | sweepStalledJobs => do EarthdataMcp.sweepStalledJobs cfg; pure .done
  | evictionSweep svc protectedHandle => do svc.sweep protectedHandle; pure .done
  | retrieveSubset ws request token => do
      let answer ← EarthdataMcp.retrieveSubset cfg ws request token
      pure (.retrieval answer)
  | retrieveData ws request token => do
      let answer ← EarthdataMcp.retrieveData cfg ws request token
      pure (.retrieval answer)
  | rematerialize ws h token => do
      let answer ← EarthdataMcp.rematerialize cfg ws h token
      pure (.rematerialize answer)
  | cancelRetrieval ws jobHandle token => do
      let answer ← EarthdataMcp.cancelRetrieval cfg ws jobHandle token
      pure (.cancel answer)
  | exportResult ws h token => do
      let answer ← EarthdataMcp.exportResult ws h token
      pure (.exported answer)
  | pinResult ws h pinned token => do
      let answer ← EarthdataMcp.pinResult cfg ws h pinned token
      pure (.pin answer)
  | emitCube ws cube => do
      let h ← EarthdataMcp.emitCube cfg ws cube
      pure (.cube h)

/-- The origin is a task, which only a worker starts. -/
def Origin.isTask : Origin → Bool
  | task _ _ _ => true
  | _ => false

/-- The steps of the environment. -/
inductive EnvStep
  /-- Time passes. -/
  | tick (d : Time)
  /-- A worker takes a queued task that is due. -/
  | take (id : ArqId)
  /-- A tool is called, or a periodic pass begins. -/
  | call (g : Origin)

/-- The effect of a step of the environment, and the threads it starts. -/
def EnvStep.exec (w : World) : EnvStep → Option (World × List Origin)
  | tick d => some ({ w with clock := w.clock + d }, [])
  | take id =>
      match w.queue.entries.find? fun entry => entry.id = id with
      | none => none
      | some entry =>
          if entry.running = false ∧ entry.due ≤ w.clock then
            some ({ w with queue := w.queue.start id }, [.task id entry.task entry.job])
          else none
  | call g => if g.isTask then none else some (w, [g])

section frame

variable {w w' : World} {e : EnvStep} {gs : List Origin}

/-- The environment touches the clock and the queue only. -/
theorem EnvStep.exec_frame (h : e.exec w = some (w', gs)) :
    w.clock ≤ w'.clock ∧ w'.jobs = w.jobs ∧ w'.handles = w.handles ∧ w'.storage = w.storage ∧
      w'.calls = w.calls := by
  cases e with
  | tick d =>
    obtain ⟨rfl, -⟩ := Prod.mk.inj (Option.some.inj h)
    exact ⟨Nat.le_add_right _ _, rfl, rfl, rfl, rfl⟩
  | take id =>
    simp only [EnvStep.exec] at h
    split at h
    · cases h
    · split_ifs at h
      obtain ⟨rfl, -⟩ := Prod.mk.inj (Option.some.inj h)
      exact ⟨le_rfl, rfl, rfl, rfl, rfl⟩
  | call g =>
    simp only [EnvStep.exec] at h
    split_ifs at h
    obtain ⟨rfl, -⟩ := Prod.mk.inj (Option.some.inj h)
    exact ⟨le_rfl, rfl, rfl, rfl, rfl⟩

theorem EnvStep.exec_jobs (h : e.exec w = some (w', gs)) : w'.jobs = w.jobs := (exec_frame h).2.1

theorem EnvStep.exec_calls (h : e.exec w = some (w', gs)) : w'.calls = w.calls :=
  (exec_frame h).2.2.2.2

end frame

/-- The system, for any programs behind the origins. -/
abbrev serviceOf (program : Origin → Program Outcome) : System Api where
  World := World
  Choice := Choice
  exec := World.exec
  Origin := Origin
  Out := Outcome
  program := program
  Env := EnvStep
  env := EnvStep.exec

/-- The service: every transaction is one step. -/
abbrev service (cfg : Settings) : System Api := serviceOf (Origin.program cfg)

section runs

variable {program : Origin → Program Outcome}

/-- The empty world with nothing running. -/
def initial : (serviceOf program).State := ⟨{}, []⟩

/-! ### Writing down a run -/

/-- A tool is called, or a periodic pass begins. -/
def call (g : Origin) : (serviceOf program).Label := .env (EnvStep.call g)

/-- A worker takes the task with this id. -/
def take (id : ArqId) : (serviceOf program).Label := .env (EnvStep.take id)

/-- Time passes. -/
def tick (d : Time) : (serviceOf program).Label := .env (EnvStep.tick d)

/-- Thread `i` performs its next operations, one for each choice. -/
def acts (i : ℕ) (cs : List Choice) : List (serviceOf program).Label := cs.map (.act i)

end runs

/-- Settings with one credential key; the only instants read are two midnights. -/
def Settings.oneKey : Settings where
  earthdataCredentialKey := [7]
  fromisoformat value :=
    if value = "2024-01-01" then some { year := 2024, month := 1, day := 1 }
    else if value = "2024-01-02" then some { year := 2024, month := 1, day := 2 }
    else none

/-- A request for one dataset. -/
def RetrievalRequest.plain : RetrievalRequest :=
  { datasetHandle := ⟨.dataset, 0⟩, aoiHandle := none,
    timeRange := "2024-01-01/2024-01-02", variableNames := []
    outputFormat := none }

/-- A result of 5 bytes as a provider delivers it. -/
def resultNamed (name : String) : Fetched :=
  { name, mediaType := "application/netcdf4", sizeBytes := 5 }

/-- A ready result of the workspace 0, of 5 bytes. -/
def readyResult (n : ℕ) (key : Key) : Handle where
  handle := ⟨.obs, n⟩
  workspaceId := 0
  payload := { status := some .ready, storageKey := some key, sizeBytes := some 5 }

/-- Two ready results; the orphan pass is not due. -/
def twoResults : World :=
  let key (n : ℕ) : Key := .retrieval .opendap (.jobHandle ⟨.job, n⟩) "subset.nc.zip"
  { handles := { rows := [readyResult 0 (key 0), readyResult 1 (key 1)], next := 2 }
    storage := { blobs := [(key 0, { size := 5 }), (key 1, { size := 5 })] }
    orphanSweptAt := some 0 }

/-- A sweep of a cache with this cap. -/
def sweepUnder (maxBytes : ℕ) : Origin :=
  .evictionSweep { maxBytes, defaultRebuildCost := 60, orphanInterval := seconds 3600 } none

end EarthdataMcp
