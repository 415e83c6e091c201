import EarthdataMcp.Jobs.Worker
import EarthdataMcp.Providers.SpecLoading

/-!
# Reclaimed rows and their specifications

A reclaim query triages its rows in one loop, and a lifecycle task loads the specification of its
row before anything else.  Both rely on the loader: what it raises beside `InvalidSpecError` ends
the loop, or the task.

* `triageReclaimed` and `loadSpecOrFail`, over rows whose specification is the dictionary itself;
* `triageOne_row`: they do what `triage` says of a row, if the loader does not raise;
* `triageReclaimed_iff`: the loop ends if the loader raises for no row;
* `isolated_iff_loadable`: every row is dealt with if its dictionary is `Loadable`.
-/

namespace EarthdataMcp

open Text

/-- A row of the jobs table with the dictionary its specification is stored as. -/
structure StoredJob where
  row : Job
  data : List (String × Json)

/-- A row of a reclaim query. -/
structure ReclaimedJob extends StoredJob where
  active : ¬ row.state.Terminal

/-- The states a lifecycle task acts on. -/
def Task.states : Task → List JobState
  | .submitJob => [.pending]
  | .pollJob => [.submitted, .running]
  | .materializeJob => [.materializing]

section triage

variable (message : List (String × Json) → String) (staleBefore now : Time)

/-- The same row in another state. -/
def StoredJob.enterState (job : StoredJob) (new : JobState) (extra : Extra) :
    Except Exn StoredJob :=
  (EarthdataMcp.enterState new extra now job.row).map fun row => { job with row := row }

/-- One turn of the loop: the row as the loop leaves it, and what is to be resumed; `message` is
the text of the `InvalidSpecError` that loading a dictionary raises. -/
def triageOne (job : StoredJob) : Except Exn (StoredJob × Option (JobId × JobState)) :=
  match specFromJsonb job.data with
  | .error (.raised e) => .error (.other e.name)
  | .error (.invalidSpec _) => do
      let job' ← job.enterState now .failed (invalidSpecError (message job.data))
      pure (job', none)
  | .ok _ =>
      if job.row.createdAt < staleBefore then do
        let job' ← job.enterState now .failed
          { error := some (some
              ("reclaimed as stale: non-terminal since " ++ toString job.row.createdAt)) }
        pure (job', none)
      else .ok (job, some (job.row.jobId, job.row.state))

/-- `_triage_reclaimed`: the rows as the loop leaves them, and the list of what to resume. -/
def triageReclaimed : List ReclaimedJob → Except Exn (List StoredJob × List (JobId × JobState))
  | [] => .ok ([], [])
  | job :: jobs => do
      let (job', resume) ← triageOne message staleBefore now job.toStoredJob
      let (jobs', resumable) ← triageReclaimed jobs
      pure (job' :: jobs', resume.toList ++ resumable)

/-- `_load_spec_or_fail`: the row is failed if its specification is invalid. -/
def loadSpecOrFail (job : StoredJob) : Except Exn (StoredJob × Option LoadedSpec) :=
  match specFromJsonb job.data with
  | .ok spec => .ok (job, some spec)
  | .error (.raised e) => .error (.other e.name)
  | .error (.invalidSpec _) => do
      let job' ← job.enterState now .failed (invalidSpecError (message job.data))
      pure (job', none)

/-- What a task makes of the specification of its row: it loads it, and `submit_job` rebuilds the
plan for the provider. -/
def readTaskSpec (fromisoformat : String → Option DateTime) (task : Task) (job : StoredJob) :
    Except Exn (StoredJob × Option LoadedPlan) :=
  if job.row.state ∉ task.states then .ok (job, none)
  else do
    let (job', loaded) ← loadSpecOrFail message now job
    match loaded, task with
    | some spec, .submitJob =>
        match spec.toPlan fromisoformat with
        | .ok plan => pure (job', some plan)
        | .error e => .error (.other e.name)
    | _, _ => pure (job', none)

end triage

/-! ### One row -/

section row

variable {message : List (String × Json) → String} {staleBefore now : Time} {job job' : StoredJob}
  {fromisoformat : String → Option DateTime}

/-- The loader raises something other than `InvalidSpecError`. -/
def Raises (data : List (String × Json)) : Prop := ∃ e, specFromJsonb data = .error (.raised e)

theorem Handled.not_raises {data : List (String × Json)} (h : Handled fromisoformat data) :
    ¬ Raises data := by
  rintro ⟨e, he⟩
  rcases h with ⟨cause, hcause⟩ | ⟨spec, plan, hspec, -⟩
  · rw [he] at hcause
    cases hcause
  · rw [he] at hspec
    cases hspec

theorem StoredJob.enterState_of_legal {new : JobState} {extra : Extra}
    (h : job.row.state.Legal new) :
    job.enterState now new extra = .ok { job with row := job.row.enter now new extra } := by
  unfold StoredJob.enterState EarthdataMcp.enterState
  rw [setState_of_legal h]
  rfl

/-- The row is failed, or it is as it was and is to be resumed. -/
def Settles (resumable : List (JobId × JobState)) (job job' : StoredJob) : Prop :=
  job'.row.jobId = job.row.jobId ∧
    (job'.row.state = .failed ∨ job' = job ∧ (job.row.jobId, job.row.state) ∈ resumable)

theorem Settles.mono {resumable resumable' : List (JobId × JobState)}
    (h : Settles resumable job job') (hsub : resumable ⊆ resumable') :
    Settles resumable' job job' :=
  ⟨h.1, h.2.imp_right fun hresume => ⟨hresume.1, hsub hresume.2⟩⟩

theorem settles_failed (resumable : List (JobId × JobState)) (extra : Extra) :
    Settles resumable job { job with row := job.row.enter now .failed extra } :=
  ⟨Job.enter_jobId .., Or.inl (Job.enter_state ..)⟩

/-- Every other row that has not ended is settled. -/
theorem triageOne_of_not_raises (hactive : ¬ job.row.state.Terminal) (h : ¬ Raises job.data) :
    ∃ job' resume, triageOne message staleBefore now job = .ok (job', resume) ∧
      Settles resume.toList job job' := by
  unfold triageOne
  cases hload : specFromJsonb job.data with
  | error e =>
    cases e with
    | raised e => exact absurd ⟨e, hload⟩ h
    | invalidSpec cause =>
      dsimp only
      rw [StoredJob.enterState_of_legal (JobState.legal_failed hactive)]
      exact ⟨_, none, rfl, settles_failed _ _⟩
  | ok spec =>
    dsimp only
    split_ifs
    · rw [StoredJob.enterState_of_legal (JobState.legal_failed hactive)]
      exact ⟨_, none, rfl, settles_failed _ _⟩
    · exact ⟨job, _, rfl, rfl, Or.inr ⟨rfl, List.mem_singleton_self _⟩⟩

/-- The record of the row stands for its dictionary: its specification is defective if the loader
refuses the dictionary. -/
def StoredJob.Faithful (message : List (String × Json) → String) (job : StoredJob) : Prop :=
  job.row.requestSpec.defect =
    match specFromJsonb job.data with
    | .error (.invalidSpec _) => some (message job.data)
    | _ => none

/-- Where the loader does not raise, a turn of the loop is what `triage` and `resumable` say. -/
theorem triageOne_row (hfaithful : job.Faithful message) (h : ¬ Raises job.data) :
    (triageOne message staleBefore now job).map (fun turn => (turn.1.row, turn.2.isSome)) =
      (triage staleBefore now job.row).map fun row => (row, resumable staleBefore job.row) := by
  unfold StoredJob.Faithful at hfaithful
  unfold triageOne triage resumable fromJsonb StoredJob.enterState
  cases hload : specFromJsonb job.data with
  | error e =>
    cases e with
    | raised e => exact absurd ⟨e, hload⟩ h
    | invalidSpec cause =>
      rw [hload] at hfaithful
      simp only [hfaithful]
      cases EarthdataMcp.enterState .failed (invalidSpecError (message job.data)) now job.row <;>
        rfl
  | ok spec =>
    rw [hload] at hfaithful
    simp only [hfaithful]
    split_ifs with hstale
    · have hnot : decide (staleBefore ≤ job.row.createdAt) = false :=
        decide_eq_false (not_le.2 hstale)
      rw [hnot]
      cases EarthdataMcp.enterState .failed _ now job.row <;> rfl
    · have hfresh : decide (staleBefore ≤ job.row.createdAt) = true :=
        decide_eq_true (not_lt.1 hstale)
      rw [hfresh]
      rfl

/-- A task acts on rows that have not ended. -/
theorem Task.not_terminal {task : Task} {s : JobState} (h : s ∈ task.states) : ¬ s.Terminal := by
  revert h
  cases task <;> cases s <;> decide

/-- A task does not raise on a specification that is handled. -/
theorem readTaskSpec_of_handled (task : Task) (h : Handled fromisoformat job.data) :
    ∃ out, readTaskSpec message now fromisoformat task job = .ok out := by
  unfold readTaskSpec
  split_ifs with hstate
  · have hlegal := JobState.legal_failed (Task.not_terminal hstate)
    rcases h with ⟨cause, hcause⟩ | ⟨spec, plan, hspec, hplan⟩
    · have hload : loadSpecOrFail message now job = .ok
          ({ job with row := job.row.enter now .failed (invalidSpecError (message job.data)) },
            none) := by
        unfold loadSpecOrFail
        rw [hcause]
        dsimp only
        rw [StoredJob.enterState_of_legal hlegal]
        rfl
      rw [hload]
      exact ⟨_, rfl⟩
    · have hload : loadSpecOrFail message now job = .ok (job, some spec) := by
        unfold loadSpecOrFail
        rw [hspec]
      rw [hload]
      cases task with
      | submitJob =>
        refine ⟨(job, some plan), ?_⟩
        show (match spec.toPlan fromisoformat with
          | .ok plan => pure (job, some plan)
          | .error e => .error (.other e.name) : Except Exn (StoredJob × Option LoadedPlan)) = _
        rw [hplan]
        rfl
      | pollJob => exact ⟨_, rfl⟩
      | materializeJob => exact ⟨_, rfl⟩
  · exact ⟨_, rfl⟩

end row

/-! ### The loop -/

section loop

variable {message : List (String × Json) → String} {staleBefore now : Time}
  {jobs : List ReclaimedJob} {fromisoformat : String → Option DateTime}

/-- The loop settles every row if the loader raises for none. -/
theorem triageReclaimed_of_not_raises (h : ∀ job ∈ jobs, ¬ Raises job.data) :
    ∃ jobs' resumable, triageReclaimed message staleBefore now jobs = .ok (jobs', resumable) ∧
      List.Forall₂ (fun job => Settles resumable job.toStoredJob) jobs jobs' := by
  induction jobs with
  | nil => exact ⟨[], [], rfl, List.Forall₂.nil⟩
  | cons job jobs ih =>
    obtain ⟨hraises, hrest⟩ := List.forall_mem_cons.1 h
    obtain ⟨job', resume, hone, hsettles⟩ := triageOne_of_not_raises job.active hraises
    obtain ⟨jobs', resumable, hloop, hrows⟩ := ih hrest
    refine ⟨job' :: jobs', resume.toList ++ resumable, ?_, ?_⟩
    · unfold triageReclaimed
      rw [hone, hloop]
      rfl
    · apply List.Forall₂.cons
      · exact hsettles.mono (List.subset_append_left _ _)
      · exact hrows.imp fun _ _ h => h.mono (List.subset_append_right _ _)

/-- Every dictionary is refused or loaded, the loop settles every row, and no task raises on the
specification of one, if the dictionaries are loadable, and only then. -/
theorem isolated_iff_loadable :
    ((∀ job ∈ jobs, Handled fromisoformat job.data) ∧
      (∃ jobs' resumable, triageReclaimed message staleBefore now jobs = .ok (jobs', resumable) ∧
        List.Forall₂ (fun job => Settles resumable job.toStoredJob) jobs jobs') ∧
      ∀ job ∈ jobs, ∀ task, ∃ out,
        readTaskSpec message now fromisoformat task job.toStoredJob = .ok out) ↔
      ∀ job ∈ jobs, Loadable fromisoformat job.data := by
  simp only [← handled_iff_loadable]
  constructor
  · exact fun h => h.1
  · intro h
    refine ⟨h, ?_, ?_⟩
    · exact triageReclaimed_of_not_raises fun job hjob => (h job hjob).not_raises
    · exact fun job hjob task => readTaskSpec_of_handled task (h job hjob)

end loop

/-! ### Rows that the loader raises for -/

/-- A row whose dimensions were stored as a list. -/
def listedDims : ReclaimedJob where
  row := appeearsRow
  data := [("var_dims", .arr [.arr [.str "lat", .num 4]])]
  active := by decide

/-- A row with an empty specification. -/
def emptySpec : ReclaimedJob where
  row := { appeearsRow with jobId := 2 }
  data := []
  active := by decide

/-- The first row stops the second from being resumed, and its own task raises. -/
theorem not_isolated_listedDims :
    triageReclaimed (fun _ => "") 0 0 [emptySpec] = .ok ([emptySpec.toStoredJob],
        [(2, .running)]) ∧
      triageReclaimed (fun _ => "") 0 0 [listedDims, emptySpec] =
        .error (.other "AttributeError") ∧
      readTaskSpec (fun _ => "") 0 (fun _ => none) .pollJob listedDims.toStoredJob =
        .error (.other "AttributeError") ∧
      ¬ Handled (fun _ => none) listedDims.data :=
  ⟨rfl, rfl, rfl, fun h => h.not_raises ⟨_, rfl⟩⟩

end EarthdataMcp
