import EarthdataMcp.Lists.Collect
import EarthdataMcp.Providers.Status

/-!
# Applying a poll

One poll of a `submitted` or `running` job: the provider's status is applied to the row,
walking the legal intermediate edges, and says which task comes next.

* `Task`, the three lifecycle tasks, and `resumeTask`, the task that resumes each state;
* `applyPoll`, with the states it enters on the way;
* `PollingEnds`, that a sequence of polls stops at the first terminal status, and the
  exact condition under which it does: AppEEARS' `expired` is mapped to a terminal state
  that `applyPoll` has no branch for.
-/

namespace EarthdataMcp

/-- The lifecycle tasks of the worker. -/
inductive Task
  | submitJob
  | pollJob
  | materializeJob
  deriving DecidableEq, Repr

/-- Which task resumes a job found in each non-terminal state. -/
def resumeTask : JobState → Option Task
  | .pending => some .submitJob
  | .submitted => some .pollJob
  | .running => some .pollJob
  | .materializing => some .materializeJob
  | _ => none

/-- What a poll did: the row after it, the states it entered, and the next task. -/
structure Applied where
  job : Job
  entered : List JobState := []
  next : Option Task

/-- Advance `job` per a poll status; the next task to enqueue is part of the answer. -/
def applyPoll (now : Time) (job : Job) (status : JobStatus) :
    Except JobState.IllegalTransition Applied :=
  match status.state with
  | .failed => do
      let job ← setState now job .failed
        { error := some status.error, progress := some job.progress,
          message := some status.message }
      return { job, entered := [.failed], next := none }
  | .cancelled => do
      let job ← setState now job .cancelled
      return { job, entered := [.cancelled], next := none }
  | .ready => do
      -- Harmony reports success in one hop; the machine goes through `running`
      let materializing : Extra :=
        { progress := some status.progress, message := some status.message }
      if job.state = .submitted then
        let job ← setState now job .running { message := some status.message }
        let job ← setState now job .materializing materializing
        return { job, entered := [.running, .materializing], next := some .materializeJob }
      else
        let job ← setState now job .materializing materializing
        return { job, entered := [.materializing], next := some .materializeJob }
  | .submitted =>
      .ok { job := { job with progress := status.progress, message := status.message }
            next := some .pollJob }
  | _ =>
      if job.state = .submitted then do
        let job ← setState now job .running
          { progress := some status.progress, message := some status.message }
        return { job, entered := [.running], next := some .pollJob }
      else
        .ok { job := { job with progress := status.progress, message := status.message }
              next := some .pollJob }

/-- The states in which a job is polled. -/
def JobState.Polled (s : JobState) : Prop := s = .submitted ∨ s = .running

instance (s : JobState) : Decidable s.Polled :=
  inferInstanceAs (Decidable (s = .submitted ∨ s = .running))

theorem JobState.Polled.not_terminal {s : JobState} (h : s.Polled) : ¬ s.Terminal := by
  rcases h with rfl | rfl <;> decide

/-- The statuses that `applyPoll` ends the polling on. -/
def JobStatus.EndsPolling (status : JobStatus) : Prop :=
  status.state = .failed ∨ status.state = .cancelled ∨ status.state = .ready

instance (status : JobStatus) : Decidable status.EndsPolling :=
  inferInstanceAs (Decidable (_ ∨ _ ∨ _))

/-- What `applyPoll` does to a row that is being polled: the states it enters are a chain
of legal edges that ends in the state written, and the polling goes on exactly when the
status is not one of the three it ends on. -/
structure Applied.Sound (job : Job) (status : JobStatus) (a : Applied) : Prop where
  chain : List.IsChain JobState.Legal (job.state :: a.entered)
  last : (job.state :: a.entered).getLast? = some a.job.state
  moves : job.Moves a.job
  ends : status.EndsPolling → ¬ a.job.state.Polled ∧ a.next ≠ some .pollJob
  goesOn : ¬ status.EndsPolling → a.job.state.Polled ∧ a.next = some .pollJob

theorem Job.Moves.ofProgress (job : Job) (progress : ℤ) (message : Option String) :
    job.Moves { job with progress, message } :=
  ⟨rfl, rfl, rfl, rfl, rfl, .refl _, Or.inl ⟨rfl, rfl⟩⟩

/-- Whatever row a status is applied to, the row after it is reached by guarded changes of
state, none of which sets the provider's URL or leads to `ready` or `expired`, or by a report of
progress. -/
theorem applyPoll_rel {R : Job → Job → Prop} {now : Time} {job : Job} {status : JobStatus}
    {a : Applied} (h : applyPoll now job status = .ok a)
    (hset : ∀ j j' new extra, setState now j new extra = .ok j' → extra.providerJobUrl = none →
      new ≠ .ready → new ≠ .expired → R j j')
    (hprogress : ∀ j progress message, R j { j with progress, message })
    (htrans : ∀ i j k, R i j → R j k → R i k) : R job a.job := by
  unfold applyPoll at h
  split at h
  · obtain ⟨j, hj, hret⟩ := Lists.bind_eq_ok.1 h
    obtain rfl := Except.ok.inj hret
    exact hset _ _ _ _ hj rfl (by decide) (by decide)
  · obtain ⟨j, hj, hret⟩ := Lists.bind_eq_ok.1 h
    obtain rfl := Except.ok.inj hret
    exact hset _ _ _ _ hj rfl (by decide) (by decide)
  · simp only at h
    split_ifs at h
    · obtain ⟨j, hj, h⟩ := Lists.bind_eq_ok.1 h
      obtain ⟨k, hk, hret⟩ := Lists.bind_eq_ok.1 h
      obtain rfl := Except.ok.inj hret
      exact htrans _ _ _ (hset _ _ _ _ hj rfl (by decide) (by decide))
        (hset _ _ _ _ hk rfl (by decide) (by decide))
    · obtain ⟨j, hj, hret⟩ := Lists.bind_eq_ok.1 h
      obtain rfl := Except.ok.inj hret
      exact hset _ _ _ _ hj rfl (by decide) (by decide)
  · obtain rfl := Except.ok.inj h
    exact hprogress _ _ _
  · split_ifs at h
    · obtain ⟨j, hj, hret⟩ := Lists.bind_eq_ok.1 h
      obtain rfl := Except.ok.inj hret
      exact hset _ _ _ _ hj rfl (by decide) (by decide)
    · obtain rfl := Except.ok.inj h
      exact hprogress _ _ _

/-- The state column moves by one hop. -/
theorem applyPoll_hops {now : Time} {job : Job} {status : JobStatus} {a : Applied}
    (h : applyPoll now job status = .ok a) : job.state.Hops a.job.state := by
  unfold applyPoll at h
  split at h
  · obtain ⟨j, hj, hret⟩ := Lists.bind_eq_ok.1 h
    obtain rfl := Except.ok.inj hret
    exact setState_hops hj
  · obtain ⟨j, hj, hret⟩ := Lists.bind_eq_ok.1 h
    obtain rfl := Except.ok.inj hret
    exact setState_hops hj
  · simp only at h
    split_ifs at h with hsubmitted
    · obtain ⟨j, -, h⟩ := Lists.bind_eq_ok.1 h
      obtain ⟨k, hk, hret⟩ := Lists.bind_eq_ok.1 h
      obtain rfl := Except.ok.inj hret
      obtain ⟨-, rfl⟩ := setState_eq_ok.1 hk
      exact Or.inr (Or.inr ⟨hsubmitted, Job.enter_state _ _ _ _⟩)
    · obtain ⟨j, hj, hret⟩ := Lists.bind_eq_ok.1 h
      obtain rfl := Except.ok.inj hret
      exact setState_hops hj
  · obtain rfl := Except.ok.inj h
    exact Or.inl rfl
  · split_ifs at h
    · obtain ⟨j, hj, hret⟩ := Lists.bind_eq_ok.1 h
      obtain rfl := Except.ok.inj hret
      exact setState_hops hj
    · obtain rfl := Except.ok.inj h
      exact Or.inl rfl

theorem applyPoll_moves {now : Time} {job : Job} {status : JobStatus} {a : Applied}
    (h : applyPoll now job status = .ok a) : job.Moves a.job :=
  applyPoll_rel h (fun _ _ _ _ hs _ _ _ => .setState hs) .ofProgress fun _ _ _ => .trans

/-- On a polled row the guard never refuses: every poll is applied. -/
theorem applyPoll_sound (now : Time) {job : Job} (hjob : job.state.Polled) (status : JobStatus) :
    ∃ a, applyPoll now job status = .ok a ∧ a.Sound job status := by
  have legal {new : JobState} (h : new = .failed ∨ new = .cancelled) : job.state.Legal new := by
    rcases hjob with hj | hj <;> rcases h with rfl | rfl <;> rw [hj] <;> decide
  unfold applyPoll
  cases hs : status.state with
  | failed =>
    have hl := legal (Or.inl rfl)
    rw [setState_of_legal hl]
    refine ⟨_, rfl, ⟨by simpa using hl, by simp, .enter now hl, fun _ => ?_, fun h => ?_⟩⟩
    · simp [JobState.Polled]
    · simp [JobStatus.EndsPolling, hs] at h
  | cancelled =>
    have hl := legal (Or.inr rfl)
    rw [setState_of_legal hl]
    refine ⟨_, rfl, ⟨by simpa using hl, by simp, .enter now hl, fun _ => ?_, fun h => ?_⟩⟩
    · simp [JobState.Polled]
    · simp [JobStatus.EndsPolling, hs] at h
  | ready =>
    have hends : status.EndsPolling := Or.inr (Or.inr hs)
    have hrun : JobState.Legal .running .materializing := by decide
    rcases hjob with hj | hj
    · have hsub : job.state.Legal .running := by rw [hj]; decide
      simp only [hj, if_true]
      rw [setState_of_legal hsub]
      have hmat : (job.enter now .running { message := some status.message }).state.Legal
          .materializing := by simpa using hrun
      simp only [bind, Except.bind]
      rw [setState_of_legal hmat]
      refine ⟨_, rfl, ⟨?_, by simp, (Job.Moves.enter now hsub).trans (.enter now hmat), fun _ => ?_,
        fun h => absurd hends h⟩⟩
      · rw [hj]; exact (by decide : List.IsChain JobState.Legal [.submitted, .running, .materializing])
      · simp [JobState.Polled]
    · have hmat : job.state.Legal .materializing := by rw [hj]; exact hrun
      simp only [hj, reduceCtorEq, if_false]
      rw [setState_of_legal hmat]
      refine ⟨_, rfl, ⟨by simpa using hmat, by simp, .enter now hmat, fun _ => ?_,
        fun h => absurd hends h⟩⟩
      simp [JobState.Polled]
  | submitted =>
    refine ⟨_, rfl, ⟨by simp, by simp, .ofProgress _ _ _, fun h => ?_, fun _ => ⟨hjob, rfl⟩⟩⟩
    simp [JobStatus.EndsPolling, hs] at h
  | _ =>
    -- still running, and every status the code has no branch of its own for
    have hends : ¬ status.EndsPolling := by simp [JobStatus.EndsPolling, hs]
    simp only
    split_ifs with hsub
    · have hl : job.state.Legal .running := by rw [hsub]; decide
      rw [setState_of_legal hl]
      refine ⟨_, rfl, ⟨by simpa using hl, by simp, .enter now hl, fun h => absurd h hends,
        fun _ => ?_⟩⟩
      simp [JobState.Polled]
    · exact ⟨_, rfl, ⟨by simp, by simp, .ofProgress _ _ _, fun h => absurd h hends,
        fun _ => ⟨hjob, rfl⟩⟩⟩

/-! ### A sequence of polls -/

/-- One poll's answer and the time it was applied at. -/
abbrev PollAnswer := Time × StatusPayload

/-- Driving a job by the answers of successive polls, for as long as the poll before
enqueued another: every answer is applied, the states written are legal transitions, and an
answer that stands for a terminal state ends the polling. -/
def PollingEnds (job : Job) : List PollAnswer → Prop
  | [] => True
  | (now, payload) :: answers =>
      ∃ a, applyPoll now job payload.toJobStatus = .ok a ∧
        List.IsChain JobState.Legal (job.state :: a.entered) ∧
        (job.state :: a.entered).getLast? = some a.job.state ∧
        (payload.toJobStatus.state.Terminal →
          ¬ a.job.state.Polled ∧ a.next ≠ some .pollJob) ∧
        (a.next = some .pollJob → PollingEnds a.job answers)

/-- The payload is an AppEEARS document whose status word is `expired`. -/
def StatusPayload.SaysExpired : StatusPayload → Prop
  | .harmony _ => False
  | .appeears raw => lower (raw.status.getD "") = "expired"

instance : DecidablePred StatusPayload.SaysExpired
  | .harmony _ => inferInstanceAs (Decidable False)
  | .appeears raw => inferInstanceAs (Decidable (lower (raw.status.getD "") = "expired"))

/-- The first answer that stands for a terminal state. -/
def firstTerminal (answers : List PollAnswer) : Option PollAnswer :=
  answers.find? fun answer => answer.2.toJobStatus.state.Terminal

theorem StatusPayload.state_eq_expired (p : StatusPayload) :
    p.toJobStatus.state = .expired ↔ p.SaysExpired := by
  cases p with
  | harmony raw => exact iff_of_false (Harmony.stateOf_ne_expired _) id
  | appeears raw => exact Appeears.stateOf_eq_expired

/-- Of the terminal states, `applyPoll` has a branch for all but `expired`. -/
theorem JobStatus.terminal_iff (status : JobStatus) :
    status.state.Terminal ↔ status.EndsPolling ∨ status.state = .expired := by
  unfold JobStatus.EndsPolling
  cases status.state <;> simp

/-- The polls of a job end on every terminal status if and only if the first one is not
AppEEARS' `expired`. -/
theorem pollingEnds_iff {job : Job} {answers : List PollAnswer} (hjob : job.state.Polled) :
    PollingEnds job answers ↔ ∀ answer ∈ firstTerminal answers, ¬ answer.2.SaysExpired := by
  induction answers generalizing job with
  | nil => simp [PollingEnds, firstTerminal]
  | cons answer answers ih =>
    obtain ⟨now, payload⟩ := answer
    obtain ⟨a, ha, hsound⟩ := applyPoll_sound now hjob payload.toJobStatus
    have hterm := payload.toJobStatus.terminal_iff
    rw [payload.state_eq_expired] at hterm
    have hstep : PollingEnds job ((now, payload) :: answers) ↔
        (payload.toJobStatus.state.Terminal → ¬ a.job.state.Polled ∧ a.next ≠ some .pollJob) ∧
          (a.next = some .pollJob → PollingEnds a.job answers) := by
      simp only [PollingEnds, ha, Except.ok.injEq]
      constructor
      · rintro ⟨_, rfl, _, _, h⟩
        exact h
      · intro h
        exact ⟨a, rfl, hsound.chain, hsound.last, h⟩
    rw [hstep]
    by_cases hends : payload.toJobStatus.EndsPolling
    · -- the polling stops here, on a status that is not `expired`
      have hstop := hsound.ends hends
      have hT := hterm.2 (Or.inl hends)
      have hexp : ¬ payload.SaysExpired := by
        rw [← payload.state_eq_expired]
        rcases hends with h | h | h <;> rw [h] <;> decide
      simp [firstTerminal, hT, hexp, hstop]
    · obtain ⟨hpolled, hnext⟩ := hsound.goesOn hends
      by_cases hexp : payload.SaysExpired
      · have hT := hterm.2 (Or.inr hexp)
        simp [firstTerminal, hT, hexp, hpolled]
      · have hT : ¬ payload.toJobStatus.state.Terminal := by
          rw [hterm]
          exact not_or.2 ⟨hends, hexp⟩
        simp only [hT, false_implies, true_and, hnext, true_implies, ih hpolled, firstTerminal,
          List.find?_cons, decide_false]

/-- A running AppEEARS task. -/
def appeearsRow : Job where
  jobId := 1
  jobHandle := ⟨.job, 1⟩
  obsHandle := some ⟨.obs, 1⟩
  provider := .appeears
  requestSpec := RequestSpec.toJsonb
    { conceptId := some "C1", shortName := some "MOD13Q1"
      outputFormat := "application/x-parquet"
      needsPointSample := true, aoiBbox := none, timeRange := none, variableNames := []
      provider := .appeears, opendapUrls := [], workspaceId := some 0
      jobHandle := some ⟨.job, 1⟩, obsHandle := some ⟨.obs, 1⟩ }
  state := .running
  providerJobUrl := some "https://appeears/task/1"

/-- A task that is done ends the polling. -/
theorem pollingEnds_done :
    PollingEnds appeearsRow
      [(0, .appeears { status := some "Processing" }), (5, .appeears { status := some "done" })] :=
  (pollingEnds_iff (Or.inr rfl)).2 (by decide +kernel)

/-- A task that AppEEARS reports as `expired` is polled again. -/
theorem not_pollingEnds_expired :
    appeearsRow.state.Polled ∧
      ¬ PollingEnds appeearsRow [(0, .appeears { status := some "expired" })] := by
  refine ⟨Or.inr rfl, ?_⟩
  rintro ⟨a, ha, _, _, hends, _⟩
  obtain rfl : _ = a := Except.ok.inj ha
  exact absurd rfl (hends (by decide)).2

end EarthdataMcp
