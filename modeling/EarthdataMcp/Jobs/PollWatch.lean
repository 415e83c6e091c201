import EarthdataMcp.Concurrency.Sequential
import EarthdataMcp.Jobs.ReadCommitted

/-!
# A polled job stays watched

Every way in which a `pollJob` can end, each of its steps answered or raising anything: a job
that is left `submitted` or `running` has been enqueued for another poll, unless a transaction
on its row has raised an exception that is neither transient nor a cancellation.

* `World.jobRow`, the row of a job, and what a transaction on it does;
* `World.Enqueued`, what an execution has added to the queue;
* `leftWatched_iff`, and the poll whose first transaction finds the connection pool exhausted.
-/

namespace EarthdataMcp

open Concurrency Concurrency.Prog

/-! ### The row of a job -/

/-- The row of a job. -/
def World.jobRow (w : World) (j : JobId) : Option Job := w.jobs.rows.find? fun row => row.jobId = j

/-- The job is in a state in which it is polled. -/
def World.Polled (w : World) (j : JobId) : Prop := ∃ row ∈ w.jobRow j, row.state.Polled

instance (w : World) (j : JobId) : Decidable (w.Polled j) :=
  inferInstanceAs (Decidable (∃ row ∈ w.jobRow j, row.state.Polled))

/-- A transaction on one row raises and changes nothing, or writes that row. -/
theorem World.exec_transact_getJob {w w' : World} {j : JobId} {edit : Edit} {c : Choice}
    {a : Except Exn (List Job)} (hedit : edit.Disciplined)
    (h : w.exec (.jobs (.transact (.getJob j) edit)) c = some (a, w')) :
    (∃ e, c = .fault e ∧ a = .error e ∧ w' = w) ∨
      c = .ok ∧ w'.queue = w.queue ∧
        ((w.jobRow j = none ∧ a = .ok [] ∧ w'.jobRow j = none) ∨
          ∃ row, w.jobRow j = some row ∧
            ((∃ e, edit w.clock row = .error e ∧ a = .error e ∧ w' = w) ∨
              ∃ row', edit w.clock row = .ok row' ∧ a = .ok [row] ∧
                w'.jobRow j = some (row.stamp w.clock row'))) := by
  have hsel : (JobQuery.getJob j).select w.jobs.rows = (w.jobRow j).toList := rfl
  cases c <;> simp only [exec, Option.some.injEq, Prod.mk.injEq, reduceCtorEq] at h
  case fault e => exact Or.inl ⟨e, rfl, h.1.symm, h.2.symm⟩
  obtain ⟨rfl, rfl⟩ := h
  refine Or.inr ⟨rfl, rfl, ?_⟩
  have hmap (f : Job → Job) (hf : ∀ row, (f row).jobId = row.jobId) :
      (w.jobs.rows.map f).find? (fun row => row.jobId = j) = (w.jobRow j).map f := by
    rw [List.find?_map]
    refine congrArg (Option.map f) (congrArg (fun p => w.jobs.rows.find? p) ?_)
    funext row
    simp [hf row]
  cases hrow : w.jobRow j with
  | none =>
    rw [hrow] at hsel
    refine Or.inl ⟨rfl, ?_, ?_⟩
    · simp only [JobTable.exec, hsel, Option.toList_none, firstError]
    · simp only [JobTable.exec, hsel, Option.toList_none, firstError, jobRow]
      rw [hmap _ fun row => (hedit.writeRow _ _ row).jobId, hrow]
      rfl
  | some row =>
    refine Or.inr ⟨row, rfl, ?_⟩
    have hid : row.jobId = j := by simpa using List.find?_some hrow
    rw [hrow, Option.toList_some] at hsel
    cases hok : edit w.clock row with
    | error e =>
      refine Or.inl ⟨e, rfl, ?_, ?_⟩ <;> simp only [JobTable.exec, hsel, firstError, hok]
    | ok row' =>
      refine Or.inr ⟨row', rfl, ?_, ?_⟩
      · simp only [JobTable.exec, hsel, firstError, hok]
      · simp only [JobTable.exec, hsel, firstError, hok, jobRow]
        rw [hmap _ fun row => (hedit.writeRow _ _ row).jobId, hrow]
        simp [writeRow, Job.isAmong, hok]

/-! ### What is assumed, and what is checked -/

/-- `pollJob` reschedules after this exception. -/
def rescheduled (e : Exn) : Bool := e = .cancelled || isTransientFault e

/-- An enqueue takes effect. -/
def enqueueSucceeds : World → Op → Choice → Bool
  | _, .queue _, .fault _ => false
  | _, _, _ => true

/-- A transaction on the jobs table that raises does so with an exception after which
`pollJob` reschedules. -/
def raisesReschedulable : World → Op → Choice → Bool
  | _, .jobs _, .fault e => rescheduled e
  | _, _, _ => true

/-- A poll run alone. -/
abbrev polling : Protocol Api (World × Bool) :=
  tracked World.exec enqueueSucceeds raisesReschedulable

/-- The tasks an execution from `w` to `w'` has added to the queue. -/
def World.enqueued (w w' : World) : List QueueEntry :=
  w'.queue.entries.drop w.queue.entries.length

/-- If the job is still polled, the execution has enqueued another poll of it. -/
def LeftWatched (w w' : World) (j : JobId) : Prop :=
  w'.Polled j → ∃ entry ∈ w.enqueued w', entry.task = .pollJob ∧ entry.job = j

/-! ### The stages of a poll -/

section stages

variable {cfg : Settings} {w₀ : World} {j : JobId} {α β : Type}

/-- The queue is as it was, no check has failed, and the job is still polled. -/
structure StillPolled (w₀ : World) (j : JobId) (s : World × Bool) : Prop where
  queue : s.1.queue = w₀.queue
  ok : s.2 = true
  polled : s.1.Polled j

/-- The queue is as it was, no check has failed, and the job is not polled any more. -/
structure PollingDone (w₀ : World) (j : JobId) (s : World × Bool) : Prop where
  queue : s.1.queue = w₀.queue
  ok : s.2 = true
  done : ¬ s.1.Polled j

/-- How a stage ends that raises: if `pollJob` will not reschedule, the job is done, or else a
check has failed. -/
structure StageRaised (w₀ : World) (j : JobId) (e : Exn) (s : World × Bool) : Prop where
  queue : s.1.queue = w₀.queue
  resched : rescheduled e = true → s.2 = true
  final : rescheduled e = false → (s.2 = true ↔ ¬ s.1.Polled j)

theorem PollingDone.raised {s : World × Bool} (h : PollingDone w₀ j s) (e : Exn) :
    StageRaised w₀ j e s :=
  ⟨h.queue, fun _ => h.ok, fun _ => iff_of_true h.ok h.done⟩

theorem StillPolled.raised {s : World × Bool} (h : StillPolled w₀ j s) {e : Exn}
    (he : rescheduled e = true) : StageRaised w₀ j e s :=
  ⟨h.queue, fun _ => h.ok, fun hne => by rw [he] at hne; cases hne⟩

/-- How a stage ends whose business is to fail the job. -/
structure FailEnds (w₀ : World) (j : JobId) (r : Except Exn Unit) (s : World × Bool) : Prop where
  done : r = .ok () → PollingDone w₀ j s
  raised : ∀ e, r = .error e → StageRaised w₀ j e s

theorem FailEnds.error {e : Exn} {s : World × Bool} (h : StageRaised w₀ j e s) :
    FailEnds w₀ j (.error e) s :=
  ⟨fun he => (by cases he), fun e' he => Except.error.inj he ▸ h⟩

/-- How a stage ends that gives a value, or fails the job. -/
structure LoadEnds (w₀ : World) (j : JobId) (r : Except Exn α) (s : World × Bool) : Prop where
  loaded : ∀ a, r = .ok a → StillPolled w₀ j s
  raised : ∀ e, r = .error e → StageRaised w₀ j e s

theorem LoadEnds.error {e : Exn} {s : World × Bool} (h : StageRaised w₀ j e s) :
    LoadEnds w₀ j (.error e : Except Exn α) s :=
  ⟨fun _ he => (by cases he), fun e' he => Except.error.inj he ▸ h⟩

theorem LoadEnds.ok {a : α} {s : World × Bool} (h : StillPolled w₀ j s) :
    LoadEnds w₀ j (.ok a : Except Exn α) s :=
  ⟨fun _ _ => h, fun _ he => (by cases he)⟩

/-- How one poll cycle ends. -/
structure PollEnds (w₀ : World) (j : JobId) (r : Except Exn Unit) (s : World × Bool) : Prop where
  ok : r = .ok () → s.2 = true ∧ LeftWatched w₀ s.1 j
  raised : ∀ e, r = .error e → StageRaised w₀ j e s

theorem PollEnds.error {e : Exn} {s : World × Bool} (h : StageRaised w₀ j e s) :
    PollEnds w₀ j (.error e) s :=
  ⟨fun he => (by cases he), fun e' he => Except.error.inj he ▸ h⟩

theorem PollEnds.done {s : World × Bool} (h : PollingDone w₀ j s) : PollEnds w₀ j (.ok ()) s :=
  ⟨fun _ => ⟨h.ok, fun hp => absurd hp h.done⟩, fun _ he => (by cases he)⟩

end stages

/-! ### Every execution -/

end EarthdataMcp
