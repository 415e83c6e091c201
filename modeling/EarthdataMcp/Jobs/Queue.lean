import EarthdataMcp.Jobs.Poll

/-!
# The task queue

The queue of lifecycle tasks.  An entry is queued, possibly deferred, until a worker takes it;
it is then running, and leaves the queue when the task ends.  An enqueue under an explicit id
is refused while an entry with that id is queued or running.
-/

namespace EarthdataMcp

/-- The id of a queue entry: a fresh one, or `lifecycle_job_id`'s for a resumed job. -/
inductive ArqId
  | fresh (n : ℕ)
  | resume (task : Task) (job : JobId)
  deriving DecidableEq, Repr

/-- The id used to resume a job via a task. -/
def lifecycleJobId (task : Task) (job : JobId) : ArqId := .resume task job

/-- A queued, deferred or running task. -/
structure QueueEntry where
  id : ArqId
  task : Task
  job : JobId
  due : Time
  running : Bool := false
  deriving DecidableEq, Repr

/-- The queue, and the next fresh id. -/
structure Queue where
  entries : List QueueEntry := []
  next : ℕ := 0
  deriving DecidableEq, Repr

/-- The operations on the queue.  `finish` is the worker's own bookkeeping when a task has
ended; `raised` says whether it ended with an exception. -/
inductive QueueOp
  | enqueueJob (task : Task) (job : JobId) (id : Option ArqId) (deferBy : Time)
  | finish (id : ArqId) (raised : Bool)

/-- Every operation answers nothing. -/
@[reducible] def QueueOp.Ans : QueueOp → Type
  | _ => Unit

namespace Queue

/-- An entry with this id is queued or running. -/
def Has (q : Queue) (id : ArqId) : Prop := ∃ entry ∈ q.entries, entry.id = id

instance (q : Queue) (id : ArqId) : Decidable (q.Has id) :=
  inferInstanceAs (Decidable (∃ entry ∈ q.entries, entry.id = id))

/-- Enqueue a task; under an explicit id that is present this does nothing. -/
def enqueueJob (q : Queue) (now : Time) (task : Task) (job : JobId) (id : Option ArqId)
    (deferBy : Time) : Queue :=
  match id with
  | none =>
      { entries := q.entries ++ [{ id := .fresh q.next, task, job, due := now + deferBy }]
        next := q.next + 1 }
  | some id =>
      if q.Has id then q
      else { q with entries := q.entries ++ [{ id, task, job, due := now + deferBy }] }

/-- The ended task leaves the queue. -/
def remove (q : Queue) (id : ArqId) : Queue :=
  { q with entries := q.entries.filter fun entry => entry.id ≠ id }

/-- The ended task is put back, to be tried again. -/
def requeue (q : Queue) (id : ArqId) : Queue :=
  { q with
    entries := q.entries.map fun entry => if entry.id = id then { entry with running := false }
      else entry }

/-- A worker takes the entry. -/
def start (q : Queue) (id : ArqId) : Queue :=
  { q with
    entries := q.entries.map fun entry => if entry.id = id then { entry with running := true }
      else entry }

/-- The effect of an operation; `again` is the queue's choice to retry a task that raised. -/
def exec (now : Time) (q : Queue) (again : Bool) : (o : QueueOp) → Queue
  | .enqueueJob task job id deferBy => q.enqueueJob now task job id deferBy
  | .finish id raised => if raised && again then q.requeue id else q.remove id

end Queue

end EarthdataMcp
