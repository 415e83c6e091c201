import EarthdataMcp.Jobs.Job

/-!
# Provider status vocabularies

Harmony and AppEEARS each report a job's progress in their own words.  This file has the
raw status payloads as the two services send them and the two mappings onto `JobStatus`,
the shape a poll works with.

* `harmonyStatusMap`, `appeearsStatusMap`: status word to job state; a word that is in
  neither table means the job is still running;
* `Harmony.toJobStatus`, `Appeears.toJobStatus`, and `StatusPayload.toJobStatus` over both.
-/

namespace EarthdataMcp

/-- The result of polling a job. -/
structure JobStatus where
  state : JobState
  progress : ℤ := 0
  message : Option String := none
  error : Option String := none
  deriving DecidableEq, Repr

/-! ### Harmony -/

namespace Harmony

/-- Harmony job status word to durable state. -/
def statusMap : List (String × JobState) :=
  [("accepted", .submitted), ("running", .running), ("running_with_errors", .running),
    ("paused", .running), ("previewing", .running), ("successful", .ready),
    ("complete_with_errors", .ready), ("failed", .failed), ("canceled", .cancelled)]

/-- A job status document as Harmony sends it. -/
structure StatusDoc where
  status : Option String := none
  progress : Option ℤ := none
  message : Option String := none
  errors : List String := []
  deriving DecidableEq, Repr

/-- The durable state a Harmony status word stands for. -/
def stateOf (status : Option String) : JobState :=
  (statusMap.lookup (lower (status.getD ""))).getD .running

/-- Harmony's status document as a `JobStatus`. -/
def toJobStatus (raw : StatusDoc) : JobStatus :=
  let state := stateOf raw.status
  { state
    progress := raw.progress.getD 0
    message := raw.message
    error :=
      if state = .failed then
        if raw.errors = [] then raw.message else some ("; ".intercalate raw.errors)
      else none }

end Harmony

/-! ### AppEEARS -/

namespace Appeears

/-- AppEEARS task status word to durable state. -/
def statusMap : List (String × JobState) :=
  [("pending", .submitted), ("queued", .submitted), ("processing", .running),
    ("done", .ready), ("error", .failed), ("expired", .expired), ("deleted", .cancelled)]

/-- AppEEARS' own distinction between the two queue-side words. -/
def queueStatusMessage : List (String × String) :=
  [("pending", "pending at AppEEARS"), ("queued", "queued at AppEEARS")]

/-- One entry of a task's `progress.details`. -/
structure Step where
  desc : Option String := none
  pctComplete : Option ℤ := none
  deriving DecidableEq, Repr

/-- The `progress` object of a task; an entry of `details` that is not an object is `none`. -/
structure Progress where
  summary : Option ℤ := none
  details : Option (List (Option Step)) := none
  deriving DecidableEq, Repr

/-- A task status document as AppEEARS sends it. -/
structure StatusDoc where
  status : Option String := none
  progress : Option Progress := none
  message : Option String := none
  error : Option String := none
  deriving DecidableEq, Repr

/-- The step is an object whose `pct_complete` (100 when absent) is below 100. -/
def Step.inFlight : Option Step → Bool
  | some step => step.pctComplete.getD 100 < 100
  | none => false

/-- The description of the first step not yet complete, else of the last step. -/
def currentStepMessage (progress : Progress) : Option String :=
  match progress.details with
  | none => none
  | some details =>
    match details.find? Step.inFlight with
    | some step => step.bind Step.desc
    | none => (details.getLast?.bind id).bind Step.desc

/-- Python's `a or b` on optional texts: an empty text is false. -/
def orElse (a b : Option String) : Option String :=
  match a with
  | some "" | none => b
  | some text => some text

/-- The durable state an AppEEARS status word stands for. -/
def stateOf (status : Option String) : JobState :=
  (statusMap.lookup (lower (status.getD ""))).getD .running

/-- AppEEARS' status document as a `JobStatus`. -/
def toJobStatus (raw : StatusDoc) : JobStatus :=
  let state := stateOf raw.status
  { state
    progress := (raw.progress.bind Progress.summary).getD 0
    message := (raw.progress.bind currentStepMessage).or
      (queueStatusMessage.lookup (lower (raw.status.getD "")))
    error := if state = .failed then orElse raw.error raw.message else none }

end Appeears

/-! ### Both services -/

/-- A raw status document from either service. -/
inductive StatusPayload
  | harmony (raw : Harmony.StatusDoc)
  | appeears (raw : Appeears.StatusDoc)
  deriving DecidableEq, Repr

/-- The provider's status mapping. -/
def StatusPayload.toJobStatus : StatusPayload → JobStatus
  | harmony raw => Harmony.toJobStatus raw
  | appeears raw => Appeears.toJobStatus raw

/-- A state other than the default `running` was found in the table. -/
theorem mem_of_lookup_getD {table : List (String × JobState)} {word : String} {s : JobState}
    (h : (table.lookup word).getD .running = s) (hs : s ≠ .running) : (word, s) ∈ table := by
  induction table with
  | nil => exact absurd h.symm hs
  | cons entry table ih =>
    obtain ⟨w, t⟩ := entry
    rw [List.lookup_cons] at h
    cases hw : word == w with
    | true =>
      rw [hw] at h
      obtain rfl : word = w := by simpa using hw
      obtain rfl : t = s := by simpa using h
      exact List.mem_cons_self
    | false =>
      rw [hw] at h
      exact List.mem_cons_of_mem _ (ih h)

/-- No Harmony word stands for `expired`. -/
theorem Harmony.stateOf_ne_expired (status : Option String) : stateOf status ≠ .expired := by
  intro h
  have hm := mem_of_lookup_getD h (by decide)
  simp [statusMap] at hm

/-- The one AppEEARS word that stands for `expired`. -/
theorem Appeears.stateOf_eq_expired {status : Option String} :
    stateOf status = .expired ↔ lower (status.getD "") = "expired" := by
  constructor
  · intro h
    have hm := mem_of_lookup_getD h (by decide)
    simpa [statusMap] using hm
  · intro h
    unfold stateOf
    rw [h]
    decide

end EarthdataMcp
