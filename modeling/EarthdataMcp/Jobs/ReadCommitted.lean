import EarthdataMcp.Footprint

/-!
# Transactions without a row lock

The service as it runs under READ COMMITTED: a transaction of the jobs table is a read, and
later a commit of the columns it changed.  The guard of a change of state is applied to the
row that was read, not to the row that is overwritten.

* `openTransaction`, and `readCommitted cfg`, the service with every transaction opened;
* `LifecycleEdit.disciplined`: what any transaction of any program does to a row is a `Job.Moves`;
* `LifecycleEdit.hops`: it moves the state by one hop;
* `readCommitted_only`: the opened programs perform reads and such commits only.
-/

namespace EarthdataMcp

open Concurrency Concurrency.Prog Concurrency.System

/-- A transaction of the jobs table, opened: read, then commit.  Every other operation is
still one step. -/
def openTransaction : (o : Op) → Program o.Ans
  | .jobs (.transact q edit) => do
      let rows ← perform (.jobs (.read q))
      perform (.jobs (.commit rows edit))
      pure rows
  | o => perform o

/-- The service under READ COMMITTED. -/
abbrev readCommitted (cfg : Settings) : System Api :=
  serviceOf fun g => (g.program cfg).interpret openTransaction

/-- The state a row is moved to, if its state column is written at all. -/
def Edit.movesTo (edit : Edit) (now : Time) (read : Job) : Option JobState :=
  match edit now read with
  | .ok new => if new.state = read.state then none else some new.state
  | .error _ => none

theorem Edit.movesTo_eq (edit : Edit) {now : Time} {read new : Job} (h : edit now read = .ok new)
    (hne : new.state ≠ read.state) : edit.movesTo now read = some new.state := by
  simp only [Edit.movesTo, h, if_neg hne]

/-! ### Every transaction is disciplined -/

theorem failInvalidSpec_disciplined (wanted : JobState → Bool) :
    (failInvalidSpec wanted).Disciplined := by
  intro now job job' h
  unfold failInvalidSpec at h
  split_ifs at h
  · split at h
    · exact enterState_disciplined _ _ now job job' h
    · obtain rfl := Except.ok.inj h
      exact .refl job
  · obtain rfl := Except.ok.inj h
    exact .refl job

theorem rerouteToOpendap_disciplined : rerouteToOpendap.Disciplined := by
  intro now job job' h
  obtain rfl := Except.ok.inj h
  exact ⟨rfl, rfl, rfl, rfl, rfl, .refl _, Or.inl ⟨rfl, rfl⟩⟩

theorem Job.Moves.ofPolled (job : Job) (now : Time) :
    job.Moves { job with lastPolledAt := some now } :=
  ⟨rfl, rfl, rfl, rfl, rfl, .refl _, Or.inl ⟨rfl, rfl⟩⟩

theorem applyStatus_disciplined (status : JobStatus) : (applyStatus status).Disciplined := by
  intro now job job' h
  unfold applyStatus at h
  split_ifs at h
  · obtain rfl := Except.ok.inj h
    exact .refl job
  · split at h
    · rename_i a ha
      obtain rfl := Except.ok.inj h
      exact (Job.Moves.ofPolled job now).trans (applyPoll_moves ha)
    · cases h

theorem cancelRow_disciplined : cancelRow.Disciplined := by
  intro now job job' h
  unfold cancelRow at h
  split_ifs at h
  · exact enterState_disciplined _ _ now job job' h
  · obtain rfl := Except.ok.inj h
    exact .refl job

theorem expireReady_disciplined : expireReady.Disciplined := by
  intro now job job' h
  unfold expireReady at h
  split_ifs at h
  · exact enterState_disciplined _ _ now job job' h
  · obtain rfl := Except.ok.inj h
    exact .refl job

theorem triage_disciplined (staleBefore : Time) : (triage staleBefore).Disciplined := by
  intro now job job' h
  unfold triage at h
  split at h
  · exact enterState_disciplined _ _ now job job' h
  · split_ifs at h
    · exact enterState_disciplined _ _ now job job' h
    · obtain rfl := Except.ok.inj h
      exact .refl job

theorem LifecycleEdit.disciplined {edit : Edit} (h : LifecycleEdit edit) : edit.Disciplined := by
  cases h with
  | load wanted => exact failInvalidSpec_disciplined wanted
  | enter new extra => exact enterState_disciplined new extra
  | reroute => exact rerouteToOpendap_disciplined
  | apply status => exact applyStatus_disciplined status
  | cancel => exact cancelRow_disciplined
  | expire => exact expireReady_disciplined
  | triage staleBefore => exact triage_disciplined staleBefore

/-! ### Every transaction makes one hop -/

/-- The edit moves the state column of every row it accepts by one hop. -/
def Edit.Hops (edit : Edit) : Prop :=
  ∀ now job job', edit now job = .ok job' → job.state.Hops job'.state

/-- An operation all of whose writes to job rows are single hops. -/
def Op.Hops : Op → Prop
  | .jobs (.transact _ edit) => edit.Hops
  | .jobs (.commit _ edit) => edit.Hops
  | _ => True

theorem enterState_hops (new : JobState) (extra : Extra) : (enterState new extra).Hops :=
  fun _ _ _ h => setState_hops (enterState_eq_ok h)

theorem LifecycleEdit.hops {edit : Edit} (h : LifecycleEdit edit) : edit.Hops := by
  intro now job job' hok
  have hkept {row : Job} (hrow : Except.ok (ε := Exn) row = .ok job')
      (hstate : row.state = job.state) : job.state.Hops job'.state := by
    obtain rfl := Except.ok.inj hrow
    exact Or.inl hstate
  cases h with
  | load wanted =>
    unfold failInvalidSpec at hok
    split_ifs at hok
    · split at hok
      · exact enterState_hops _ _ now job job' hok
      · exact hkept hok rfl
    · exact hkept hok rfl
  | enter new extra => exact enterState_hops new extra now job job' hok
  | reroute => exact hkept hok rfl
  | apply status =>
    unfold applyStatus at hok
    split_ifs at hok
    · exact hkept hok rfl
    · split at hok
      · rename_i a ha
        obtain rfl := Except.ok.inj hok
        exact (applyPoll_hops ha : { job with lastPolledAt := some now : Job }.state.Hops _)
      · cases hok
  | cancel =>
    unfold cancelRow at hok
    split_ifs at hok
    · exact enterState_hops _ _ now job job' hok
    · exact hkept hok rfl
  | expire =>
    unfold expireReady at hok
    split_ifs at hok
    · exact enterState_hops _ _ now job job' hok
    · exact hkept hok rfl
  | triage staleBefore =>
    unfold EarthdataMcp.triage at hok
    split at hok
    · exact enterState_hops _ _ now job job' hok
    · split_ifs at hok
      · exact enterState_hops _ _ now job job' hok
      · exact hkept hok rfl

theorem Origin.Touches.hops {cfg : Settings} {g : Origin} {o : Op} (h : g.Touches cfg o) :
    o.Hops := by
  cases o with
  | jobs x =>
    cases h.jobs with
    | transact q hedit => exact hedit.hops
    | _ => trivial
  | _ => trivial

/-! ### The opened programs -/

/-- An operation of the opened service: no transaction in one step, every write a single hop. -/
structure Op.Opened (o : Op) : Prop where
  hops : o.Hops
  not_transact : ∀ q edit, o ≠ .jobs (.transact q edit)

theorem openTransaction_only {o : Op} (ho : o.Hops) :
    (openTransaction o).Only Op.Opened := by
  unfold openTransaction
  split
  · rename_i q edit
    exact (only_perform.2 ⟨trivial, fun _ _ h => by cases h⟩).bind fun rows =>
      only_map (only_perform.2 ⟨ho, fun _ _ h => by cases h⟩)
  · rename_i hne
    exact only_perform.2 ⟨ho, fun q edit h => hne q edit h⟩

theorem readCommitted_only (cfg : Settings) (g : Origin) :
    ((readCommitted cfg).program g).Only Op.Opened :=
  (g.program_only cfg).interpret fun _ ho => openTransaction_only ho.hops

/-! ### A poll and a cancel of one job -/

/-- A caller's request becomes a job that is submitted, and polled once while it runs; the
second poll is answered that the job was successful, and has read the row again. -/
def secondPollHasRead : List (readCommitted .oneKey).Label :=
  call (.retrieveData 0 .plain (some { text := "edl" })) ::
    acts 0 [.ok, .resolved "C1" none, .capabilities {}, .planned { path := .harmony },
      .ok, .ok, .ok, .ok, .ok, .ok] ++
  take (.fresh 0) ::
    acts 1 [.ok, .ok, .ok, .capabilities {}, .submitted "u", .ok, .ok, .ok, .ok, .ok] ++
  take (.fresh 1) ::
    acts 2 [.ok, .ok, .ok, .capabilities {}, .polled (.harmony { status := some "running" }),
      .ok, .ok, .ok, .ok] ++
  tick pollInterval :: take (.fresh 2) ::
    acts 3 [.ok, .ok, .ok, .capabilities {}, .polled (.harmony { status := some "successful" }),
      .ok]

/-- The row is cancelled in between. -/
def cancelCommits : List (readCommitted .oneKey).Label :=
  call (.cancelRetrieval 0 ⟨.job, 1⟩ none) :: acts 4 [.ok, .ok, .ok, .ok]

/-- The states of the rows. -/
def World.jobStates (w : World) : List JobState := w.jobs.rows.map Job.state

end EarthdataMcp
