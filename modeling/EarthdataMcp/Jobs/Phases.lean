import EarthdataMcp.Jobs.ReadCommitted

/-!
# How far a task has come

From the operations a thread has performed it is known how far a submit, a poll or a cancel
has come with the row it is about, and so what it may do next.

* `Edit.KeepsRoute`, `Edit.Plain`: what most transactions leave alone;
* `Phase`, with `phaseMonitor` and `Phase.MayDo`;
* `program_phases`: every program keeps to its phases, and a cancel that has committed has
  called the provider by the time it answers, unless there was nothing to call.
-/

namespace EarthdataMcp

open Concurrency Concurrency.Prog Concurrency.System

/-! ### What most transactions leave alone -/

/-- The row moves, but its provider, its specification and its upstream URL are kept. -/
structure Job.KeepsRoute (job job' : Job) : Prop where
  moves : job.Moves job'
  provider : job'.provider = job.provider
  requestSpec : job'.requestSpec = job.requestSpec
  providerJobUrl : job'.providerJobUrl = job.providerJobUrl

theorem Job.KeepsRoute.refl (job : Job) : job.KeepsRoute job := ⟨.refl job, rfl, rfl, rfl⟩

theorem Job.KeepsRoute.trans {i j k : Job} (h : i.KeepsRoute j) (h' : j.KeepsRoute k) :
    i.KeepsRoute k :=
  ⟨h.moves.trans h'.moves, h'.provider.trans h.provider, h'.requestSpec.trans h.requestSpec,
    h'.providerJobUrl.trans h.providerJobUrl⟩

theorem Job.KeepsRoute.setState {now : Time} {job job' : Job} {new : JobState} {extra : Extra}
    (h : setState now job new extra = .ok job') (hurl : extra.providerJobUrl = none) :
    job.KeepsRoute job' := by
  have hmoves := Job.Moves.setState h
  obtain ⟨-, rfl⟩ := setState_eq_ok.1 h
  exact ⟨hmoves, by simp, by simp, by simp [hurl]⟩

/-- Every row the edit accepts keeps its route. -/
def Edit.KeepsRoute (edit : Edit) : Prop :=
  ∀ now job job', edit now job = .ok job' → job.KeepsRoute job'

/-- What the edits of most transactions have in common: they keep the route of a row, cancel
nothing, and leave `pending` for `failed` only. -/
structure Edit.Plain (edit : Edit) : Prop where
  route : edit.KeepsRoute
  cancels : ∀ now job job', edit now job = .ok job' → job'.state = .cancelled →
    job.state = .cancelled
  pending : ∀ now job job', edit now job = .ok job' → job.state = .pending →
    job'.state = .pending ∨ job'.state = .failed

theorem enterState_keepsRoute {new : JobState} {extra : Extra}
    (hurl : extra.providerJobUrl = none) : (enterState new extra).KeepsRoute :=
  fun _ _ _ h => .setState (enterState_eq_ok h) hurl

theorem enterState_plain {new : JobState} {extra : Extra} (hurl : extra.providerJobUrl = none)
    (hcancelled : new ≠ .cancelled) (hsubmitted : new ≠ .submitted) :
    (enterState new extra).Plain := by
  refine ⟨enterState_keepsRoute hurl, fun now job job' h hst => ?_, fun now job job' h hst => ?_⟩
  · obtain ⟨-, rfl⟩ := setState_eq_ok.1 (enterState_eq_ok h)
    rw [Job.enter_state] at hst
    exact absurd hst hcancelled
  · obtain ⟨hl, rfl⟩ := setState_eq_ok.1 (enterState_eq_ok h)
    rw [hst] at hl
    rw [Job.enter_state]
    right
    revert hl hcancelled hsubmitted
    cases new <;> decide

/-- An edit that leaves a row alone, or does what a plain edit does. -/
theorem Edit.plain_of_cases {edit : Edit} (hcases : ∀ now job, edit now job = .ok job ∨
    ∃ plain : Edit, plain.Plain ∧ edit now job = plain now job) : edit.Plain := by
  refine ⟨fun now job job' hok => ?_, fun now job job' hok hst => ?_, fun now job job' hok hst => ?_⟩
    <;> rcases hcases now job with heq | ⟨plain, hplain, heq⟩
  · obtain rfl := Except.ok.inj (heq.symm.trans hok)
    exact .refl job
  · exact hplain.route now job job' (heq.symm.trans hok)
  · obtain rfl := Except.ok.inj (heq.symm.trans hok)
    exact hst
  · exact hplain.cancels now job job' (heq.symm.trans hok) hst
  · obtain rfl := Except.ok.inj (heq.symm.trans hok)
    exact Or.inl hst
  · exact hplain.pending now job job' (heq.symm.trans hok) hst

theorem failInvalidSpec_plain (wanted : JobState → Bool) : (failInvalidSpec wanted).Plain := by
  refine Edit.plain_of_cases fun now job => ?_
  unfold failInvalidSpec
  split_ifs
  · split
    · exact Or.inr ⟨_, enterState_plain rfl (by decide) (by decide), rfl⟩
    · exact Or.inl rfl
  · exact Or.inl rfl

theorem triage_plain (staleBefore : Time) : (triage staleBefore).Plain := by
  refine Edit.plain_of_cases fun now job => ?_
  unfold triage
  split
  · exact Or.inr ⟨_, enterState_plain rfl (by decide) (by decide), rfl⟩
  · split_ifs
    · exact Or.inr ⟨_, enterState_plain rfl (by decide) (by decide), rfl⟩
    · exact Or.inl rfl

theorem expireReady_plain : expireReady.Plain := by
  refine Edit.plain_of_cases fun now job => ?_
  unfold expireReady
  split_ifs
  · exact Or.inr ⟨_, enterState_plain rfl (by decide) (by decide), rfl⟩
  · exact Or.inl rfl

/-- A poll may cancel a job, but keeps its route. -/
theorem applyStatus_keepsRoute (status : JobStatus) : (applyStatus status).KeepsRoute := by
  intro now job job' h
  unfold applyStatus at h
  split_ifs at h
  · obtain rfl := Except.ok.inj h
    exact .refl job
  · split at h
    · rename_i a ha
      obtain rfl := Except.ok.inj h
      have hstart : job.KeepsRoute { job with lastPolledAt := some now } :=
        ⟨.ofPolled job now, rfl, rfl, rfl⟩
      exact hstart.trans (applyPoll_rel ha (fun _ _ _ _ hs hurl _ _ => .setState hs hurl)
        (fun j progress message => ⟨.ofProgress j progress message, rfl, rfl, rfl⟩)
        fun _ _ _ => .trans)
    · cases h

theorem cancelRow_keepsRoute : cancelRow.KeepsRoute := by
  intro now job job' h
  unfold cancelRow at h
  split_ifs at h
  · exact .setState (enterState_eq_ok h) rfl
  · obtain rfl := Except.ok.inj h
    exact .refl job

/-! ### Phases -/

/-- How far a thread has come. -/
inductive Phase
  /-- Neither a submit, nor a poll, nor a cancel. -/
  | other
  /-- A submit of `j` that has read nothing yet. -/
  | submitting (j : JobId)
  /-- A submit that has read its row in `pending`. -/
  | loaded (row : Job)
  /-- A submit that has called the provider, and the answer. -/
  | asked (row : Job) (answer : Except Exn (Option String))
  | polling (j : JobId)
  /-- A poll that has read its row in a polled state. -/
  | pollLoaded (row : Job)
  /-- A poll that has called the provider. -/
  | polled (row : Job)
  | cancelling (h : HandleId)
  /-- A cancel that has cancelled the row it read. -/
  | cancelled (row : Job)
  /-- A cancel that has called the provider since. -/
  | called (row : Job)
  | settled

namespace Phase

/-- The phase in which a thread starts. -/
def start : Origin → Phase
  | .task _ .submitJob j => submitting j
  | .task _ .pollJob j => polling j
  | .cancelRetrieval _ h _ => cancelling h
  | _ => other

/-- The phase after a transaction, which has handed out the rows as it read them. -/
def afterTransaction : Phase → Except Exn (List Job) → Phase
  | submitting _, .ok (row :: _) =>
      if row.state = .pending ∧ (fromJsonb row.requestSpec).toBool then loaded row else settled
  | loaded _, .ok _ => settled
  | asked _ _, .ok _ => settled
  | polling _, .ok (row :: _) => if row.state.Polled then pollLoaded row else settled
  | cancelling _, .ok (row :: _) => if row.state.Legal .cancelled then cancelled row else settled
  | n, _ => n

/-- The phase after a call of a provider. -/
def afterCall : Phase → (o : ProviderOp) → Except Exn o.Ans → Phase
  | loaded row, .submit _ _ _, answer => asked row answer
  | pollLoaded row, .poll _ _ _ _, _ => polled row
  | cancelled row, .cancel _ _ _ _, _ => called row
  | n, _, _ => n

/-- The end of a task settles it, unless it has called the provider and left the row as it
was. -/
def finished : Phase → Phase
  | asked row answer => asked row answer
  | _ => settled

/-- The phase after an operation. -/
def observe (n : Phase) : (o : Op) → Except Exn o.Ans → Phase
  | .jobs (.transact _ _), a => n.afterTransaction a
  | .provider o, a => n.afterCall o a
  | .queue (.finish _ _), _ => n.finished
  | _, _ => n

/-- The transactions of each phase. -/
def MayTransact (q : JobQuery) (edit : Edit) : Phase → Prop
  | submitting j => q = .getJob j ∧ ∃ wanted, edit = failInvalidSpec wanted
  | loaded row => q = .getJob row.jobId ∧ edit.Plain
  | asked row (.ok url) =>
      q = .getJob row.jobId ∧ edit = enterState .submitted { providerJobUrl := some url }
  | asked row (.error _) =>
      q = .getJob row.jobId ∧ ((∃ error, edit = enterState .failed { error := some (some error) }) ∨
        edit = rerouteToOpendap ∧ row.requestSpec.spec.provider = .harmony)
  | polled row => q = .getJob row.jobId ∧ edit.KeepsRoute
  | cancelling h => q = .getJobByHandle h ∧ edit = cancelRow
  | _ => edit.Plain

/-- The calls of each phase. -/
def MayCall (n : Phase) : ProviderOp → Prop
  | .submit j spec _ => ∃ row, n = loaded row ∧ j = row.jobId ∧
      fromJsonb row.requestSpec = .ok spec ∧ spec.provider ≠ .direct
  | .poll j _ _ _ => ∃ row, n = pollLoaded row ∧ j = row.jobId
  | .fetch _ _ _ _ => True
  | .cancel j p url _ => ∃ row spec, n = cancelled row ∧ j = row.jobId ∧
      url = row.providerJobUrl ∧ fromJsonb row.requestSpec = .ok spec ∧ p = spec.provider

/-- What a thread may do in each phase. -/
def MayDo (n : Phase) : Op → Prop
  | .jobs (.transact q edit) => n.MayTransact q edit
  | .jobs (.commit _ _) => False
  | .provider o => n.MayCall o
  | _ => True

end Phase

/-- The monitor of the phases. -/
def phaseMonitor (cfg : Settings) : Monitor (service cfg) Phase where
  start := Phase.start
  observe n o a := n.observe o a

/-- Threads keep to their phases, and a row read by id has that id. -/
abbrev phaseProtocol (cfg : Settings) : Protocol Api Phase :=
  (phaseMonitor cfg).protocol Phase.MayDo fun _ o a => o.Told a

/-! ### Programs that keep to their phases -/

section programs

variable {cfg : Settings} {α : Type}

/-- The operation neither changes a phase nor depends on it. -/
def Op.Quiet : Op → Prop
  | .jobs (.transact _ _) => False
  | .jobs (.commit _ _) => False
  | .provider _ => False
  | .queue (.finish _ _) => False
  | _ => True

theorem Op.Quiet.mayDo {o : Op} (h : o.Quiet) (n : Phase) : n.MayDo o := by
  cases o with
  | jobs o => cases o <;> first | exact h.elim | trivial
  | provider o => exact h.elim
  | _ => trivial

theorem Op.Quiet.observe {o : Op} (h : o.Quiet) (n : Phase) (a : Except Exn o.Ans) :
    n.observe o a = n := by
  cases o with
  | jobs o => cases o <;> first | exact h.elim | rfl
  | provider o => exact h.elim
  | queue o => cases o <;> first | exact h.elim | rfl
  | _ => rfl

/-- A quiet operation leaves the jobs table alone, or creates a row. -/
theorem World.exec_quiet {w w' : World} {o : Op} {c : Choice} {a : Except Exn o.Ans}
    (ho : o.Quiet) (h : w.exec o c = some (a, w')) :
    w'.jobs = w.jobs ∨ ∃ new : NewJob, w'.jobs =
      { rows := w.jobs.rows ++ [new.row w.clock w.jobs.next]
        minted := w.jobs.minted ++ [new.credentialEncrypted] } := by
  by_cases hjobs : ∃ jo, o = .jobs jo
  · obtain ⟨jo, rfl⟩ := hjobs
    rcases exec_jobs h with ⟨-, -, rfl⟩ | ⟨e, -, rfl⟩
    · cases jo with
      | read q => exact Or.inl rfl
      | create new => exact Or.inr ⟨new, rfl⟩
      | _ => exact ho.elim
    · exact Or.inl rfl
  · exact Or.inl (exec_jobs_eq_self h fun jo hjo => hjobs ⟨jo, hjo⟩)

theorem Op.quiet_enqueueJob (task : Task) (j : JobId) (id : Option ArqId) (d : Time) :
    Op.Quiet (.queue (.enqueueJob task j id d)) := trivial

/-- A program of quiet operations leaves its thread in the phase it is in. -/
theorem obeys_quiet {p : Program α} {n : Phase} (hp : p.Only Op.Quiet) :
    p.Obeys (phaseProtocol cfg) n fun _ n' => n' = n :=
  hp.obeys (fun n' _ _ ho => ho.mayDo n')
    (fun _ _ a _ hs ho hn => hn.2.trans ((ho.observe _ a).trans hs)) rfl

/-- An operation of a thread that is neither a submit, nor a poll, nor a cancel. -/
def Op.Plain : Op → Prop
  | .jobs (.transact _ edit) => edit.Plain
  | .jobs (.commit _ _) => False
  | .provider (.fetch _ _ _ _) => True
  | .provider _ => False
  | _ => True

theorem SweepOp.plain {o : Op} (h : SweepOp o) : o.Plain := by
  cases h with
  | expireJob => exact expireReady_plain
  | _ => trivial

theorem PrefetchOp.plain {c : Option Credential} {o : Op} (h : PrefetchOp c o) : o.Plain := by
  cases h <;> trivial

theorem TaskOp.plain {j : JobId} {o : Op} (h : TaskOp j o) : o.Plain := by
  cases h with
  | fail error => exact enterState_plain rfl (by decide) (by decide)
  | _ => trivial

theorem MaterializeOp.plain {j : JobId} {o : Op} (h : MaterializeOp j o) : o.Plain := by
  cases h with
  | load wanted => exact failInvalidSpec_plain wanted
  | deliver h =>
    cases h with
    | task h => exact h.plain
    | ready extra hurl => exact enterState_plain hurl (by decide) (by decide)
    | sweep h => exact h.plain
    | prefetch h => exact h.plain
    | _ => trivial
  | _ => trivial

theorem ReclaimOp.plain {o : Op} (h : ReclaimOp o) : o.Plain := by
  cases h with
  | triage q t => exact triage_plain t
  | sweep h => exact h.plain
  | _ => trivial

theorem RetrievalOp.plain {o : Op} (h : RetrievalOp cfg o) : o.Plain := by
  cases h <;> trivial

theorem ReadingOp.plain {o : Op} (h : ReadingOp o) : o.Plain := by
  cases h <;> trivial

theorem CubeOp.plain {cube : CubeResult} {o : Op} (h : CubeOp cfg cube o) : o.Plain := by
  cases h <;> trivial

/-- A thread in a phase without obligations. -/
def Phase.Idle (n : Phase) : Prop := n = .other ∨ n = .settled

theorem Phase.Idle.observe {n : Phase} (hn : n.Idle) (o : Op) (a : Except Exn o.Ans) :
    (n.observe o a).Idle := by
  unfold Phase.observe
  split
  · rcases hn with rfl | rfl
    · exact Or.inl rfl
    · exact Or.inr rfl
  · rcases hn with rfl | rfl
    · exact Or.inl rfl
    · exact Or.inr rfl
  · rcases hn with rfl | rfl <;> exact Or.inr rfl
  · exact hn

theorem Op.Plain.mayDo {o : Op} (ho : o.Plain) {n : Phase} (hn : n.Idle) : n.MayDo o := by
  cases o with
  | jobs o =>
    cases o with
    | transact q edit => rcases hn with rfl | rfl <;> exact ho
    | commit rows edit => exact ho.elim
    | _ => trivial
  | provider o => cases o <;> first | exact ho.elim | trivial
  | _ => trivial

theorem obeys_plain {p : Program α} {n : Phase} (hp : p.Only Op.Plain) (hn : n.Idle) :
    p.Obeys (phaseProtocol cfg) n fun _ n' => n'.Idle :=
  hp.obeys (fun _ _ hn' ho => ho.mayDo hn')
    (fun _ o a _ hn' _ hnext => hnext.2 ▸ hn'.observe o a) hn

/-! ### The tasks -/

/-- In the phase `n` the job may be failed, which leaves the phase or settles it. -/
structure Phase.MayFail (n : Phase) (j : JobId) : Prop where
  fail : ∀ error, n.MayTransact (.getJob j) (enterState .failed { error := some (some error) })
  after : ∀ a, n.afterTransaction a = n ∨ n.afterTransaction a = .settled

theorem Phase.mayFail_loaded (row : Job) : (Phase.loaded row).MayFail row.jobId :=
  ⟨fun _ => ⟨rfl, enterState_plain rfl (by decide) (by decide)⟩, fun a => by
    cases a <;> simp [Phase.afterTransaction]⟩

theorem Phase.mayFail_asked (row : Job) (e : Exn) :
    (Phase.asked row (.error e)).MayFail row.jobId :=
  ⟨fun error => ⟨rfl, Or.inl ⟨error, rfl⟩⟩, fun a => by cases a <;> simp [Phase.afterTransaction]⟩

theorem Phase.mayFail_pollLoaded (row : Job) : (Phase.pollLoaded row).MayFail row.jobId :=
  ⟨fun _ => enterState_plain rfl (by decide) (by decide), fun a => by
    cases a <;> simp [Phase.afterTransaction]⟩

theorem Phase.mayFail_polled (row : Job) : (Phase.polled row).MayFail row.jobId :=
  ⟨fun _ => ⟨rfl, enterState_keepsRoute rfl⟩, fun a => by
    cases a <;> simp [Phase.afterTransaction]⟩

theorem TaskOp.quiet_or {j : JobId} {o : Op} (h : TaskOp j o) : o.Quiet ∨
    ∃ error, o = .jobs (.transact (.getJob j)
      (enterState .failed { error := some (some error) })) := by
  cases h with
  | fail error => exact Or.inr ⟨error, rfl⟩
  | _ => exact Or.inl trivial

theorem obeys_task {p : Program α} {j : JobId} {n : Phase} (hp : p.Only (TaskOp j))
    (hn : n.MayFail j) : p.Obeys (phaseProtocol cfg) n fun _ n' => n' = n ∨ n' = .settled := by
  refine hp.obeys (fun n' o hn' ho => ?_) (fun n' o a n'' hn' ho hnext => ?_) (Or.inl rfl)
  · rcases ho.quiet_or with hq | ⟨error, rfl⟩
    · exact hq.mayDo n'
    · rcases hn' with rfl | rfl
      · exact hn.fail error
      · exact enterState_plain rfl (by decide) (by decide)
  · rw [hnext.2]
    show n'.observe o a = n ∨ n'.observe o a = .settled
    rcases ho.quiet_or with hq | ⟨error, rfl⟩
    · rw [hq.observe]; exact hn'
    · rcases hn' with rfl | rfl
      · exact hn.after a
      · exact Or.inr rfl

/-- The identity is loaded without a change of phase, or the attempt ends. -/
theorem loadJobIdentity_phases {j : JobId} {n : Phase} (spec : RequestSpec)
    (c : Option Credential) (hn : n.MayFail j) :
    (loadJobIdentity cfg j spec c).Obeys (phaseProtocol cfg) n
      fun r n' => ∀ token, r = .ok token → n' = n := by
  unfold loadJobIdentity
  split
  · exact fun _ _ => rfl
  · rw [obeys_bind, obeys_perform]
    refine ⟨trivial, ?_⟩
    rintro (e | now) n' ⟨-, rfl⟩
    · exact fun token h => by cases h
    rw [afterBind_ok]
    split
    · exact fun _ _ => rfl
    · rw [obeys_bind]
      refine (obeys_task (failJob_only _ _ _ _) hn).mono ?_
      rintro (e | ⟨⟩) n'' - <;> exact fun token h => by cases h

theorem loadProvider_phases {n : Phase} (spec : RequestSpec) (token : Option Token) :
    (loadProvider spec token).Obeys (phaseProtocol cfg) n
      fun r n' => n' = n ∧ (r = .ok () → spec.provider ≠ .direct) := by
  unfold loadProvider
  rw [obeys_bind, obeys_perform]
  refine ⟨trivial, ?_⟩
  rintro (e | caps) n' ⟨-, rfl⟩
  · exact ⟨rfl, fun h => by cases h⟩
  rw [afterBind_ok]
  split_ifs with hdirect
  · exact ⟨rfl, fun h => by cases h⟩
  · exact ⟨rfl, fun _ => hdirect⟩

/-! ### The submit -/

theorem submitFailed_phases (row : Job) (spec : RequestSpec) (identity : Option Token) (e : Exn)
    (hspec : fromJsonb row.requestSpec = .ok spec) :
    (submitFailed cfg row.jobId spec identity e).Obeys (phaseProtocol cfg) (.asked row (.error e))
      fun _ _ => True := by
  have hrow : row.requestSpec.spec = spec := fromJsonb_eq_ok hspec
  have hfail {p : Program Unit} (hp : p.Only (TaskOp row.jobId)) :
      (p >>= fun _ => raise e : Program Unit).Obeys (phaseProtocol cfg) (.asked row (.error e))
        fun _ _ => True := by
    rw [obeys_bind]
    refine (obeys_task hp (Phase.mayFail_asked row e)).mono ?_
    rintro (e' | ⟨⟩) n' - <;> trivial
  have hevent (type : ProvenanceEventType) :
      (recordEventSafe spec.workspaceId spec.obsHandle type).Only Op.Quiet :=
    recordEventSafe_only (fun _ => trivial) _ _ _
  unfold submitFailed
  rw [obeys_bind, obeys_perform]
  refine ⟨trivial, ?_⟩
  rintro (e' | now) n' ⟨-, rfl⟩
  · trivial
  rw [afterBind_ok]
  show Obeys (phaseProtocol cfg) _ (.asked row (.error e)) _
  split
  · exact hfail (failClassifiedCredential_only _ _ _ _)
  split_ifs with hharmony
  · unfold fallBackToOpendap
    rw [obeys_bind]
    refine (obeys_quiet (hevent .providerFallback)).mono ?_
    rintro (e' | ⟨⟩) n' rfl
    · trivial
    rw [afterBind_ok, obeys_bind, obeys_perform]
    refine ⟨⟨rfl, Or.inr ⟨rfl, hrow ▸ hharmony⟩⟩, ?_⟩
    rintro (e' | rows) n' -
    · trivial
    rw [afterBind_ok]
    split
    · trivial
    · exact (obeys_quiet (only_perform.2 (Op.quiet_enqueueJob ..))).mono fun _ _ _ => trivial
  · exact hfail (failJob_only _ _ _ _)
  · rw [obeys_bind]
    refine (obeys_quiet (hevent .opendapNotApplicable)).mono ?_
    rintro (e' | ⟨⟩) n' rfl
    · trivial
    · exact hfail (failJob_only _ _ _ _)
  · exact hfail (failJob_only _ _ _ _)

theorem submitSucceeded_phases (row : Job) (spec : RequestSpec) (url : Option String) :
    (submitSucceeded row.jobId spec url).Obeys (phaseProtocol cfg) (.asked row (.ok url))
      fun _ _ => True := by
  unfold submitSucceeded transitionState
  rw [obeys_bind, obeys_bind, obeys_perform]
  refine ⟨⟨rfl, rfl⟩, ?_⟩
  rintro (e | rows) n' -
  · trivial
  rw [afterBind_ok]
  split
  · trivial
  · have hevent : (recordEventSafe spec.workspaceId spec.obsHandle .submitted).Only Op.Quiet :=
      recordEventSafe_only (fun _ => trivial) _ _ _
    exact (obeys_quiet (hevent.bind fun _ => only_perform.2 (Op.quiet_enqueueJob ..))).mono
      fun _ _ _ => trivial

theorem submitRow_phases (row : Job) (spec : RequestSpec)
    (hspec : fromJsonb row.requestSpec = .ok spec) :
    (submitRow cfg row.jobId spec row.credentialEncrypted).Obeys (phaseProtocol cfg) (.loaded row)
      fun _ _ => True := by
  unfold submitRow
  rw [obeys_bind]
  refine (loadJobIdentity_phases spec _ (Phase.mayFail_loaded row)).mono ?_
  rintro (e | identity) n' hn'
  · trivial
  obtain rfl := hn' identity rfl
  rw [afterBind_ok, obeys_bind]
  refine (loadProvider_phases spec identity).mono ?_
  rintro (e | ⟨⟩) n' ⟨rfl, hdirect⟩
  · trivial
  rw [afterBind_ok, obeys_bind, obeys_attempt, obeys_perform]
  refine ⟨⟨row, rfl, rfl, hspec, hdirect rfl⟩, ?_⟩
  rintro (e | url) n' ⟨-, rfl⟩
  · exact submitFailed_phases row spec identity e hspec
  · exact submitSucceeded_phases row spec url

/-- A row that is loaded with a specification in a wanted state is gone on with. -/
theorem withRow_phases {j : JobId} {n : Phase} {wanted : JobState → Bool}
    {go : Job → RequestSpec → Program Unit}
    (hn : n.MayTransact (.getJob j) (failInvalidSpec wanted))
    (hgo : ∀ row spec, row.jobId = j → wanted row.state = true →
      fromJsonb row.requestSpec = .ok spec → ∀ rest,
        (go row spec).Obeys (phaseProtocol cfg) (n.afterTransaction (.ok (row :: rest)))
          fun _ _ => True) :
    (do let rows ← perform (.jobs (.transact (.getJob j) (failInvalidSpec wanted)))
        withRow wanted rows go).Obeys (phaseProtocol cfg) n fun _ _ => True := by
  rw [obeys_bind, obeys_perform]
  refine ⟨hn, ?_⟩
  rintro (e | rows) n' ⟨htold, rfl⟩
  · trivial
  rw [afterBind_ok]
  unfold withRow
  split
  · trivial
  · rename_i row rest
    split_ifs with hwanted
    · split
      · trivial
      · rename_i spec hspec
        exact hgo row spec (htold _ rfl row List.mem_cons_self) hwanted hspec rest
    · trivial

theorem submitJob_phases (j : JobId) :
    (submitJob cfg j).Obeys (phaseProtocol cfg) (.submitting j) fun _ _ => True := by
  refine withRow_phases ⟨rfl, _, rfl⟩ fun row spec hid hst hspec rest => ?_
  have hphase : (Phase.submitting j).afterTransaction (.ok (row :: rest)) = .loaded row :=
    if_pos ⟨of_decide_eq_true hst, by rw [hspec]; rfl⟩
  rw [hphase, ← hid]
  exact submitRow_phases row spec hspec

/-! ### The poll -/

theorem pollRow_phases (row : Job) (spec : RequestSpec) :
    (pollRow cfg row.jobId spec row).Obeys (phaseProtocol cfg) (.pollLoaded row)
      fun _ _ => True := by
  have hfailed {n : Phase} (hn : n.MayFail row.jobId) (identity : Option Token) (e : Exn) :
      (pollFailed cfg row.jobId spec identity e).Obeys (phaseProtocol cfg) n fun _ _ => True :=
    (obeys_task (pollFailed_only _ _ _ _) hn).mono fun _ _ _ => trivial
  unfold pollRow pollProvider
  rw [obeys_bind]
  refine (loadJobIdentity_phases spec _ (Phase.mayFail_pollLoaded row)).mono ?_
  rintro (e | identity) n' hn'
  · trivial
  obtain rfl := hn' identity rfl
  rw [afterBind_ok, obeys_bind, obeys_attempt, obeys_bind]
  refine (loadProvider_phases spec identity).mono ?_
  rintro (e | ⟨⟩) n' ⟨rfl, -⟩
  · exact hfailed (Phase.mayFail_pollLoaded row) identity e
  rw [afterBind_ok, obeys_perform]
  refine ⟨⟨row, rfl, rfl⟩, ?_⟩
  rintro (e | status) n' ⟨-, rfl⟩
  · exact hfailed (Phase.mayFail_polled row) identity e
  rw [afterBind_ok, obeys_bind, obeys_perform]
  refine ⟨⟨rfl, applyStatus_keepsRoute status⟩, ?_⟩
  rintro (e | rows) n' -
  · trivial
  rw [afterBind_ok]
  split
  · trivial
  · exact (obeys_quiet (enqueueNext_only trivial trivial _)).mono fun _ _ _ => trivial

theorem pollJob_phases (j : JobId) :
    (pollJob cfg j).Obeys (phaseProtocol cfg) (.polling j) fun _ _ => True := by
  have honce : (pollOnce cfg j).Obeys (phaseProtocol cfg) (.polling j) fun _ _ => True := by
    refine withRow_phases (failInvalidSpec_plain _) fun row spec hid hst hspec rest => ?_
    have hphase : (Phase.polling j).afterTransaction (.ok (row :: rest)) = .pollLoaded row :=
      if_pos (of_decide_eq_true hst)
    rw [hphase, ← hid]
    exact pollRow_phases row spec
  unfold pollJob
  rw [obeys_bind, obeys_attempt]
  refine honce.mono fun r n' _ => ?_
  rw [afterBind_ok]
  split
  · trivial
  · have hquiet (e : Exn) : (reraiseCancelled e).Only Op.Quiet := by
      unfold reraiseCancelled
      split_ifs <;> trivial
    split_ifs
    · exact (obeys_quiet ((only_perform.2 trivial).bind fun _ => hquiet _)).mono
        fun _ _ _ => trivial
    · trivial

/-! ### The cancel -/

/-- There is nothing upstream that the cancel of this row could call. -/
def Job.NothingUpstream (row : Job) : Prop :=
  row.provider = .opendap ∨ row.providerJobUrl.getD "" = "" ∨
    (∃ defect, fromJsonb row.requestSpec = .error defect) ∨
      row.requestSpec.spec.provider = .direct

/-- How a cancel ends: one that has committed has called the provider if there was anything
to call, and only such a one answers that the job was cancelled. -/
def Phase.CancelEnds (r : Except Exn Outcome) (n : Phase) : Prop :=
  (∀ row, n = .cancelled row → row.NothingUpstream) ∧
    ∀ up, r = .ok (.cancel (.cancelled up)) → ∃ row, n = .cancelled row ∨ n = .called row

theorem attemptProviderCancel_phases (row : Job) (token : Option Token) :
    (attemptProviderCancel row token).Obeys (phaseProtocol cfg) (.cancelled row) fun _ n' =>
      n' = .called row ∨ n' = .cancelled row ∧ row.NothingUpstream := by
  unfold attemptProviderCancel
  split_ifs with hskip
  · exact Or.inr ⟨rfl, hskip.imp_right Or.inl⟩
  split
  · rename_i defect hdefect
    exact Or.inr ⟨rfl, Or.inr (Or.inr (Or.inl ⟨defect, hdefect⟩))⟩
  · rename_i spec hspec
    have hrow : row.requestSpec.spec = spec := fromJsonb_eq_ok hspec
    rw [obeys_bind, obeys_attempt]
    unfold cancelUpstream
    split_ifs with hdirect
    · exact Or.inr ⟨rfl, Or.inr (Or.inr (Or.inr (hrow ▸ hdirect)))⟩
    · rw [obeys_perform]
      refine ⟨⟨row, spec, rfl, rfl, rfl, hspec, rfl⟩, ?_⟩
      rintro (e | ⟨⟩) n' ⟨-, rfl⟩
      · rw [afterBind_ok]
        show Obeys _ (if e.isException then pure Upstream.error else raise e) (Phase.called row) _
        split_ifs <;> exact Or.inl rfl
      · exact Or.inl rfl

theorem cancelRetrieval_phases (ws : WorkspaceId) (h : HandleId) (token : Option Token) :
    (cancelRetrieval cfg ws h token).Obeys (phaseProtocol cfg) (.cancelling h) fun r n' =>
      (∀ row, n' = .cancelled row → row.NothingUpstream) ∧
        ∀ up, r = .ok (.cancelled up) → ∃ row, n' = .cancelled row ∨ n' = .called row := by
  have hstart (r : Except Exn CancelAnswer) (hr : ∀ up, r ≠ .ok (.cancelled up)) :
      (∀ row, Phase.cancelling h = .cancelled row → row.NothingUpstream) ∧
        ∀ up, r = .ok (.cancelled up) →
          ∃ row, Phase.cancelling h = .cancelled row ∨ Phase.cancelling h = .called row :=
    ⟨fun _ hn => (by cases hn), fun up hup => absurd hup (hr up)⟩
  unfold cancelRetrieval
  rw [obeys_bind, obeys_perform]
  refine ⟨trivial, ?_⟩
  rintro (e | now) n' ⟨-, rfl⟩
  · exact hstart _ fun _ h => by cases h
  rw [afterBind_ok]
  show Obeys (phaseProtocol cfg) _ (Phase.cancelling h) _
  split
  · exact hstart _ fun _ h => by cases h
  split
  · exact hstart _ fun _ h => by cases h
  rw [obeys_bind, obeys_attempt, obeys_perform]
  refine ⟨trivial, ?_⟩
  rintro r n' ⟨-, rfl⟩
  rw [afterBind_ok]
  show Obeys (phaseProtocol cfg) _ (Phase.cancelling h) _
  split
  · exact hstart _ fun _ h => by cases h
  · exact hstart _ fun _ h => by cases h
  · exact hstart _ fun _ h => by cases h
  rw [obeys_bind, obeys_perform]
  refine ⟨⟨rfl, rfl⟩, ?_⟩
  rintro (e | rows) n' ⟨-, rfl⟩
  · exact hstart _ fun _ h => by cases h
  rw [afterBind_ok]
  split
  · exact hstart _ fun _ h => by cases h
  rename_i row rest
  show Obeys (phaseProtocol cfg) _
    (if row.state.Legal .cancelled then Phase.cancelled row else Phase.settled) _
  have hsettled (r : Except Exn CancelAnswer) (hr : ∀ up, r ≠ .ok (.cancelled up)) :
      (∀ row, Phase.settled = .cancelled row → row.NothingUpstream) ∧
        ∀ up, r = .ok (.cancelled up) →
          ∃ row, Phase.settled = .cancelled row ∨ Phase.settled = .called row :=
    ⟨fun _ hn => (by cases hn), fun up hup => absurd hup (hr up)⟩
  by_cases hlegal : row.state.Legal .cancelled
  · have hopen : ¬ row.state.Terminal := fun hst => by
      have := (hlegal.of_terminal hst).2
      cases this
    rw [if_pos hlegal, if_neg hopen, if_neg (not_not.2 hlegal), obeys_bind]
    refine (attemptProviderCancel_phases row _).mono ?_
    rintro r n' hn'
    have hpost : ∀ row', n' = .cancelled row' → row'.NothingUpstream := by
      rintro row' rfl
      rcases hn' with h | ⟨h, hnothing⟩
      · cases h
      · cases h; exact hnothing
    cases r with
    | error e => exact ⟨hpost, fun up h => by cases h⟩
    | ok up =>
      exact ⟨hpost, fun _ _ => ⟨row, hn'.elim Or.inr fun h => Or.inl h.1⟩⟩
  · rw [if_neg hlegal]
    split
    · exact hsettled _ fun _ h => by cases h
    · exact hsettled _ fun _ h => by cases h

/-! ### Every program -/

/-- How each program ends. -/
def Phase.Ends : Origin → Except Exn Outcome → Phase → Prop
  | .task _ _ _, _, n => n.finished = n
  | .cancelRetrieval _ _ _, r, n => n.CancelEnds r
  | _, _, _ => True

theorem runTask_phases {id : ArqId} {p : Program Unit} {n : Phase}
    (hp : p.Obeys (phaseProtocol cfg) n fun _ _ => True) :
    (runTask id p).Obeys (phaseProtocol cfg) n fun _ n' => n'.finished = n' := by
  have hfinished (n : Phase) : n.finished.finished = n.finished := by cases n <;> rfl
  unfold runTask
  rw [obeys_bind, obeys_attempt]
  refine hp.mono fun r n' _ => ?_
  rw [afterBind_ok]
  split
  · rw [obeys_bind, obeys_perform]
    refine ⟨trivial, ?_⟩
    rintro (e | ⟨⟩) n' ⟨-, rfl⟩ <;> exact hfinished _
  · rw [obeys_bind, obeys_perform]
    refine ⟨trivial, ?_⟩
    rintro (e | ⟨⟩) n' ⟨-, rfl⟩ <;> exact hfinished _

/-- Every program keeps to its phases. -/
theorem program_phases (cfg : Settings) (g : Origin) :
    ((service cfg).program g).Obeys (phaseProtocol cfg) (Phase.start g) (Phase.Ends g) := by
  have hplain {p : Program Outcome} (hp : p.Only Op.Plain) :
      p.Obeys (phaseProtocol cfg) .other fun _ _ => True :=
    (obeys_plain hp (Or.inl rfl)).mono fun _ _ _ => trivial
  cases g with
  | task id t j =>
    refine runTask_phases ?_
    cases t with
    | submitJob => exact submitJob_phases j
    | pollJob => exact pollJob_phases j
    | materializeJob =>
      exact (obeys_plain ((materializeJob_only cfg j).mono fun _ => MaterializeOp.plain)
        (Or.inl rfl)).mono fun _ _ _ => trivial
  | startup => exact hplain (only_map ((startup_only cfg).mono fun _ => ReclaimOp.plain))
  | sweepStalledJobs =>
    exact hplain (only_map ((sweepStalledJobs_only cfg).mono fun _ => ReclaimOp.plain))
  | evictionSweep svc p => exact hplain (only_map ((sweep_only svc p).mono fun _ => SweepOp.plain))
  | retrieveSubset ws r t =>
    exact hplain (only_map ((submitRetrieval_only cfg ws _ _ t).mono fun _ => RetrievalOp.plain))
  | retrieveData ws r t =>
    exact hplain (only_map ((submitRetrieval_only cfg ws _ _ t).mono fun _ => RetrievalOp.plain))
  | rematerialize ws h t =>
    exact hplain (only_map ((rematerialize_only cfg ws h t).mono fun _ => RetrievalOp.plain))
  | cancelRetrieval ws h t =>
    refine obeys_bind.2 ((cancelRetrieval_phases ws h t).mono fun r n' hr => ?_)
    cases r with
    | error e => exact ⟨hr.1, fun up h => by cases h⟩
    | ok answer =>
      refine ⟨hr.1, fun up hup => hr.2 up ?_⟩
      obtain rfl : answer = .cancelled up := Outcome.cancel.inj (Except.ok.inj hup)
      rfl
  | exportResult ws h t =>
    exact hplain (only_map ((exportResult_only ws h t).mono fun _ => ReadingOp.plain))
  | pinResult ws h p t =>
    exact hplain (only_map ((pinResult_only cfg ws h p t).mono fun _ => ReadingOp.plain))
  | emitCube ws cube =>
    exact hplain (only_map ((emitCube_only cfg ws cube).mono fun _ => CubeOp.plain))

end programs

end EarthdataMcp
