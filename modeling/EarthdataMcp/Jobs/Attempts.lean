import EarthdataMcp.Jobs.SubmitRoutes

/-!
# Attempts

How far a submit has come with a provider that raises, as its own events tell.

* `Attempt`, with `Attempt.MayDo`: it falls back or fails its job, and which of the two is decided
  by the specification and the exception;
* `attemptMonitor` and `program_attempts`: every program of the service deals with its failures so.
-/

namespace EarthdataMcp

open Concurrency Concurrency.Prog Concurrency.System

variable {cfg : Settings}

/-! ### How far a submit has come -/

/-- The submit goes to OPeNDAP instead, says the handler: a cancellation is not excepted. -/
abbrev FallsBack (cfg : Settings) (spec : RequestSpec) (e : Exn) : Prop :=
  FallbackApplies cfg spec e ∧ spec.opendapUrls ≠ []

instance (cfg : Settings) (spec : RequestSpec) (e : Exn) : Decidable (FallbackApplies cfg spec e) :=
  inferInstanceAs (Decidable (_ ∧ _ ∧ _))

/-- How far a submit has come with a provider that raises. -/
inductive Attempt
  /-- Not a submit. -/
  | elsewhere
  /-- It has called no provider yet. -/
  | unasked (j : JobId)
  /-- The provider has raised, and nothing is decided. -/
  | raised (j : JobId) (spec : RequestSpec) (e : Exn)
  /-- The row was re-routed. -/
  | fellBack (j : JobId) (spec : RequestSpec) (e : Exn)
  /-- The row was failed. -/
  | failed (j : JobId) (spec : RequestSpec) (e : Exn)
  /-- The provider has answered, or the handler was disturbed. -/
  | closed

namespace Attempt

/-- The failure of the provider that is dealt with. -/
def failure : Attempt → Option (JobId × RequestSpec × Exn)
  | raised j spec e => some (j, spec, e)
  | fellBack j spec e => some (j, spec, e)
  | failed j spec e => some (j, spec, e)
  | _ => none

/-- A transaction decides. -/
def afterTransaction (cfg : Settings) : Attempt → Except Exn (List Job) → Attempt
  | raised j spec e, .ok _ => if FallsBack cfg spec e then fellBack j spec e else failed j spec e
  | raised _ _ _, .error _ => closed
  | n, _ => n

def afterCall : Attempt → (o : ProviderOp) → Except Exn o.Ans → Attempt
  | unasked _, .submit j spec _, .error e => raised j spec e
  | unasked _, .submit _ _ _, .ok _ => closed
  | n, _, _ => n

/-- An event or a flag that is cancelled disturbs the handler. -/
def afterWrite {α : Type} : Attempt → Except Exn α → Attempt
  | raised j spec e, .error e' => if e'.isException then raised j spec e else closed
  | failed j spec e, .error e' => if e'.isException then failed j spec e else closed
  | n, _ => n

def observe (cfg : Settings) (n : Attempt) : (o : Op) → Except Exn o.Ans → Attempt
  | .jobs (.transact _ _), a => n.afterTransaction cfg a
  | .provider o, a => n.afterCall o a
  | .provenance _, a => n.afterWrite a
  | .access _, a => n.afterWrite a
  | _, _ => n

def start : Origin → Attempt
  | .task _ .submitJob j => unasked j
  | _ => elsewhere

end Attempt

/-- The operation neither submits a job nor re-routes a row. -/
def Op.Uninvolved : Op → Prop
  | .jobs (.transact _ edit) => edit ≠ rerouteToOpendap
  | .provider (.submit _ _ _) => False
  | _ => True

/-- What a submit may do: once the provider has raised, it falls back or fails the job. -/
def Attempt.MayDo (cfg : Settings) : Attempt → Op → Prop
  | raised j spec e, .jobs (.transact q edit) => q = .getJob j ∧
      if FallsBack cfg spec e then edit = rerouteToOpendap
      else ∃ error, edit = enterState .failed { error := some (some error) }
  | unasked j, .provider (.submit j' _ _) => j' = j
  | _, o => o.Uninvolved

/-- What a thread can rely on: the clock and the queue answer, and the row of a submit is there. -/
def Attempt.Hears (n : Attempt) : (o : Op) → Except Exn o.Ans → Prop
  | .now, a => ∃ now, a = .ok now
  | .queue (.finish _ _), a => a = .ok ()
  | .jobs (.transact _ _), a => ∀ j spec e, n = raised j spec e → a ≠ .ok []
  | _, _ => True

/-- A submit ends with its failure dealt with. -/
def Attempt.Ends (r : Except Exn Outcome) (n : Attempt) : Prop :=
  ∀ j spec e, n.failure = some (j, spec, e) →
    n = .fellBack j spec e ∨ n = .failed j spec e ∧ r = .error e

/-- The monitor of the attempts. -/
def attemptMonitor (cfg : Settings) : Monitor (service cfg) Attempt where
  start := Attempt.start
  observe n o a := n.observe cfg o a

abbrev attemptProtocol (cfg : Settings) : Protocol Api Attempt :=
  (attemptMonitor cfg).protocol (Attempt.MayDo cfg) fun n o a => o.Told a ∧ n.Hears o a

/-! ### Programs that deal with their failures -/

section programs

variable {α : Type} {j : JobId} {spec : RequestSpec} {e : Exn} {identity : Option Token}

theorem Edit.KeepsRoute.ne_reroute {edit : Edit} (h : edit.KeepsRoute) :
    edit ≠ rerouteToOpendap := by
  rintro rfl
  exact reroute_not_keepsRoute h

theorem enterState_ne_reroute {new : JobState} {extra : Extra} (hnew : new ≠ .pending) :
    enterState new extra ≠ rerouteToOpendap := by
  intro heq
  let job : Job := NewJob.row
    { jobHandle := ⟨.job, 0⟩
      obsHandle := none
      provider := .harmony
      requestSpec := ⟨.withoutUrls, none⟩ } 0 0
  have hok : enterState new extra 0 job = rerouteToOpendap 0 job := by rw [heq]
  have hjob := (setState_eq_ok.1 (enterState_eq_ok hok)).2
  have hstate := congrArg Job.state hjob
  rw [Job.enter_state] at hstate
  exact hnew hstate.symm

/-- Uninvolved operations leave the attempt as it is, and are allowed. -/
def Attempt.Steady (cfg : Settings) (n : Attempt) : Prop :=
  ∀ o : Op, o.Uninvolved → n.MayDo cfg o ∧ ∀ a, n.observe cfg o a = n

theorem Attempt.steady_unasked (j : JobId) : (Attempt.unasked j).Steady cfg := by
  intro o ho
  cases o with
  | provider po =>
    cases po with
    | submit j' spec token => exact ho.elim
    | _ => exact ⟨ho, fun a => by cases a <;> rfl⟩
  | jobs jo => cases jo <;> exact ⟨ho, fun a => by cases a <;> rfl⟩
  | _ => exact ⟨ho, fun a => by cases a <;> rfl⟩

/-- An attempt with nothing left to deal with. -/
theorem Attempt.steady_of_rest {n : Attempt}
    (h : n = .elsewhere ∨ n = .closed ∨ ∃ j spec e, n = .fellBack j spec e) : n.Steady cfg := by
  intro o ho
  have hmay : n.MayDo cfg o := by
    rcases h with rfl | rfl | ⟨j, spec, e, rfl⟩ <;> exact ho
  refine ⟨hmay, fun a => ?_⟩
  cases o with
  | jobs jo =>
    cases jo <;> rcases h with rfl | rfl | ⟨j, spec, e, rfl⟩ <;> cases a <;> rfl
  | provider po =>
    cases po <;> rcases h with rfl | rfl | ⟨j, spec, e, rfl⟩ <;> cases a <;> rfl
  | _ => rcases h with rfl | rfl | ⟨j, spec, e, rfl⟩ <;> cases a <;> rfl

theorem Attempt.steady_closed : Attempt.closed.Steady cfg := steady_of_rest (Or.inr (Or.inl rfl))

theorem Attempt.steady_elsewhere : Attempt.elsewhere.Steady cfg := steady_of_rest (Or.inl rfl)

theorem Attempt.steady_fellBack (j : JobId) (spec : RequestSpec) (e : Exn) :
    (Attempt.fellBack j spec e).Steady cfg :=
  steady_of_rest (Or.inr (Or.inr ⟨j, spec, e, rfl⟩))

theorem obeys_uninvolved {p : Program α} {n : Attempt} (hp : p.Only Op.Uninvolved)
    (hn : n.Steady cfg) :
    p.Obeys (attemptProtocol cfg) n fun _ n' => n' = n := by
  refine hp.obeys (fun n' o hn' ho => ?_) (fun n' o a n'' hn' ho hnext => ?_) rfl
  · rw [hn']
    exact (hn o ho).1
  · rw [hnext.2, hn']
    exact (hn o ho).2 a

theorem TaskOp.uninvolved {o : Op} (h : TaskOp j o) : o.Uninvolved := by
  cases h with
  | fail error => exact enterState_ne_reroute (by decide)
  | _ => trivial

/-- A phase that no submit goes through. -/
def Phase.NoSubmit : Phase → Prop
  | submitting _ => False
  | loaded _ => False
  | asked _ _ => False
  | _ => True

theorem Phase.NoSubmit.uninvolved {n : Phase} (hn : n.NoSubmit) {o : Op} (ho : n.MayDo o) :
    o.Uninvolved := by
  cases o with
  | jobs jo =>
    cases jo with
    | transact q edit =>
      refine Edit.KeepsRoute.ne_reroute ?_
      cases n with
      | submitting j => exact hn.elim
      | loaded row => exact hn.elim
      | asked row answer => exact hn.elim
      | polled row => exact ho.2
      | cancelling h =>
        obtain ⟨-, rfl⟩ := ho
        exact cancelRow_keepsRoute
      | _ => exact Edit.Plain.route ho
    | _ => trivial
  | provider po =>
    cases po with
    | submit j spec token =>
      obtain ⟨row, rfl, -⟩ := ho
      exact hn
    | _ => trivial
  | _ => trivial

theorem Phase.NoSubmit.observe {n : Phase} (hn : n.NoSubmit) (o : Op) (a : Except Exn o.Ans) :
    (n.observe o a).NoSubmit := by
  unfold Phase.observe
  split
  · unfold Phase.afterTransaction
    split
    · exact hn.elim
    · trivial
    · trivial
    · split_ifs <;> trivial
    · split_ifs <;> trivial
    · exact hn
  · unfold Phase.afterCall
    split
    · exact hn.elim
    · trivial
    · trivial
    · exact hn
  · unfold Phase.finished
    split
    · exact hn
    · trivial
  · exact hn

/-- A program that keeps to phases that no submit goes through has nothing to deal with. -/
theorem obeys_elsewhere {p : Program α} {n : Phase} {post : Except Exn α → Phase → Prop}
    (hp : p.Obeys (phaseProtocol cfg) n post) (hn : n.NoSubmit) :
    p.Obeys (attemptProtocol cfg) .elsewhere fun _ n' => n' = .elsewhere := by
  induction p generalizing n with
  | ret r => rfl
  | act o k ih =>
    have hord := hn.uninvolved hp.1
    refine ⟨(@Attempt.steady_elsewhere cfg o hord).1, ?_⟩
    rintro a n' ⟨⟨htold, -⟩, rfl⟩
    rw [show (attemptMonitor cfg).observe .elsewhere o a = .elsewhere from
      (@Attempt.steady_elsewhere cfg o hord).2 a]
    exact ih a (hp.2 a _ ⟨htold, rfl⟩) (hn.observe o a)

/-! #### The handler -/

/-- What is written aside leaves a handler where it is, unless it is cancelled. -/
def StaysAt (n : Attempt) : Except Exn Unit → Attempt → Prop
  | .ok _, n' => n' = n
  | .error _, n' => n' = .closed

theorem obeys_swallow_write {p : Program Unit} {n : Attempt}
    (hp : p.Obeys (attemptProtocol cfg) n fun r n' => n' = n.afterWrite r)
    (hn : ∀ e', n.afterWrite (.error e' : Except Exn Unit) = if e'.isException then n else .closed)
    (hok : ∀ u, n.afterWrite (.ok u : Except Exn Unit) = n) :
    (swallow p).Obeys (attemptProtocol cfg) n (StaysAt n) := by
  unfold swallow
  rw [obeys_bind, obeys_attempt]
  refine hp.mono ?_
  rintro r n' rfl
  rw [afterBind_ok]
  cases r with
  | ok u =>
    rw [hok]
    rfl
  | error e' =>
    rw [hn]
    show Obeys _ (if e'.isException then pure () else raise e') _ _
    split_ifs <;> rfl

/-- The provider has raised, or the job was failed for it. -/
def Attempt.Handling (n : Attempt) (j : JobId) (spec : RequestSpec) (e : Exn) : Prop :=
  n = .raised j spec e ∨ n = .failed j spec e

theorem obeys_event_attempt {n : Attempt} (hn : n.Handling j spec e) (ws : Option WorkspaceId)
    (h : Option HandleId) (type : ProvenanceEventType) :
    (recordEventSafe ws h type).Obeys (attemptProtocol cfg) n (StaysAt n) := by
  unfold recordEventSafe
  split
  · apply obeys_swallow_write
    · refine Monitor.obeys_step ?_ fun a _ => rfl
      rcases hn with rfl | rfl <;> trivial
    · rcases hn with rfl | rfl <;> exact fun _ => rfl
    · rcases hn with rfl | rfl <;> exact fun _ => rfl
  · rfl

theorem obeys_mark_attempt (c : CredentialClass) (conceptId : Option String) :
    (markIfEula c conceptId).Obeys (attemptProtocol cfg) (.raised j spec e)
      (StaysAt (.raised j spec e)) := by
  unfold markIfEula
  split_ifs
  · unfold markRestrictedSafe
    split
    · rfl
    · split_ifs
      · rfl
      · apply obeys_swallow_write
        · exact Monitor.obeys_step trivial fun a _ => rfl
        · exact fun _ => rfl
        · exact fun _ => rfl
  · rfl

/-- The choke point fails the job, or is disturbed. -/
theorem failJob_attempt (hno : ¬ FallsBack cfg spec e) (errorPrefix : String) (e' : Exn) :
    (failJob cfg j spec errorPrefix e').Obeys (attemptProtocol cfg) (.raised j spec e)
      (StaysAt (.failed j spec e)) := by
  unfold failJob transitionState
  rw [obeys_bind, obeys_bind]
  refine Monitor.obeys_step ⟨rfl, ?_⟩ fun a htrust => ?_
  · rw [if_neg hno]
    exact ⟨_, rfl⟩
  cases a with
  | error e'' => rfl
  | ok rows =>
    have hnote : (attemptMonitor cfg).observe (.raised j spec e) (.jobs (.transact (.getJob j) _))
        (.ok rows) = .failed j spec e := if_neg hno
    cases rows with
    | nil => exact absurd rfl (htrust.2 j spec e rfl)
    | cons row rest =>
      rw [hnote, afterBind_ok]
      exact obeys_event_attempt (Or.inr rfl) _ _ _

/-- The job has failed and its exception is raised, or the handler was disturbed. -/
def DealtWith (j : JobId) (spec : RequestSpec) (e : Exn) (r : Except Exn Unit) (n : Attempt) :
    Prop :=
  n = .failed j spec e ∧ r = .error e ∨ n = .closed ∨ n = .fellBack j spec e

theorem obeys_raise_attempt {p : Program Unit} {n : Attempt}
    (hp : p.Obeys (attemptProtocol cfg) n (StaysAt (.failed j spec e))) :
    (p >>= fun _ => raise e : Program Unit).Obeys (attemptProtocol cfg) n (DealtWith j spec e) := by
  rw [obeys_bind]
  refine hp.mono ?_
  rintro (e' | ⟨⟩) n' rfl
  · exact Or.inr (Or.inl rfl)
  · exact Or.inl ⟨rfl, rfl⟩

theorem failClassified_attempt (hno : ¬ FallsBack cfg spec e) (name : String) (c : CredentialClass) :
    (failClassifiedCredential cfg j spec name c).Obeys (attemptProtocol cfg) (.raised j spec e)
      (StaysAt (.failed j spec e)) := by
  unfold failClassifiedCredential
  rw [obeys_bind]
  refine (obeys_mark_attempt _ _).mono ?_
  rintro (e' | ⟨⟩) n' rfl
  · rfl
  · exact failJob_attempt hno _ _

/-- The fallback re-routes the row and queues another submit. -/
theorem fallBack_attempt (hfall : FallsBack cfg spec e) :
    (fallBackToOpendap j spec).Obeys (attemptProtocol cfg) (.raised j spec e)
      (DealtWith j spec e) := by
  unfold fallBackToOpendap
  rw [obeys_bind]
  refine (obeys_event_attempt (Or.inl rfl) _ _ _).mono ?_
  rintro (e' | ⟨⟩) n' rfl
  · exact Or.inr (Or.inl rfl)
  · rw [afterBind_ok, obeys_bind]
    refine Monitor.obeys_step ⟨rfl, ?_⟩ fun a _ => ?_
    · rw [if_pos hfall]
    cases a with
    | error e'' => exact Or.inr (Or.inl rfl)
    | ok rows =>
      have hnote : (attemptMonitor cfg).observe (.raised j spec e)
          (.jobs (.transact (.getJob j) rerouteToOpendap)) (.ok rows) = .fellBack j spec e :=
        if_pos hfall
      rw [hnote, afterBind_ok]
      split
      · exact Or.inr (Or.inr rfl)
      · refine (obeys_uninvolved ?_ (Attempt.steady_fellBack j spec e)).mono fun _ _ h =>
          Or.inr (Or.inr h)
        exact only_perform.2 trivial

theorem submitFailed_attempt :
    (submitFailed cfg j spec identity e).Obeys (attemptProtocol cfg) (.raised j spec e)
      (DealtWith j spec e) := by
  unfold submitFailed
  rw [obeys_bind]
  refine Monitor.obeys_step trivial fun a htrust => ?_
  obtain ⟨now, rfl⟩ := htrust.2
  rw [afterBind_ok, credentialFailure_eq]
  show Obeys _ _ (Attempt.raised j spec e) _
  split
  · rename_i c hc
    apply obeys_raise_attempt
    refine failClassified_attempt (fun hfall => ?_) _ _
    rw [(classifyCredentialFailure_eq_none now identity e).2 hfall.1.1] at hc
    cases hc
  rename_i hnone
  have hnot := (classifyCredentialFailure_eq_none now identity e).1 hnone
  split_ifs with hharmony hfall hinvalid
  · exact fallBack_attempt ⟨⟨hnot, hharmony, hfall.1⟩, hfall.2⟩
  · refine obeys_raise_attempt (failJob_attempt (fun h => ?_) _ _)
    exact hfall ⟨h.1.2.2, h.2⟩
  · have hno : ¬ FallsBack cfg spec e := fun h => hfall ⟨h.1.2.2, h.2⟩
    rw [obeys_bind]
    refine (obeys_event_attempt (Or.inl rfl) _ _ _).mono ?_
    rintro (e' | ⟨⟩) n' rfl
    · exact Or.inr (Or.inl rfl)
    · exact obeys_raise_attempt (failJob_attempt hno _ _)
  · refine obeys_raise_attempt (failJob_attempt (fun h => ?_) _ _)
    exact hharmony h.1.2.1

/-- How a program ends that has dealt with every failure of a provider. -/
def SettledWith (r : Except Exn Unit) (n : Attempt) : Prop :=
  ∀ j spec e, n.failure = some (j, spec, e) →
    n = .fellBack j spec e ∨ n = .failed j spec e ∧ r = .error e

theorem DealtWith.settledWith {r : Except Exn Unit} {n : Attempt} (h : DealtWith j spec e r n) :
    SettledWith r n := by
  intro j' spec' e' hfailure
  rcases h with ⟨rfl, rfl⟩ | rfl | rfl
  · cases hfailure
    exact Or.inr ⟨rfl, rfl⟩
  · cases hfailure
  · cases hfailure
    exact Or.inl rfl

theorem settledWith_of_none {r : Except Exn Unit} {n : Attempt} (h : n.failure = none) :
    SettledWith r n := by
  intro j spec e hfailure
  rw [h] at hfailure
  cases hfailure

theorem submitRow_attempt (credential : Option Credential) :
    (submitRow cfg j spec credential).Obeys (attemptProtocol cfg) (.unasked j) SettledWith := by
  unfold submitRow
  rw [obeys_bind]
  have hordinary {β : Type} {p : Program β} (hp : p.Only (TaskOp j)) :
      p.Obeys (attemptProtocol cfg) (.unasked j) fun _ n' => n' = .unasked j :=
    obeys_uninvolved (hp.mono fun _ => TaskOp.uninvolved) (Attempt.steady_unasked j)
  refine (hordinary (loadJobIdentity_only _ _ _ _)).mono ?_
  rintro (e' | identity) n' rfl
  · exact settledWith_of_none rfl
  rw [afterBind_ok, obeys_bind]
  refine (hordinary (loadProvider_only spec identity)).mono ?_
  rintro (e' | ⟨⟩) n' rfl
  · exact settledWith_of_none rfl
  rw [afterBind_ok, obeys_bind, obeys_attempt]
  refine Monitor.obeys_step rfl fun a _ => ?_
  cases a with
  | error e' => exact submitFailed_attempt.mono fun _ _ => DealtWith.settledWith
  | ok url =>
    refine (obeys_uninvolved ?_ Attempt.steady_closed).mono fun r n' hn' => ?_
    · refine (submitSucceeded_only j spec url).mono fun o ho => ?_
      cases ho with
      | submitted => exact enterState_ne_reroute (by decide)
      | _ => trivial
    · rw [hn']
      exact settledWith_of_none rfl

theorem submitJob_attempt (j : JobId) :
    (submitJob cfg j).Obeys (attemptProtocol cfg) (.unasked j) SettledWith := by
  unfold submitJob
  rw [obeys_bind]
  refine Monitor.obeys_step ?_ fun a _ => ?_
  · exact (failInvalidSpec_plain _).route.ne_reroute
  cases a with
  | error e' => exact settledWith_of_none rfl
  | ok rows =>
    rw [afterBind_ok]
    unfold withRow
    split
    · exact settledWith_of_none rfl
    · split_ifs
      · split
        · exact settledWith_of_none rfl
        · exact submitRow_attempt _
      · exact settledWith_of_none rfl

theorem runTask_attempt {id : ArqId} {p : Program Unit} {n : Attempt}
    (hp : p.Obeys (attemptProtocol cfg) n SettledWith) :
    (runTask id p).Obeys (attemptProtocol cfg) n Attempt.Ends := by
  have hfinish (n' : Attempt) (raised : Bool) : n'.MayDo cfg (.queue (.finish id raised)) := by
    cases n' <;> trivial
  unfold runTask
  rw [obeys_bind, obeys_attempt]
  refine hp.mono fun r n' hr => ?_
  rw [afterBind_ok]
  cases r with
  | ok u =>
    rw [obeys_bind]
    refine Monitor.obeys_step (hfinish n' _) fun a htrust => ?_
    obtain rfl : a = .ok () := htrust.2
    intro j spec e hfailure
    rcases hr j spec e hfailure with h | ⟨-, h⟩
    · exact Or.inl h
    · cases h
  | error e' =>
    rw [obeys_bind]
    refine Monitor.obeys_step (hfinish n' _) fun a htrust => ?_
    obtain rfl : a = .ok () := htrust.2
    intro j spec e hfailure
    rcases hr j spec e hfailure with h | ⟨h, heq⟩
    · exact Or.inl h
    · obtain rfl := Except.error.inj heq
      exact Or.inr ⟨h, rfl⟩

/-- Every program deals with the failures of its submits. -/
theorem program_attempts (cfg : Settings) (g : Origin) :
    ((service cfg).program g).Obeys (attemptProtocol cfg) (Attempt.start g) Attempt.Ends := by
  have helse {p : Program Outcome} {n : Phase} {post : Except Exn Outcome → Phase → Prop}
      (hp : p.Obeys (phaseProtocol cfg) n post) (hn : n.NoSubmit) :
      p.Obeys (attemptProtocol cfg) .elsewhere Attempt.Ends := by
    refine (obeys_elsewhere hp hn).mono ?_
    rintro r n' rfl j spec e hfailure
    cases hfailure
  cases g with
  | task id t j =>
    cases t with
    | submitJob => exact runTask_attempt (submitJob_attempt j)
    | pollJob => exact helse (program_phases cfg (.task id .pollJob j)) trivial
    | materializeJob => exact helse (program_phases cfg (.task id .materializeJob j)) trivial
  | cancelRetrieval ws h t => exact helse (program_phases cfg (.cancelRetrieval ws h t)) trivial
  | startup => exact helse (program_phases cfg .startup) trivial
  | sweepStalledJobs => exact helse (program_phases cfg .sweepStalledJobs) trivial
  | evictionSweep svc p => exact helse (program_phases cfg (.evictionSweep svc p)) trivial
  | retrieveSubset ws r t => exact helse (program_phases cfg (.retrieveSubset ws r t)) trivial
  | retrieveData ws r t => exact helse (program_phases cfg (.retrieveData ws r t)) trivial
  | rematerialize ws h t => exact helse (program_phases cfg (.rematerialize ws h t)) trivial
  | exportResult ws h t => exact helse (program_phases cfg (.exportResult ws h t)) trivial
  | pinResult ws h p t => exact helse (program_phases cfg (.pinResult ws h p t)) trivial
  | emitCube ws cube => exact helse (program_phases cfg (.emitCube ws cube)) trivial

end programs

end EarthdataMcp
