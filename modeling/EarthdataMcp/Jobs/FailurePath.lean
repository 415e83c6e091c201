import EarthdataMcp.Jobs.PollWatch

/-!
# The failure path

The handlers that end a job whose provider call has raised, with other threads running in
between and any of the secondary writes, the events and the flag, raising or cancelled.

* `Stage.failed`, the handler of each stage, and `Stage.Retries`, what it does not fail;
* `FailsCleanly`: the row ends `failed`, and what explains it is written after that;
* `failsCleanly_iff`: the handlers that explain first are the ones that do not.
-/

namespace EarthdataMcp

open Concurrency Concurrency.Prog

/-! ### The handlers -/

/-- The stages of a job that call a provider. -/
inductive Stage
  | submit
  | poll
  | materialize
  deriving DecidableEq, Repr

/-- What each stage does when the provider raises. -/
def Stage.failed (cfg : Settings) : Stage → JobId → RequestSpec → Option Token → Exn → Program Unit
  | submit => submitFailed cfg
  | poll => pollFailed cfg
  | materialize => materializeFailed cfg

/-- The exception is not about the credential. -/
def Exn.NotCredential (e : Exn) : Prop := classifyCredentialFailure 0 none e = none

instance (e : Exn) : Decidable e.NotCredential := inferInstanceAs (Decidable (_ = _))

/-- The exception says that a licence was not accepted. -/
def Exn.NeedsEula (e : Exn) : Prop := classifyCredentialFailure 0 none e = some .eulaNotAccepted

instance (e : Exn) : Decidable e.NeedsEula := inferInstanceAs (Decidable (_ = _))

/-- A rejection of the token never says that a licence was not accepted. -/
theorem tokenRejection_ne_eula (now : Time) (identity : Option Token) :
    tokenRejection now identity ≠ .eulaNotAccepted := by
  unfold tokenRejection
  split
  · split_ifs <;> simp
  · simp

section classify

variable (now : Time) (identity : Option Token) (e : Exn)

/-- Whether an exception is about the credential depends on neither the time nor the identity. -/
theorem classifyCredentialFailure_eq_none :
    classifyCredentialFailure now identity e = none ↔ e.NotCredential := by
  unfold Exn.NotCredential
  cases e with
  | http status text body =>
    simp only [classifyCredentialFailure]
    split_ifs <;> simp
  | plain reason message =>
    simp only [classifyCredentialFailure]
    split_ifs <;> simp
  | _ => rfl

theorem classifyCredentialFailure_eq_eula :
    classifyCredentialFailure now identity e = some .eulaNotAccepted ↔ e.NeedsEula := by
  unfold Exn.NeedsEula
  cases e with
  | http status text body =>
    simp only [classifyCredentialFailure]
    split_ifs <;> simp [tokenRejection_ne_eula]
  | plain reason message =>
    simp only [classifyCredentialFailure]
    split_ifs <;> simp [tokenRejection_ne_eula]
  | _ => rfl

/-- A cancellation is no credential failure anyway. -/
theorem credentialFailure_eq : credentialFailure now identity e =
    classifyCredentialFailure now identity e := by
  unfold credentialFailure
  cases e with
  | cancelled => rfl
  | _ => exact if_pos rfl

end classify

/-- A failure that Harmony's own client, or the way to it, is to blame for. -/
def FallbackApplies (cfg : Settings) (spec : RequestSpec) (e : Exn) : Prop :=
  e.NotCredential ∧ spec.provider = .harmony ∧ classifySubmitFailure cfg e = .infrastructure

/-- The handler does not fail the job: it is submitted again elsewhere, or polled again. -/
def Stage.Retries (cfg : Settings) (spec : RequestSpec) (e : Exn) : Stage → Prop
  | submit => FallbackApplies cfg spec e ∧ spec.opendapUrls ≠ []
  | poll => ¬ e.isException ∨ isTransientFault e
  | materialize => False

/-- The handler explains the failure before it fails the job: it flags the collection of an
unaccepted licence, or notes that there is no way to fall back. -/
def Stage.ExplainsFirst (cfg : Settings) (stage : Stage) (spec : RequestSpec) (e : Exn) : Prop :=
  e.NeedsEula ∧ spec.conceptId.getD "" ≠ "" ∨
    stage = .submit ∧ FallbackApplies cfg spec e ∧ spec.workspaceId.isSome ∧ spec.obsHandle.isSome

/-! ### Runs of a handler -/

/-- The job has failed. -/
def World.Failed (w : World) (j : JobId) : Prop := ∃ row ∈ w.jobRow j, row.state = .failed

instance (w : World) (j : JobId) : Decidable (w.Failed j) :=
  inferInstanceAs (Decidable (∃ row ∈ w.jobRow j, row.state = .failed))

/-- The job has not ended. -/
def World.Unfinished (w : World) (j : JobId) : Prop := ∃ row ∈ w.jobRow j, ¬ row.state.Terminal

instance (w : World) (j : JobId) : Decidable (w.Unfinished j) :=
  inferInstanceAs (Decidable (∃ row ∈ w.jobRow j, ¬ row.state.Terminal))

/-- The transaction that fails the job finds it unfinished, and takes effect. -/
def CommitsFailure (j : JobId) (v : World) : Op → Choice → Bool
  | .jobs _, .ok => v.Unfinished j
  | .jobs _, _ => false
  | _, _ => true

/-- What is assumed: the one transaction succeeds, and others leave a failed row failed. -/
def failureCommits (j : JobId) (w : World) (o : Op) (c : World × Choice) : Bool :=
  (¬ w.Failed j ∨ c.1.Failed j) && CommitsFailure j c.1 o c.2

/-- What is checked: an event or a flag is written when the job has failed. -/
def explainedAfter (j : JobId) (_ : World) : Op → World × Choice → Bool
  | .provenance _, c => c.1.Failed j
  | .access (.markCollectionRestricted _), c => c.1.Failed j
  | _, _ => true

/-- From an unfinished row the program ends with the row failed, and writes what explains it
after that. -/
def FailsCleanly (j : JobId) (p : Program Unit) : Prop :=
  ∀ (w : World) (cs : List (World × Choice)) (r : Except Exn Unit) (w' : World),
    w.Unfinished j → p.runAlone (amid World.exec) w cs = some (r, w') →
    p.Along (amid World.exec) (failureCommits j) w cs = true →
    w'.Failed j ∧ p.Along (amid World.exec) (explainedAfter j) w cs = true

/-! ### Failing the job -/

section handlers

variable {cfg : Settings} {j : JobId} {s : World × Bool} {spec : RequestSpec}
  {identity : Option Token} {e : Exn}

/-- A handler with other threads in between. -/
abbrev failing (j : JobId) : Protocol Api (World × Bool) :=
  tracked (amid World.exec) (failureCommits j) (explainedAfter j)

theorem World.Failed.of_jobs {w w' : World} (h : w.Failed j) (hjobs : w'.jobs = w.jobs) :
    w'.Failed j := by
  unfold Failed jobRow at h ⊢
  rwa [hjobs]

/-- What is assumed of a step. -/
theorem failureCommits_iff {w v : World} {o : Op} {c : Choice} :
    failureCommits j w o (v, c) = true ↔
      (¬ w.Failed j ∨ v.Failed j) ∧ CommitsFailure j v o c = true := by
  unfold failureCommits
  rw [Bool.and_eq_true, decide_eq_true_eq]

/-- An operation that explains a failure. -/
def Op.Explains : Op → Prop
  | .provenance _ => True
  | .access (.markCollectionRestricted _) => True
  | _ => False

/-- What is written once the job has failed, and whatever comes of it, is written cleanly. -/
theorem obeys_explain {o : Op} (ho : o.Explains) (hs : s.1.Failed j) :
    (perform o).Obeys (failing j) s fun _ s' => s'.1.Failed j ∧ s'.2 = s.2 := by
  refine obeys_perform.2 ⟨trivial, ?_⟩
  rintro a ⟨w, ok⟩ ⟨⟨v, c⟩, hassume, he, hok⟩
  have hv : v.Failed j := (failureCommits_iff.1 hassume).1.resolve_left (not_not.2 hs)
  have hjobs : w.jobs = v.jobs := by
    apply World.exec_jobs_eq_self he
    rintro jo rfl
    exact ho
  have hcheck : explainedAfter j s.1 o (v, c) = true := by
    unfold explainedAfter
    split
    · exact decide_eq_true hv
    · exact decide_eq_true hv
    · rfl
  refine ⟨hv.of_jobs hjobs, ?_⟩
  rw [hcheck, Bool.and_true] at hok
  exact hok

theorem obeys_swallow_explain {p : Program Unit} {Q : World × Bool → Prop}
    (hp : p.Obeys (failing j) s fun _ s' => Q s') :
    (swallow p).Obeys (failing j) s fun _ s' => Q s' := by
  unfold swallow
  rw [obeys_bind, obeys_attempt]
  refine hp.mono fun r s' hQ => ?_
  rw [afterBind_ok]
  split
  · exact hQ
  · split_ifs
    · exact hQ
    · exact hQ

theorem obeys_event (ws : Option WorkspaceId) (h : Option HandleId) (type : ProvenanceEventType)
    (hs : s.1.Failed j) :
    (recordEventSafe ws h type).Obeys (failing j) s fun _ s' => s'.1.Failed j ∧ s'.2 = s.2 := by
  unfold recordEventSafe
  split
  · exact obeys_swallow_explain (obeys_explain trivial hs)
  · exact ⟨hs, rfl⟩

/-- The choke point fails the job first. -/
theorem obeys_failJob (errorPrefix : String) (e : Exn) :
    (failJob cfg j spec errorPrefix e).Obeys (failing j) s
      fun _ s' => s'.1.Failed j ∧ s'.2 = s.2 := by
  unfold failJob transitionState
  rw [obeys_bind, obeys_bind, obeys_perform]
  refine ⟨trivial, ?_⟩
  rintro a ⟨w, ok⟩ ⟨⟨v, c⟩, hassume, he, hok⟩
  have hcommit := (failureCommits_iff.1 hassume).2
  obtain rfl : ok = s.2 := hok.trans (Bool.and_true _)
  have hexec : v.exec (.jobs (.transact (.getJob j) _)) c = some (a, w) := he
  rcases World.exec_transact_getJob (enterState_disciplined _ _) hexec with
    ⟨e', rfl, -, -⟩ | ⟨rfl, -, hcases⟩
  · cases hcommit
  obtain ⟨row, hrow, hopen⟩ : v.Unfinished j := of_decide_eq_true hcommit
  have hedit (extra : Extra) : enterState .failed extra v.clock row =
      .ok (row.enter v.clock .failed extra) := by
    rw [enterState, setState_of_legal (JobState.legal_failed hopen)]
  rcases hcases with ⟨hnone, -⟩ | ⟨row', hrow', hcases⟩
  · rw [hnone] at hrow
    cases hrow
  obtain rfl : row = row' := Option.some.inj (hrow.symm.trans hrow')
  rcases hcases with ⟨e', hfail, -⟩ | ⟨row', hok', rfl, hwritten⟩
  · rw [hedit] at hfail
    cases hfail
  obtain rfl := Except.ok.inj ((hedit _).symm.trans hok')
  have hfailed : w.Failed j := by
    refine ⟨_, hwritten, ?_⟩
    rw [Job.stamp_state, Job.enter_state]
  rw [afterBind_ok]
  exact obeys_event _ _ _ (s := (w, s.2)) hfailed

/-- The time is read. -/
theorem obeys_clock {Q : Except Exn Time → World × Bool → Prop}
    (hQ : ∀ now s', s'.2 = s.2 → Q (.ok now) s') : (perform .now).Obeys (failing j) s Q := by
  refine obeys_perform.2 ⟨trivial, ?_⟩
  rintro a ⟨w, ok⟩ ⟨⟨v, c⟩, -, he, hok⟩
  obtain ⟨rfl, -⟩ := World.exec_now he
  exact hQ _ _ (hok.trans (Bool.and_true _))

/-- A credential failure that flags no collection. -/
theorem obeys_failClassified (stage : String) (c : CredentialClass)
    (h : c = .eulaNotAccepted → spec.conceptId.getD "" = "") :
    (failClassifiedCredential cfg j spec stage c).Obeys (failing j) s
      fun _ s' => s'.1.Failed j ∧ s'.2 = s.2 := by
  have hmark : markIfEula c spec.conceptId = pure () := by
    unfold markIfEula
    split_ifs with hc
    · have hempty := h hc
      unfold markRestrictedSafe
      split
      · rfl
      · rename_i conceptId hid
        rw [hid] at hempty
        exact if_pos hempty
    · rfl
  unfold failClassifiedCredential
  rw [hmark]
  exact obeys_failJob _ _

/-- The exception is raised again, however the job was failed. -/
theorem obeys_raise_after {p : Program Unit} {Q : World × Bool → Prop}
    (hp : p.Obeys (failing j) s fun _ s' => Q s') :
    (p >>= fun _ => raise e : Program Unit).Obeys (failing j) s fun _ s' => Q s' := by
  rw [obeys_bind]
  refine hp.mono ?_
  rintro (_ | _) s' h
  · exact h
  · exact h

/-- A job is failed in a stage without a word about it before. -/
theorem obeys_failStage (name : String) (now : Time)
    (h : e.NeedsEula → spec.conceptId.getD "" = "") :
    (failStage cfg j spec name e (classifyCredentialFailure now identity e)).Obeys (failing j) s
      fun _ s' => s'.1.Failed j ∧ s'.2 = s.2 := by
  unfold failStage
  split
  · rename_i c hc
    refine obeys_failClassified name c fun heula => h ?_
    rw [heula] at hc
    exact (classifyCredentialFailure_eq_eula now identity e).1 hc
  · exact obeys_failJob _ _

/-- The handler of a stage, where it neither retries nor explains first. -/
theorem obeys_failed {stage : Stage} (hretries : ¬ stage.Retries cfg spec e)
    (hfirst : ¬ stage.ExplainsFirst cfg spec e) :
    (stage.failed cfg j spec identity e).Obeys (failing j) s
      fun _ s' => s'.1.Failed j ∧ s'.2 = s.2 := by
  have heula (h : e.NeedsEula) : spec.conceptId.getD "" = "" := by
    by_contra hne
    exact hfirst (Or.inl ⟨h, hne⟩)
  cases stage with
  | submit =>
    unfold Stage.failed submitFailed
    rw [obeys_bind]
    refine obeys_clock fun now s' hok => ?_
    rw [afterBind_ok, ← hok, credentialFailure_eq]
    split
    · rename_i c hc
      apply obeys_raise_after
      refine obeys_failClassified _ c fun hclass => heula ?_
      rw [hclass] at hc
      exact (classifyCredentialFailure_eq_eula now identity e).1 hc
    rename_i hnone
    have hnot := (classifyCredentialFailure_eq_none now identity e).1 hnone
    -- it falls back, the request is rejected, there is no way to fall back, or no fallback at all
    split_ifs with hharmony hfall hinvalid
    · exact absurd ⟨⟨hnot, hharmony, hfall.1⟩, hfall.2⟩ hretries
    · exact obeys_raise_after (obeys_failJob _ _)
    · -- there is nothing to fall back to, which goes unsaid without a handle
      have hinfra : classifySubmitFailure cfg e = .infrastructure := by
        cases h : classifySubmitFailure cfg e with
        | invalidRequest => exact absurd h hinvalid
        | infrastructure => rfl
      have hsilent : recordEventSafe spec.workspaceId spec.obsHandle .opendapNotApplicable =
          pure () := by
        unfold recordEventSafe
        split
        · rename_i hws hh
          refine absurd (Or.inr ⟨rfl, ⟨hnot, hharmony, hinfra⟩, ?_⟩) hfirst
          rw [hws, hh]
          exact ⟨rfl, rfl⟩
        · rfl
      rw [hsilent]
      exact obeys_raise_after (obeys_failJob _ _)
    · exact obeys_raise_after (obeys_failJob _ _)
  | poll =>
    unfold Stage.failed pollFailed
    dsimp only
    split_ifs with hretry
    · exact absurd hretry hretries
    rw [obeys_bind]
    refine obeys_clock fun now s' hok => ?_
    rw [afterBind_ok, ← hok]
    exact obeys_raise_after (obeys_failStage _ now heula)
  | materialize =>
    unfold Stage.failed materializeFailed
    rw [obeys_bind]
    refine obeys_clock fun now s' hok => ?_
    rw [afterBind_ok, ← hok, credentialFailure_eq]
    exact obeys_raise_after (obeys_failStage _ now heula)

/-- A program that fails the job before it explains anything does so on every run. -/
theorem failsCleanly_of_obeys {p : Program Unit}
    (hp : ∀ w, p.Obeys (failing j) (w, true) fun _ s' => s'.1.Failed j ∧ s'.2 = true) :
    FailsCleanly j p := by
  intro w cs r w' _ hrun hassume
  obtain ⟨hfailed, hcheck⟩ := (hp w).runAlone hrun hassume
  exact ⟨hfailed, hcheck⟩

end handlers

/-! ### Explaining first -/

section first

variable {cfg : Settings} {j : JobId} {w : World} {spec : RequestSpec}
  {identity : Option Token} {e : Exn}

/-- The program ends on these choices with a cancellation, in the world it has started from, and
the job was not to be failed by then. -/
structure CutShort (j : JobId) (w : World) (p : Program Unit) (cs : List (World × Choice)) :
    Prop where
  run : p.runAlone (amid World.exec) w cs = some (.error .cancelled, w)
  assumed : p.Along (amid World.exec) (failureCommits j) w cs = true

theorem CutShort.bind {p : Program Unit} {f : Unit → Program Unit} {cs : List (World × Choice)}
    (h : CutShort j w p cs) : CutShort j w (p >>= f) cs :=
  ⟨runAlone_bind_error h.run, (along_bind_error h.run).trans h.assumed⟩

/-- A step that does not fail the job, in a world that nobody has changed. -/
theorem failureCommits_self {o : Op} {c : Choice} (ho : ∀ jo, o ≠ .jobs jo) :
    failureCommits j w o (w, c) = true := by
  refine failureCommits_iff.2 ⟨(Decidable.em (w.Failed j)).symm, ?_⟩
  cases o with
  | jobs jo => exact absurd rfl (ho jo)
  | _ => rfl

/-- The time is read, and the next operation is cancelled. -/
abbrev cancelledAtOnce (w : World) : List (World × Choice) := [(w, .ok), (w, .fault .cancelled)]

/-- A handler that goes on with a write once it has read the time, and is cancelled there. -/
theorem CutShort.clock {p : Time → Program Unit}
    (h : CutShort j w (p w.clock) [(w, .fault .cancelled)]) :
    CutShort j w (perform .now >>= p : Program Unit) (cancelledAtOnce w) := by
  have hnow : @amid Api World Choice World.exec w .now (w, .ok) = some (.ok w.clock, w) := rfl
  refine ⟨(runAlone_perform_bind hnow).trans h.run, Bool.and_eq_true_iff.2 ⟨?_, h.assumed⟩⟩
  apply failureCommits_self
  intro jo hjo
  cases hjo

theorem cutShort_event {ws : Option WorkspaceId} {h : Option HandleId}
    (type : ProvenanceEventType) (hws : ws.isSome) (hh : h.isSome) :
    CutShort j w (recordEventSafe ws h type) [(w, .fault .cancelled)] := by
  obtain ⟨ws, rfl⟩ := Option.isSome_iff_exists.1 hws
  obtain ⟨h, rfl⟩ := Option.isSome_iff_exists.1 hh
  refine ⟨rfl, Bool.and_eq_true_iff.2 ⟨failureCommits_self ?_, rfl⟩⟩
  intro jo hjo
  cases hjo

theorem cutShort_classified (name : String) (hid : spec.conceptId.getD "" ≠ "") :
    CutShort j w (failClassifiedCredential cfg j spec name .eulaNotAccepted)
      [(w, .fault .cancelled)] := by
  unfold failClassifiedCredential markIfEula
  apply CutShort.bind
  rw [if_pos rfl]
  unfold markRestrictedSafe
  split
  · rename_i hnone
    rw [hnone] at hid
    exact absurd rfl hid
  · rename_i conceptId hsome
    have hne : conceptId ≠ "" := by
      rw [hsome] at hid
      exact hid
    rw [if_neg hne]
    refine ⟨rfl, Bool.and_eq_true_iff.2 ⟨failureCommits_self ?_, rfl⟩⟩
    intro jo hjo
    cases hjo

/-- A handler that explains first never gets to fail the job if it is cancelled there. -/
theorem cutShort_failed {stage : Stage} (hretries : ¬ stage.Retries cfg spec e)
    (hfirst : stage.ExplainsFirst cfg spec e) :
    CutShort j w (stage.failed cfg j spec identity e) (cancelledAtOnce w) := by
  rcases hfirst with ⟨heula, hid⟩ | ⟨rfl, hfall, hws, hh⟩
  · have hclass := (classifyCredentialFailure_eq_eula w.clock identity e).2 heula
    cases stage with
    | submit =>
      apply CutShort.clock
      rw [credentialFailure_eq, hclass]
      exact (cutShort_classified _ hid).bind
    | poll =>
      unfold Stage.failed pollFailed
      dsimp only
      split_ifs with hretry
      · exact absurd hretry hretries
      apply CutShort.clock
      rw [hclass]
      exact (cutShort_classified _ hid).bind
    | materialize =>
      apply CutShort.clock
      rw [credentialFailure_eq, hclass]
      exact (cutShort_classified _ hid).bind
  · have hnone := (classifyCredentialFailure_eq_none w.clock identity e).2 hfall.1
    have hurls : spec.opendapUrls = [] := by
      by_contra hne
      exact hretries ⟨hfall, hne⟩
    apply CutShort.clock
    rw [credentialFailure_eq, hnone]
    dsimp only
    rw [if_pos hfall.2.1, if_neg fun h => h.2 hurls, if_neg (by rw [hfall.2.2]; decide)]
    exact (cutShort_event _ hws hh).bind

/-- A world with one job, in `pending`. -/
def World.withPending (j : JobId) (spec : RequestSpec) : World :=
  let new : NewJob :=
    { jobHandle := ⟨.job, 0⟩
      obsHandle := spec.obsHandle
      provider := spec.provider
      requestSpec := ⟨spec, none⟩ }
  { jobs := { rows := [new.row 0 j] } }

theorem World.jobRow_withPending (j : JobId) (spec : RequestSpec) :
    ∃ row, (withPending j spec).jobRow j = some row ∧ row.state = .pending := by
  refine ⟨_, List.find?_cons_of_pos ?_, rfl⟩
  exact decide_eq_true rfl

end first

/-- A handler that explains first does not fail cleanly. -/
theorem not_failsCleanly {cfg : Settings} (j : JobId) {stage : Stage} {spec : RequestSpec}
    (identity : Option Token)
    {e : Exn} (hretries : ¬ stage.Retries cfg spec e) (hfirst : stage.ExplainsFirst cfg spec e) :
    ¬ FailsCleanly j (stage.failed cfg j spec identity e) := by
  intro h
  obtain ⟨row, hrow, hst⟩ := World.jobRow_withPending j spec
  have hopen : (World.withPending j spec).Unfinished j := by
    refine ⟨row, hrow, ?_⟩
    rw [hst]
    exact JobState.not_terminal_pending
  have hcut : CutShort j (World.withPending j spec) (stage.failed cfg j spec identity e) _ :=
    cutShort_failed hretries hfirst
  -- the commit is never reached, so that nothing is assumed of it
  obtain ⟨⟨row', hrow', hfailed⟩, -⟩ := h _ _ _ _ hopen hcut.run hcut.assumed
  rw [hrow] at hrow'
  obtain rfl := Option.some.inj hrow'
  rw [hst] at hfailed
  cases hfailed

/-- A handler that does not retry ends with the job failed, and writes what explains it after
that, unless it explains first. -/
theorem failsCleanly_iff (cfg : Settings) (j : JobId) (stage : Stage) (spec : RequestSpec)
    (identity : Option Token)
    (e : Exn) (hretries : ¬ stage.Retries cfg spec e) :
    FailsCleanly j (stage.failed cfg j spec identity e) ↔ ¬ stage.ExplainsFirst cfg spec e := by
  constructor
  · intro h hfirst
    exact not_failsCleanly j identity hretries hfirst h
  · intro hfirst
    exact failsCleanly_of_obeys fun w => obeys_failed hretries hfirst

/-- A Harmony job of the workspace 0, for which no OPeNDAP endpoint is known. -/
def RequestSpec.withoutUrls : RequestSpec where
  conceptId := some "C1"
  shortName := none
  outputFormat := defaultFormat
  needsPointSample := false
  aoiBbox := none
  timeRange := none
  variableNames := []
  provider := .harmony
  opendapUrls := []
  workspaceId := some 0
  jobHandle := none
  obsHandle := some ⟨.obs, 0⟩

/-- A download that is cancelled fails its job cleanly. -/
theorem failsCleanly_materialize :
    FailsCleanly 0 (Stage.materialize.failed {} 0 .withoutUrls none .cancelled) :=
  (failsCleanly_iff {} 0 .materialize .withoutUrls none .cancelled id).2 (by
    rintro (⟨h, -⟩ | ⟨h, -⟩) <;> cases h)

/-- Harmony can not be reached: it is noted first that nothing is left to fall back to. -/
theorem not_failsCleanly_submit : ¬ ∀ (cfg : Settings) (j : JobId) (stage : Stage)
    (spec : RequestSpec) (identity : Option Token) (e : Exn), ¬ stage.Retries cfg spec e →
      FailsCleanly j (stage.failed cfg j spec identity e) := by
  intro h
  have hretries : ¬ Stage.submit.Retries {} .withoutUrls (.transient "timed out") :=
    fun hretry => hretry.2 rfl
  have hfall : FallbackApplies {} .withoutUrls (.transient "timed out") :=
    ⟨rfl, rfl, by decide +kernel⟩
  exact not_failsCleanly 0 none hretries (Or.inr ⟨rfl, hfall, rfl, rfl⟩)
    (h {} 0 .submit .withoutUrls none (.transient "timed out") hretries)

end EarthdataMcp
