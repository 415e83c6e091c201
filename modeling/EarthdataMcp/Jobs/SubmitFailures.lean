import EarthdataMcp.Jobs.Attempts

/-!
# What becomes of a failed submit

Along every run that keeps the submits of a row apart and in which every Harmony submit that could
fall back ends clearly: the fallback is taken only where it is justified, at most once for a job,
whose providers are called at most twice, and every other failed submit fails its job and raises
its own exception.

* `Exn.Infrastructure` and `Exn.Rejects`, what an exception says of Harmony and of the request, and
  `Exn.Recognized`, what the handler knows it for;
* `EndsClearly`, which is all that justifies a fallback: `justified_iff_endsClearly`;
* `SubmitDiscipline`, which speaks of the events in the past of the threads;
* `Attempt.Recalls`: what the past of a thread says about its attempt;
* `submitDiscipline_of_reach`, and the run in which a cancelled submit falls back.
-/

namespace EarthdataMcp

open Concurrency Concurrency.Prog Concurrency.System

variable {cfg : Settings} {lost : ℕ → Prop}

/-! ### What a failure says -/

/-- HTTP reason phrases of a server that fails. -/
def serverErrorReasons : List String :=
  ["internal server error", "not implemented", "bad gateway", "service unavailable",
    "gateway timeout", "gateway time-out", "http version not supported", "insufficient storage"]

/-- Harmony was not reached, or failed itself: a timeout, a lost connection or a 5xx. -/
def Exn.Infrastructure : Exn → Prop
  | .transient _ => True
  | .unreached _ => True
  | .http status _ _ => 500 ≤ status ∧ status < 600
  | .plain reason _ => reasonPhrase reason ∈ serverErrorReasons
  | _ => False

instance : DecidablePred Exn.Infrastructure
  | .transient _ | .unreached _ => isTrue trivial
  | .http _ _ _ => inferInstanceAs (Decidable (_ ∧ _))
  | .plain _ _ => inferInstanceAs (Decidable (_ ∈ _))
  | .illegalTransition _ | .jobNotFound _ | .handleNotFound _ | .crossWorkspace _ | .credential _
  | .credentialKeyUnavailable | .missingKey | .other _ | .cancelled => isFalse id

/-- The text has one of the wordings with which Harmony rejects a request. -/
def saysRejected (text : String) : Prop :=
  ∃ phrase ∈ invalidRequestPhrases, contains phrase (lower text)

instance : DecidablePred saysRejected := fun _ => List.decidableBEx _ _

/-- Harmony rejects the request, by its own words. -/
def Exn.Rejects (e : Exn) : Prop := saysRejected e.text

/-- The failure tells by its kind, its status or its reason that the credential or the request is to
blame. -/
def Exn.Tells : Exn → Prop
  | .credential _ => True
  | .http status _ _ => status = 401 ∨ status = 403
  | .plain reason _ =>
      reasonPhrase reason ∈ ["unauthorized", "forbidden", "bad request", "unprocessable entity"]
  | _ => False

instance : DecidablePred Exn.Tells
  | .credential _ => isTrue trivial
  | .http _ _ _ => inferInstanceAs (Decidable (_ ∨ _))
  | .plain _ _ => inferInstanceAs (Decidable (_ ∈ _))
  | .illegalTransition _ | .jobNotFound _ | .handleNotFound _ | .crossWorkspace _
  | .credentialKeyUnavailable | .transient _ | .unreached _ | .missingKey | .other _
  | .cancelled => isFalse id

/-- The handler knows the failure for one of the credential or of the request. -/
def Exn.Recognized (cfg : Settings) (e : Exn) : Prop := e.Tells ∨ saysRejected (cfg.redact e.text)

/-- A failure of Harmony's, and not of the credential, of the request or of the caller, with granule
URLs to fall back on. -/
structure Justified (spec : RequestSpec) (e : Exn) : Prop where
  harmony : spec.provider = .harmony
  urls : spec.opendapUrls ≠ []
  infrastructure : e.Infrastructure
  notCredential : e.NotCredential
  notRejected : ¬ e.Rejects
  notCancelled : e ≠ .cancelled

/-- A submit to Harmony that could fall back ends with a failure of Harmony's, or with one that the
handler knows. -/
def EndsClearly (cfg : Settings) (spec : RequestSpec) (e : Exn) : Prop :=
  spec.provider = .harmony → spec.opendapUrls ≠ [] →
    e.Infrastructure ∧ ¬ e.Rejects ∨ e.Recognized cfg

instance (spec : RequestSpec) (e : Exn) : Decidable (EndsClearly cfg spec e) :=
  inferInstanceAs (Decidable (_ → _ → _ ∧ ¬ saysRejected _ ∨ _ ∨ saysRejected _))

section classify

variable {spec : RequestSpec} {e : Exn}

theorem saysRejected_iff {text : String} :
    saysRejected text ↔ (invalidRequestPhrases.any fun p => contains p (lower text)) = true := by
  unfold saysRejected
  rw [List.any_eq_true]

/-- What the classifiers of the handler find. -/
theorem recognized_iff : e.Recognized cfg ↔
    ¬ (e.NotCredential ∧ classifySubmitFailure cfg e = .infrastructure) := by
  unfold Exn.Recognized
  rw [saysRejected_iff]
  unfold Exn.NotCredential classifySubmitFailure excMessage Exn.Tells
  cases e with
  | http status text body =>
    simp only [classifyCredentialFailure]
    split_ifs <;> simp_all
  | plain reason message =>
    simp only [classifyCredentialFailure, invalidRequestReasons]
    split_ifs <;> simp_all
  | _ => simp [classifyCredentialFailure]

/-- The handler falls back on what it does not recognize. -/
theorem fallsBack_iff : FallsBack cfg spec e ↔
    spec.provider = .harmony ∧ spec.opendapUrls ≠ [] ∧ ¬ e.Recognized cfg := by
  rw [recognized_iff, not_not]
  constructor
  · rintro ⟨⟨hnot, hharmony, hinfra⟩, hurls⟩
    exact ⟨hharmony, hurls, hnot, hinfra⟩
  · rintro ⟨hharmony, hurls, hnot, hinfra⟩
    exact ⟨⟨hnot, hharmony, hinfra⟩, hurls⟩

/-- A fallback is justified just where the submit ends clearly. -/
theorem justified_iff_endsClearly :
    (FallsBack cfg spec e → Justified spec e) ↔ EndsClearly cfg spec e := by
  constructor
  · intro h hharmony hurls
    by_cases hknown : e.Recognized cfg
    · exact Or.inr hknown
    · have hjust := h (fallsBack_iff.2 ⟨hharmony, hurls, hknown⟩)
      exact Or.inl ⟨hjust.infrastructure, hjust.notRejected⟩
  · intro h hfall
    obtain ⟨hharmony, hurls, hunknown⟩ := fallsBack_iff.1 hfall
    obtain ⟨hinfra, hnot⟩ := (h hharmony hurls).resolve_right hunknown
    refine ⟨hharmony, hurls, hinfra, hfall.1.1, hnot, ?_⟩
    rintro rfl
    exact hinfra

end classify

/-! ### What threads have done -/

/-- The submit that raised, if the event is one: the job, its specification, the exception. -/
def submitFailure (ev : Event Api) : Option (JobId × RequestSpec × Exn) :=
  match ev.op, ev.ans with
  | .provider (.submit j spec _), .error e => some (j, spec, e)
  | _, _ => none

/-- The submit of `j` under this specification raised `e`. -/
def SubmitRaised (past : List (Event Api)) (j : JobId) (spec : RequestSpec) (e : Exn) : Prop :=
  ∃ ev ∈ past, submitFailure ev = some (j, spec, e)

/-- The row of `j` was re-routed to OPeNDAP. -/
def Reroutes (j : JobId) (ev : Event Api) : Prop :=
  ∃ row rest, ev = ⟨.jobs (.transact (.getJob j) rerouteToOpendap), .ok (row :: rest)⟩

open Classical in
/-- How often the threads have fallen back for the job. -/
noncomputable def fallbacks (s : (service cfg).State) (j : JobId) : ℕ :=
  (s.threads.map fun th => th.past.countP fun ev => decide (Reroutes j ev)).sum

/-- What is written later on has not taken effect: a transaction raised, or an event or a flag
was cancelled. -/
def disturbs (ev : Event Api) : Bool :=
  match ev.op, ev.ans with
  | .jobs _, .error _ => true
  | .provenance _, .error e => ¬ e.isException
  | .access _, .error e => ¬ e.isException
  | _, _ => false

/-- The row of the job has failed. -/
def JobTable.HasFailed (t : JobTable) (j : JobId) : Prop :=
  ∃ row ∈ t.rows, row.jobId = j ∧ row.state = .failed

/-- What holds of the submits of all jobs. -/
structure SubmitDiscipline (s : (service cfg).State) : Prop where
  justified : ∀ th ∈ s.threads, ∀ ev ∈ th.past, ∀ j, Reroutes j ev →
    ∃ spec e, SubmitRaised th.past j spec e ∧ Justified spec e
  fallbackOnce : ∀ j, fallbacks s j ≤ 1
  submitTwice : ∀ j, s.world.submitCalls j ≤ 2
  failed : ∀ th ∈ s.threads, ∀ j spec e r, SubmitRaised th.past j spec e →
    ¬ (Justified spec e ∧ ∃ ev ∈ th.past, Reroutes j ev) →
    th.result = some r → (∀ ev ∈ th.past, disturbs ev = false) →
    r = .error e ∧ s.world.jobs.HasFailed j

/-! ### The condition on a run -/

/-- The submit that raises, if the step is one, ends clearly. -/
def RaisesClearly (cfg : Settings) : Op → Choice → Prop
  | .provider (.submit _ spec _), .fault e => EndsClearly cfg spec e
  | .provider (.submit _ spec _), .lost _ e => EndsClearly cfg spec e
  | _, _ => True

instance (o : Op) (c : Choice) : Decidable (RaisesClearly cfg o c) := by
  cases o with
  | provider po =>
    cases po with
    | submit j spec token =>
      cases c with
      | fault e => exact inferInstanceAs (Decidable (EndsClearly cfg spec e))
      | lost a e => exact inferInstanceAs (Decidable (EndsClearly cfg spec e))
      | _ => exact isTrue trivial
    | _ => exact isTrue trivial
  | _ => exact isTrue trivial

/-- Every submit to Harmony that could fall back, if it raises, ends clearly. -/
def SubmitsClear (s : (service cfg).State) : (service cfg).Label → (service cfg).State → Prop
  | .act i c, _ => ∀ o ∈ nextOp s i, RaisesClearly cfg o c
  | .env _, _ => True

instance (s : (service cfg).State) (l : (service cfg).Label) (t : (service cfg).State) :
    Decidable (SubmitsClear s l t) :=
  match l with
  | .act i c => inferInstanceAs (Decidable (∀ o ∈ nextOp s i, RaisesClearly cfg o c))
  | .env _ => inferInstanceAs (Decidable True)

/-- The condition on the steps of a run. -/
abbrev SubmitsOrderly (lost : ℕ → Prop) (s : (service cfg).State) (l : (service cfg).Label)
    (t : (service cfg).State) : Prop :=
  SubmitsApart lost s l t ∧ SubmitsClear s l t

theorem SubmitRaised.countP_pos {past : List (Event Api)} {j : JobId} {spec : RequestSpec} {e : Exn}
    (h : SubmitRaised past j spec e) : 0 < past.countP (isSubmitTo j spec.provider) := by
  obtain ⟨ev, hmem, hev⟩ := h
  refine List.countP_pos_iff.2 ⟨ev, hmem, ?_⟩
  unfold submitFailure at hev
  split at hev
  · rename_i j' spec' token e' hop hans
    obtain ⟨rfl, rfl, rfl⟩ : j' = j ∧ spec' = spec ∧ e' = e := by simpa using hev
    unfold isSubmitTo
    rw [hop]
    simp [ProviderOp.call, Call.isSubmit]
  · cases hev

/-! ### What the past says -/

section past

variable {n : Attempt} {past : List (Event Api)} {j : JobId} {spec : RequestSpec} {e : Exn}

open Classical in
/-- What the past of a thread says about its attempt. -/
structure Attempt.Recalls (cfg : Settings) (n : Attempt) (past : List (Event Api)) : Prop where
  rerouted : ∀ ev ∈ past, ∀ j, Reroutes j ev → ∃ spec e, n = .fellBack j spec e
  once : ∀ j, (past.countP fun ev => decide (Reroutes j ev)) ≤ 1
  fallsBack : ∀ j spec e, n = .fellBack j spec e →
    FallsBack cfg spec e ∧ ∃ ev ∈ past, Reroutes j ev
  raised : ∀ j spec e, n.failure = some (j, spec, e) →
    SubmitRaised past j spec e ∧ (FallsBack cfg spec e → Justified spec e)
  told : ∀ j spec e, SubmitRaised past j spec e →
    n.failure = some (j, spec, e) ∨ ∃ ev ∈ past, disturbs ev = true

theorem SubmitRaised.cons (h : SubmitRaised past j spec e) (ev : Event Api) :
    SubmitRaised (ev :: past) j spec e := by
  obtain ⟨ev', hmem, hev⟩ := h
  exact ⟨ev', List.mem_cons_of_mem _ hmem, hev⟩

theorem submitRaised_cons {ev : Event Api} :
    SubmitRaised (ev :: past) j spec e ↔
      submitFailure ev = some (j, spec, e) ∨ SubmitRaised past j spec e := by
  unfold SubmitRaised
  rw [List.exists_mem_cons_iff]

namespace Attempt.Recalls

open Classical in
/-- An event that re-routes nothing. -/
theorem once_cons (h : n.Recalls cfg past) {ev : Event Api} (hev : ∀ j, ¬ Reroutes j ev)
    (j : JobId) :
    ((ev :: past).countP fun ev => decide (Reroutes j ev)) ≤ 1 := by
  rw [List.countP_cons_of_neg (by simpa using hev j)]
  exact h.once j

theorem raised_cons (h : n.Recalls cfg past) (ev : Event Api) (j : JobId) (spec : RequestSpec)
    (e : Exn) (hfailure : n.failure = some (j, spec, e)) :
    SubmitRaised (ev :: past) j spec e ∧ (FallsBack cfg spec e → Justified spec e) :=
  (h.raised j spec e hfailure).imp_left fun hraised => hraised.cons ev

/-- An event that is no failed submit. -/
theorem told_cons (h : n.Recalls cfg past) {ev : Event Api} (hsub : submitFailure ev = none)
    (j : JobId) (spec : RequestSpec) (e : Exn) (hraised : SubmitRaised (ev :: past) j spec e) :
    n.failure = some (j, spec, e) ∨ ∃ ev' ∈ ev :: past, disturbs ev' = true := by
  rcases submitRaised_cons.1 hraised with hnew | hold
  · rw [hsub] at hnew
    cases hnew
  · refine (h.told j spec e hold).imp_right ?_
    rintro ⟨ev', hmem, hdis⟩
    exact ⟨ev', List.mem_cons_of_mem _ hmem, hdis⟩

/-- Nothing is added to what the thread has done. -/
theorem keep (h : n.Recalls cfg past) {ev : Event Api} (hev : ∀ j, ¬ Reroutes j ev)
    (hsub : submitFailure ev = none) : n.Recalls cfg (ev :: past) where
  rerouted ev' hmem j hre := by
    rcases List.mem_cons.1 hmem with rfl | hmem
    · exact absurd hre (hev j)
    · exact h.rerouted ev' hmem j hre
  once := h.once_cons hev
  fallsBack j spec e heq := by
    obtain ⟨hfall, ev', hmem, hre⟩ := h.fallsBack j spec e heq
    exact ⟨hfall, ev', List.mem_cons_of_mem _ hmem, hre⟩
  raised := h.raised_cons ev
  told := h.told_cons hsub

/-- An attempt that has not fallen back changes, and what has raised still has. -/
theorem change (h : n.Recalls cfg past) (hn : ∀ j spec e, n ≠ .fellBack j spec e) {n' : Attempt}
    (hn' : ∀ j spec e, n' ≠ .fellBack j spec e) {ev : Event Api} (hev : ∀ j, ¬ Reroutes j ev)
    (hraised : ∀ j spec e, n'.failure = some (j, spec, e) →
      SubmitRaised (ev :: past) j spec e ∧ (FallsBack cfg spec e → Justified spec e))
    (htold : ∀ j spec e, SubmitRaised (ev :: past) j spec e →
      n'.failure = some (j, spec, e) ∨ ∃ ev' ∈ ev :: past, disturbs ev' = true) :
    n'.Recalls cfg (ev :: past) where
  rerouted ev' hmem j hre := by
    rcases List.mem_cons.1 hmem with rfl | hmem
    · exact absurd hre (hev j)
    · obtain ⟨spec, e, heq⟩ := h.rerouted ev' hmem j hre
      exact absurd heq (hn j spec e)
  once := h.once_cons hev
  fallsBack j spec e heq := absurd heq (hn' j spec e)
  raised := hraised
  told := htold

/-- The handler is disturbed. -/
theorem disturbed (h : n.Recalls cfg past) (hn : ∀ j spec e, n ≠ .fellBack j spec e)
    {ev : Event Api}
    (hev : ∀ j, ¬ Reroutes j ev) (hdis : disturbs ev = true) : closed.Recalls cfg (ev :: past) := by
  refine h.change hn (fun _ _ _ heq => by cases heq) hev (fun _ _ _ heq => by cases heq) ?_
  exact fun _ _ _ _ => Or.inr ⟨ev, List.mem_cons_self, hdis⟩

open Classical in
/-- The row is re-routed. -/
theorem fallBack (h : (Attempt.raised j spec e).Recalls cfg past) (hfall : FallsBack cfg spec e)
    {ev : Event Api} (hre : Reroutes j ev) (hev : ∀ j', Reroutes j' ev → j' = j)
    (hsub : submitFailure ev = none) :
    (fellBack j spec e).Recalls cfg (ev :: past) where
  rerouted ev' hmem j' hre' := by
    rcases List.mem_cons.1 hmem with rfl | hmem
    · obtain rfl := hev j' hre'
      exact ⟨spec, e, rfl⟩
    · obtain ⟨spec', e', heq⟩ := h.rerouted ev' hmem j' hre'
      cases heq
  once j' := by
    -- a thread that has only raised has not re-routed anything before
    have hzero : (past.countP fun ev => decide (Reroutes j' ev)) = 0 := by
      rw [List.countP_eq_zero]
      intro ev' hmem hre
      obtain ⟨spec', e', heq⟩ := h.rerouted ev' hmem j' (of_decide_eq_true hre)
      cases heq
    rw [List.countP_cons, hzero]
    split_ifs <;> omega
  fallsBack j' spec' e' heq := by
    cases heq
    exact ⟨hfall, ev, List.mem_cons_self, hre⟩
  raised := h.raised_cons ev
  told := h.told_cons hsub

end Attempt.Recalls

/-- An operation of another kind re-routes nothing. -/
theorem not_reroutes_of_op {o : Op} {a : Except Exn o.Ans} (ho : ∀ q edit, o ≠ .jobs (.transact q edit))
    (j : JobId) : ¬ Reroutes j ⟨o, a⟩ := by
  rintro ⟨row, rest, heq⟩
  exact ho _ _ (congrArg Event.op heq)

theorem not_reroutes_of_edit {q : JobQuery} {edit : Edit} {a : Except Exn (List Job)}
    (h : edit ≠ rerouteToOpendap) (j : JobId) : ¬ Reroutes j ⟨.jobs (.transact q edit), a⟩ := by
  rintro ⟨row, rest, heq⟩
  have hop : Op.jobs (.transact q edit) = .jobs (.transact (.getJob j) rerouteToOpendap) :=
    congrArg Event.op heq
  injection hop with hop
  injection hop with hq hedit
  exact h hedit

theorem not_reroutes_of_error {q : JobQuery} {edit : Edit} {e : Exn} (j : JobId) :
    ¬ Reroutes j ⟨.jobs (.transact q edit), .error e⟩ := by
  rintro ⟨row, rest, heq⟩
  injection heq with hop hans
  injection hop with hop
  injection hop with hq hedit
  subst hq hedit
  cases hans

/-- A write aside that leaves the handler where it is, or disturbs it. -/
theorem Attempt.Recalls.write (h : n.Recalls cfg past) {o : Op} {a : Except Exn o.Ans}
    (ho : ∀ q edit, o ≠ .jobs (.transact q edit)) (hsub : submitFailure ⟨o, a⟩ = none)
    (hdis : ∀ e', a = .error e' → e'.isException = false → disturbs ⟨o, a⟩ = true) :
    (n.afterWrite a).Recalls cfg (⟨o, a⟩ :: past) := by
  have hkeep : n.Recalls cfg (⟨o, a⟩ :: past) := h.keep (not_reroutes_of_op ho) hsub
  unfold Attempt.afterWrite
  split
  · split_ifs with hexc
    · exact hkeep
    · exact h.disturbed (fun _ _ _ heq => by cases heq) (not_reroutes_of_op ho)
        (hdis _ rfl (Bool.eq_false_iff.2 hexc))
  · split_ifs with hexc
    · exact hkeep
    · exact h.disturbed (fun _ _ _ heq => by cases heq) (not_reroutes_of_op ho)
        (hdis _ rfl (Bool.eq_false_iff.2 hexc))
  · exact hkeep

/-- A transaction that a submit may perform. -/
theorem Attempt.Recalls.transact (h : n.Recalls cfg past) {q : JobQuery} {edit : Edit}
    {a : Except Exn (List Job)} (hmay : n.MayDo cfg (.jobs (.transact q edit)))
    (hhears : n.Hears (.jobs (.transact q edit)) a) :
    (n.afterTransaction cfg a).Recalls cfg (⟨.jobs (.transact q edit), a⟩ :: past) := by
  cases n with
  | raised j spec e =>
    obtain ⟨rfl, hedit⟩ := hmay
    cases a with
    | error e' =>
      exact h.disturbed (fun _ _ _ heq => by cases heq) not_reroutes_of_error rfl
    | ok rows =>
      show (if FallsBack cfg spec e then _ else _ : Attempt).Recalls cfg _
      by_cases hfall : FallsBack cfg spec e
      · rw [if_pos hfall] at hedit ⊢
        subst hedit
        -- the transaction re-routes the row of the job, which is there
        obtain ⟨row, rest, rfl⟩ := List.exists_cons_of_ne_nil fun hnil =>
          hhears j spec e rfl (congrArg _ hnil)
        refine h.fallBack hfall ⟨row, rest, rfl⟩ (fun j' => ?_) rfl
        rintro ⟨row', rest', heq⟩
        have hop := congrArg Event.op heq
        injection hop with hop
        injection hop with hq
        injection hq with hq
        exact hq.symm
      · rw [if_neg hfall] at hedit ⊢
        obtain ⟨error, rfl⟩ := hedit
        exact h.change (fun _ _ _ heq => by cases heq) (fun _ _ _ heq => by cases heq)
          (not_reroutes_of_edit (enterState_ne_reroute (by decide))) (h.raised_cons _)
          (h.told_cons rfl)
  | _ => exact h.keep (not_reroutes_of_edit hmay) rfl

/-- The call of a provider. -/
theorem Attempt.Recalls.submit (h : n.Recalls cfg past) {token : Option Token}
    {a : Except Exn (Option String)} (hmay : n.MayDo cfg (.provider (.submit j spec token)))
    (hclear : ∀ e, a = .error e → FallsBack cfg spec e → Justified spec e) :
    (n.afterCall (.submit j spec token) a).Recalls cfg
      (⟨.provider (.submit j spec token), a⟩ :: past) := by
  cases n with
  | unasked j' =>
    obtain rfl := hmay
    have htold (j' : JobId) (spec' : RequestSpec) (e' : Exn)
        (hraised : SubmitRaised past j' spec' e') :
        ∃ ev ∈ ⟨.provider (.submit j spec token), a⟩ :: past, disturbs ev = true := by
      rcases h.told j' spec' e' hraised with hfailure | ⟨ev, hmem, hdis⟩
      · cases hfailure
      · exact ⟨ev, List.mem_cons_of_mem _ hmem, hdis⟩
    have hre (j' : JobId) : ¬ Reroutes j' ⟨.provider (.submit j spec token), a⟩ :=
      not_reroutes_of_op (fun _ _ heq => by cases heq) j'
    cases a with
    | error e =>
      refine h.change (fun _ _ _ heq => by cases heq) (fun _ _ _ heq => by cases heq) hre ?_ ?_
      · rintro j' spec' e' hfailure
        cases hfailure
        exact ⟨⟨_, List.mem_cons_self, rfl⟩, hclear e rfl⟩
      · intro j' spec' e' hraised
        rcases submitRaised_cons.1 hraised with hnew | hold
        · exact Or.inl hnew
        · exact Or.inr (htold j' spec' e' hold)
    | ok url =>
      refine h.change (fun _ _ _ heq => by cases heq) (fun _ _ _ heq => by cases heq) hre ?_ ?_
      · rintro j' spec' e' hfailure
        cases hfailure
      · intro j' spec' e' hraised
        rcases submitRaised_cons.1 hraised with hnew | hold
        · cases hnew
        · exact Or.inr (htold j' spec' e' hold)
  | raised j' spec' e' => exact hmay.elim
  | _ => exact hmay.elim

/-- What a thread may do adds to its past what its attempt says. -/
theorem Attempt.Recalls.step (h : n.Recalls cfg past) {o : Op} {a : Except Exn o.Ans}
    (hmay : n.MayDo cfg o)
    (hhears : n.Hears o a)
    (hclear : ∀ j spec e, submitFailure ⟨o, a⟩ = some (j, spec, e) → FallsBack cfg spec e →
      Justified spec e) :
    (n.observe cfg o a).Recalls cfg (⟨o, a⟩ :: past) := by
  cases o with
  | jobs jo =>
    cases jo with
    | transact q edit => exact h.transact hmay hhears
    | _ => exact h.keep (not_reroutes_of_op fun _ _ heq => by cases heq) rfl
  | provider po =>
    cases po with
    | submit j spec token =>
      refine h.submit hmay ?_
      rintro e rfl
      exact hclear j spec e rfl
    | _ =>
      have hcall : n.observe cfg (.provider _) a = n := by cases n <;> rfl
      rw [hcall]
      exact h.keep (not_reroutes_of_op fun _ _ heq => by cases heq) rfl
  | provenance write =>
    refine h.write (fun _ _ heq => by cases heq) rfl ?_
    rintro e' rfl hexc
    simp [disturbs, hexc]
  | access ao =>
    refine h.write (fun _ _ heq => by cases heq) rfl ?_
    rintro e' rfl hexc
    simp [disturbs, hexc]
  | _ => exact h.keep (not_reroutes_of_op fun _ _ heq => by cases heq) rfl

end past

/-! ### Along every run -/

theorem JobTable.HasFailed.evolves {now : Time} {t t' : JobTable} {j : JobId} (h : t.HasFailed j)
    (ht : t.Evolves now t') : t'.HasFailed j := by
  obtain ⟨row, hrow, hid, hst⟩ := h
  cases ht with
  | rows f hf =>
    have hmoves := hf row hrow
    refine ⟨f row, List.mem_map_of_mem hrow, hmoves.jobId.trans hid, ?_⟩
    rcases hmoves.follows.of_terminal (by rw [hst]; decide) with heq | ⟨hready, -⟩
    · rw [heq, hst]
    · rw [hst] at hready
      cases hready
  | create new => exact ⟨row, List.mem_append_left _ hrow, hid, hst⟩

section step

variable {s : (service cfg).State} {i : ℕ} {th : (service cfg).Thread} {o : Op} {c : Choice}
  {a : Except Exn o.Ans} {w : World} {j : JobId}

/-- A failed job stays failed. -/
theorem hasFailed_exec {v : World} {n : Phase} (hmay : n.MayDo o) (he : v.exec o c = some (a, w))
    (h : v.jobs.HasFailed j) : w.jobs.HasFailed j := by
  by_cases ho : ∃ jo, o = .jobs jo
  · obtain ⟨jo, rfl⟩ := ho
    rcases World.exec_jobs he with ⟨-, -, rfl⟩ | ⟨e, -, rfl⟩
    · refine h.evolves (@JobTable.exec_evolves v.clock _ _ ?_ ?_)
      · cases jo with
        | transact q edit => exact fun now job job' hok => (hmay.routed now job job' hok).1
        | commit rows edit => exact hmay.elim
        | _ => trivial
      · cases jo with
        | commit rows edit => exact hmay.elim
        | _ => trivial
    · exact h
  · rw [World.exec_jobs_eq_self he fun jo hjo => ho ⟨jo, hjo⟩]
    exact h

/-- The transaction that fails a job. -/
theorem hasFailed_transact {v : World} (hindexed : v.jobs.Indexed) {extra : Extra} {row : Job}
    {rest : List Job} (he : v.exec (.jobs (.transact (.getJob j) (enterState .failed extra))) c =
      some (.ok (row :: rest), w)) : w.jobs.HasFailed j := by
  have hread := World.rowsRead_mem he (List.mem_cons_self (a := row) (l := rest))
  have hid : row.jobId = j := hread.2 _ rfl
  subst hid
  rcases World.exec_transact he with ⟨hfirst, -, hw⟩ | ⟨e, ha, -⟩
  · obtain ⟨row', hok, hwritten⟩ := hindexed.writeRow_getJob hread.1 hfirst
    obtain ⟨-, rfl⟩ := setState_eq_ok.1 (enterState_eq_ok hok)
    rw [hw]
    simp only [JobTable.exec, hfirst]
    refine ⟨_, List.mem_map_of_mem hread.1, ?_, ?_⟩
    · rw [hwritten, Job.stamp_jobId, Job.enter_jobId]
    · rw [hwritten, Job.stamp_state, Job.enter_state]
  · cases ha

end step

/-- A submit that raises clearly falls back only where that is justified. -/
theorem RaisesClearly.justified {v w : World} {o : Op} {c : Choice} {a : Except Exn o.Ans}
    {j : JobId} {spec : RequestSpec} {e : Exn} (h : RaisesClearly cfg o c)
    (he : v.exec o c = some (a, w)) (hsub : submitFailure ⟨o, a⟩ = some (j, spec, e)) :
    FallsBack cfg spec e → Justified spec e := by
  refine justified_iff_endsClearly.2 ?_
  cases o with
  | provider po =>
    cases po with
    | submit j' spec' token =>
      cases a with
      | ok url => cases hsub
      | error e' =>
        obtain ⟨rfl, rfl, rfl⟩ : j' = j ∧ spec' = spec ∧ e' = e := by
          simpa [submitFailure] using hsub
        obtain ⟨hans, -⟩ := World.exec_provider he
        cases c <;> simp [ProviderOp.answer] at hans
        · rw [← hans]
          exact h
        · rw [← hans]
          exact h
    | _ => cases hsub
  | _ => cases hsub

/-- A job counts as failed by a submit from its transaction on. -/
theorem Attempt.observe_failed {n : Attempt} {o : Op} {a : Except Exn o.Ans} {j : JobId}
    {spec : RequestSpec} {e : Exn} (h : n.observe cfg o a = .failed j spec e) :
    n = .failed j spec e ∨ n = .raised j spec e ∧ ¬ FallsBack cfg spec e ∧
      ∃ q edit rows, (⟨o, a⟩ : Event Api) = ⟨.jobs (.transact q edit), .ok rows⟩ := by
  cases o with
  | jobs jo =>
    cases jo with
    | transact q edit =>
      change n.afterTransaction cfg a = _ at h
      unfold afterTransaction at h
      split at h
      · split_ifs at h with hfall
        · cases h
          exact Or.inr ⟨rfl, hfall, q, edit, _, rfl⟩
      · cases h
      · exact Or.inl h
    | _ => exact Or.inl h
  | provider po =>
    change n.afterCall po a = _ at h
    unfold afterCall at h
    split at h
    · cases h
    · cases h
    · exact Or.inl h
  | provenance write =>
    change n.afterWrite a = _ at h
    unfold afterWrite at h
    split at h
    · split_ifs at h
    · split_ifs at h
      exact Or.inl h
    · exact Or.inl h
  | access ao =>
    change n.afterWrite a = _ at h
    unfold afterWrite at h
    split at h
    · split_ifs at h
    · split_ifs at h
      exact Or.inl h
    · exact Or.inl h
  | _ => exact Or.inl h

/-- The attempt of a thread. -/
def attemptOf (th : (service cfg).Thread) : Attempt := (attemptMonitor cfg).note th

/-- What the past of the threads says, and that a job is failed for which it says so. -/
structure AttemptInv (s : (service cfg).State) : Prop where
  recalls : ∀ th ∈ s.threads, (attemptOf th).Recalls cfg th.past
  failed : ∀ th ∈ s.threads, ∀ j spec e, attemptOf th = .failed j spec e →
    s.world.jobs.HasFailed j

/-- What is known of every state besides. -/
structure Backdrop (lost : ℕ → Prop) (s : (service cfg).State) : Prop where
  phases : InPhase s
  submits : SubmitInv lost s
  calls : CallsNoted s

section step

variable {s : (service cfg).State} {i : ℕ} {th : (service cfg).Thread} {o : Op} {c : Choice}
  {a : Except Exn o.Ans} {k : Except Exn o.Ans → Program Outcome} {w : World}

/-- The row that a submit was called for is there. -/
theorem Backdrop.row (h : Backdrop lost s) (hmem : th ∈ s.threads) {j : JobId} {spec : RequestSpec}
    {e : Exn} (hraised : SubmitRaised th.past j spec e) :
    (JobQuery.getJob j).select s.world.jobs.rows ≠ [] := by
  have hpos := hraised.countP_pos.trans_le (h.calls.le hmem j spec.provider)
  have hknown := h.submits.submitted j spec.provider hpos
  have hrow : j ∈ s.world.jobs.rows.map Job.jobId := by
    rw [h.submits.indexed]
    exact List.mem_range.2 hknown
  obtain ⟨row, hmem', rfl⟩ := List.mem_map.1 hrow
  rw [h.submits.indexed.select_getJob hmem']
  exact List.cons_ne_nil _ _

/-- What a thread can rely on. -/
theorem AttemptInv.hears (h : AttemptInv s) (hback : Backdrop lost s) (hmem : th ∈ s.threads)
    (hmay : (attemptOf th).MayDo cfg o) (he : s.world.exec o c = some (a, w)) :
    (attemptOf th).Hears o a := by
  cases o with
  | now =>
    obtain ⟨rfl, -⟩ := World.exec_now he
    exact ⟨_, rfl⟩
  | queue qo =>
    cases qo with
    | finish id raised =>
      cases c <;> simp only [World.exec, Option.some.injEq, Prod.mk.injEq, reduceCtorEq] at he
      · exact he.1.symm
      · exact he.1.symm
    | enqueueJob t j id d => trivial
  | jobs jo =>
    cases jo with
    | transact q edit =>
      intro j spec e hn hnil
      subst hnil
      rw [hn] at hmay
      obtain ⟨rfl, -⟩ := hmay
      have hraised := ((h.recalls th hmem).raised j spec e (by rw [hn]; rfl)).1
      rcases World.exec_transact he with ⟨-, ha, -⟩ | ⟨e', ha, -⟩
      · exact hback.row hmem hraised (Except.ok.inj ha).symm
      · cases ha
    | _ => trivial
  | _ => trivial

theorem AttemptInv.act (h : AttemptInv s) (hback : Backdrop lost s) (hth : s.threads[i]? = some th)
    (hphase : (phaseOf th).MayDo o) (hmay : (attemptOf th).MayDo cfg o)
    (hhears : (attemptOf th).Hears o a) (he : s.world.exec o c = some (a, w))
    (hclear : RaisesClearly cfg o c) :
    AttemptInv (⟨w, s.threads.set i (th.advance o a k)⟩ : (service cfg).State) := by
  have hmem := List.mem_of_getElem? hth
  refine ⟨fun u hu => ?_, fun u hu j spec e hfailed => ?_⟩
  · rcases List.mem_or_eq_of_mem_set hu with hu | rfl
    · exact h.recalls u hu
    · exact (h.recalls th hmem).step hmay hhears fun _ _ _ => hclear.justified he
  · have hstays (hfailed : ∃ u ∈ s.threads, attemptOf u = .failed j spec e) :
        w.jobs.HasFailed j := by
      obtain ⟨u, hu, heq⟩ := hfailed
      exact hasFailed_exec hphase he (h.failed u hu j spec e heq)
    rcases List.mem_or_eq_of_mem_set hu with hu | rfl
    · exact hstays ⟨u, hu, hfailed⟩
    -- the thread fails the job now, or has done so before
    rcases Attempt.observe_failed (n := attemptOf th) hfailed with
      heq | ⟨hn, hno, q, edit, rows, hev⟩
    · exact hstays ⟨th, hmem, heq⟩
    cases hev
    rw [hn] at hmay hhears
    obtain ⟨rfl, hedit⟩ := hmay
    rw [if_neg hno] at hedit
    obtain ⟨error, rfl⟩ := hedit
    cases rows with
    | nil => exact absurd rfl (hhears j spec e rfl)
    | cons row rest => exact hasFailed_transact hback.submits.indexed he

theorem AttemptInv.env (h : AttemptInv s) {e : EnvStep} {gs : List Origin}
    (he : e.exec s.world = some (w, gs)) :
    AttemptInv (⟨w, s.threads ++ gs.map (service cfg).spawn⟩ : (service cfg).State) := by
  have hjobs : w.jobs = s.world.jobs := EnvStep.exec_jobs he
  have hfresh (g : Origin) : (Attempt.start g).failure = none := by
    unfold Attempt.start
    split <;> rfl
  refine ⟨fun u hu => ?_, fun u hu j spec e hfailed => ?_⟩
  · rcases List.mem_append.1 hu with hu | hu
    · exact h.recalls u hu
    · obtain ⟨g, -, rfl⟩ := List.mem_map.1 hu
      refine ⟨fun ev hev => absurd hev List.not_mem_nil, fun j => Nat.zero_le 1,
        fun j spec e heq => ?_, fun j spec e hfailure => ?_, fun j spec e hraised => ?_⟩
      · have hnone := hfresh g
        rw [show Attempt.start g = .fellBack j spec e from heq] at hnone
        cases hnone
      · rw [show (attemptOf ((service cfg).spawn g)).failure = none from hfresh g] at hfailure
        cases hfailure
      · obtain ⟨ev, hev, -⟩ := hraised
        cases hev
  · rw [hjobs]
    rcases List.mem_append.1 hu with hu | hu
    · exact h.failed u hu j spec e hfailed
    · obtain ⟨g, -, rfl⟩ := List.mem_map.1 hu
      have hnone := hfresh g
      rw [show Attempt.start g = .failed j spec e from hfailed] at hnone
      cases hnone

end step

theorem backdrop_of_reach {s : (service cfg).State} (hs : Reach (SubmitsApart lost) initial s) :
    Backdrop lost s :=
  ⟨(submitInv_of_reach hs).1, (submitInv_of_reach hs).2, callsNoted_of_reach hs⟩

theorem SubmitsOrderly.apart {s : (service cfg).State}
    (hs : Reach (SubmitsOrderly lost) initial s) :
    Reach (SubmitsApart lost) initial s :=
  hs.mono fun _ _ _ h => h.1

/-- The threads deal with the failures of their submits. -/
abbrev Dealing (s : (service cfg).State) : Prop :=
  (attemptMonitor cfg).Conforms (attemptProtocol cfg) (fun _ => Attempt.Ends) s

theorem attemptInv_of_reach {s : (service cfg).State} (hs : Reach (SubmitsOrderly lost) initial s) :
    Dealing s ∧ AttemptInv s := by
  have hback (u : (service cfg).State) (hu : Reach (SubmitsOrderly lost) initial u) :
      Backdrop lost u :=
    backdrop_of_reach (SubmitsOrderly.apart hu)
  have hinit : AttemptInv (initial : (service cfg).State) :=
    ⟨fun _ h => absurd h List.not_mem_nil, fun _ h => absurd h List.not_mem_nil⟩
  refine Reach.invariant (program_attempts cfg) (fun s i th o k c a w hinv hth hr hmay he hP => ?_)
    (fun s e w gs hinv he _ => hinv.env he) (hs.with hback) hinit
    fun _ h => absurd h List.not_mem_nil
  obtain ⟨⟨-, hclear⟩, hknown⟩ := hP
  have hhears := hinv.hears hknown (List.mem_of_getElem? hth) hmay he
  refine ⟨⟨World.told he, hhears⟩, ?_⟩
  exact hinv.act hknown hth (hknown.phases.allowed hth hr) hmay hhears he
    (hclear o (nextOp_eq hth hr))

open Classical in
/-- A thread that has fallen back has called Harmony. -/
theorem AttemptInv.countP_le {s : (service cfg).State} (h : AttemptInv s)
    {th : (service cfg).Thread} (hth : th ∈ s.threads) (j : JobId) :
    (th.past.countP fun ev => decide (Reroutes j ev)) ≤ th.past.countP (isSubmitTo j .harmony) := by
  have hrecalls := h.recalls th hth
  by_cases hpos : 0 < th.past.countP fun ev => decide (Reroutes j ev)
  · obtain ⟨ev, hev, hre⟩ := List.countP_pos_iff.1 hpos
    obtain ⟨spec, e, hn⟩ := hrecalls.rerouted ev hev j (of_decide_eq_true hre)
    have hharmony : spec.provider = .harmony := (hrecalls.fallsBack j spec e hn).1.1.2.1
    have hraised := (hrecalls.raised j spec e (by rw [hn]; rfl)).1.countP_pos
    rw [hharmony] at hraised
    exact (hrecalls.once j).trans hraised
  · rw [Nat.eq_zero_of_not_pos hpos]
    exact Nat.zero_le _

theorem fallbacks_le {s : (service cfg).State} (h : AttemptInv s) (hback : Backdrop lost s)
    (j : JobId) :
    fallbacks s j ≤ 1 := by
  have hle : fallbacks s j ≤ s.world.submits j .harmony := by
    rw [← hback.calls j .harmony]
    exact List.sum_le_sum fun th hth => h.countP_le hth j
  exact hle.trans (hback.submits.once j .harmony)

/-- Along every run that keeps submits apart and in which they end clearly, whichever threads are
lost before they call the provider, all submits are disciplined. -/
theorem submitDiscipline_of_reach (lost : ℕ → Prop) {s : (service cfg).State}
    (hs : Reach (SubmitsOrderly lost) initial s) : SubmitDiscipline s := by
  have hback := backdrop_of_reach (SubmitsOrderly.apart hs)
  have hroutes := routesKept_of_reach (SubmitsOrderly.apart hs)
  obtain ⟨hends, hinv⟩ := attemptInv_of_reach hs
  refine ⟨fun th hth ev hev j hre => ?_, fallbacks_le hinv hback,
    submitCalls_le hback.submits hroutes, fun th hth j spec e r hraised hno hres hquiet => ?_⟩
  · obtain ⟨spec, e, hn⟩ := (hinv.recalls th hth).rerouted ev hev j hre
    have hfall := ((hinv.recalls th hth).fallsBack j spec e hn).1
    obtain ⟨hraised, hjust⟩ := (hinv.recalls th hth).raised j spec e (by rw [hn]; rfl)
    exact ⟨spec, e, hraised, hjust hfall⟩
  · have hfailure : (attemptOf th).failure = some (j, spec, e) := by
      rcases (hinv.recalls th hth).told j spec e hraised with hfailure | ⟨ev, hev, hdis⟩
      · exact hfailure
      · rw [hquiet ev hev] at hdis
        cases hdis
    rcases hends.ended hth (Thread.result_eq_some.1 hres) j spec e hfailure with hn | ⟨hn, hr⟩
    · obtain ⟨hfall, hrerouted⟩ := (hinv.recalls th hth).fallsBack j spec e hn
      have hjust := ((hinv.recalls th hth).raised j spec e hfailure).2 hfall
      exact absurd ⟨hjust, hrerouted⟩ hno
    · exact ⟨hr, hinv.failed th hth j spec e hn⟩

/-! ### A submit that fails -/

/-- A request becomes a job that may fall back, whose submit is about to call Harmony. -/
def submitWithUrlsUnderWay : List (service .oneKey).Label :=
  call (.retrieveData 0 .plain none) ::
    acts 0 [.ok, .resolved "C1" none, .capabilities {},
      .planned { path := .harmony, opendapUrls := ["u"] }, .ok, .ok, .ok, .ok, .ok, .ok] ++
  take (.fresh 0) :: acts 1 [.ok, .capabilities {}]

/-- The run of a submit to Harmony that times out and falls back, and of the one to OPeNDAP. -/
def timesOut : List (service .oneKey).Label :=
  submitWithUrlsUnderWay ++
    acts 1 [.fault (.transient "timed out"), .ok, .ok, .ok, .ok, .ok] ++
  take (.fresh 1) :: acts 2 [.ok, .capabilities {}, .submitted "b", .ok, .ok, .ok, .ok]

theorem submitDiscipline_of_reach_timesOut : ∃ s : (service .oneKey).State,
    s.world.submitCalls 0 = 2 ∧ SubmitDiscipline s := by
  obtain ⟨s, hs, hp⟩ := exists_reach (P := SubmitsOrderly fun _ => False) (s := initial)
    (p := fun s => (s.world.submitCalls 0 = 2 : Bool)) timesOut (by decide +kernel)
  exact ⟨s, of_decide_eq_true hp, submitDiscipline_of_reach _ hs⟩

/-- The thread has ended without an exception, although its submit was cancelled and nothing has
disturbed it. -/
def swallowedCancellation (th : (service cfg).Thread) : Bool :=
  (th.result.any fun r => r.toBool) &&
    (th.past.any fun ev => (submitFailure ev).any fun f => f.1 = 0 && f.2.2 = .cancelled) &&
      th.past.all fun ev => ¬ disturbs ev

/-- A submit to Harmony that is cancelled falls back, and ends as if nothing had happened. -/
theorem not_submitDiscipline : ¬ ∀ (cfg : Settings) (s : (service cfg).State),
    Reach (SubmitsApart fun _ => False) initial s → SubmitDiscipline s := by
  intro h
  obtain ⟨s, hs, hp⟩ := exists_reach (P := SubmitsApart fun _ => False) (s := initial)
    (p := fun s => s.threads.any swallowedCancellation)
    (submitWithUrlsUnderWay ++ acts 1 [.fault .cancelled, .ok, .ok, .ok, .ok, .ok])
    (by decide +kernel)
  obtain ⟨th, hth, hswallowed⟩ := List.any_eq_true.1 hp
  unfold swallowedCancellation at hswallowed
  simp only [Bool.and_eq_true, List.any_eq_true, List.all_eq_true] at hswallowed
  obtain ⟨⟨hres, ev, hev, hsub⟩, hquiet⟩ := hswallowed
  obtain ⟨r, hr, hok⟩ := (Option.any_eq_true _ _).1 hres
  obtain ⟨⟨j, spec, e⟩, hfailure, hcancelled⟩ := (Option.any_eq_true _ _).1 hsub
  obtain ⟨-, he⟩ := Bool.and_eq_true_iff.1 hcancelled
  obtain rfl : e = .cancelled := of_decide_eq_true he
  have hno : ¬ (Justified spec .cancelled ∧ ∃ ev ∈ th.past, Reroutes j ev) :=
    fun hj => hj.1.infrastructure
  have hdone := (h .oneKey s hs).failed th hth j spec .cancelled r ⟨ev, hev, hfailure⟩ hno hr
    fun ev hev =>
    by simpa using hquiet ev hev
  rw [hdone.1] at hok
  cases hok

end EarthdataMcp
