import EarthdataMcp.Jobs.Phases

/-!
# One submission per row

A provider's submit is called at most once for a row along every run in which no submit reads
the row in `pending` while another one that has read it so has not settled; one that is lost before
it calls the provider does not count.

* `JobTable.Consumed`: the row is no longer `pending`, or was re-routed since;
* `SubmitsApart`, the condition on a step, given the threads that are lost; `SubmitInv`, the
  invariant it keeps;
* `submittedOnce_of_reach`, and the run in which a stalled sweep resumes a submit that is
  still waiting for the provider.
-/

namespace EarthdataMcp

open Concurrency Concurrency.System

variable {cfg : Settings} {lost : ℕ → Prop}

/-! ### Rows that a submit has used up -/

/-- A row an edit accepts keeps its specification, or is re-routed to OPeNDAP. -/
def Edit.Routed (edit : Edit) : Prop :=
  ∀ now job job', edit now job = .ok job' → job.Moves job' ∧
    (job'.requestSpec = job.requestSpec ∨ job'.requestSpec.spec.provider = .opendap)

theorem Edit.KeepsRoute.routed {edit : Edit} (h : edit.KeepsRoute) : edit.Routed :=
  fun now job job' hok => ⟨(h now job job' hok).moves, Or.inl (h now job job' hok).requestSpec⟩

theorem Phase.MayTransact.routed {n : Phase} {q : JobQuery} {edit : Edit}
    (h : n.MayTransact q edit) : edit.Routed := by
  cases n with
  | submitting j =>
    obtain ⟨-, wanted, rfl⟩ := h
    exact (failInvalidSpec_plain wanted).route.routed
  | loaded row => exact h.2.route.routed
  | asked row a =>
    cases a with
    | ok url =>
      obtain ⟨-, rfl⟩ := h
      intro now job job' hok
      obtain ⟨hl, rfl⟩ := setState_eq_ok.1 (enterState_eq_ok hok)
      exact ⟨.enter now hl, Or.inl (Job.enter_requestSpec ..)⟩
    | error e =>
      obtain ⟨-, ⟨error, rfl⟩ | ⟨rfl, -⟩⟩ := h
      · exact (enterState_keepsRoute rfl).routed
      · intro now job job' hok
        refine ⟨rerouteToOpendap_disciplined now job job' hok, Or.inr ?_⟩
        obtain rfl := Except.ok.inj hok
        rfl
  | polled row => exact h.2.routed
  | cancelling hd =>
    obtain ⟨-, rfl⟩ := h
    exact cancelRow_keepsRoute.routed
  | _ => exact Edit.Plain.route h |>.routed

/-- The row is not `pending` any more, or not at this provider. -/
def Job.ConsumedAt (p : Provider) (row : Job) : Prop :=
  row.state ≠ .pending ∨ p = .harmony ∧ row.requestSpec.spec.provider = .opendap

instance (p : Provider) (row : Job) : Decidable (row.ConsumedAt p) :=
  inferInstanceAs (Decidable (_ ∨ _))

/-- The row of job `j` is. -/
def JobTable.Consumed (t : JobTable) (j : JobId) (p : Provider) : Prop :=
  ∀ row ∈ t.rows, row.jobId = j → row.ConsumedAt p

instance (t : JobTable) (j : JobId) (p : Provider) : Decidable (t.Consumed j p) :=
  inferInstanceAs (Decidable (∀ row ∈ t.rows, _))

theorem Job.ConsumedAt.routed {p : Provider} {job job' : Job} (h : job.ConsumedAt p)
    (hmoves : job.Moves job')
    (hroute : job'.requestSpec = job.requestSpec ∨ job'.requestSpec.spec.provider = .opendap) :
    job'.ConsumedAt p := by
  rcases h with hst | ⟨hp, hopendap⟩
  · exact Or.inl fun hst' => hst (hmoves.follows.eq_pending hst')
  · refine Or.inr ⟨hp, ?_⟩
    rcases hroute with hspec | hspec
    · rw [hspec]; exact hopendap
    · exact hspec

/-- No transaction gives a used row back. -/
theorem JobTable.Consumed.transact {t : JobTable} {j : JobId} {p : Provider}
    (h : t.Consumed j p) {now : Time} {q : JobQuery} {edit : Edit} (hedit : edit.Routed) :
    (t.exec now (.transact q edit)).2.Consumed j p := by
  simp only [JobTable.exec]
  split
  · exact h
  · intro row hrow hid
    obtain ⟨job, hjob, rfl⟩ := List.mem_map.1 hrow
    rcases writeRow_cases now edit (q.select t.rows) job with heq | ⟨job', -, hok, heq⟩
    · rw [heq] at hid ⊢
      exact h job hjob hid
    · obtain ⟨hmoves, hroute⟩ := hedit now job job' hok
      rw [heq] at hid ⊢
      refine Job.ConsumedAt.routed (h job hjob ?_) hmoves.stamp ?_
      · rw [← hid, Job.stamp_jobId, hmoves.jobId]
      · simpa using hroute

theorem JobTable.Consumed.create {t : JobTable} {j : JobId} {p : Provider} (h : t.Consumed j p)
    (hj : j < t.minted.length) (new : NewJob) (now : Time) :
    JobTable.Consumed
      { rows := t.rows ++ [new.row now t.next], minted := t.minted ++ [new.credentialEncrypted] }
      j p := by
  intro row hrow hid
  rcases List.mem_append.1 hrow with hrow | hrow
  · exact h row hrow hid
  · obtain rfl := List.mem_singleton.1 hrow
    exact absurd hid (ne_of_gt hj)

/-- The commit of a submit that has called the provider uses the row up. -/
theorem JobTable.consumed_of_asked {t : JobTable} (ht : t.Indexed) {now : Time} {row : Job}
    {a : Except Exn (Option String)} {q : JobQuery} {edit : Edit}
    (hmay : (Phase.asked row a).MayTransact q edit)
    (hok : firstError now edit (q.select t.rows) = none) :
    (t.exec now (.transact q edit)).2.Consumed row.jobId row.requestSpec.spec.provider := by
  have hq : q = .getJob row.jobId := by cases a <;> exact hmay.1
  simp only [JobTable.exec, hok]
  intro job' hjob' hid
  obtain ⟨job, hjob, rfl⟩ := List.mem_map.1 hjob'
  have hsame : row.jobId = job.jobId := by
    rw [← hid]
    rcases writeRow_cases now edit (q.select t.rows) job with heq | ⟨new, -, hnew, heq⟩
    · rw [heq]
    · rw [heq, Job.stamp_jobId, (hmay.routed now job new hnew).1.jobId]
  rw [hsame] at hq
  subst hq
  obtain ⟨new, hnew, heq⟩ := ht.writeRow_getJob hjob hok
  rw [heq, Job.ConsumedAt, Job.stamp_state, Job.stamp_requestSpec]
  cases a with
  | ok url =>
    obtain ⟨-, rfl⟩ := hmay
    obtain ⟨-, rfl⟩ := setState_eq_ok.1 (enterState_eq_ok hnew)
    left
    rw [Job.enter_state]
    decide
  | error e =>
    obtain ⟨-, ⟨error, rfl⟩ | ⟨rfl, hharmony⟩⟩ := hmay
    · obtain ⟨-, rfl⟩ := setState_eq_ok.1 (enterState_eq_ok hnew)
      left
      rw [Job.enter_state]
      decide
    · obtain rfl := Except.ok.inj hnew
      exact Or.inr ⟨hharmony, rfl⟩

/-! ### Submits that have not settled -/

/-- The phase of a thread. -/
def phaseOf (th : (service cfg).Thread) : Phase := (phaseMonitor cfg).note th

/-- The row that a submit has read in `pending` and not settled yet. -/
def Phase.submitRow : Phase → Option Job
  | .loaded row => some row
  | .asked row _ => some row
  | _ => none

/-- The job of such a submit. -/
def submittedJob (th : (service cfg).Thread) : Option JobId :=
  (phaseOf th).submitRow.map Job.jobId

/-- A submit of the job, not one of those that are lost, has read its row in `pending`, and has
neither committed nor ended without a call of the provider. -/
def Submitting (lost : ℕ → Prop) (s : (service cfg).State) (j : JobId) : Prop :=
  ∃ (i : ℕ) (th : (service cfg).Thread), s.threads[i]? = some th ∧ ¬ lost i ∧
    submittedJob th = some j

instance (lost : ℕ → Prop) [DecidablePred lost] (s : (service cfg).State) (j : JobId) :
    Decidable (Submitting lost s j) :=
  decidable_of_iff (∃ i ∈ List.range s.threads.length,
    ¬ lost i ∧ s.threads[i]?.bind submittedJob = some j) <| by
      constructor
      · rintro ⟨i, -, hlive, hbind⟩
        obtain ⟨th, hth, hj⟩ := Option.bind_eq_some_iff.1 hbind
        exact ⟨i, th, hth, hlive, hj⟩
      · rintro ⟨i, th, hth, hlive, hj⟩
        refine ⟨i, List.mem_range.2 (List.getElem?_eq_some_iff.1 hth).1, hlive, ?_⟩
        rw [hth]
        exact hj

/-- The condition on a step: no submit reads a `pending` row while another one of the job has
not settled. -/
def Phase.Apart (lost : ℕ → Prop) (s : (service cfg).State) (n : Phase) : Op → Prop
  | .jobs (.transact _ _) =>
      match n with
      | .submitting j =>
          (∃ row ∈ s.world.jobs.rows, row.jobId = j ∧ row.state = .pending) → ¬ Submitting lost s j
      | _ => True
  | _ => True

instance [DecidablePred lost] (s : (service cfg).State) (n : Phase) (o : Op) :
    Decidable (n.Apart lost s o) := by
  unfold Phase.Apart
  split
  · split <;> infer_instance
  · infer_instance

/-- A call of a provider's submit. -/
def Op.IsSubmit : Op → Prop
  | .provider (.submit _ _ _) => True
  | _ => False

instance (o : Op) : Decidable o.IsSubmit := by
  unfold Op.IsSubmit
  split <;> infer_instance

/-- The condition on the steps of a run, in which the threads `lost` never come to call a submit. -/
abbrev SubmitsApart (lost : ℕ → Prop) :
    (service cfg).State → (service cfg).Label → (service cfg).State → Prop :=
  EachOp fun s i o => (lost i → ¬ o.IsSubmit) ∧ ∀ th ∈ s.threads[i]?, (phaseOf th).Apart lost s o

/-! ### The invariant -/

/-- The call is a submit of `j` by this provider. -/
def Call.isSubmit (j : JobId) (p : Provider) : Call → Bool
  | .submit j' p' _ => j' = j && p' = p
  | _ => false

/-- How often the provider's submit was called for the job. -/
def World.submits (w : World) (j : JobId) (p : Provider) : ℕ := w.calls.countP (Call.isSubmit j p)

/-- A submit has called this provider for this job and has not settled. -/
def Asking (lost : ℕ → Prop) (s : (service cfg).State) (j : JobId) (p : Provider) : Prop :=
  ∃ (i : ℕ) (th : (service cfg).Thread), s.threads[i]? = some th ∧ ¬ lost i ∧
    ∃ row a, phaseOf th = .asked row a ∧ row.jobId = j ∧ row.requestSpec.spec.provider = p

/-- At most one submit of a job is under way, but for those that are lost; it has not been called
before if it has only read the row, and a row for which it has been called is used up, or is about
to be. -/
structure SubmitInv (lost : ℕ → Prop) (s : (service cfg).State) : Prop where
  indexed : s.world.jobs.Indexed
  apart : ExclusiveAt (fun i => ¬ lost i) submittedJob s.threads
  known : ∀ th ∈ s.threads, ∀ row ∈ (phaseOf th).submitRow,
    row.jobId < s.world.jobs.minted.length
  submitted : ∀ j p, 0 < s.world.submits j p → j < s.world.jobs.minted.length
  once : ∀ j p, s.world.submits j p ≤ 1
  uncalled : ∀ (i : ℕ) th, s.threads[i]? = some th → lost i → ∀ row a, phaseOf th ≠ .asked row a
  fresh : ∀ (i : ℕ) th, s.threads[i]? = some th → ¬ lost i → ∀ row, phaseOf th = .loaded row →
    s.world.submits row.jobId row.requestSpec.spec.provider = 0
  used : ∀ j p, 0 < s.world.submits j p → s.world.jobs.Consumed j p ∨ Asking lost s j p

theorem SubmitInv.initial : SubmitInv lost (initial : (service cfg).State) where
  indexed := rfl
  apart := .nil
  known _ h := absurd h List.not_mem_nil
  submitted _ _ h := absurd h (lt_irrefl 0)
  once _ _ := Nat.zero_le 1
  uncalled i _ h := by cases (List.getElem?_nil (i := i)).symm.trans h
  fresh i _ h := by cases (List.getElem?_nil (i := i)).symm.trans h
  used _ _ h := absurd h (lt_irrefl 0)

section step

variable {s : (service cfg).State} {i : ℕ} {th : (service cfg).Thread} {o : Op}
  {a : Except Exn o.Ans} {k : Except Exn o.Ans → Program Outcome} {w : World}

theorem phaseOf_advance :
    phaseOf (th.advance o a k : (service cfg).Thread) = (phaseOf th).observe o a := rfl

/-- Every other thread that was asking still is. -/
theorem Asking.set {j : JobId} {p : Provider} (h : Asking lost s j p)
    (hth : s.threads[i]? = some th) (th' : (service cfg).Thread) :
    Asking lost (⟨w, s.threads.set i th'⟩ : (service cfg).State) j p ∨
      ¬ lost i ∧ ∃ row a, phaseOf th = .asked row a ∧ row.jobId = j ∧
        row.requestSpec.spec.provider = p := by
  obtain ⟨n, u, hn, hlive, hrest⟩ := h
  by_cases hni : n = i
  · subst hni
    obtain rfl : th = u := Option.some.inj (hth.symm.trans hn)
    exact Or.inr ⟨hlive, hrest⟩
  · refine Or.inl ⟨n, u, ?_, hlive, hrest⟩
    rw [← hn]
    exact List.getElem?_set_ne (Ne.symm hni)

theorem getElem?_set_self {th' : (service cfg).Thread} (hth : s.threads[i]? = some th) :
    (s.threads.set i th')[i]? = some th' := by
  simp [(List.getElem?_eq_some_iff.1 hth).1]

/-- A step on which no submit is called, and no submit reads its row: the thread stays in its
phase, or it is no longer between read and commit and has used up its row. -/
theorem SubmitInv.keep (h : SubmitInv lost s) (hth : s.threads[i]? = some th)
    (hphase : (phaseOf th).observe o a = phaseOf th ∨
      ((phaseOf th).observe o a).submitRow = none ∧
        ∀ row answer, phaseOf th = .asked row answer →
          w.jobs.Consumed row.jobId row.requestSpec.spec.provider)
    (hindexed : w.jobs.Indexed) (hgrows : s.world.jobs.minted.length ≤ w.jobs.minted.length)
    (hconsumed : ∀ j p, j < s.world.jobs.minted.length → s.world.jobs.Consumed j p →
      w.jobs.Consumed j p)
    (hcalls : ∀ j p, w.submits j p = s.world.submits j p) :
    SubmitInv lost (⟨w, s.threads.set i (th.advance o a k)⟩ : (service cfg).State) := by
  have hsub : ∀ row, ((phaseOf th).observe o a).submitRow = some row →
      (phaseOf th).submitRow = some row := by
    intro row hrow
    rcases hphase with heq | ⟨hnone, -⟩
    · rw [heq] at hrow; exact hrow
    · rw [hnone] at hrow; cases hrow
  constructor
  case indexed => exact hindexed
  case apart =>
    refine h.apart.set hth fun j _ hj => Or.inl ?_
    obtain ⟨row, hrow, rfl⟩ := Option.map_eq_some_iff.1 hj
    rw [submittedJob, hsub row hrow]
    rfl
  case known =>
    intro u hu row hrow
    refine lt_of_lt_of_le ?_ hgrows
    rcases List.mem_or_eq_of_mem_set hu with hu | rfl
    · exact h.known u hu row hrow
    · exact h.known th (List.mem_of_getElem? hth) row (hsub row hrow)
  case submitted =>
    intro j p hjp
    rw [hcalls] at hjp
    exact (h.submitted j p hjp).trans_le hgrows
  case once =>
    intro j p
    rw [hcalls]
    exact h.once j p
  case uncalled =>
    intro n u hu hlost row answer hasked
    rcases getElem?_set_cases hu with ⟨rfl, rfl⟩ | ⟨-, hu⟩
    · rw [phaseOf_advance] at hasked
      rcases hphase with heq | ⟨hnone, -⟩
      · exact h.uncalled n th hth hlost row answer (heq.symm.trans hasked)
      · rw [hasked] at hnone; cases hnone
    · exact h.uncalled n u hu hlost row answer hasked
  case fresh =>
    intro n u hu hlive row hrow
    rw [hcalls]
    rcases getElem?_set_cases hu with ⟨rfl, rfl⟩ | ⟨-, hu⟩
    · rw [phaseOf_advance] at hrow
      rcases hphase with heq | ⟨hnone, -⟩
      · exact h.fresh n th hth hlive row (heq ▸ hrow)
      · rw [hrow] at hnone; cases hnone
    · exact h.fresh n u hu hlive row hrow
  case used =>
    -- a thread that was about to use its row up either still is, or has just done so
    intro j p hjp
    rw [hcalls] at hjp
    rcases h.used j p hjp with hused | hasking
    · exact Or.inl (hconsumed j p (h.submitted j p hjp) hused)
    rcases hasking.set hth (th.advance o a k) with hasking | ⟨hlive, row, answer, hn, rfl, rfl⟩
    · exact Or.inr hasking
    rcases hphase with heq | ⟨-, hdone⟩
    · exact Or.inr ⟨i, th.advance o a k, getElem?_set_self hth, hlive, row, answer, heq.trans hn,
        rfl, rfl⟩
    · exact Or.inl (hdone row answer hn)

theorem submittedJob_eq (row : Job) {u : (service cfg).Thread}
    (hu : (phaseOf u).submitRow = some row) : submittedJob u = some row.jobId := by
  rw [submittedJob, hu]
  rfl

/-- A submit reads its row in `pending`. -/
theorem SubmitInv.load (h : SubmitInv lost s) (hth : s.threads[i]? = some th) (row : Job)
    (hbefore : (phaseOf th).submitRow = none) (hafter : (phaseOf th).observe o a = .loaded row)
    (hrow : row ∈ s.world.jobs.rows) (hst : row.state = .pending)
    (hfree : ¬ Submitting lost s row.jobId)
    (hindexed : w.jobs.Indexed) (hgrows : s.world.jobs.minted.length ≤ w.jobs.minted.length)
    (hconsumed : ∀ j p, j < s.world.jobs.minted.length → s.world.jobs.Consumed j p →
      w.jobs.Consumed j p)
    (hcalls : ∀ j p, w.submits j p = s.world.submits j p) :
    SubmitInv lost (⟨w, s.threads.set i (th.advance o a k)⟩ : (service cfg).State) := by
  have hloaded : phaseOf (th.advance o a k) = .loaded row := hafter
  have hasked (row' : Job) (answer : Except Exn (Option String)) :
      phaseOf th ≠ .asked row' answer := by
    intro heq
    rw [heq] at hbefore
    cases hbefore
  constructor
  case indexed => exact hindexed
  case apart =>
    refine h.apart.set hth fun j _ hj => Or.inr fun n u hlive hu hju => ?_
    rw [submittedJob_eq row (by rw [hloaded]; rfl)] at hj
    exact hfree ⟨n, u, hu, hlive, hju.trans hj.symm⟩
  case known =>
    intro u hu row' hrow'
    refine lt_of_lt_of_le ?_ hgrows
    rcases List.mem_or_eq_of_mem_set hu with hu | rfl
    · exact h.known u hu row' hrow'
    · rw [hloaded] at hrow'
      obtain rfl : row = row' := Option.some.inj hrow'
      exact h.indexed.known hrow
  case submitted =>
    intro j p hjp
    rw [hcalls] at hjp
    exact (h.submitted j p hjp).trans_le hgrows
  case once =>
    intro j p
    rw [hcalls]
    exact h.once j p
  case uncalled =>
    intro n u hu hlost row' answer hn
    rcases getElem?_set_cases hu with ⟨rfl, rfl⟩ | ⟨-, hu⟩
    · rw [hloaded] at hn; cases hn
    · exact h.uncalled n u hu hlost row' answer hn
  case fresh =>
    intro n u hu hlive row' hrow'
    rw [hcalls]
    rcases getElem?_set_cases hu with ⟨rfl, rfl⟩ | ⟨-, hu⟩
    · rw [hloaded] at hrow'
      obtain rfl : row = row' := Phase.loaded.inj hrow'
      -- a submit that was called has used the row up, or will: neither fits a free pending row
      by_contra hpos
      rcases h.used _ _ (Nat.pos_of_ne_zero hpos) with
        hused | ⟨m, u, hu, hlive, row', answer, hn, hid, -⟩
      · rcases hused row hrow rfl with hne | ⟨hharmony, hopendap⟩
        · exact hne hst
        · rw [hharmony] at hopendap; cases hopendap
      · exact hfree ⟨m, u, hu, hlive, by rw [submittedJob_eq row' (by rw [hn]; rfl), hid]⟩
    · exact h.fresh n u hu hlive row' hrow'
  case used =>
    intro j p hjp
    rw [hcalls] at hjp
    rcases h.used j p hjp with hused | hasking
    · exact Or.inl (hconsumed j p (h.submitted j p hjp) hused)
    · rcases hasking.set hth (th.advance o a k) with hasking | ⟨-, row', answer, hn, -⟩
      · exact Or.inr hasking
      · exact absurd hn (hasked row' answer)

/-- A submit calls the provider. -/
theorem SubmitInv.ask (h : SubmitInv lost s) (hth : s.threads[i]? = some th) {row : Job}
    (answer : Except Exn (Option String)) (hlive : ¬ lost i) (hbefore : phaseOf th = .loaded row)
    (hafter : (phaseOf th).observe o a = .asked row answer) (hjobs : w.jobs = s.world.jobs)
    (hcalls : ∀ j p, w.submits j p = s.world.submits j p +
      if row.jobId = j ∧ row.requestSpec.spec.provider = p then 1 else 0) :
    SubmitInv lost (⟨w, s.threads.set i (th.advance o a k)⟩ : (service cfg).State) := by
  have hmem : th ∈ s.threads := List.mem_of_getElem? hth
  have hasked : phaseOf (th.advance o a k) = .asked row answer := hafter
  have hknown := h.known th hmem row (by rw [hbefore]; rfl)
  have hzero := h.fresh i th hth hlive row hbefore
  constructor
  case indexed => exact hjobs ▸ h.indexed
  case apart =>
    refine h.apart.set hth fun j _ hj => Or.inl ?_
    rw [submittedJob_eq row (by rw [hasked]; rfl)] at hj
    rw [submittedJob_eq row (by rw [hbefore]; rfl)]
    exact hj
  case known =>
    intro u hu row' hrow'
    rw [hjobs]
    rcases List.mem_or_eq_of_mem_set hu with hu | rfl
    · exact h.known u hu row' hrow'
    · rw [hasked] at hrow'
      obtain rfl : row = row' := Option.some.inj hrow'
      exact hknown
  case submitted =>
    intro j p hjp
    rw [hjobs]
    rw [hcalls] at hjp
    by_cases hsame : row.jobId = j ∧ row.requestSpec.spec.provider = p
    · exact hsame.1 ▸ hknown
    · rw [if_neg hsame] at hjp
      exact h.submitted j p hjp
  case once =>
    intro j p
    rw [hcalls]
    split_ifs with hsame
    · obtain ⟨rfl, rfl⟩ := hsame
      rw [hzero]
    · exact h.once j p
  case uncalled =>
    intro n u hn hlost row' answer' hasked'
    rcases getElem?_set_cases hn with ⟨rfl, rfl⟩ | ⟨-, hn⟩
    · exact hlive hlost
    · exact h.uncalled n u hn hlost row' answer' hasked'
  case fresh =>
    -- nobody else that lives is between the read and the call for this job
    intro n u hn hlive' row' hrow'
    rcases getElem?_set_cases hn with ⟨-, rfl⟩ | ⟨hne, hn⟩
    · rw [hasked] at hrow'; cases hrow'
    · rw [hcalls, if_neg, h.fresh n u hn hlive' row' hrow']
      rintro ⟨hid, -⟩
      refine hne (h.apart n i u th row.jobId hlive' hlive hn hth ?_ ?_)
      · rw [submittedJob_eq row' (by rw [hrow']; rfl), hid]
      · exact submittedJob_eq row (by rw [hbefore]; rfl)
  case used =>
    intro j p hjp
    by_cases hsame : row.jobId = j ∧ row.requestSpec.spec.provider = p
    · exact Or.inr ⟨i, th.advance o a k, getElem?_set_self hth, hlive, row, answer, hasked, hsame⟩
    · rw [hcalls, if_neg hsame] at hjp
      rcases h.used j p hjp with hused | hasking
      · exact Or.inl (by rw [hjobs]; exact hused)
      · rcases hasking.set hth (th.advance o a k) with hasking | ⟨-, row', answer', hn, -⟩
        · exact Or.inr hasking
        · rw [hbefore] at hn; cases hn

/-- How a call changes the number of submits. -/
theorem World.submits_call {v v' : World} {po : ProviderOp} {c : Choice}
    (h : v'.calls = v.calls ++ po.call :: po.creates c) (j : JobId) (p : Provider) :
    v'.submits j p = v.submits j p + if po.call.isSubmit j p then 1 else 0 := by
  have hcreates : (po.creates c).countP (Call.isSubmit j p) = 0 := by
    unfold ProviderOp.creates
    split <;> rfl
  rw [submits, submits, h, List.countP_append, List.countP_cons, hcreates, Nat.zero_add]

theorem World.submits_eq {v v' : World} (h : v'.calls = v.calls) (j : JobId) (p : Provider) :
    v'.submits j p = v.submits j p := by
  rw [submits, submits, h]

theorem Phase.afterTransaction_error (n : Phase) (e : Exn) : n.afterTransaction (.error e) = n := by
  cases n <;> rfl

/-- A transaction keeps the invariant. -/
theorem SubmitInv.transact (h : SubmitInv lost s) (hth : s.threads[i]? = some th) {q : JobQuery}
    {edit : Edit} {a : Except Exn (List Job)} {k : Except Exn (List Job) → Program Outcome}
    {c : Choice} (hmay : (phaseOf th).MayTransact q edit)
    (hcond : (phaseOf th).Apart lost s (.jobs (.transact q edit)))
    (he : s.world.exec (.jobs (.transact q edit)) c = some (a, w)) :
    SubmitInv lost
      (⟨w, s.threads.set i (th.advance (.jobs (.transact q edit)) a k)⟩ : (service cfg).State) := by
  have hfailed (e : Exn) (ha : a = .error e) (hw : w = s.world) :
      SubmitInv lost (⟨w, s.threads.set i (th.advance (.jobs (.transact q edit)) a k)⟩ :
        (service cfg).State) := by
    subst ha hw
    exact h.keep hth (Or.inl (Phase.afterTransaction_error _ e)) h.indexed le_rfl
      (fun _ _ _ hc => hc) fun _ _ => rfl
  have hcalls := World.exec_calls_eq_self he fun x hx => by cases hx
  have htold {row : Job} (hrow : row ∈ (Op.jobs (.transact q edit)).rowsRead a) :=
    World.rowsRead_mem he hrow
  rcases World.exec_transact he with ⟨hfirst, hrows, hw⟩ | ⟨e, ha, hw⟩
  swap
  · exact hfailed e ha hw
  have hjobs : w.jobs = (s.world.jobs.exec s.world.clock (.transact q edit)).2 := by rw [hw]
  have hdis : edit.Disciplined := fun now job job' hok => (hmay.routed now job job' hok).1
  have hindexed : w.jobs.Indexed := by
    rw [hjobs]
    exact h.indexed.exec hdis
  have hconsumed (j : JobId) (p : Provider) (_ : j < s.world.jobs.minted.length)
      (hc : s.world.jobs.Consumed j p) : w.jobs.Consumed j p := by
    rw [hjobs]
    exact hc.transact hmay.routed
  have hminted : s.world.jobs.minted.length ≤ w.jobs.minted.length := by
    rw [hjobs]
    simp only [JobTable.exec]
    split <;> exact le_rfl
  have hkeep (hphase : (phaseOf th).afterTransaction a = phaseOf th ∨
      ((phaseOf th).afterTransaction a).submitRow = none ∧ ∀ row answer,
        phaseOf th = .asked row answer →
          w.jobs.Consumed row.jobId row.requestSpec.spec.provider) :
      SubmitInv lost (⟨w, s.threads.set i (th.advance (.jobs (.transact q edit)) a k)⟩ :
        (service cfg).State) :=
    h.keep hth hphase hindexed hminted hconsumed (World.submits_eq hcalls)
  -- only a submit's first read and its commit are of interest
  cases hn : phaseOf th with
  | submitting j =>
    rw [hn] at hmay hcond
    cases hsel : q.select s.world.jobs.rows with
    | nil => exact hkeep (Or.inl (by rw [hn, hrows, hsel]; rfl))
    | cons row rest =>
      rw [hsel] at hrows
      have hmem : row ∈ (Op.jobs (.transact q edit)).rowsRead a := by
        rw [hrows]
        exact List.mem_cons_self
      have hid : row.jobId = j := by
        have hq := (htold hmem).2 q rfl
        rw [hmay.1] at hq
        exact hq
      by_cases hst : row.state = .pending ∧ (fromJsonb row.requestSpec).toBool
      · refine h.load hth row (by rw [hn]; rfl) ?_ (htold hmem).1 hst.1 ?_ hindexed hminted
          hconsumed (World.submits_eq hcalls)
        · show (phaseOf th).afterTransaction a = .loaded row
          rw [hn, hrows]
          exact if_pos hst
        · rw [hid]
          exact hcond ⟨row, (htold hmem).1, hid, hst.1⟩
      · refine hkeep (Or.inr ⟨?_, fun row' answer heq => ?_⟩)
        · rw [hn, hrows]
          show (if _ then Phase.loaded row else Phase.settled).submitRow = none
          rw [if_neg hst]
          rfl
        · rw [hn] at heq; cases heq
  | asked row answer =>
    -- whatever the submit commits uses its row up
    rw [hn] at hmay
    refine hkeep (Or.inr ⟨by rw [hn, hrows]; rfl, fun row' answer' heq => ?_⟩)
    rw [hn] at heq
    obtain ⟨rfl, -⟩ := Phase.asked.inj heq
    rw [hjobs]
    exact JobTable.consumed_of_asked h.indexed hmay hfirst
  | loaded row =>
    exact hkeep (Or.inr ⟨by rw [hn, hrows]; rfl, fun _ _ heq => by rw [hn] at heq; cases heq⟩)
  | polling j =>
    refine hkeep (Or.inr ⟨?_, fun _ _ heq => by rw [hn] at heq; cases heq⟩)
    rw [hn, hrows]
    cases q.select s.world.jobs.rows with
    | nil => rfl
    | cons row rest =>
      show (if _ then Phase.pollLoaded row else Phase.settled).submitRow = none
      split_ifs <;> rfl
  | cancelling hd =>
    refine hkeep (Or.inr ⟨?_, fun _ _ heq => by rw [hn] at heq; cases heq⟩)
    rw [hn, hrows]
    cases q.select s.world.jobs.rows with
    | nil => rfl
    | cons row rest =>
      show (if _ then Phase.cancelled row else Phase.settled).submitRow = none
      split_ifs <;> rfl
  | _ => exact hkeep (Or.inl (by rw [hn]; rfl))

/-- A call of a provider keeps the invariant. -/
theorem SubmitInv.provider (h : SubmitInv lost s) (hth : s.threads[i]? = some th) {po : ProviderOp}
    {a : Except Exn po.Ans} {k : Except Exn po.Ans → Program Outcome} {c : Choice}
    (hmay : (phaseOf th).MayCall po) (hlost : lost i → ¬ (Op.provider po).IsSubmit)
    (he : s.world.exec (.provider po) c = some (a, w)) :
    SubmitInv lost
      (⟨w, s.threads.set i (th.advance (.provider po) a k)⟩ : (service cfg).State) := by
  obtain ⟨-, hw⟩ := World.exec_provider he
  have hjobs : w.jobs = s.world.jobs := by rw [hw]
  have hcalls : w.calls = s.world.calls ++ po.call :: po.creates c := by rw [hw]
  have hkeep (hphase : (phaseOf th).afterCall po a = phaseOf th ∨
      ((phaseOf th).afterCall po a).submitRow = none ∧ ∀ row answer,
        phaseOf th = .asked row answer →
          w.jobs.Consumed row.jobId row.requestSpec.spec.provider)
      (hcall : ∀ j p, po.call.isSubmit j p = false) :
      SubmitInv lost
        (⟨w, s.threads.set i (th.advance (.provider po) a k)⟩ : (service cfg).State) := by
    refine h.keep hth hphase (hjobs ▸ h.indexed) (by rw [hjobs])
      (fun _ _ _ hc => by rw [hjobs]; exact hc) fun j p => ?_
    rw [World.submits_call hcalls, hcall]
    rfl
  cases po with
  | submit j spec token =>
    obtain ⟨row, hn, rfl, hspec, -⟩ := hmay
    refine h.ask hth a (fun hi => hlost hi trivial) hn ?_ hjobs fun j p => ?_
    · show (phaseOf th).afterCall _ a = _
      rw [hn]
      rfl
    · rw [World.submits_call hcalls, ← fromJsonb_eq_ok hspec]
      simp only [ProviderOp.call, Call.isSubmit, Bool.and_eq_true, decide_eq_true_eq]
  | poll j p url token =>
    obtain ⟨row, hn, -⟩ := hmay
    rw [hn] at hkeep
    exact hkeep (Or.inr ⟨rfl, fun _ _ heq => by cases heq⟩) fun _ _ => rfl
  | fetch j p url token =>
    refine hkeep (Or.inl ?_) fun _ _ => rfl
    cases phaseOf th <;> rfl
  | cancel j p url token =>
    obtain ⟨row, spec, hn, -⟩ := hmay
    rw [hn] at hkeep
    exact hkeep (Or.inr ⟨rfl, fun _ _ heq => by cases heq⟩) fun _ _ => rfl

/-- An operation of no concern to a submit keeps the invariant. -/
theorem SubmitInv.quiet (h : SubmitInv lost s) (hth : s.threads[i]? = some th) (ho : o.Quiet)
    {c : Choice} (he : s.world.exec o c = some (a, w)) :
    SubmitInv lost (⟨w, s.threads.set i (th.advance o a k)⟩ : (service cfg).State) := by
  have hcalls := World.exec_calls_eq_self he fun x hx => by subst hx; exact ho.elim
  rcases World.exec_quiet ho he with hjobs | ⟨new, hjobs⟩
  · exact h.keep hth (Or.inl (ho.observe _ a)) (hjobs ▸ h.indexed) (by rw [hjobs])
      (fun _ _ _ hc => by rw [hjobs]; exact hc) (World.submits_eq hcalls)
  · refine h.keep hth (Or.inl (ho.observe _ a)) (hjobs ▸ h.indexed.create new _) ?_
      (fun j p hj hc => ?_)
      (World.submits_eq hcalls)
    · rw [hjobs, List.length_append]
      exact Nat.le_add_right _ _
    · rw [hjobs]
      exact hc.create hj new _

/-- Every operation of a thread in its phase, performed under the condition, keeps the
invariant. -/
theorem SubmitInv.act (h : SubmitInv lost s) (hth : s.threads[i]? = some th) {c : Choice}
    (hmay : (phaseOf th).MayDo o) (hlost : lost i → ¬ o.IsSubmit)
    (hcond : (phaseOf th).Apart lost s o)
    (he : s.world.exec o c = some (a, w)) :
    SubmitInv lost (⟨w, s.threads.set i (th.advance o a k)⟩ : (service cfg).State) := by
  cases o with
  | jobs jo =>
    cases jo with
    | transact q edit => exact h.transact hth hmay hcond he
    | commit rows edit => exact hmay.elim
    | _ => exact h.quiet hth trivial he
  | provider po => exact h.provider hth hmay hlost he
  | queue qo =>
    cases qo with
    | enqueueJob t j id d => exact h.quiet hth trivial he
    | finish id raised =>
      have hjobs := World.exec_jobs_eq_self he fun x hx => by cases hx
      have hcalls := World.exec_calls_eq_self he fun x hx => by cases hx
      refine h.keep hth ?_ (hjobs ▸ h.indexed) (by rw [hjobs])
        (fun _ _ _ hc => by rw [hjobs]; exact hc) (World.submits_eq hcalls)
      show (phaseOf th).finished = phaseOf th ∨ (phaseOf th).finished.submitRow = none ∧ _
      cases phaseOf th with
      | asked row answer => exact Or.inl rfl
      | _ => exact Or.inr ⟨rfl, fun _ _ heq => by cases heq⟩
  | _ => exact h.quiet hth trivial he

theorem SubmitInv.env (h : SubmitInv lost s) {e : EnvStep} {w : World} {gs : List Origin}
    (he : e.exec s.world = some (w, gs)) :
    SubmitInv lost (⟨w, s.threads ++ gs.map (service cfg).spawn⟩ : (service cfg).State) := by
  have hjobs := EnvStep.exec_jobs he
  have hcalls := EnvStep.exec_calls he
  have hnew : ∀ u ∈ gs.map (service cfg).spawn, (phaseOf u).submitRow = none := by
    intro u hu
    obtain ⟨g, -, rfl⟩ := List.mem_map.1 hu
    show (Phase.start g).submitRow = none
    unfold Phase.start
    split <;> rfl
  refine ⟨hjobs ▸ h.indexed, h.apart.append fun u hu => ?_, fun u hu row hrow => ?_,
    fun j p hjp => ?_, fun j p => ?_, fun n u hn hlost row answer hasked => ?_,
    fun n u hn hlive row hrow => ?_, fun j p hjp => ?_⟩
  · rw [submittedJob, hnew u hu]
    rfl
  · rw [hjobs]
    rcases List.mem_append.1 hu with hu | hu
    · exact h.known u hu row hrow
    · rw [hnew u hu] at hrow; cases hrow
  · rw [World.submits_eq hcalls] at hjp
    rw [hjobs]
    exact h.submitted j p hjp
  · rw [World.submits_eq hcalls]
    exact h.once j p
  · rcases getElem?_append_cases hn with hn | hn
    · exact h.uncalled n u hn hlost row answer hasked
    · have hnone := hnew u hn
      rw [hasked] at hnone
      cases hnone
  · rw [World.submits_eq hcalls]
    rcases getElem?_append_cases hn with hn | hn
    · exact h.fresh n u hn hlive row hrow
    · have hnone := hnew u hn
      rw [hrow] at hnone
      cases hnone
  · rw [World.submits_eq hcalls] at hjp
    rcases h.used j p hjp with hused | ⟨n, u, hn, hrest⟩
    · exact Or.inl (by rw [hjobs]; exact hused)
    · refine Or.inr ⟨n, u, ?_, hrest⟩
      exact (List.getElem?_append_left (List.getElem?_eq_some_iff.1 hn).1).trans hn

end step

/-! ### Along every run -/

/-- The threads keep to their phases. -/
abbrev InPhase (s : (service cfg).State) : Prop :=
  (phaseMonitor cfg).Conforms (phaseProtocol cfg) Phase.Ends s

/-- The invariant holds along every run that keeps submits apart. -/
theorem submitInv_of_reach {s : (service cfg).State} (hs : Reach (SubmitsApart lost) initial s) :
    InPhase s ∧ SubmitInv lost s := by
  refine Reach.invariant (program_phases cfg) (fun s i th o k c a w hinv hth hr hmay he hP => ?_)
    (fun s e w gs hinv he _ => hinv.env he) hs .initial (fun _ h => absurd h List.not_mem_nil)
  obtain ⟨hlost, hcond⟩ := hP o (nextOp_eq hth hr)
  exact ⟨World.told he, hinv.act hth hmay hlost (hcond th hth) he⟩

/-- No provider's submit was called twice for a row. -/
def SubmittedOnce (s : (service cfg).State) : Prop := ∀ j p, s.world.submits j p ≤ 1

/-- Whichever threads are lost before they call the provider. -/
theorem submittedOnce_of_reach (lost : ℕ → Prop) {s : (service cfg).State}
    (hs : Reach (SubmitsApart lost) initial s) : SubmittedOnce s :=
  (submitInv_of_reach hs).2.once

/-! ### A submit that waits for the provider -/

/-- A request becomes a job, whose submit is about to call the provider. -/
def submitUnderWay : List (service .oneKey).Label :=
  call (.retrieveData 0 .plain none) ::
    acts 0 [.ok, .resolved "C1" none, .capabilities {}, .planned { path := .harmony },
      .ok, .ok, .ok, .ok, .ok, .ok] ++
  take (.fresh 0) :: acts 1 [.ok, .capabilities {}]

/-- The stalled sweep finds the row old and resumes it. -/
def stalledSweepResumes : List (service .oneKey).Label :=
  tick (seconds 301) :: call .sweepStalledJobs :: acts 2 [.ok, .ok, .ok] ++
  take (.resume .submitJob 0) ::
    acts 3 [.ok, .capabilities {}, .submitted "b", .ok, .ok, .ok, .ok]

/-- The process of the first submit is killed; the one that is resumed calls the provider. -/
theorem submittedOnce_of_reach_resumed : ∃ s : (service .oneKey).State,
    s.world.submits 0 .harmony = 1 ∧ SubmittedOnce s := by
  obtain ⟨s, hs, hp⟩ := exists_reach (P := SubmitsApart (· = 1)) (s := initial)
    (p := fun s => (s.world.submits 0 .harmony = 1 : Bool))
    (submitUnderWay ++ stalledSweepResumes) (by decide +kernel)
  exact ⟨s, of_decide_eq_true hp, submittedOnce_of_reach (· = 1) hs⟩

/-- The resumed submit finds the row still `pending` and calls the provider too. -/
theorem not_submittedOnce : ¬ ∀ (cfg : Settings) (s : (service cfg).State),
    Reachable initial s → SubmittedOnce s := by
  intro h
  obtain ⟨s, hs, hp⟩ := exists_reach (P := fun _ _ _ => True) (s := initial)
    (p := fun s => (s.world.submits 0 .harmony = 2 : Bool))
    (submitUnderWay ++ stalledSweepResumes ++ acts 1 [.submitted "a"]) (by decide +kernel)
  have honce := h .oneKey s hs 0 .harmony
  rw [of_decide_eq_true hp] at honce
  omega

end EarthdataMcp
