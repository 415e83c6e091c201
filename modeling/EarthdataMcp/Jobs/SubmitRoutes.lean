import EarthdataMcp.Jobs.FailurePath
import EarthdataMcp.Jobs.Submission

/-!
# Where the submits of a job go

Along every run that keeps the submits of a row apart, the providers of a job are called at most
twice: the provider of its row once, and OPeNDAP once after a fallback.

* `World.submitCalls`, the submits of a job in the record of the world;
* `CallsNoted`: they are those in the past of the threads;
* `RoutesKept`: the providers that a job has called are its row's, or Harmony before OPeNDAP;
* `submitCalls_le`.
-/

namespace EarthdataMcp

open Concurrency Concurrency.Prog Concurrency.System

variable {cfg : Settings} {lost : ℕ → Prop}

/-! ### The calls of a job -/

/-- The call is a submit of `j`. -/
def Call.submits (j : JobId) : Call → Bool
  | .submit j' _ _ => j' = j
  | _ => false

/-- How often a submit was called for the job, whatever the provider. -/
def World.submitCalls (w : World) (j : JobId) : ℕ := w.calls.countP (Call.submits j)

/-- The event is a submit of `j` to this provider. -/
def isSubmitTo (j : JobId) (p : Provider) (ev : Event Api) : Bool :=
  match ev.op with
  | .provider po => po.call.isSubmit j p
  | _ => false

/-- The submits in the past of the threads are the ones in the record. -/
def CallsNoted (s : (service cfg).State) : Prop :=
  ∀ j p, (s.threads.map fun th => th.past.countP (isSubmitTo j p)).sum = s.world.submits j p

/-- What becomes of a sum over the threads when one of them changes. -/
theorem sum_map_set {τ : Type} {ts : List τ} {i : ℕ} {t t' : τ} (f : τ → ℕ)
    (ht : ts[i]? = some t) {n : ℕ} (h : f t' = f t + n) :
    ((ts.set i t').map f).sum = (ts.map f).sum + n := by
  induction ts generalizing i with
  | nil => cases ht
  | cons u ts ih =>
    cases i with
    | zero =>
      obtain rfl : u = t := Option.some.inj ht
      simp only [List.set_cons_zero, List.map_cons, List.sum_cons]
      omega
    | succ i =>
      have hrest := ih (i := i) ht
      simp only [List.set_cons_succ, List.map_cons, List.sum_cons]
      omega

theorem callsNoted_of_reach {P : (service cfg).State → (service cfg).Label → (service cfg).State → Prop}
    {s : (service cfg).State} (hs : Reach P initial s) : CallsNoted s := by
  induction hs with
  | refl => exact fun _ _ => rfl
  | tail l _ hstep _ ih =>
    intro j p
    cases l with
    | act i c =>
      obtain ⟨th, o, k, a, w, hth, hr, he, rfl⟩ := step_act_eq_some.1 hstep
      have hpast : (th.advance o a k).past.countP (isSubmitTo j p) =
          th.past.countP (isSubmitTo j p) + if isSubmitTo j p ⟨o, a⟩ then 1 else 0 :=
        List.countP_cons
      have hsum := (sum_map_set (fun th => th.past.countP (isSubmitTo j p)) hth hpast).trans
        (congrArg (· + _) (ih j p))
      rw [hsum]
      by_cases ho : ∃ po, o = .provider po
      · obtain ⟨po, rfl⟩ := ho
        obtain ⟨-, hw⟩ := World.exec_provider he
        rw [World.submits_call (congrArg World.calls hw)]
        rfl
      · have hcalls := World.exec_calls_eq_self he fun x hx => ho ⟨x, hx⟩
        rw [World.submits_eq hcalls, if_neg, Nat.add_zero]
        unfold isSubmitTo
        split
        · rename_i po hpo
          exact absurd ⟨po, hpo⟩ ho
        · exact Bool.false_ne_true
    | env e =>
      obtain ⟨w, gs, he, rfl⟩ := step_env_eq_some.1 hstep
      rw [List.map_append, List.sum_append, ih, World.submits_eq (EnvStep.exec_calls he),
        List.map_map]
      have hnone : (gs.map fun g => ((service cfg).spawn g).past.countP (isSubmitTo j p)).sum = 0 := by
        apply List.sum_eq_zero
        intro n hn
        obtain ⟨g, -, rfl⟩ := List.mem_map.1 hn
        rfl
      exact congrArg (_ + ·) hnone

/-- A submit in the past of a thread is one in the record. -/
theorem CallsNoted.le {s : (service cfg).State} (h : CallsNoted s) {th : (service cfg).Thread}
    (hth : th ∈ s.threads) (j : JobId) (p : Provider) :
    th.past.countP (isSubmitTo j p) ≤ s.world.submits j p := by
  rw [← h j p]
  exact List.single_le_sum (fun _ _ => Nat.zero_le _) _ (List.mem_map_of_mem hth)

/-! ### The providers of a job -/

/-- The row that a submit has read is still at the provider it was read at; a provider that a
submit has called is that of its row, or Harmony before the fallback. -/
structure RoutesKept (lost : ℕ → Prop) (s : (service cfg).State) : Prop where
  read : ∀ (i : ℕ) th, s.threads[i]? = some th → ¬ lost i →
    ∀ row, (phaseOf th).submitRow = some row →
    ∀ row' ∈ s.world.jobs.rows, row'.jobId = row.jobId →
      row'.requestSpec.spec.provider = row.requestSpec.spec.provider
  called : ∀ j p, 0 < s.world.submits j p → ∀ row ∈ s.world.jobs.rows, row.jobId = j →
    row.requestSpec.spec.provider = p ∨ p = .harmony ∧ row.requestSpec.spec.provider = .opendap

theorem reroute_not_keepsRoute : ¬ rerouteToOpendap.KeepsRoute := by
  intro h
  let new : NewJob :=
    { jobHandle := ⟨.job, 0⟩
      obsHandle := none
      provider := .harmony
      requestSpec := ⟨.withoutUrls, none⟩ }
  have hkept := (h 0 (new.row 0 0) _ rfl).provider
  cases hkept

/-- A submit is about the row it has read before, or has just been handed. -/
theorem Phase.submitRow_observe {n : Phase} {o : Op} {a : Except Exn o.Ans} {row : Job}
    (h : (n.observe o a).submitRow = some row) : n.submitRow = some row ∨ row ∈ o.rowsRead a := by
  cases o with
  | jobs jo =>
    cases jo with
    | transact q edit =>
      change (n.afterTransaction a).submitRow = some row at h
      unfold afterTransaction at h
      split at h
      · rename_i j first rest
        split_ifs at h with hst
        · obtain rfl := Option.some.inj h
          exact Or.inr List.mem_cons_self
        · cases h
      · cases h
      · cases h
      · split_ifs at h <;> cases h
      · split_ifs at h <;> cases h
      · exact Or.inl h
    | _ => exact Or.inl h
  | provider po =>
    change (n.afterCall po a).submitRow = some row at h
    unfold afterCall at h
    split at h
    · exact Or.inl h
    · cases h
    · cases h
    · exact Or.inl h
  | queue qo =>
    cases qo with
    | enqueueJob t j id d => exact Or.inl h
    | finish id raised =>
      change n.finished.submitRow = some row at h
      unfold finished at h
      split at h
      · exact Or.inl h
      · cases h
  | _ => exact Or.inl h

/-- Where a row of the table comes from after an operation of a thread in its phase: it keeps its
specification, or it is re-routed by a submit that has settled thereby, or it is new. -/
inductive RowStep (t : JobTable) (n n' : Phase) (row' : Job) : Prop
  | kept (row : Job) (hrow : row ∈ t.rows) (hid : row.jobId = row'.jobId)
      (hspec : row'.requestSpec = row.requestSpec)
  | rerouted (row asking : Job) (e : Exn) (hrow : row ∈ t.rows) (hid : row.jobId = row'.jobId)
      (hphase : n = .asked asking (.error e)) (hsame : asking.jobId = row'.jobId)
      (hharmony : asking.requestSpec.spec.provider = .harmony)
      (hopendap : row'.requestSpec.spec.provider = .opendap) (hsettled : n'.submitRow = none)
  | fresh (hid : row'.jobId = t.minted.length)

theorem rowStep_of_exec {w w' : World} {o : Op} {c : Choice} {a : Except Exn o.Ans} {n : Phase}
    (hmay : n.MayDo o) (he : w.exec o c = some (a, w')) {row' : Job}
    (hrow' : row' ∈ w'.jobs.rows) : RowStep w.jobs n (n.observe o a) row' := by
  have hsame (hjobs : w'.jobs = w.jobs) : RowStep w.jobs n (n.observe o a) row' :=
    .kept row' (hjobs ▸ hrow') rfl rfl
  by_cases hquiet : o.Quiet
  · rcases World.exec_quiet hquiet he with hjobs | ⟨new, hjobs⟩
    · exact hsame hjobs
    · rw [hjobs] at hrow'
      rcases List.mem_append.1 hrow' with hmem | hmem
      · exact .kept row' hmem rfl rfl
      · rw [List.mem_singleton.1 hmem]
        exact .fresh rfl
  cases o with
  | jobs jo =>
    cases jo with
    | transact q edit =>
      rcases World.exec_transact he with ⟨-, ha, hw⟩ | ⟨e, -, hw⟩
      swap
      · exact hsame (congrArg World.jobs hw)
      have hwritten : row' ∈ (w.jobs.exec w.clock (.transact q edit)).2.rows := by
        rw [hw] at hrow'
        exact hrow'
      simp only [JobTable.exec] at hwritten
      split at hwritten
      · exact .kept row' hwritten rfl rfl
      obtain ⟨row, hrow, rfl⟩ := List.mem_map.1 hwritten
      -- the row is left as it is, or the thread's transaction has edited it
      rcases writeRow_cases w.clock edit (q.select w.jobs.rows) row with heq | ⟨new, hamong, hok, heq⟩
      · rw [heq]
        exact .kept row hrow rfl rfl
      rw [heq]
      have hkept (hedit : edit.KeepsRoute) : RowStep w.jobs n (n.observe (.jobs (.transact q edit)) a)
          (row.stamp w.clock new) := by
        have hroute := hedit w.clock row new hok
        refine .kept row hrow ?_ ?_
        · rw [Job.stamp_jobId, hroute.moves.jobId]
        · rw [Job.stamp_requestSpec, hroute.requestSpec]
      cases n with
      | asked asking answer =>
        cases answer with
        | ok url =>
          obtain ⟨-, rfl⟩ := hmay
          obtain ⟨-, rfl⟩ := setState_eq_ok.1 (enterState_eq_ok hok)
          refine .kept row hrow ?_ ?_
          · rw [Job.stamp_jobId, Job.enter_jobId]
          · rw [Job.stamp_requestSpec, Job.enter_requestSpec]
        | error e =>
          obtain ⟨rfl, ⟨error, rfl⟩ | ⟨rfl, hharmony⟩⟩ := hmay
          · exact hkept (enterState_keepsRoute rfl)
          · -- the fallback re-routes the row that it was read for
            obtain rfl := Except.ok.inj hok
            have hid : asking.jobId = row.jobId := by
              obtain ⟨read, hread, hreadid⟩ := List.any_eq_true.1 hamong
              have hmatch : read.jobId = asking.jobId := JobQuery.matches_of_select hread
              rw [← hmatch]
              exact of_decide_eq_true hreadid
            refine .rerouted row asking e hrow ?_ rfl ?_ hharmony ?_ ?_
            · rw [Job.stamp_jobId]
            · rw [Job.stamp_jobId]
              exact hid
            · rw [Job.stamp_requestSpec]
              rfl
            · rw [ha]
              rfl
      | submitting j =>
        obtain ⟨-, wanted, rfl⟩ := hmay
        exact hkept (failInvalidSpec_plain wanted).route
      | loaded read => exact hkept hmay.2.route
      | polled read => exact hkept hmay.2
      | cancelling hd =>
        obtain ⟨-, rfl⟩ := hmay
        exact hkept cancelRow_keepsRoute
      | _ => exact hkept (Edit.Plain.route hmay)
    | commit rows edit => exact hmay.elim
    | _ => exact absurd trivial hquiet
  | _ => exact hsame (World.exec_jobs_eq_self he fun x hx => by cases hx)

section routes

variable {s : (service cfg).State} {i : ℕ} {th : (service cfg).Thread} {o : Op}
  {a : Except Exn o.Ans} {k : Except Exn o.Ans → Program Outcome} {w : World} {c : Choice}

theorem RoutesKept.read_act (h : RoutesKept lost s) (hinv : SubmitInv lost s)
    (hth : s.threads[i]? = some th) (hmay : (phaseOf th).MayDo o)
    (he : s.world.exec o c = some (a, w))
    {n : ℕ} {u : (service cfg).Thread} (hu : (s.threads.set i (th.advance o a k))[n]? = some u)
    (hlive : ¬ lost n) {row row' : Job} (hrow : (phaseOf u).submitRow = some row)
    (hrow' : row' ∈ w.jobs.rows) (hid : row'.jobId = row.jobId) :
    row'.requestSpec.spec.provider = row.requestSpec.spec.provider := by
  -- the submit has read its row before, or just now
  have hsub := getElem?_set_cases hu
  have hread : (∃ m v, s.threads[m]? = some v ∧ ¬ lost m ∧ (phaseOf v).submitRow = some row) ∨
      row ∈ s.world.jobs.rows := by
    rcases hsub with ⟨rfl, rfl⟩ | ⟨-, hn⟩
    · rcases Phase.submitRow_observe hrow with hbefore | hmem
      · exact Or.inl ⟨n, th, hth, hlive, hbefore⟩
      · exact Or.inr (World.rowsRead_mem he hmem).1
    · exact Or.inl ⟨n, u, hn, hlive, hrow⟩
  have hknown : row.jobId < s.world.jobs.minted.length := by
    rcases hread with ⟨m, v, hv, -, hvrow⟩ | hmem
    · exact hinv.known v (List.mem_of_getElem? hv) row hvrow
    · exact hinv.indexed.known hmem
  have hold (row₀ : Job) (hrow₀ : row₀ ∈ s.world.jobs.rows) (hid₀ : row₀.jobId = row.jobId) :
      row₀.requestSpec.spec.provider = row.requestSpec.spec.provider := by
    rcases hread with ⟨m, v, hv, hvlive, hvrow⟩ | hmem
    · exact h.read m v hv hvlive row hvrow row₀ hrow₀ hid₀
    · rw [hinv.indexed.eq_of_jobId hrow₀ hmem hid₀]
  rcases rowStep_of_exec hmay he hrow' with
    ⟨row₀, hrow₀, hid₀, hspec⟩ | ⟨row₀, asking, e, hrow₀, hid₀, hphase, hsame, -, -, hsettled⟩ | hfresh
  · rw [hspec]
    exact hold row₀ hrow₀ (hid₀.trans hid)
  · -- only the submit that fell back held the row
    exfalso
    rcases hsub with ⟨rfl, rfl⟩ | ⟨hne, hn⟩
    · rw [phaseOf_advance, hsettled] at hrow
      cases hrow
    · have hlive' : ¬ lost i := fun hi => hinv.uncalled i th hth hi _ _ hphase
      refine hne (hinv.apart n i u th row.jobId hlive hlive' hn hth (submittedJob_eq row hrow) ?_)
      rw [submittedJob_eq asking (by rw [hphase]; rfl), hsame, hid]
  · rw [← hid, hfresh] at hknown
    exact absurd hknown (lt_irrefl _)

theorem RoutesKept.called_act (h : RoutesKept lost s) (hinv : SubmitInv lost s)
    (hth : s.threads[i]? = some th) (hmay : (phaseOf th).MayDo o)
    (hlost : lost i → ¬ o.IsSubmit) (he : s.world.exec o c = some (a, w)) {j : JobId}
    {p : Provider} (hjp : 0 < w.submits j p) {row' : Job} (hrow' : row' ∈ w.jobs.rows)
    (hid : row'.jobId = j) :
    row'.requestSpec.spec.provider = p ∨
      p = .harmony ∧ row'.requestSpec.spec.provider = .opendap := by
  by_cases hbefore : 0 < s.world.submits j p
  · rcases rowStep_of_exec hmay he hrow' with
      ⟨row₀, hrow₀, hid₀, hspec⟩ | ⟨row₀, asking, e, hrow₀, hid₀, hphase, hsame, hharmony, hopendap, -⟩
        | hfresh
    · rw [hspec]
      exact h.called j p hbefore row₀ hrow₀ (hid₀.trans hid)
    · -- the row was Harmony's until now
      have hwas : row₀.requestSpec.spec.provider = .harmony := by
        rw [← hharmony]
        have hasking : (phaseOf th).submitRow = some asking := by rw [hphase]; rfl
        have hlive : ¬ lost i := fun hi => hinv.uncalled i th hth hi _ _ hphase
        exact h.read i th hth hlive asking hasking row₀ hrow₀ (hid₀.trans hsame.symm)
      have hp : p = .harmony := by
        rcases h.called j p hbefore row₀ hrow₀ (hid₀.trans hid) with heq | ⟨heq, -⟩
        · rw [← heq, hwas]
        · exact heq
      exact Or.inr ⟨hp, hopendap⟩
    · have hknown := hinv.submitted j p hbefore
      rw [← hid, hfresh] at hknown
      exact absurd hknown (lt_irrefl _)
  · -- this is the first submit of the job to this provider
    have hcall : ∃ po, o = .provider po := by
      by_contra hno
      have hcalls := World.exec_calls_eq_self he fun x hx => hno ⟨x, hx⟩
      rw [World.submits_eq hcalls] at hjp
      exact hbefore hjp
    obtain ⟨po, rfl⟩ := hcall
    obtain ⟨-, hw⟩ := World.exec_provider he
    have hjobs : w.jobs = s.world.jobs := by rw [hw]
    rw [World.submits_call (v := s.world) (by rw [hw])] at hjp
    have hsubmit : po.call.isSubmit j p = true := by
      by_contra hno
      rw [if_neg hno, Nat.add_zero] at hjp
      exact hbefore hjp
    cases po with
    | submit j' spec token =>
      obtain ⟨row, hn, hj', hspec, -⟩ := hmay
      simp only [ProviderOp.call, Call.isSubmit, Bool.and_eq_true, decide_eq_true_eq] at hsubmit
      obtain ⟨hj, hp⟩ := hsubmit
      left
      rw [← hp, ← fromJsonb_eq_ok hspec]
      have hrow : (phaseOf th).submitRow = some row := by rw [hn]; rfl
      refine h.read i th hth (fun hi => hlost hi trivial) row hrow row' (hjobs ▸ hrow') ?_
      rw [hid, ← hj, hj']
    | _ => cases hsubmit

end routes

/-- The routes are kept along every run that keeps submits apart. -/
theorem routesKept_of_reach {s : (service cfg).State} (hs : Reach (SubmitsApart lost) initial s) :
    RoutesKept lost s := by
  induction hs with
  | refl =>
    exact ⟨fun i _ h => (by cases (List.getElem?_nil (i := i)).symm.trans h),
      fun _ _ h => absurd h (lt_irrefl 0)⟩
  | tail l hreach hstep hl ih =>
    obtain ⟨hconf, hinv⟩ := submitInv_of_reach hreach
    cases l with
    | act i c =>
      obtain ⟨th, o, k, a, w, hth, hr, he, rfl⟩ := step_act_eq_some.1 hstep
      have hmay : (phaseOf th).MayDo o := hconf.allowed hth hr
      obtain ⟨hlost, -⟩ := hl o (nextOp_eq hth hr)
      refine ⟨fun n u hu hlive row hrow row' hrow' hid => ?_, fun j p hjp row' hrow' hid => ?_⟩
      · exact ih.read_act hinv hth hmay he hu hlive hrow hrow' hid
      · exact ih.called_act hinv hth hmay hlost he hjp hrow' hid
    | env e =>
      obtain ⟨w, gs, he, rfl⟩ := step_env_eq_some.1 hstep
      have hjobs : w.jobs = _ := EnvStep.exec_jobs he
      refine ⟨fun n u hu hlive row hrow row' hrow' hid => ?_, fun j p hjp row' hrow' hid => ?_⟩
      · rcases getElem?_append_cases hu with hu | hu
        · exact ih.read n u hu hlive row hrow row' (hjobs ▸ hrow') hid
        · obtain ⟨g, -, rfl⟩ := List.mem_map.1 hu
          have hnone : (Phase.start g).submitRow = none := by
            unfold Phase.start
            split <;> rfl
          rw [show phaseOf ((service cfg).spawn g) = Phase.start g from rfl, hnone] at hrow
          cases hrow
      · rw [World.submits_eq (EnvStep.exec_calls he)] at hjp
        exact ih.called j p hjp row' (hjobs ▸ hrow') hid

/-! ### How often the providers are called -/

/-- A submit is a submit to one of the four. -/
theorem World.submitCalls_eq (w : World) (j : JobId) : w.submitCalls j =
    w.submits j .harmony + w.submits j .appeears + w.submits j .opendap + w.submits j .direct := by
  unfold submitCalls submits
  induction w.calls with
  | nil => rfl
  | cons call calls ih =>
    simp only [List.countP_cons, ih]
    cases call with
    | submit j' p token =>
      by_cases hj : j' = j
      · cases p <;> simp [Call.submits, Call.isSubmit, hj] <;> omega
      · cases p <;> simp [Call.submits, Call.isSubmit, hj]
    | _ => rfl

/-- A job's providers are called twice at most: one, and OPeNDAP. -/
theorem submitCalls_le {s : (service cfg).State} (hinv : SubmitInv lost s)
    (hroutes : RoutesKept lost s)
    (j : JobId) : s.world.submitCalls j ≤ 2 := by
  have honce := hinv.once j
  by_cases hrow : ∃ row ∈ s.world.jobs.rows, row.jobId = j
  · obtain ⟨row, hrow, hid⟩ := hrow
    have hzero (p : Provider) (hp : row.requestSpec.spec.provider ≠ p)
        (hharmony : p ≠ .harmony ∨ row.requestSpec.spec.provider ≠ .opendap) :
        s.world.submits j p = 0 := by
      by_contra hpos
      rcases hroutes.called j p (Nat.pos_of_ne_zero hpos) row hrow hid with heq | ⟨h, h'⟩
      · exact hp heq
      · rcases hharmony with hne | hne
        · exact hne h
        · exact hne h'
    have h1 := honce .harmony
    have h2 := honce .appeears
    have h3 := honce .opendap
    have h4 := honce .direct
    have z1 := hzero .harmony
    have z2 := hzero .appeears
    have z3 := hzero .opendap
    have z4 := hzero .direct
    rw [World.submitCalls_eq]
    cases hq : row.requestSpec.spec.provider <;> simp [hq] at z1 z2 z3 z4 <;> omega
  · have hnone (p : Provider) : s.world.submits j p = 0 := by
      by_contra hpos
      have hknown := hinv.submitted j p (Nat.pos_of_ne_zero hpos)
      have hmem : j ∈ s.world.jobs.rows.map Job.jobId := by
        rw [hinv.indexed]
        exact List.mem_range.2 hknown
      obtain ⟨row, hrow', hid⟩ := List.mem_map.1 hmem
      exact hrow ⟨row, hrow', hid⟩
    rw [World.submitCalls_eq, hnone, hnone, hnone, hnone]
    exact Nat.zero_le 2

end EarthdataMcp
