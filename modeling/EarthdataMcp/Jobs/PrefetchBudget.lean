import EarthdataMcp.Jobs.HandleWork
import EarthdataMcp.Providers.RequestSignature

/-!
# The budget of the prefetch

A materialization that has delivered its job counts the speculative jobs of the workspace in one
transaction, and creates its own in a later one.

* `GuessNotes`, what a thread knows of the job it materializes, of the speculative jobs it has
  counted and of those it has issued;
* `Unchained`: a job leads to at most one speculative job, and a speculative one to none; and
  `PrefetchBounded`: moreover the budget is kept in every rolling day;
* `BudgetCounted`: what was issued in the last day was there when the thread counted;
* `prefetchBounded_of_reach`: the first in every run, the second in every run whose steps all
  satisfy the third.
-/

namespace EarthdataMcp

open Concurrency Concurrency.Prog Concurrency.System

/-! ### What an edit leaves alone -/

/-- Every edit leaves a row in its workspace. -/
theorem LifecycleEdit.workspaceId {edit : Edit} (h : LifecycleEdit edit) {now : Time}
    {job job' : Job} (hok : edit now job = .ok job') :
    job'.requestSpec.spec.workspaceId = job.requestSpec.spec.workspaceId := by
  cases h with
  | load wanted => rw [((failInvalidSpec_plain wanted).route _ _ _ hok).requestSpec]
  | enter new extra =>
    obtain ⟨-, rfl⟩ := setState_eq_ok.1 (enterState_eq_ok hok)
    rw [Job.enter_requestSpec]
  | reroute =>
    obtain rfl := Except.ok.inj hok
    rfl
  | apply status => rw [(applyStatus_keepsRoute status _ _ _ hok).requestSpec]
  | cancel => rw [(cancelRow_keepsRoute _ _ _ hok).requestSpec]
  | expire => rw [(expireReady_plain.route _ _ _ hok).requestSpec]
  | triage staleBefore => rw [((triage_plain staleBefore).route _ _ _ hok).requestSpec]

theorem LifecycleEdit.writeRow_workspaceId {edit : Edit} (h : LifecycleEdit edit) (now : Time)
    (rows : List Job) (job : Job) :
    (writeRow now edit rows job).requestSpec.spec.workspaceId =
      job.requestSpec.spec.workspaceId := by
  rcases writeRow_cases now edit rows job with heq | ⟨job', -, hok, heq⟩
  · rw [heq]
  · rw [heq, Job.stamp_requestSpec, h.workspaceId hok]

theorem Edit.Ordinary.movesTo_ne_ready {edit : Edit} (h : edit.Ordinary) (now : Time) (row : Job) :
    edit.movesTo now row ≠ some .ready := by
  unfold Edit.movesTo
  cases hok : edit now row with
  | error e => simp
  | ok new =>
    dsimp only
    split_ifs with hsame
    · simp
    · intro hready
      exact hsame (h.final now row new hok (Or.inl (Option.some.inj hready)))

theorem movesTo_enterState {new : JobState} {extra : Extra} {now : Time} {row : Job}
    {state : JobState} (h : (enterState new extra).movesTo now row = some state) : state = new := by
  unfold Edit.movesTo at h
  cases hok : enterState new extra now row with
  | error e => simp [hok] at h
  | ok job' =>
    simp only [hok] at h
    split_ifs at h
    obtain ⟨-, rfl⟩ := setState_eq_ok.1 (enterState_eq_ok hok)
    rw [Job.enter_state] at h
    exact (Option.some.inj h).symm

theorem expireReady_movesTo_ne_ready (now : Time) (row : Job) :
    expireReady.movesTo now row ≠ some .ready := by
  intro h
  unfold Edit.movesTo expireReady at h
  split_ifs at h
  · have hexpired : JobState.ready = .expired := movesTo_enterState h
    cases hexpired
  · simp at h

/-- Only the delivery of a job makes it ready. -/
theorem LifecycleEdit.delivers {edit : Edit} (h : LifecycleEdit edit) {now : Time} {row : Job}
    (hready : edit.movesTo now row = some .ready) : ∃ extra, edit = enterState .ready extra := by
  cases h with
  | load wanted => exact absurd hready ((failInvalidSpec_ordinary wanted).movesTo_ne_ready now row)
  | enter new extra =>
    obtain rfl := movesTo_enterState hready
    exact ⟨extra, rfl⟩
  | reroute => exact absurd hready (rerouteToOpendap_ordinary.movesTo_ne_ready now row)
  | apply status => exact absurd hready ((applyStatus_ordinary status).movesTo_ne_ready now row)
  | cancel => exact absurd hready (cancelRow_ordinary.movesTo_ne_ready now row)
  | expire => exact absurd hready (expireReady_movesTo_ne_ready now row)
  | triage staleBefore => exact absurd hready ((triage_ordinary staleBefore).movesTo_ne_ready now row)

/-! ### What a materialization has done -/

/-- The job that a thread materializes. -/
def Origin.materializes : Origin → Option JobId
  | task _ .materializeJob j => some j
  | _ => none

/-- What is known of a thread: the job it materializes, whether the row it loaded is
speculative, whether it has marked a row ready, the speculative jobs it has counted for a
workspace, and those it has issued. -/
structure GuessNotes where
  task : Option JobId := none
  loaded : Option Bool := none
  delivered : Bool := false
  counted : Option (WorkspaceId × List Job) := none
  issued : List JobId := []

namespace GuessNotes

/-- The notes after an operation. -/
def observe (n : GuessNotes) : (o : Op) → Except Exn o.Ans → GuessNotes
  | .jobs (.transact _ edit), .ok rows =>
      { n with
        loaded := n.loaded.or (rows.head?.map Job.speculative)
        delivered := n.delivered || rows.any fun row => edit.movesTo 0 row = some .ready }
  | .jobs (.read (.speculativeJobsSince ws _)), .ok rows => { n with counted := some (ws, rows) }
  | .jobs (.create new), .ok j => if new.speculative then { n with issued := j :: n.issued } else n
  | _, _ => n

/-- The job that the thread has marked ready. -/
def marked (n : GuessNotes) : Option JobId := if n.delivered then n.task else none

/-- The thread has delivered a job that a user requested, has found room in the budget of the
workspace, and has issued nothing yet. -/
structure MayIssue (budget : ℕ) (ws : Option WorkspaceId) (n : GuessNotes) : Prop where
  first : n.issued = []
  delivered : n.delivered = true
  loaded : n.loaded = some false
  room : ∃ id rows, ws = some id ∧ n.counted = some (id, rows) ∧ rows.length < budget

/-- What a thread may do. -/
def MayDo (budget : ℕ) (n : GuessNotes) : Op → Prop
  | .jobs (.create new) =>
      new.speculative = true → n.MayIssue budget new.requestSpec.spec.workspaceId
  | .jobs (.transact q edit) =>
      LifecycleEdit edit ∧ ∀ j, n.task = some j →
        (n.loaded = none ∨ ∃ now row, edit.movesTo now row = some .ready) → q = .getJob j
  | .jobs (.commit _ _) => False
  | _ => True

end GuessNotes

/-- The rows that a transaction hands out are rows that its edit accepts. -/
def Op.Applied (o : Op) (a : Except Exn o.Ans) : Prop :=
  match o, a with
  | .jobs (.transact _ edit), .ok rows => ∀ row ∈ rows, ∃ now job', edit now row = .ok job'
  | _, _ => True

theorem World.applied {w w' : World} {o : Op} {c : Choice} {a : Except Exn o.Ans}
    (h : w.exec o c = some (a, w')) : o.Applied a := by
  unfold Op.Applied
  split
  · rename_i q edit rows
    rcases World.exec_transact h with ⟨hfirst, ha, -⟩ | ⟨e, ha, -⟩
    · obtain rfl := Except.ok.inj ha
      intro row hrow
      obtain ⟨row', hrow'⟩ := firstError_eq_none hfirst hrow
      exact ⟨_, row', hrow'⟩
    · cases ha
  · trivial

/-- The monitor of the speculative jobs. -/
def guessMonitor (cfg : Settings) : Monitor (service cfg) GuessNotes where
  start g := { task := g.materializes }
  observe n o a := n.observe o a

/-- Threads create speculative jobs only where they may. -/
abbrev guessProtocol (cfg : Settings) : Protocol Api GuessNotes :=
  (guessMonitor cfg).protocol (fun n o => n.MayDo cfg.prefetchBudgetPerWorkspacePerDay o)
    fun _ o a => o.Applied a

/-! ### The programs keep to that -/

section programs

variable {cfg : Settings} {n : GuessNotes} {α : Type}

/-- The operation is not one on jobs. -/
def Op.OffJobs : Op → Prop
  | .jobs _ => False
  | _ => True

theorem guess_offJobs {p : Program α} (hp : p.Only Op.OffJobs) :
    p.Obeys (guessProtocol cfg) n fun _ n' => n' = n := by
  refine hp.obeys (fun m o _ ho => ?_) (fun m o a m' hm ho hnext => ?_) rfl
  · cases o with
    | jobs x => exact ho.elim
    | _ => trivial
  · obtain ⟨-, rfl⟩ := hnext
    rw [hm]
    cases o with
    | jobs x => exact ho.elim
    | _ => rfl

/-- One step that is not on jobs. -/
theorem guess_skip {o : Op} {post : Except Exn o.Ans → GuessNotes → Prop} (ho : o.OffJobs)
    (hpost : ∀ a, post a n) : (perform o).Obeys (guessProtocol cfg) n post := by
  refine (guess_offJobs (only_perform.2 ho)).mono ?_
  rintro a _ rfl
  exact hpost a

/-- The operation leaves what the thread has loaded and issued as it is. -/
def Op.Modest (j : JobId) : Op → Prop
  | .jobs (.transact q edit) =>
      LifecycleEdit edit ∧ ∀ now row, edit.movesTo now row = some .ready → q = .getJob j
  | .jobs (.commit _ _) => False
  | .jobs (.create _) => False
  | _ => True

/-- The thread materializes this job, has loaded its row and has issued nothing. -/
structure GuessNotes.Loaded (j : JobId) (speculative delivered : Bool) (n : GuessNotes) : Prop where
  task : n.task = some j
  loaded : n.loaded = some speculative
  issued : n.issued = []
  delivered : delivered = true → n.delivered = true

theorem guess_modest {p : Program α} {j : JobId} {b d : Bool} (hp : p.Only (Op.Modest j))
    (hn : n.Loaded j b d) : p.Obeys (guessProtocol cfg) n fun _ n' => n'.Loaded j b d := by
  refine hp.obeys (fun m o hm ho => ?_) (fun m o a m' hm ho hnext => ?_) hn
  · cases o with
    | jobs x =>
      cases x with
      | transact q edit =>
        refine ⟨ho.1, fun j' htask hfirst => ?_⟩
        obtain rfl := Option.some.inj (hm.task.symm.trans htask)
        rcases hfirst with hnone | ⟨now, row, hready⟩
        · rw [hm.loaded] at hnone
          cases hnone
        · exact ho.2 now row hready
      | create new => exact ho.elim
      | commit rows edit => exact ho.elim
      | read q => trivial
    | _ => trivial
  · obtain ⟨-, rfl⟩ := hnext
    show (m.observe o a).Loaded j b d
    unfold GuessNotes.observe
    split
    · refine ⟨hm.task, ?_, hm.issued, fun hd => ?_⟩
      · show m.loaded.or _ = some b
        rw [hm.loaded]
        rfl
      · show (m.delivered || _) = true
        rw [hm.delivered hd, Bool.true_or]
    · exact ⟨hm.task, hm.loaded, hm.issued, hm.delivered⟩
    · exact ho.elim
    · exact hm

theorem TaskOp.modest {j : JobId} {o : Op} (h : TaskOp j o) : o.Modest j := by
  cases h with
  | fail error => exact ⟨.enter _ _, fun _ _ _ => rfl⟩
  | _ => trivial

theorem SweepOp.modest {j : JobId} {o : Op} (h : SweepOp o) : o.Modest j := by
  cases h with
  | expireJob h => exact ⟨.expire, fun now row hready =>
      absurd hready (expireReady_movesTo_ne_ready now row)⟩
  | _ => trivial

/-- The thread has found room in the budget of the workspace. -/
theorem GuessNotes.Loaded.mayIssue {budget : ℕ} {j : JobId} {ws : WorkspaceId} {rows : List Job}
    (hn : n.Loaded j false true) (hcounted : n.counted = some (ws, rows))
    (hroom : rows.length < budget) : n.MayIssue budget (some ws) :=
  ⟨hn.issued, hn.delivered rfl, hn.loaded, ws, rows, rfl, hcounted, hroom⟩

theorem enqueuePrefetch_issues (predicted : RequestSpec) (signature : String)
    (originJobHandle : Option HandleId) (ws : WorkspaceId) (credential : Option Credential)
    (hn : n.MayIssue cfg.prefetchBudgetPerWorkspacePerDay (some ws)) :
    (enqueuePrefetch predicted signature originJobHandle ws credential).Obeys (guessProtocol cfg) n
      fun _ _ => True := by
  unfold enqueuePrefetch
  rw [obeys_bind]
  have hunique : (putHandleUniqueSignature ws .obs signature
      { status := some .pending, speculative := true }).Only Op.OffJobs := by
    unfold putHandleUniqueSignature
    refine (only_perform.2 trivial).bind fun row => ?_
    split
    · trivial
    · refine (only_perform.2 trivial).bind fun row => ?_
      split <;> trivial
  refine (guess_offJobs hunique).mono ?_
  rintro (e | ⟨obs, created⟩) _ rfl
  · trivial
  rw [afterBind_ok]
  show (if ¬ created then pure PrefetchDecision.alreadyHeld else _ : Program _).Obeys _ _ _
  by_cases hcreated : created = true
  swap
  · rw [if_pos hcreated]
    trivial
  rw [if_neg (not_not.2 hcreated), obeys_bind]
  have hdataset : (originDatasetHandle ws originJobHandle).Only Op.OffJobs := by
    unfold originDatasetHandle
    cases originJobHandle with
    | none => trivial
    | some h => exact (only_perform.2 trivial).attempt.bind fun r => by split <;> trivial
  refine (guess_offJobs hdataset).mono ?_
  rintro (e | datasetHandle) _ rfl
  · trivial
  rw [afterBind_ok, obeys_bind]
  refine guess_skip trivial ?_
  rintro (e | jobHandle)
  · trivial
  rw [afterBind_ok, obeys_bind]
  -- the job is created: the only operation here that the protocol asks something of
  refine Monitor.obeys_step (fun _ => hn) ?_
  rintro (e | j) -
  · trivial
  rw [afterBind_ok]
  have hedge : (recordEdgeFrom ws obs.handle datasetHandle).Only Op.OffJobs := by
    unfold recordEdgeFrom
    cases datasetHandle with
    | none => trivial
    | some source => exact only_perform.2 trivial
  rw [obeys_bind]
  refine (guess_offJobs hedge).mono ?_
  rintro (e | ⟨⟩) _ rfl
  · trivial
  rw [afterBind_ok, obeys_bind]
  refine guess_skip trivial ?_
  rintro (e | ⟨⟩)
  · trivial
  rw [afterBind_ok, obeys_bind]
  refine guess_skip trivial ?_
  rintro (e | ⟨⟩) <;> trivial

theorem prefetchWindow_issues (spec predicted : RequestSpec) (ws : WorkspaceId)
    (conceptId : String) (credential : Option Credential)
    (hn : n.MayIssue cfg.prefetchBudgetPerWorkspacePerDay (some ws)) :
    (prefetchWindow cfg spec predicted ws conceptId credential).Obeys (guessProtocol cfg) n
      fun _ _ => True := by
  unfold prefetchWindow
  rw [obeys_bind]
  refine guess_skip trivial ?_
  rintro (e | plan)
  · trivial
  rw [afterBind_ok]
  split
  · trivial
  rw [obeys_bind]
  have hrestriction : (windowRestriction plan conceptId).Only Op.OffJobs := by
    unfold windowRestriction
    split_ifs
    · trivial
    · exact (only_perform.2 trivial).bind fun _ => trivial
  refine (guess_offJobs hrestriction).mono ?_
  rintro (e | flagged) _ rfl
  · trivial
  rw [afterBind_ok]
  split_ifs
  · trivial
  rw [obeys_bind]
  refine guess_skip trivial ?_
  rintro (e | now)
  · trivial
  rw [afterBind_ok]
  split
  · trivial
  rw [obeys_bind]
  refine guess_skip trivial ?_
  rintro (e | row)
  · trivial
  rw [afterBind_ok]
  split
  · trivial
  · exact enqueuePrefetch_issues _ _ _ _ _ hn

/-- A prefetch issues a job only after one that a user requested, and within the budget it has
counted. -/
theorem maybePrefetch_issues {j : JobId} {speculativeOrigin : Bool} (spec : RequestSpec)
    (sizeBytes : Option ℕ) (credential : Option Credential)
    (hn : n.Loaded j speculativeOrigin true) :
    (maybePrefetch cfg spec speculativeOrigin sizeBytes credential).Obeys (guessProtocol cfg) n
      fun _ _ => True := by
  unfold maybePrefetch
  by_cases henabled : cfg.prefetchEnabled = true
  swap
  · rw [if_pos henabled]
    trivial
  rw [if_neg (not_not.2 henabled)]
  by_cases hchained : speculativeOrigin = true
  · rw [if_pos hchained]
    trivial
  rw [if_neg hchained]
  obtain rfl : speculativeOrigin = false := Bool.eq_false_of_not_eq_true hchained
  split
  swap
  · trivial
  rename_i predicted ws conceptId _ _ _
  rw [obeys_bind]
  refine Monitor.obeys_step trivial ?_
  rintro (e | busy) -
  · trivial
  rw [afterBind_ok]
  split_ifs
  · trivial
  cases sizeBytes with
  | none => trivial
  | some size =>
    dsimp only
    split_ifs
    · trivial
    rw [obeys_bind]
    refine Monitor.obeys_step trivial ?_
    rintro (e | now) -
    · trivial
    rw [afterBind_ok, obeys_bind]
    refine Monitor.obeys_step trivial ?_
    rintro (e | issued) -
    · trivial
    rw [afterBind_ok]
    -- the thread goes on only within the budget that it has just counted
    by_cases hbudget : cfg.prefetchBudgetPerWorkspacePerDay ≤ List.length issued
    · rw [if_pos hbudget]
      trivial
    rw [if_neg hbudget, obeys_bind]
    refine guess_skip trivial ?_
    rintro (e | rows)
    · trivial
    rw [afterBind_ok]
    split_ifs
    · refine prefetchWindow_issues _ _ _ _ _ (GuessNotes.Loaded.mayIssue (j := j) ?_ rfl
        (not_le.1 hbudget))
      exact ⟨hn.task, hn.loaded, hn.issued, hn.delivered⟩
    · trivial
    · trivial

/-- The transaction that marks a job ready is noted. -/
theorem transitionState_ready_issues {j : JobId} {b : Bool} (extra : Extra)
    (hn : n.Loaded j b false) :
    (transitionState j .ready extra).Obeys (guessProtocol cfg) n fun r n' =>
      ∀ u, r = .ok u → n'.Loaded j b true := by
  unfold transitionState
  rw [obeys_bind]
  refine Monitor.obeys_step ⟨.enter _ _, fun j' htask _ => ?_⟩ ?_
  · rw [Option.some.inj (hn.task.symm.trans htask)]
  rintro (e | rows) happlied
  · exact fun u h => by cases h
  rw [afterBind_ok]
  split
  · exact fun u h => by cases h
  · rename_i row rest
    intro u _
    refine ⟨hn.task, ?_, hn.issued, fun _ => ?_⟩
    · show n.loaded.or _ = some b
      rw [hn.loaded]
      rfl
    · obtain ⟨now, job', hok⟩ := happlied row List.mem_cons_self
      obtain ⟨hlegal, -⟩ := setState_eq_ok.1 (enterState_eq_ok hok)
      have hnow : enterState .ready extra 0 row = .ok (row.enter 0 .ready extra) := by
        unfold enterState
        rw [setState_of_legal hlegal]
      have hmoves : (enterState .ready extra).movesTo 0 row = some .ready := by
        rw [Edit.movesTo_eq _ hnow (by simpa using hlegal.ne.symm), Job.enter_state]
      show (n.delivered || List.any (row :: rest) _) = true
      rw [List.any_cons, hmoves]
      simp

theorem swallow_modest {p : Program Unit} {j : JobId} {b d : Bool} (hp : p.Only (Op.Modest j))
    (hn : n.Loaded j b d) :
    (swallow p).Obeys (guessProtocol cfg) n fun _ n' => n'.Loaded j b d :=
  guess_modest (only_swallow hp) hn

/-- A materialization marks its own job ready, and then prefetches. -/
theorem materializeDelivered_issues {j : JobId} {job : Job} (spec : RequestSpec) (key : Key)
    (out : Fetched) (hn : n.Loaded j job.speculative false) :
    (materializeDelivered cfg j spec job key out).Obeys (guessProtocol cfg) n fun _ _ => True := by
  unfold materializeDelivered
  rw [obeys_bind]
  have hdrift : (logMaterializationDrift j spec).Only (Op.Modest j) := by
    unfold logMaterializationDrift
    split
    · trivial
    · exact only_swallow (only_map (only_perform.2 trivial))
  refine (guess_modest hdrift hn).mono ?_
  rintro (e | ⟨⟩) n₁ hn₁
  · trivial
  rw [afterBind_ok, obeys_bind]
  have hresolve : (resolveHandle cfg spec key out).Only (Op.Modest j) := by
    unfold resolveHandle
    split
    · trivial
    · exact only_map (only_perform.2 trivial)
  refine (guess_modest hresolve hn₁).mono ?_
  rintro (e | ⟨⟩) n₂ hn₂
  · trivial
  rw [afterBind_ok, obeys_bind]
  refine (guess_modest (recordEventSafe_only (fun _ => trivial) _ _ _) hn₂).mono ?_
  rintro (e | ⟨⟩) n₃ hn₃
  · trivial
  rw [afterBind_ok, obeys_bind]
  refine (transitionState_ready_issues _ hn₃).mono ?_
  rintro (e | ⟨⟩) n₄ hn₄
  · trivial
  rw [afterBind_ok]
  unfold afterReady
  rw [obeys_bind]
  refine (swallow_modest ((sweep_only _ _).mono fun _ => SweepOp.modest) (hn₄ _ rfl)).mono ?_
  rintro (e | ⟨⟩) n₅ hn₅
  · trivial
  rw [afterBind_ok]
  unfold swallow
  rw [obeys_bind, obeys_attempt, obeys_bind]
  refine (maybePrefetch_issues spec _ _ hn₅).mono ?_
  rintro (e | decision) n₆ -
  · show (match (Except.error e : Except Exn Unit) with
      | .ok _ => pure () | .error e => _ : Program Unit).Obeys _ _ _
    dsimp only
    split_ifs <;> trivial
  · trivial

theorem materializeJob_issues (j : JobId) (hn : n.task = some j) (hloaded : n.loaded = none)
    (hissued : n.issued = []) :
    (materializeJob cfg j).Obeys (guessProtocol cfg) n fun _ _ => True := by
  have htask {o : Op} (h : TaskOp j o) : o.Modest j := h.modest
  unfold materializeJob
  rw [obeys_bind]
  refine Monitor.obeys_step ⟨.load _, fun j' htask _ => ?_⟩ ?_
  · rw [Option.some.inj (hn.symm.trans htask)]
  rintro (e | rows) -
  · trivial
  rw [afterBind_ok]
  unfold withRow
  split
  · trivial
  rename_i job rest
  split_ifs
  swap
  · trivial
  split
  · trivial
  rename_i spec _
  unfold materializeRow
  have hn₀ : (n.observe (.jobs (.transact (.getJob j)
      (failInvalidSpec fun s => s = JobState.materializing))) (.ok (job :: rest))).Loaded j
        job.speculative false := by
    refine ⟨hn, ?_, hissued, fun h => by cases h⟩
    show n.loaded.or _ = _
    rw [hloaded]
    rfl
  rw [obeys_bind]
  refine (guess_modest ((loadJobIdentity_only _ _ _ _).mono fun _ => htask) hn₀).mono ?_
  rintro (e | identity) n₁ hn₁
  · trivial
  rw [afterBind_ok, obeys_bind]
  refine (guess_modest ((loadProvider_only _ _).mono fun _ => htask) hn₁).mono ?_
  rintro (e | ⟨⟩) n₂ hn₂
  · trivial
  rw [afterBind_ok, obeys_bind, obeys_attempt]
  have hfetch : (providerMaterialize j spec job.providerJobUrl identity).Only (Op.Modest j) :=
    (only_perform.2 trivial).bind fun _ => only_map (only_perform.2 trivial)
  refine (guess_modest hfetch hn₂).mono ?_
  rintro r n₃ hn₃
  rw [afterBind_ok]
  split
  · exact (guess_modest ((materializeFailed_only _ _ _ _).mono fun _ => htask) hn₃).mono
      fun _ _ _ => trivial
  · exact materializeDelivered_issues _ _ _ hn₃

/-- Every program conforms. -/
theorem program_issues (g : Origin) :
    (g.program cfg).Obeys (guessProtocol cfg) ((guessMonitor cfg).start g) fun _ _ => True := by
  by_cases hmaterializes : ∃ id j, g = .task id .materializeJob j
  · obtain ⟨id, j, rfl⟩ := hmaterializes
    unfold Origin.program runTask
    rw [obeys_bind, obeys_attempt]
    refine (materializeJob_issues j rfl rfl rfl).mono fun r n' _ => ?_
    rw [afterBind_ok]
    split <;>
    · rw [obeys_bind]
      refine guess_skip trivial ?_
      rintro (e | ⟨⟩) <;> trivial
  · -- no other program creates a speculative job
    have htask : g.materializes = none := by
      unfold Origin.materializes
      split
      · exact absurd ⟨_, _, rfl⟩ hmaterializes
      · rfl
    have hobeys : (g.program cfg).Obeys (guessProtocol cfg) ((guessMonitor cfg).start g)
        fun _ n => n.task = none := by
      refine (g.program_only cfg).obeys (fun n o hn ho => ?_) (fun n o a n' hn ho hnext => ?_) htask
      · cases o with
        | jobs x =>
          cases ho.jobs with
          | read q => trivial
          | transact q hedit =>
            refine ⟨hedit, fun j hj _ => ?_⟩
            rw [hn] at hj
            cases hj
          | request new hnew =>
            intro hspeculative
            rw [hnew] at hspeculative
            cases hspeculative
          | guess new hg hnew => exact absurd hg hmaterializes
        | _ => trivial
      · obtain ⟨-, rfl⟩ := hnext
        show (n.observe o a).task = none
        unfold GuessNotes.observe
        split
        · exact hn
        · exact hn
        · split_ifs <;> exact hn
        · exact hn
    exact hobeys.mono fun _ _ _ => trivial

end programs

/-! ### What the runs keep -/

/-- The speculative jobs of a workspace that were created in the day that begins then. -/
def World.issuedIn (w : World) (ws : WorkspaceId) (since : Time) : List Job :=
  w.jobs.rows.filter fun job => job.speculative ∧ job.requestSpec.spec.workspaceId = some ws ∧
    since ≤ job.createdAt ∧ job.createdAt ≤ since + seconds 86400

section runs

variable {cfg : Settings}

/-- The speculative jobs that a thread has issued. -/
def issuedBy (t : (service cfg).Thread) : List JobId := ((guessMonitor cfg).note t).issued

/-- The speculative jobs that the materializations of a job have issued. -/
def ledTo (s : (service cfg).State) (j : JobId) : List JobId :=
  s.threads.flatMap fun t => if t.origin.materializes = some j then issuedBy t else []

/-- The materialization of a job leads to at most one speculative job, and the one of a speculative
job to none. -/
structure Unchained (s : (service cfg).State) : Prop where
  once : ∀ j, (ledTo s j).length ≤ 1
  unchained : ∀ row ∈ s.world.jobs.rows, row.speculative = true → ledTo s row.jobId = []

/-- Moreover the budget is kept in every rolling day. -/
structure PrefetchBounded (cfg : Settings) (s : (service cfg).State) : Prop
    extends Unchained s where
  budget : ∀ ws since,
    (s.world.issuedIn ws since).length ≤ cfg.prefetchBudgetPerWorkspacePerDay

/-- What thread `i` knows. -/
def guessOf (s : (service cfg).State) (i : ℕ) : GuessNotes :=
  match s.threads[i]? with
  | some t => (guessMonitor cfg).note t
  | none => {}

/-- A thread that issues a speculative job has counted every one that the workspace has been
issued within the day. -/
def GuessNotes.Counted (n : GuessNotes) (w : World) : Op → Prop
  | .jobs (.create new) => new.speculative = true → ∀ row ∈ w.jobs.rows, row.speculative = true →
      row.requestSpec.spec.workspaceId = new.requestSpec.spec.workspaceId →
        w.clock ≤ row.createdAt + seconds 86400 →
          ∃ counted ∈ n.counted, ∃ seen ∈ counted.2, seen.jobId = row.jobId
  | _ => True

instance (n : GuessNotes) (w : World) (o : Op) : Decidable (n.Counted w o) :=
  match o with
  | .jobs (.create new) =>
      inferInstanceAs (Decidable (new.speculative = true → ∀ row ∈ w.jobs.rows, _))
  | .jobs (.read _) | .jobs (.transact _ _) | .jobs (.commit _ _) | .now | .handles _
  | .storage _ | .queue _ | .provider _ | .planning _ | .access _ | .provenance _
  | .orphanSweepDue _ => isTrue trivial

/-- Whoever issues a speculative job has counted what was issued within the day. -/
abbrev BudgetCounted (s : (service cfg).State) (i : ℕ) (o : Op) : Prop :=
  (guessOf s i).Counted s.world o

/-! ### What one operation does to the notes -/

section observe

variable {n : GuessNotes} {budget : ℕ} {o : Op} {a : Except Exn o.Ans}

@[simp] theorem GuessNotes.observe_task : (n.observe o a).task = n.task := by
  unfold observe
  split
  · rfl
  · rfl
  · split_ifs <;> rfl
  · rfl

/-- What has been loaded stays loaded. -/
theorem GuessNotes.observe_loaded {b : Bool} (h : n.loaded = some b) :
    (n.observe o a).loaded = some b := by
  unfold observe
  split
  · show n.loaded.or _ = some b
    rw [h]
    rfl
  · exact h
  · split_ifs <;> exact h
  · exact h

theorem GuessNotes.observe_delivered (h : n.delivered = true) :
    (n.observe o a).delivered = true := by
  unfold observe
  split
  · show (n.delivered || _) = true
    rw [h, Bool.true_or]
  · exact h
  · split_ifs <;> exact h
  · exact h

/-- A job is issued only by a thread that may. -/
theorem GuessNotes.observe_issued (hmay : n.MayDo budget o) :
    (n.observe o a).issued = n.issued ∨
      ∃ j ws, (n.observe o a).issued = [j] ∧ n.MayIssue budget ws := by
  unfold observe
  split
  · exact Or.inl rfl
  · exact Or.inl rfl
  · rename_i new j
    by_cases hspeculative : new.speculative = true
    · rw [if_pos hspeculative]
      have hissue := hmay hspeculative
      refine Or.inr ⟨j, _, ?_, hissue⟩
      show j :: n.issued = [j]
      rw [hissue.first]
    · rw [if_neg hspeculative]
      exact Or.inl rfl
  · exact Or.inl rfl

variable {w w' : World} {c : Choice}

/-- What a thread loads is the row of its job. -/
theorem GuessNotes.loaded_of_observe (hmay : n.MayDo budget o)
    (he : w.exec o c = some (a, w')) {j : JobId} {b : Bool} (htask : n.task = some j)
    (h : (n.observe o a).loaded = some b) :
    n.loaded = some b ∨ ∃ row ∈ w.jobs.rows, row.jobId = j ∧ row.speculative = b := by
  unfold observe at h
  split at h
  · rename_i q edit rows
    obtain ⟨-, hquery⟩ := hmay
    cases hloaded : n.loaded with
    | some b' =>
      left
      rw [hloaded] at h
      exact h
    | none =>
      right
      obtain rfl : q = .getJob j := hquery j htask (Or.inl hloaded)
      rw [hloaded] at h
      obtain ⟨row, hrow, rfl⟩ := Option.map_eq_some_iff.1 h
      have hmem : row ∈ rows := List.mem_of_head? hrow
      obtain ⟨htable, hmatches⟩ := World.rowsRead_mem he hmem
      exact ⟨row, htable, hmatches _ rfl, rfl⟩
  · exact Or.inl h
  · split_ifs at h <;> exact Or.inl h
  · exact Or.inl h

/-- A job that a thread marks had not ended, and is ready now. -/
theorem GuessNotes.marked_of_observe (hmay : n.MayDo budget o) (hindexed : w.jobs.Indexed)
    (he : w.exec o c = some (a, w')) {j : JobId} (h : (n.observe o a).marked = some j) :
    n.marked = some j ∨
      ∃ row ∈ w.jobs.rows, row.jobId = j ∧ ¬ row.state.Terminal ∧
        ∃ row' ∈ w'.jobs.rows, row'.jobId = j ∧ row'.state.Terminal := by
  unfold marked at h
  rw [observe_task] at h
  split_ifs at h with hdelivered
  by_cases hbefore : n.delivered = true
  · left
    rw [marked, if_pos hbefore]
    exact h
  right
  unfold observe at hdelivered
  split at hdelivered
  · rename_i q edit rows
    replace hdelivered : (n.delivered || rows.any _) = true := hdelivered
    rw [Bool.eq_false_of_not_eq_true hbefore, Bool.false_or, List.any_eq_true] at hdelivered
    obtain ⟨row, hrow, hready⟩ := hdelivered
    replace hready := of_decide_eq_true hready
    -- the row that is answered has just been entered as ready, which no terminal row allows
    obtain ⟨hedit, hquery⟩ := hmay
    obtain rfl : q = .getJob j := hquery j h (Or.inr ⟨_, _, hready⟩)
    obtain ⟨extra, rfl⟩ := hedit.delivers hready
    obtain ⟨htable, hmatches⟩ := World.rowsRead_mem he hrow
    have hid : row.jobId = j := hmatches _ rfl
    subst hid
    rcases World.exec_transact he with ⟨hfirst, -, rfl⟩ | ⟨e, ha, -⟩
    swap
    · cases ha
    obtain ⟨row', hok, hwrite⟩ := hindexed.writeRow_getJob htable hfirst
    obtain ⟨hlegal, rfl⟩ := setState_eq_ok.1 (enterState_eq_ok hok)
    refine ⟨row, htable, rfl, fun hterminal => ?_,
      row.stamp w.clock (row.enter w.clock .ready extra), ?_, ?_, ?_⟩
    · exact absurd (hlegal.of_terminal hterminal).2 (by decide)
    · simp only [JobTable.exec, hfirst]
      exact List.mem_map.2 ⟨row, htable, hwrite⟩
    · rw [Job.stamp_jobId, Job.enter_jobId]
    · rw [Job.stamp_state, Job.enter_state]
      exact JobState.terminal_ready
  · exact absurd hdelivered hbefore
  · split_ifs at hdelivered <;> exact absurd hdelivered hbefore
  · exact absurd hdelivered hbefore

end observe

/-! ### What one operation does to the jobs -/

/-- Every row of the one table is found in the other, moved. -/
def JobTable.Carried (rows rows' : List Job) : Prop := ∀ row ∈ rows, ∃ row' ∈ rows', row.Moves row'

theorem JobTable.Evolves.carried {now : Time} {t t' : JobTable} (h : t.Evolves now t') :
    JobTable.Carried t.rows t'.rows := by
  intro row hrow
  cases h with
  | rows f hf => exact ⟨f row, List.mem_map_of_mem hrow, hf row hrow⟩
  | create new => exact ⟨row, List.mem_append_left _ hrow, .refl row⟩

/-- An operation that a thread may perform. -/
theorem GuessNotes.MayDo.keeps {budget : ℕ} {n : GuessNotes} {o : Op} {a : Except Exn o.Ans}
    {c : Choice} {w w' : World} (hmay : n.MayDo budget o) (hindexed : w.jobs.Indexed)
    (he : w.exec o c = some (a, w')) :
    w'.jobs.Indexed ∧ JobTable.Carried w.jobs.rows w'.jobs.rows := by
  by_cases ho : ∃ x, o = .jobs x
  · obtain ⟨x, rfl⟩ := ho
    have hdisciplined : x.Disciplined ∧ x.Atomic := by
      cases x with
      | transact q edit => exact ⟨hmay.1.disciplined, trivial⟩
      | commit rows edit => exact hmay.elim
      | _ => exact ⟨trivial, trivial⟩
    rcases World.exec_jobs he with ⟨-, -, rfl⟩ | ⟨e, -, rfl⟩
    · exact ⟨hindexed.exec hdisciplined.1,
        (JobTable.exec_evolves hdisciplined.1 hdisciplined.2).carried⟩
    · exact ⟨hindexed, fun row hrow => ⟨row, hrow, .refl row⟩⟩
  · rw [World.exec_jobs_eq_self he fun x hx => ho ⟨x, hx⟩]
    exact ⟨hindexed, fun row hrow => ⟨row, hrow, .refl row⟩⟩

/-- The rows of distinct ids. -/
theorem JobTable.Indexed.nodup {t : JobTable} (h : t.Indexed) : (t.rows.map Job.jobId).Nodup := by
  rw [h]
  exact List.nodup_range

theorem World.issuedIn_map {w w' : World} {f : Job → Job}
    (hrows : w'.jobs.rows = w.jobs.rows.map f)
    (hf : ∀ job, job.Moves (f job) ∧
      (f job).requestSpec.spec.workspaceId = job.requestSpec.spec.workspaceId)
    (ws : WorkspaceId) (since : Time) :
    (w'.issuedIn ws since).length = (w.issuedIn ws since).length := by
  unfold issuedIn
  rw [hrows, List.filter_map, List.length_map]
  congr 1
  apply List.filter_congr
  intro job _
  obtain ⟨hmoves, hworkspace⟩ := hf job
  simp only [Function.comp_apply, hmoves.speculative, hworkspace, hmoves.createdAt]

/-- A job that is issued when everything the workspace was issued in the last day has been
counted. -/
theorem World.issuedIn_create {w w' : World} {new : NewJob} {n : GuessNotes} {budget : ℕ}
    (hindexed : w.jobs.Indexed)
    (hrows : w'.jobs.rows = w.jobs.rows ++ [new.row w.clock w.jobs.next])
    (hmay : n.MayDo budget (.jobs (.create new)))
    (hcounted : n.Counted w (.jobs (.create new)))
    (hbudget : ∀ ws since, (w.issuedIn ws since).length ≤ budget) (ws : WorkspaceId)
    (since : Time) : (w'.issuedIn ws since).length ≤ budget := by
  unfold issuedIn
  rw [hrows, List.filter_append, List.length_append]
  by_cases hnew : new.speculative = true ∧ new.requestSpec.spec.workspaceId = some ws ∧
      since ≤ w.clock ∧ w.clock ≤ since + seconds 86400
  · obtain ⟨hspeculative, hworkspace, hsince, huntil⟩ := hnew
    obtain ⟨id, rows, -, hread, hroom⟩ := (hmay hspeculative).room
    have hsubset : (w.issuedIn ws since).map Job.jobId ⊆ rows.map Job.jobId := by
      intro j hj
      obtain ⟨row, hrow, rfl⟩ := List.mem_map.1 hj
      obtain ⟨hmem, hin⟩ := List.mem_filter.1 hrow
      obtain ⟨hrow, hws, hfrom, -⟩ := of_decide_eq_true hin
      obtain ⟨counted, hcount, seen, hseen, hid⟩ := hcounted hspeculative row hmem hrow
        (hws.trans hworkspace.symm) (huntil.trans (Nat.add_le_add_right hfrom _))
      rw [hread] at hcount
      obtain rfl := Option.some.inj hcount
      exact hid ▸ List.mem_map_of_mem hseen
    have hnodup : ((w.issuedIn ws since).map Job.jobId).Nodup :=
      hindexed.nodup.sublist (List.filter_sublist.map _)
    have hle : (w.issuedIn ws since).length ≤ rows.length := by
      simpa using (hnodup.subperm hsubset).length_le
    exact (Nat.add_le_add hle (List.length_filter_le _ _)).trans hroom
  · rw [List.filter_cons_of_neg]
    · exact hbudget ws since
    · exact fun h => hnew (of_decide_eq_true h)

/-- One operation keeps the budget. -/
theorem World.budget_act {w w' : World} {n : GuessNotes} {budget : ℕ} {o : Op}
    {a : Except Exn o.Ans} {c : Choice} (hindexed : w.jobs.Indexed) (hmay : n.MayDo budget o)
    (he : w.exec o c = some (a, w')) (hcounted : n.Counted w o)
    (hbudget : ∀ ws since, (w.issuedIn ws since).length ≤ budget) (ws : WorkspaceId)
    (since : Time) : (w'.issuedIn ws since).length ≤ budget := by
  by_cases ho : ∃ x, o = .jobs x
  · obtain ⟨x, rfl⟩ := ho
    rcases World.exec_jobs he with ⟨-, -, rfl⟩ | ⟨e, -, rfl⟩
    swap
    · exact hbudget ws since
    cases x with
    | read q => exact hbudget ws since
    | transact q edit =>
      simp only [JobTable.exec]
      split
      · exact hbudget ws since
      · refine le_trans (World.issuedIn_map (w := w) rfl (fun job => ⟨?_, ?_⟩) ws since).le
          (hbudget ws since)
        · exact hmay.1.disciplined.writeRow _ _ _
        · exact hmay.1.writeRow_workspaceId _ _ _
    | commit rows edit => exact hmay.elim
    | create new =>
      exact World.issuedIn_create hindexed rfl hmay hcounted hbudget ws since
  · have hjobs := World.exec_jobs_eq_self he fun x hx => ho ⟨x, hx⟩
    unfold World.issuedIn
    rw [hjobs]
    exact hbudget ws since

/-! ### The invariant -/

/-- What is true of the notes of a thread. -/
structure GuessNotes.Sound (rows : List Job) (n : GuessNotes) : Prop where
  loaded : ∀ j b, n.task = some j → n.loaded = some b →
    ∃ row ∈ rows, row.jobId = j ∧ row.speculative = b
  ended : ∀ j, n.marked = some j → ∃ row ∈ rows, row.jobId = j ∧ row.state.Terminal
  once : n.issued.length ≤ 1
  first : n.issued ≠ [] → n.delivered = true ∧ n.loaded = some false

theorem GuessNotes.Sound.carried {rows rows' : List Job} {n : GuessNotes} (h : n.Sound rows)
    (hrows : JobTable.Carried rows rows') : n.Sound rows' := by
  refine ⟨fun j b htask hloaded => ?_, fun j hmarked => ?_, h.once, h.first⟩
  · obtain ⟨row, hrow, hid, hspeculative⟩ := h.loaded j b htask hloaded
    obtain ⟨row', hrow', hmoves⟩ := hrows row hrow
    exact ⟨row', hrow', hmoves.jobId.trans hid, hmoves.speculative.trans hspeculative⟩
  · obtain ⟨row, hrow, hid, hterminal⟩ := h.ended j hmarked
    obtain ⟨row', hrow', hmoves⟩ := hrows row hrow
    exact ⟨row', hrow', hmoves.jobId.trans hid, hmoves.follows.terminal hterminal⟩

/-- The notes of the thread that performs an operation. -/
theorem GuessNotes.Sound.observe {budget : ℕ} {n : GuessNotes} {o : Op} {a : Except Exn o.Ans}
    {c : Choice} {w w' : World} (h : n.Sound w.jobs.rows) (hmay : n.MayDo budget o)
    (hindexed : w.jobs.Indexed) (he : w.exec o c = some (a, w')) :
    (n.observe o a).Sound w'.jobs.rows := by
  obtain ⟨-, hcarried⟩ := hmay.keeps hindexed he
  have hafter := h.carried hcarried
  refine ⟨fun j b htask hloaded => ?_, fun j hmarked => ?_, ?_, fun hissued => ?_⟩
  · rw [observe_task] at htask
    rcases loaded_of_observe hmay he htask hloaded with hbefore | ⟨row, hrow, hid, hspeculative⟩
    · exact hafter.loaded j b htask hbefore
    · obtain ⟨row', hrow', hmoves⟩ := hcarried row hrow
      exact ⟨row', hrow', hmoves.jobId.trans hid, hmoves.speculative.trans hspeculative⟩
  · rcases marked_of_observe hmay hindexed he hmarked with hbefore | ⟨-, -, -, -, hrow'⟩
    · exact hafter.ended j hbefore
    · exact hrow'
  · rcases observe_issued (a := a) hmay with hsame | ⟨j, ws, hone, -⟩
    · rw [hsame]
      exact h.once
    · rw [hone]
      exact le_rfl
  · have hbefore : n.delivered = true ∧ n.loaded = some false := by
      rcases observe_issued (a := a) hmay with hsame | ⟨j, ws, -, hissue⟩
      · rw [hsame] at hissued
        exact h.first hissued
      · exact ⟨hissue.delivered, hissue.loaded⟩
    exact ⟨observe_delivered hbefore.1, observe_loaded hbefore.2⟩

/-- What holds along every run. -/
structure GuessInv (cfg : Settings) (s : (service cfg).State) : Prop where
  indexed : s.world.jobs.Indexed
  sound : ∀ t ∈ s.threads, ((guessMonitor cfg).note t).Sound s.world.jobs.rows
  exclusive : Exclusive (fun t => ((guessMonitor cfg).note t).marked) s.threads

theorem guessInv_act {s : (service cfg).State} {i : ℕ} {t : (service cfg).Thread} {o : Op}
    {k : Except Exn o.Ans → Program Outcome} {c : Choice} {a : Except Exn o.Ans} {w : World}
    (h : GuessInv cfg s) (ht : s.threads[i]? = some t)
    (hmay : ((guessMonitor cfg).note t).MayDo cfg.prefetchBudgetPerWorkspacePerDay o)
    (he : s.world.exec o c = some (a, w)) :
    GuessInv cfg ⟨w, s.threads.set i (t.advance o a k)⟩ := by
  obtain ⟨hindexed, hcarried⟩ := hmay.keeps h.indexed he
  have hsound := h.sound t (List.mem_of_getElem? ht)
  refine ⟨hindexed, fun u hu => ?_, h.exclusive.set ht fun j hj => ?_⟩
  · rcases List.mem_or_eq_of_mem_set hu with hu | rfl
    · exact (h.sound u hu).carried hcarried
    · rw [Monitor.note_advance]
      exact hsound.observe hmay h.indexed he
  · rw [Monitor.note_advance] at hj
    rcases GuessNotes.marked_of_observe hmay h.indexed he hj with
      hbefore | ⟨row, hrow, hid, hopen, -⟩
    · exact Or.inl hbefore
    · -- whoever had marked the job had ended it
      refine Or.inr fun u hu hmarked => ?_
      obtain ⟨row', hrow', hid', hterminal⟩ := (h.sound u hu).ended j hmarked
      obtain rfl := h.indexed.eq_of_jobId hrow hrow' (hid.trans hid'.symm)
      exact hopen hterminal

/-- A thread remembers the job it materializes. -/
theorem guess_task (t : (service cfg).Thread) :
    ((guessMonitor cfg).note t).task = t.origin.materializes := by
  obtain ⟨g, past, rest⟩ := t
  show ((guessMonitor cfg).after g past).task = g.materializes
  induction past with
  | nil => rfl
  | cons e past ih =>
    exact GuessNotes.observe_task.trans ih

theorem GuessInv.unchained {s : (service cfg).State} (h : GuessInv cfg s) : Unchained s := by
  have hmarked {j : JobId} {t : (service cfg).Thread} (ht : t ∈ s.threads)
      (hissued : (if t.origin.materializes = some j then issuedBy t else []) ≠ []) :
      ((guessMonitor cfg).note t).task = some j ∧
        ((guessMonitor cfg).note t).delivered = true ∧
        ((guessMonitor cfg).note t).loaded = some false := by
    split_ifs at hissued with hmaterializes
    · exact ⟨(guess_task t).trans hmaterializes, (h.sound t ht).first hissued⟩
    · exact absurd rfl hissued
  refine ⟨fun j => ?_, fun row hrow hspeculative => ?_⟩
  · refine h.exclusive.length_flatMap_le (k := j) (fun t ht => ?_) fun t ht hissued => ?_
    · split_ifs
      · exact (h.sound t ht).once
      · exact Nat.zero_le 1
    · obtain ⟨htask, hdelivered, -⟩ := hmarked ht hissued
      rw [GuessNotes.marked, if_pos hdelivered]
      exact htask
  · apply List.flatMap_eq_nil_iff.2
    intro t ht
    by_contra hissued
    obtain ⟨htask, -, hloaded⟩ := hmarked ht hissued
    obtain ⟨row', hrow', hid, huser⟩ := (h.sound t ht).loaded _ _ htask hloaded
    obtain rfl := h.indexed.eq_of_jobId hrow' hrow hid
    rw [hspeculative] at huser
    cases huser

theorem guessInv_of_reachable {s : (service cfg).State} (h : Reachable initial s) :
    GuessInv cfg s := by
  suffices hrun : (guessMonitor cfg).Conforms (guessProtocol cfg) (fun _ _ _ => True) s ∧
      GuessInv cfg s from hrun.2
  refine Reach.invariant program_issues ?_ ?_ h ⟨rfl, fun t ht => (by cases ht), Exclusive.nil⟩
    fun t ht => by cases ht
  · intro s i t o k c a w hinv ht hr hmay he _
    exact ⟨World.applied he, guessInv_act hinv ht hmay he⟩
  · intro s e w gs hinv he _
    have hjobs := EnvStep.exec_jobs he
    refine ⟨?_, fun u hu => ?_, hinv.exclusive.append fun u hu => ?_⟩
    · show w.jobs.Indexed
      rw [hjobs]
      exact hinv.indexed
    · show GuessNotes.Sound w.jobs.rows _
      rw [hjobs]
      rcases List.mem_append.1 hu with hu | hu
      · exact hinv.sound u hu
      · obtain ⟨g, -, rfl⟩ := List.mem_map.1 hu
        exact ⟨fun _ _ _ h => (by cases h), fun _ h => (by cases h), Nat.zero_le 1,
          fun h => absurd rfl h⟩
    · obtain ⟨g, -, rfl⟩ := List.mem_map.1 hu
      rfl

/-- The budget is kept if whoever issues a job has counted those of the last day. -/
theorem budget_of_reach {s : (service cfg).State} (h : Reach (EachOp BudgetCounted) initial s)
    (ws : WorkspaceId) (since : Time) :
    (s.world.issuedIn ws since).length ≤ cfg.prefetchBudgetPerWorkspacePerDay := by
  let Inv (s : (service cfg).State) : Prop := s.world.jobs.Indexed ∧ ∀ ws since,
    (s.world.issuedIn ws since).length ≤ cfg.prefetchBudgetPerWorkspacePerDay
  suffices hrun : (guessMonitor cfg).Conforms (guessProtocol cfg) (fun _ _ _ => True) s ∧ Inv s from
    hrun.2.2 ws since
  refine Reach.invariant program_issues ?_ ?_ h ⟨rfl, fun _ _ => Nat.zero_le _⟩
    fun t ht => by cases ht
  · rintro s i t o k c a w ⟨hindexed, hbudget⟩ ht hr hmay he hP
    have hguess : guessOf s i = (guessMonitor cfg).note t := by
      simp only [guessOf, ht]
    have hcounted : BudgetCounted s i o := hP o (nextOp_eq ht hr)
    exact ⟨World.applied he, (hmay.keeps hindexed he).1,
      World.budget_act hindexed hmay he (hguess ▸ hcounted) hbudget⟩
  · rintro s e w gs ⟨hindexed, hbudget⟩ he _
    have hjobs := EnvStep.exec_jobs he
    refine ⟨?_, fun ws since => ?_⟩
    · show w.jobs.Indexed
      rw [hjobs]
      exact hindexed
    · show (w.issuedIn ws since).length ≤ _
      unfold World.issuedIn
      rw [hjobs]
      exact hbudget ws since

/-- In every run prefetching does not chain, and in every run in which what was issued is counted it
keeps to its budget. -/
theorem prefetchBounded_of_reach {s : (service cfg).State} (h : Reachable initial s) :
    Unchained s ∧ (Reach (EachOp BudgetCounted) initial s → PrefetchBounded cfg s) := by
  have hunchained := (guessInv_of_reachable h).unchained
  exact ⟨hunchained, fun hcounted => ⟨hunchained, budget_of_reach hcounted⟩⟩

end runs

/-! ### Two results, and a budget of one prefetch -/

/-- One prefetch a day. -/
def Settings.onePrefetch : Settings :=
  { Settings.aprilWeeks with prefetchEnabled := true, prefetchBudgetPerWorkspacePerDay := 1 }

/-- The week before the predicted one. -/
def RetrievalRequest.forVariable (name : String) : RetrievalRequest :=
  { RetrievalRequest.plain with timeRange := "2024-04-01/2024-04-08", variableNames := [name] }

/-- A request for one variable, by thread `i`, and its delivery by the three threads after it, of
which the last has yet to prefetch. -/
def deliveredVariable (i task : ℕ) (name : String) : List (service .onePrefetch).Label :=
  call (.retrieveData 0 (.forVariable name) none) ::
    acts i ([.ok, .resolved "C1" none, .capabilities {},
      .planned { path := .opendap, variableNames := [name] }] ++ List.replicate 6 .ok) ++
  take (.fresh task) ::
    acts (i + 1) ([.ok, .capabilities {}, .submitted "a"] ++ List.replicate 4 .ok) ++
  take (.fresh (task + 1)) :: acts (i + 2) ([.ok, .capabilities {}] ++ List.replicate 4 .ok) ++
  take (.fresh (task + 2)) ::
    acts (i + 3) ([.ok, .capabilities {}, .fetched (resultNamed "out")] ++ List.replicate 6 .ok ++
      [.fault (.other "connection lost")])

/-- The gates that are passed before the window is planned. -/
def gatesPassed : List Choice := List.replicate 4 .ok

/-- The plan of the predicted week, and what remains of the prefetch. -/
def prefetched (name : String) : List Choice :=
  let spec : RequestSpec :=
    { conceptId := some "C1", shortName := none, outputFormat := "application/netcdf4"
      needsPointSample := false, aoiBbox := none
      timeRange := some "2024-04-08T00:00:00Z/2024-04-15T00:00:00Z", variableNames := [name]
      provider := .opendap, opendapUrls := [], workspaceId := some 0, jobHandle := none
      obsHandle := none }
  .window { spec := some spec, accessRestricted := some false } :: List.replicate 11 .ok

/-- Two results are delivered. -/
def twoDelivered : List (service .onePrefetch).Label :=
  tick (seconds 1800000000) :: deliveredVariable 0 0 "NO2" ++ deliveredVariable 4 3 "O3"

/-- The second materialization counts what the first has issued. -/
theorem prefetchBounded_inTurn : ∃ s : (service .onePrefetch).State,
    Reach (EachOp BudgetCounted) initial s ∧ (s.world.issuedIn 0 (seconds 1800000000)).length = 1 ∧
      (∀ t ∈ s.threads, t.result.isSome) ∧ PrefetchBounded .onePrefetch s := by
  obtain ⟨s, hs, hend⟩ := exists_reach (S := service .onePrefetch) (P := EachOp BudgetCounted)
    (s := initial)
    (p := fun s => (s.world.issuedIn 0 (seconds 1800000000)).length = 1 ∧
      ∀ t ∈ s.threads, t.result.isSome)
    (twoDelivered ++ acts 3 (gatesPassed ++ prefetched "NO2") ++ acts 7 [.ok, .ok, .ok, .ok])
    (by decide +kernel)
  obtain ⟨hissued, hended⟩ := of_decide_eq_true hend
  have hreachable : Reachable initial s := hs.mono fun _ _ _ _ => trivial
  exact ⟨s, hs, hissued, hended, (prefetchBounded_of_reach hreachable).2 hs⟩

/-- Both have counted before either issues. -/
theorem not_prefetchBounded : ¬ ∀ (cfg : Settings) (s : (service cfg).State),
    Reachable initial s → PrefetchBounded cfg s := by
  intro h
  obtain ⟨s, hs, hend⟩ := exists_reach (S := service .onePrefetch) (P := fun _ _ _ => True)
    (s := initial) (p := fun s => (s.world.issuedIn 0 (seconds 1800000000)).length = 2)
    (twoDelivered ++ acts 3 gatesPassed ++ acts 7 (gatesPassed ++ prefetched "O3") ++
      acts 3 (prefetched "NO2"))
    (by decide +kernel)
  have hissued : (s.world.issuedIn 0 (seconds 1800000000)).length = 2 := of_decide_eq_true hend
  have hle := (h .onePrefetch s hs).budget 0 (seconds 1800000000)
  rw [hissued] at hle
  exact absurd hle (by decide)

end EarthdataMcp
