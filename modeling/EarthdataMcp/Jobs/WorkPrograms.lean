import EarthdataMcp.Jobs.EvictionRules
import EarthdataMcp.Jobs.HandleWork

/-!
# Every program completes what it has begun

The programs of the service, walked through once: what each may begin on a handle, in which
order, and that a program that ends without an exception has left no handle pending without its
job.

* the sweep, the prefetch, the materialization, the replay and the retrieval tools;
* `program_work`, for every program.
-/

namespace EarthdataMcp

open Concurrency Concurrency.Prog

section programs

variable {cfg : Settings} {α : Type} {n : HandleNotes}

/-! ### Programs that begin nothing -/

theorem TaskOp.ordinary {j : JobId} {o : Op} (h : TaskOp j o) : o.Ordinary := by
  cases h with
  | fail error => exact .transact _ (failed_ordinary _)
  | _ => exact .still trivial

theorem SubmitOp.ordinary {j : JobId} {o : Op} (h : SubmitOp j o) : o.Ordinary := by
  cases h with
  | load wanted => exact .transact _ (failInvalidSpec_ordinary wanted)
  | task h => exact h.ordinary
  | submit spec token => exact .still trivial
  | failed h =>
    cases h with
    | task h => exact h.ordinary
    | reroute _ => exact .transact _ rerouteToOpendap_ordinary
    | enqueue => exact .still trivial
  | succeeded h =>
    cases h with
    | submitted => exact .transact _ (submitted_ordinary _)
    | _ => exact .still trivial

theorem PollOp.ordinary {j : JobId} {o : Op} (h : PollOp j o) : o.Ordinary := by
  cases h with
  | load wanted => exact .transact _ (failInvalidSpec_ordinary wanted)
  | task h => exact h.ordinary
  | apply status => exact .transact _ (applyStatus_ordinary status)
  | _ => exact .still trivial

theorem ResumeOp.ordinary {o : Op} (h : ResumeOp o) : o.Ordinary := by
  cases h with
  | triage q staleBefore => exact .transact _ (triage_ordinary staleBefore)
  | _ => exact .still trivial

theorem CancelOp.ordinary {o : Op} (h : CancelOp o) : o.Ordinary := by
  cases h with
  | cancelRow h => exact .transact _ cancelRow_ordinary
  | _ => exact .still trivial

theorem CubeOp.still {cube : CubeResult} {o : Op} (h : CubeOp cfg cube o) : o.Still := by
  cases h with
  | mint ws => exact fun h => by cases h
  | _ => trivial

theorem ReadingOp.still {o : Op} (h : ReadingOp o) : o.Still := by
  cases h <;> trivial

theorem recordEventSafe_still (ws : Option WorkspaceId) (h : Option HandleId)
    (type : ProvenanceEventType) : (recordEventSafe ws h type).Only Op.Still :=
  recordEventSafe_only (fun _ => trivial) ws h type

/-- A step that begins and completes nothing. -/
theorem obeys_stillStep {o : Op} (ho : o.Still) :
    (perform o).Obeys (workProtocol cfg) n fun _ n' => n.Le n' ∧ n'.work = n.work :=
  obeys_still (only_perform.2 ho)

theorem HandleNotes.NotFilling.of_work {n n' : HandleNotes} (hn : n.NotFilling)
    (hwork : n'.work = n.work) :
    n'.NotFilling := fun h hfill => hn h (hwork ▸ hfill)

theorem HandleNotes.NotFilling.of_none {n : HandleNotes} (hn : n.work = none) : n.NotFilling := by
  intro h hfill
  rw [hn] at hfill
  cases hfill

/-! ### The sweep -/

theorem SweepOp.Quiet.still {o : Op} (ho : SweepOp.Quiet o) : o.Still := by
  cases ho <;> trivial

theorem evictOne_work (c : Candidate) (hn : n.work = none) :
    (evictOne c).Obeys (workProtocol cfg) n fun r n' =>
      n'.NotFilling ∧ (r = .ok () → n'.work = none) := by
  have herror {e : Exn} {n' : HandleNotes} (hn' : n'.NotFilling) :
      n'.NotFilling ∧ ((.error e : Except Exn Unit) = .ok () → n'.work = none) :=
    ⟨hn', fun h => by cases h⟩
  unfold evictOne
  rw [obeys_bind]
  refine obeys_step trivial fun a _ => ?_
  cases a with
  | error e => exact herror (.of_none hn)
  | ok u =>
    rw [afterBind_ok, obeys_bind]
    refine obeys_step ?_ fun a _ => ?_
    · rintro _ ⟨⟩
      exact ⟨hn, fun h => (by cases h), fun h => (by cases h)⟩
    cases a with
    | error e => exact herror (.of_none hn)
    | ok row =>
      rw [afterBind_ok, obeys_bind]
      refine obeys_step trivial fun a _ => ?_
      cases a with
      | error e => exact herror fun h hfill => by cases hfill
      | ok u =>
        rw [afterBind_ok, obeys_bind]
        refine obeys_step (Or.inr (Or.inr ⟨c.handle, rfl, rfl, rfl⟩)) fun a _ => ?_
        cases a with
        | error e => exact herror fun h hfill => by cases hfill
        | ok rows => exact ⟨fun h hfill => (by cases hfill), fun _ => rfl⟩

theorem work_sweepRules :
    SweepRules (workProtocol cfg) (fun n => n.work = none) (fun _ n => n.work = none)
      (fun _ n => n.work = none) HandleNotes.NotFilling where
  ended_of_inv _ hn := .of_none hn
  inv_of_fresh _ _ hn := hn
  inv_of_left _ _ hn := hn
  quiet n o _ ho := ho.still.mayDo n
  quiet_inv n o a n' hn ho hnext := by
    obtain ⟨-, rfl⟩ := hnext
    exact (ho.still.work n a).trans hn
  quiet_fresh rows n o a n' hn ho hnext := by
    obtain ⟨-, rfl⟩ := hnext
    exact (ho.still.work n a).trans hn
  select _ _ := trivial
  select_ok n rows n' hn hnext := by
    obtain ⟨-, rfl⟩ := hnext
    exact hn
  select_error n e n' hn hnext := by
    obtain ⟨-, rfl⟩ := hnext
    exact hn
  orphan rows n key hn _ := obeys_step trivial fun a _ => by cases a <;> exact hn
  start _ _ _ _ hn _ _ _ := hn
  perm _ _ _ hn _ := hn
  evict c _ n hn := evictOne_work c hn

theorem sweep_work (svc : EvictionService) (h : Option HandleId) (hn : n.work = none) :
    (svc.sweep h).Obeys (workProtocol cfg) n fun _ n' => n'.NotFilling :=
  sweep_obeys work_sweepRules svc h hn

/-! ### The prefetch -/

/-- The unique insert: the row that was inserted is fresh, the row that was found is shown. -/
structure Inserted (n : HandleNotes) (row : Handle) (created : Bool) : Prop where
  known : row.handle ∈ n.known
  obs : row.handle.type = .obs
  expired : row.payload.status = some .expired → row.handle ∈ n.expired
  looked : created = true → n.looked = some (row.handle, none)

theorem putHandleUniqueSignature_work (ws : WorkspaceId) (signature : String) (payload : Payload)
    (hpending : payload.status = some .pending) :
    (putHandleUniqueSignature ws .obs signature payload).Obeys (workProtocol cfg) n fun r n' =>
      n'.work = n.work ∧ ∀ row created, r = .ok (row, created) → Inserted n' row created := by
  unfold putHandleUniqueSignature
  rw [obeys_bind]
  refine obeys_step (fun _ => hpending) fun a hshows => ?_
  match a, hshows with
  | .error e, _ => exact ⟨rfl, fun _ _ h => by cases h⟩
  | .ok (some row), hshows =>
    refine ⟨rfl, ?_⟩
    rintro row' created ⟨⟩
    exact ⟨List.mem_cons_self, hshows.names, HandleNotes.shown_expired, fun _ => rfl⟩
  | .ok none, _ =>
    rw [afterBind_ok, obeys_bind]
    refine obeys_step trivial fun a hshows => ?_
    match a, hshows with
    | .error e, _ => exact ⟨rfl, fun _ _ h => by cases h⟩
    | .ok none, _ => exact ⟨rfl, fun _ _ h => by cases h⟩
    | .ok (some row), hshows =>
      refine ⟨rfl, ?_⟩
      rintro row' created ⟨⟩
      exact ⟨List.mem_cons_self, hshows.names, HandleNotes.shown_expired, fun h => by cases h⟩

/-- What lies between the insert and the job is still, and does not look up another handle. -/
theorem originDatasetHandle_work {h : HandleId} {latest : Option Job} (ws : WorkspaceId)
    (origin : Option HandleId) (hknown : h ∈ n.known) (hlooked : n.looked = some (h, latest)) :
    (originDatasetHandle ws origin).Obeys (workProtocol cfg) n fun _ n' =>
      n'.work = n.work ∧ h ∈ n'.known ∧ n'.looked = some (h, latest) := by
  unfold originDatasetHandle
  split
  · exact ⟨rfl, hknown, hlooked⟩
  rw [obeys_bind, obeys_attempt]
  refine obeys_step trivial fun a _ => ?_
  rw [afterBind_ok]
  match a with
  | .ok row => exact ⟨rfl, List.mem_cons_of_mem _ hknown, hlooked⟩
  | .error e => split <;> exact ⟨rfl, hknown, hlooked⟩

/-- The fields of a stored specification that name its handle. -/
theorem toJsonb_for {spec : RequestSpec} {h : Option HandleId} (hspec : spec.obsHandle = h) :
    spec.toJsonb.For h := by
  intro loaded hloaded
  rw [fromJsonb_toJsonb] at hloaded
  obtain rfl := Except.ok.inj hloaded
  exact hspec

/-- A job is created for the handle, which completes what was to be filled. -/
theorem createJob_work {h : HandleId} {new : NewJob} {post : Except Exn JobId → HandleNotes → Prop}
    (hobs : new.obsHandle = some h) (hfor : new.requestSpec.For (some h)) (hlooks : n.LooksUp h)
    (hwork : ∀ h', n.work = some (.fill h') → h' = h)
    (hpost : ∀ j n', n.Le n' → n'.NotFilling → post (.ok j) n')
    (herror : ∀ e, post (.error e) n) :
    (perform (.jobs (.create new))).Obeys (workProtocol cfg) n post := by
  refine obeys_step ⟨h, hobs, hfor, hlooks⟩ fun a _ => ?_
  cases a with
  | error e => exact herror e
  | ok j =>
    refine hpost j _ (n.le_observe _ _) fun h' hfill => ?_
    change HandleNotes.filled new n.work = some (.fill h') at hfill
    unfold HandleNotes.filled at hfill
    split at hfill
    · rename_i h'' hwork'
      obtain rfl := hwork h'' hwork'
      rw [if_pos hobs] at hfill
      cases hfill
    · rename_i hne
      exact hne h' hfill

theorem enqueuePrefetch_work (predicted : RequestSpec) (signature : String)
    (origin : Option HandleId) (ws : WorkspaceId) (credential : Option Credential)
    (hn : n.NotFilling) :
    (enqueuePrefetch predicted signature origin ws credential).Obeys (workProtocol cfg) n
      fun _ n' => n'.NotFilling := by
  unfold enqueuePrefetch
  rw [obeys_bind]
  refine (putHandleUniqueSignature_work ws signature _ rfl).mono ?_
  rintro (e | ⟨obs, created⟩) n₁ ⟨hwork₁, hinserted⟩
  · exact hn.of_work hwork₁
  have hn₁ : n₁.NotFilling := hn.of_work hwork₁
  rw [afterBind_ok]
  dsimp only
  split_ifs with hcreated
  swap
  · exact hn₁
  have hins := hinserted obs created rfl
  rw [obeys_bind]
  refine (originDatasetHandle_work ws origin hins.known (hins.looked hcreated)).mono ?_
  rintro (e | dataset) n₂ ⟨hwork₂, hknown, hlooked⟩
  · exact hn₁.of_work hwork₂
  have hn₂ : n₂.NotFilling := hn₁.of_work hwork₂
  rw [afterBind_ok, obeys_bind]
  refine obeys_step (fun h => by cases h) fun a _ => ?_
  cases a with
  | error e => exact hn₂
  | ok jobHandle =>
    rw [afterBind_ok, obeys_bind]
    refine createJob_work (h := obs.handle) rfl (toJsonb_for rfl)
      ⟨List.mem_cons_of_mem _ hknown, hins.obs, none, hlooked, Or.inr fun _ h => by cases h⟩
      (fun h' hfill => absurd hfill (hn₂ h')) (fun j n₃ _ hn₃ => ?_) fun e => hn₂
    rw [afterBind_ok]
    have hrest : (do
        recordEdgeFrom ws obs.handle dataset
        perform (.provenance (.event ws obs.handle .prefetched))
        perform (.queue (.enqueueJob .submitJob j none 0))
        pure (PrefetchDecision.issued j obs.handle) : Program PrefetchDecision).Only Op.Still := by
      refine Only.bind ?_ fun _ => (only_perform.2 trivial).bind fun _ =>
        only_map (only_perform.2 trivial)
      unfold recordEdgeFrom
      split
      · trivial
      · exact only_perform.2 trivial
    exact (obeys_still hrest).mono fun _ n₄ h => HandleNotes.NotFilling.of_work hn₃ h.2

/-- The gates of the prefetch before anything is minted. -/
inductive GateOp : Op → Prop
  | now : GateOp .now
  | read (q) : GateOp (.jobs (.read q))
  | select : GateOp (.handles .selectEvictable)
  | find (ws s) : GateOp (.handles (.findBySignature ws s))
  | planning (o) : GateOp (.planning o)
  | restriction (c) : GateOp (.access (.collectionRestriction c))

theorem GateOp.still {o : Op} (h : GateOp o) : o.Still := by
  cases h <;> trivial

theorem gate_work {α : Type} {o : Op} (ho : GateOp o) (hn : n.NotFilling)
    {f : o.Ans → Program α}
    (hf : ∀ a n', n'.NotFilling → (f a).Obeys (workProtocol cfg) n' fun _ n'' => n''.NotFilling) :
    (perform o >>= f).Obeys (workProtocol cfg) n fun _ n' => n'.NotFilling := by
  rw [obeys_bind]
  refine (obeys_stillStep ho.still).mono ?_
  rintro (e | a) n' ⟨-, hwork⟩
  · exact HandleNotes.NotFilling.of_work hn hwork
  · exact hf a n' (HandleNotes.NotFilling.of_work hn hwork)

theorem prefetchWindow_work (spec predicted : RequestSpec) (ws : WorkspaceId) (conceptId : String)
    (credential : Option Credential) (hn : n.NotFilling) :
    (prefetchWindow cfg spec predicted ws conceptId credential).Obeys (workProtocol cfg) n
      fun _ n' => n'.NotFilling := by
  unfold prefetchWindow
  refine gate_work (.planning _) hn fun plan n₁ hn₁ => ?_
  split
  · exact hn₁
  have hflag : (windowRestriction plan conceptId).Only Op.Still := by
    unfold windowRestriction
    split_ifs
    · trivial
    · exact only_map (only_perform.2 trivial)
  rw [obeys_bind]
  refine (obeys_still hflag).mono ?_
  rintro (e | flagged) n₂ ⟨-, hwork₂⟩
  · exact HandleNotes.NotFilling.of_work hn₁ hwork₂
  have hn₂ : n₂.NotFilling := HandleNotes.NotFilling.of_work hn₁ hwork₂
  rw [afterBind_ok]
  split_ifs
  · exact hn₂
  refine gate_work .now hn₂ fun now n₃ hn₃ => ?_
  split
  · exact hn₃
  refine gate_work (.find _ _) hn₃ fun row n₄ hn₄ => ?_
  split
  · exact hn₄
  · exact enqueuePrefetch_work _ _ _ _ _ hn₄

theorem maybePrefetch_work (spec : RequestSpec) (speculative : Bool) (size : Option ℕ)
    (credential : Option Credential) (hn : n.NotFilling) :
    (maybePrefetch cfg spec speculative size credential).Obeys (workProtocol cfg) n
      fun _ n' => n'.NotFilling := by
  unfold maybePrefetch
  by_cases henabled : ¬ cfg.prefetchEnabled
  · rw [if_pos henabled]; exact hn
  rw [if_neg henabled]
  by_cases hspec : speculative
  · rw [if_pos hspec]; exact hn
  rw [if_neg hspec]
  split
  swap
  · exact hn
  refine gate_work (.read _) hn fun busy n₁ hn₁ => ?_
  by_cases hbusy : busy ≠ []
  · rw [if_pos hbusy]; exact hn₁
  rw [if_neg hbusy]
  split
  · exact hn₁
  split
  · exact hn₁
  refine gate_work .now hn₁ fun now n₂ hn₂ => gate_work (.read _) hn₂ fun issued n₃ hn₃ => ?_
  by_cases hbudget : cfg.prefetchBudgetPerWorkspacePerDay ≤ issued.length
  · rw [if_pos hbudget]; exact hn₃
  rw [if_neg hbudget]
  refine gate_work .select hn₃ fun rows n₄ hn₄ => ?_
  split
  · exact hn₄
  split
  · exact hn₄
  exact prefetchWindow_work _ _ _ _ _ hn₄

/-! ### The materialization -/

theorem swallow_work {p : Program Unit}
    (hp : p.Obeys (workProtocol cfg) n fun _ n' => n'.NotFilling) :
    (swallow p).Obeys (workProtocol cfg) n fun _ n' => n'.NotFilling := by
  unfold swallow
  rw [obeys_bind, obeys_attempt]
  refine hp.mono fun r n' hn' => ?_
  rw [afterBind_ok]
  cases r with
  | ok _ => exact hn'
  | error e =>
    dsimp only
    split_ifs <;> exact hn'

/-- A program of which only the operations are known, before one that goes on. -/
theorem ordinary_bind {β : Type} {p : Program α} {f : α → Program β}
    {post : Except Exn β → HandleNotes → Prop} (hp : p.Only Op.Ordinary) (hn : n.work = none)
    (hf : ∀ a n', n.Le n' → n'.work = none → (f a).Obeys (workProtocol cfg) n' post)
    (herror : ∀ e n', n'.work = none → post (.error e) n') :
    (p >>= f).Obeys (workProtocol cfg) n post := by
  rw [obeys_bind]
  refine (obeys_ordinary hp hn).mono ?_
  rintro (e | a) n' ⟨hle, hn'⟩
  · exact herror e n' hn'
  · exact hf a n' hle hn'

/-- The handle of the thread's own job is marked ready. -/
theorem resolveHandle_work {spec : RequestSpec} {key : Key} {out : Fetched} {j : JobId}
    (hn : n.work = none) (htask : n.TaskFor j spec.obsHandle) :
    (resolveHandle cfg spec key out).Obeys (workProtocol cfg) n fun r n' =>
      n.Le n' ∧ n'.NotFilling ∧
        (r = .ok () → n'.work = spec.obsHandle.map HandleWork.deliver) := by
  unfold resolveHandle
  split
  · rename_i hnone
    exact ⟨.refl n, .of_none hn, fun _ => by rw [hn, hnone]; rfl⟩
  rename_i h hobs
  rw [obeys_bind]
  refine obeys_step ?_ fun a _ => ?_
  · rintro _ ⟨⟩
    exact ⟨hn, fun _ => ⟨j, hobs ▸ htask⟩, fun h => (by cases h)⟩
  cases a with
  | error e => exact ⟨.refl n, .of_none hn, fun h => (by cases h)⟩
  | ok row =>
    exact ⟨n.le_observe _ _, fun h' hfill => (by cases hfill), fun _ => by rw [hobs]; rfl⟩

/-- The job is marked ready after its handle. -/
theorem transitionReady_work {j : JobId} {h : Option HandleId} {extra : Extra}
    (hwork : n.work = h.map HandleWork.deliver) (htask : n.TaskFor j h) :
    (transitionState j .ready extra).Obeys (workProtocol cfg) n fun r n' =>
      n'.NotFilling ∧ (r = .ok () → n'.work = none) := by
  have hdelivers : n.Delivers (.getJob j) (enterState .ready extra) := by
    refine ⟨j, extra, rfl, rfl, ?_⟩
    cases h with
    | none => exact Or.inl ⟨hwork, htask⟩
    | some h => exact Or.inr ⟨h, hwork, htask⟩
  have hnot : n.NotFilling := by
    intro h' hfill
    rw [hwork] at hfill
    cases h <;> cases hfill
  unfold transitionState
  rw [obeys_bind]
  refine obeys_step (Or.inr (Or.inl hdelivers)) fun a _ => ?_
  cases a with
  | error e => exact ⟨hnot, fun h => by cases h⟩
  | ok rows =>
    have hdone : HandleNotes.completed n.work = none := by
      rw [hwork]
      cases h <;> rfl
    rw [afterBind_ok]
    split
    · exact ⟨.of_none hdone, fun h => by cases h⟩
    · exact ⟨.of_none hdone, fun _ => hdone⟩

theorem materializeDelivered_work {j : JobId} {spec : RequestSpec} {job : Job} {key : Key}
    {out : Fetched} (hn : n.work = none) (htask : n.TaskFor j spec.obsHandle) :
    (materializeDelivered cfg j spec job key out).Obeys (workProtocol cfg) n
      fun _ n' => n'.NotFilling := by
  have hdrift : (logMaterializationDrift j spec).Only Op.Ordinary := by
    unfold logMaterializationDrift
    split
    · trivial
    · exact only_swallow (only_map (only_perform.2 (.still trivial)))
  unfold materializeDelivered
  refine ordinary_bind hdrift hn (fun _ n₁ hle₁ hn₁ => ?_) fun _ _ h => .of_none h
  rw [obeys_bind]
  refine (resolveHandle_work hn₁ (htask.mono hle₁)).mono ?_
  rintro (e | ⟨⟩) n₂ ⟨hle₂, hn₂, hdeliver⟩
  · exact hn₂
  rw [afterBind_ok, obeys_bind]
  refine (obeys_still (recordEventSafe_still _ _ _)).mono ?_
  rintro (e | ⟨⟩) n₃ ⟨hle₃, hwork₃⟩
  · exact hn₂.of_work hwork₃
  rw [afterBind_ok, obeys_bind]
  refine (transitionReady_work (hwork₃.trans (hdeliver rfl))
    (htask.mono ((hle₁.trans hle₂).trans hle₃))).mono ?_
  rintro (e | ⟨⟩) n₄ ⟨hn₄, hdone⟩
  · exact hn₄
  rw [afterBind_ok]
  unfold afterReady
  rw [obeys_bind]
  refine (swallow_work (sweep_work _ _ (hdone rfl))).mono ?_
  rintro (e | ⟨⟩) n₅ hn₅
  · exact hn₅
  rw [afterBind_ok]
  refine swallow_work ?_
  rw [obeys_bind]
  refine (maybePrefetch_work _ _ _ _ hn₅).mono ?_
  rintro (e | decision) n₆ hn₆ <;> exact hn₆

theorem materializeJob_work {j : JobId} (htask : n.task = some j) (hn : n.work = none) :
    (materializeJob cfg j).Obeys (workProtocol cfg) n fun _ n' => n'.NotFilling := by
  unfold materializeJob
  rw [obeys_bind]
  have hordinary : (Op.jobs (.transact (.getJob j) (failInvalidSpec fun s =>
    decide (s = JobState.materializing)))).Ordinary := .transact _ (failInvalidSpec_ordinary _)
  refine obeys_step (hordinary.mayDo hn) fun a hshows => ?_
  have hobserve := hordinary.work hn a
  have hle := n.le_observe (.jobs (.transact (.getJob j) (failInvalidSpec fun s =>
    decide (s = JobState.materializing)))) a
  cases a with
  | error e => exact .of_none hobserve
  | ok rows =>
    rw [afterBind_ok]
    unfold withRow
    split
    · exact .of_none hobserve
    rename_i job rows
    split_ifs
    swap
    · exact .of_none hobserve
    split
    · exact .of_none hobserve
    rename_i spec hspec
    -- the row is the one of the task, and its specification names its handle
    have hgood := hshows.good job List.mem_cons_self
    have hid : job.jobId = j := hshows.told _ rfl job List.mem_cons_self
    have htask' : (n.observe (.jobs (.transact (.getJob j) (failInvalidSpec fun s =>
        decide (s = JobState.materializing)))) (.ok (job :: rows))).TaskFor j spec.obsHandle :=
      ⟨htask, job, List.mem_append_left _ List.mem_cons_self, hid,
        (hgood.specFor spec hspec).symm⟩
    refine Obeys.mono ?_ fun _ _ h => h
    show (materializeRow cfg j spec job).Obeys _ _ _
    have htaskOnly {α : Type} {p : Program α} (hp : p.Only (TaskOp j)) : p.Only Op.Ordinary :=
      hp.mono fun _ => TaskOp.ordinary
    unfold materializeRow
    refine ordinary_bind (htaskOnly (loadJobIdentity_only _ _ _ _)) hobserve
      (fun identity n₁ hle₁ hn₁ => ?_) fun _ _ h => .of_none h
    refine ordinary_bind (htaskOnly (loadProvider_only _ _)) hn₁ (fun _ n₂ hle₂ hn₂ => ?_)
      fun _ _ h => .of_none h
    have hput : (providerMaterialize j spec job.providerJobUrl identity).attempt.Only
        Op.Ordinary :=
      Only.attempt ((only_perform.2 (.still trivial)).bind fun _ =>
        only_map (only_perform.2 (.still trivial)))
    refine ordinary_bind hput hn₂ (fun r n₃ hle₃ hn₃ => ?_) fun _ _ h => .of_none h
    match r with
    | .error e =>
      exact (obeys_ordinary (htaskOnly (materializeFailed_only _ _ _ _)) hn₃).mono
        fun _ _ h => .of_none h.2
    | .ok (key, out) =>
      exact materializeDelivered_work hn₃ (htask'.mono ((hle₁.trans hle₂).trans hle₃))

/-! ### The retrieval tools -/

theorem HandleNotes.LooksUp.mono {n n' : HandleNotes} {h : HandleId} (hlooks : n.LooksUp h)
    (hle : n.Le n') (hlooked : n'.looked = n.looked) : n'.LooksUp h := by
  obtain ⟨hknown, hobs, latest, heq, hdead⟩ := hlooks
  exact ⟨hle.known hknown, hobs, latest, hlooked.trans heq, hdead.imp (fun h => hle.expired h) id⟩

/-- Only looking up and minting change what was looked up. -/
theorem HandleNotes.looked_observe {o : Op} (ho : (∀ h, o ≠ .jobs (.read (.getJobByObsHandle h))) ∧
    (∀ ws p, o ≠ .handles (.putHandle ws .obs p)) ∧ ∀ ws type p, o ≠ .handles (.insertUnique ws type p))
    (a : Except Exn o.Ans) : (n.observe o a).looked = n.looked := by
  unfold HandleNotes.observe
  split
  case h_3 ws type p row => exact absurd rfl (ho.2.2 ws type p)
  case h_4 ws type p h =>
    dsimp only
    rw [if_neg]
    rintro rfl
    exact ho.2.1 ws p rfl
  case h_6 h rows => exact absurd rfl (ho.1 h)
  all_goals rfl

/-- A replay marks the handle pending and creates its job. -/
theorem reenqueueReplay_work {ws : WorkspaceId} {h : HandleId} {job : Job}
    {identity : Option Token} (hn : n.work = none) (hlooks : n.LooksUp h)
    (hfor : job.requestSpec.For (some h)) :
    (reenqueueReplay cfg ws h job identity).Obeys (workProtocol cfg) n fun r n' =>
      ∀ answer, r = .ok answer → n'.NotFilling ∧ n.Le n' := by
  unfold reenqueueReplay
  rw [obeys_bind]
  refine obeys_step (fun h => by cases h) fun a _ => ?_
  have hle₁ := n.le_observe (.handles (.putHandle ws .job { obsHandle := some h })) a
  have hlooked₁ := HandleNotes.looked_observe (n := n)
    (o := .handles (.putHandle ws .job { obsHandle := some h })) (by simp) a
  cases a with
  | error e => exact fun _ hr => by cases hr
  | ok jobHandle =>
    have hlooks₁ := hlooks.mono hle₁ hlooked₁
    rw [afterBind_ok, obeys_bind]
    refine obeys_step ?_ fun a _ => ?_
    · rintro _ ⟨⟩
      exact ⟨hn, fun h => (by cases h), fun _ => hlooks₁⟩
    cases a with
    | error e => exact fun _ hr => by cases hr
    | ok row =>
      rw [afterBind_ok, obeys_bind]
      refine createJob_work (h := h) rfl hfor (hlooks₁.mono (HandleNotes.le_observe _ _ _) rfl) ?_
        (fun j n₃ hle₃ hn₃ => ?_) fun e _ hr => by cases hr
      · intro h' hfill
        injection hfill with hfill
        injection hfill with hfill
        exact hfill.symm
      · rw [afterBind_ok]
        have hrest : (do
            perform (.provenance (.event ws h .reMaterialized))
            perform (.queue (.enqueueJob .submitJob j none 0))
            pure { jobHandle := some jobHandle, obsHandle := h, status := some .pending
                   provider := some job.provider } : Program RetrievalAnswer).Only Op.Still :=
          (only_perform.2 trivial).bind fun _ => only_map (only_perform.2 trivial)
        exact (obeys_still hrest).mono fun _ _ hstill _ _ =>
          ⟨HandleNotes.NotFilling.of_work hn₃ hstill.2,
          hle₁.trans ((HandleNotes.le_observe _ _ _).trans (hle₃.trans hstill.1))⟩

/-- A row that was shown to the thread. -/
structure HandleNotes.Shown (n : HandleNotes) (row : Handle) : Prop where
  known : row.handle ∈ n.known
  obs : row.handle.type = .obs
  expired : row.payload.status = some .expired → row.handle ∈ n.expired

theorem HandleNotes.Shown.mono {n n' : HandleNotes} {row : Handle} (h : n.Shown row)
    (hle : n.Le n') : n'.Shown row :=
  ⟨hle.known h.known, h.obs, fun hexpired => hle.expired (h.expired hexpired)⟩

/-- The latest job of the handle was looked up, and there was none, or it was dead. -/
def HandleNotes.Unusable (n : HandleNotes) (h : HandleId) : Prop :=
  ∃ latest, n.looked = some (h, latest) ∧ ∀ job ∈ latest, job.Dead

/-- What a lookup of a match leaves: nothing to fill, and where it answers nothing, a match that
is unusable. -/
def MatchAnswered (n : HandleNotes) (row : Handle) (r : Except Exn (Option RetrievalAnswer))
    (n' : HandleNotes) : Prop :=
  ∀ answer, r = .ok answer → n'.NotFilling ∧ n.Le n' ∧
    (answer = none → n'.work = none ∧ n'.Unusable row.handle)

theorem reuseAnswer_work {ws : WorkspaceId} {row : Handle} {answer : RetrievalAnswer}
    {m : HandleNotes} (hn : n.NotFilling) (hle : m.Le n) :
    (reuseAnswer ws row answer).Obeys (workProtocol cfg) n (MatchAnswered m row) := by
  unfold reuseAnswer
  rw [obeys_bind]
  refine (obeys_stillStep (o := .provenance _) trivial).mono ?_
  rintro (e | ⟨⟩) n' ⟨hle', hwork⟩
  · exact fun _ hr => by cases hr
  · rintro _ ⟨⟩
    exact ⟨HandleNotes.NotFilling.of_work hn hwork, hle.trans hle', fun h => by cases h⟩

theorem promoteIfSpeculative_still (ws : WorkspaceId) (row : Handle) :
    (promoteIfSpeculative ws row).Only Op.Still := by
  unfold promoteIfSpeculative
  split_ifs
  · have hupdate : (perform (.handles (.updateHandle ws row.handle
        { speculative := some false }))).Only Op.Still := only_perform.2 rfl
    exact hupdate.bind fun _ => only_perform.2 (by trivial)
  · trivial

/-- A match is looked up: an expired one is replayed. -/
theorem reuseResponseForMatch_work {ws : WorkspaceId} {row : Handle} {identity : Option Token}
    (hn : n.work = none) (hshown : n.Shown row) :
    (reuseResponseForMatch cfg ws row identity).Obeys (workProtocol cfg) n
      (MatchAnswered n row) := by
  unfold reuseResponseForMatch
  rw [obeys_bind]
  refine (obeys_still (promoteIfSpeculative_still ws row)).mono ?_
  rintro (e | ⟨⟩) n₁ ⟨hle₁, hwork₁⟩
  · exact fun _ hr => by cases hr
  have hn₁ : n₁.work = none := hwork₁.trans hn
  rw [afterBind_ok, obeys_bind]
  refine obeys_step trivial fun a hshows => ?_
  cases a with
  | error e => exact fun _ hr => by cases hr
  | ok jobs =>
    have hle₂ := hle₁.trans (n₁.le_observe (.jobs (.read (.getJobByObsHandle row.handle))) (.ok jobs))
    have hn₂ : (n₁.observe (.jobs (.read (.getJobByObsHandle row.handle))) (.ok jobs)).work = none :=
      hn₁
    have hlooked₂ : (n₁.observe (.jobs (.read (.getJobByObsHandle row.handle))) (.ok jobs)).looked =
        some (row.handle, jobs.head?) := rfl
    rw [afterBind_ok]
    have hdead (hjobs : ∀ job ∈ jobs.head?, job.Dead) : MatchAnswered n row (.ok none)
        (n₁.observe (.jobs (.read (.getJobByObsHandle row.handle))) (.ok jobs)) :=
      fun _ _ => ⟨.of_none hn₂, hle₂, fun _ => ⟨hn₂, _, hlooked₂, hjobs⟩⟩
    split
    · rename_i _ hjobs
      exact hdead (hjobs ▸ fun _ h => by cases h)
    · rename_i _ job hstatus hjobs
      have hmem : job ∈ jobs := List.mem_of_head? hjobs
      have hfor : job.requestSpec.For (some row.handle) := by
        have hspec := (hshows.good job hmem).specFor
        unfold Job.SpecFor at hspec
        rwa [show job.obsHandle = some row.handle from hshows.told _ rfl job hmem] at hspec
      have hshown₂ := hshown.mono hle₂
      rw [obeys_bind]
      refine (reenqueueReplay_work hn₂ ⟨hshown₂.known, hshown₂.obs, _, hlooked₂,
        Or.inl (hshown₂.expired hstatus)⟩ hfor).mono ?_
      rintro (e | answer) n₃ hn₃
      · exact fun _ hr => by cases hr
      · obtain ⟨hn₃, hle₃⟩ := hn₃ answer rfl
        exact reuseAnswer_work hn₃ (hle₂.trans hle₃)
    · exact reuseAnswer_work (.of_none hn₂) hle₂
    · rename_i hjobs _ _
      exact hdead (hjobs ▸ fun _ h => by cases h)
    · rename_i job hjobs _ _
      split_ifs with hjob
      · refine hdead (hjobs ▸ ?_)
        rintro _ ⟨⟩
        exact hjob
      · exact reuseAnswer_work (.of_none hn₂) hle₂

theorem MatchAnswered.mono {m n : HandleNotes} {row : Handle}
    {r : Except Exn (Option RetrievalAnswer)} {n' : HandleNotes} (h : MatchAnswered n row r n')
    (hle : m.Le n) : MatchAnswered m row r n' := fun answer hr =>
  ⟨(h answer hr).1, hle.trans (h answer hr).2.1, (h answer hr).2.2⟩

/-- The loser of a race looks the match up at least once. -/
theorem awaitReuse_work {ws : WorkspaceId} {row : Handle} {identity : Option Token} (k : ℕ)
    (hn : n.work = none) (hshown : n.Shown row) :
    (awaitReuse cfg ws row identity (k + 1)).Obeys (workProtocol cfg) n (MatchAnswered n row) := by
  induction k generalizing n with
  | zero =>
    unfold awaitReuse
    rw [obeys_bind]
    refine (reuseResponseForMatch_work hn hshown).mono ?_
    rintro (e | answer) n₁ h₁
    · exact fun _ hr => by cases hr
    · rw [afterBind_ok]
      cases answer with
      | some answer =>
        rintro _ ⟨⟩
        exact ⟨(h₁ _ rfl).1, (h₁ _ rfl).2.1, fun h => (by cases h)⟩
      | none =>
        rintro _ ⟨⟩
        exact h₁ none rfl
  | succ k ih =>
    unfold awaitReuse
    rw [obeys_bind]
    refine (reuseResponseForMatch_work hn hshown).mono ?_
    rintro (e | answer) n₁ h₁
    · exact fun _ hr => by cases hr
    · rw [afterBind_ok]
      cases answer with
      | some answer =>
        rintro _ ⟨⟩
        exact ⟨(h₁ _ rfl).1, (h₁ _ rfl).2.1, fun h => (by cases h)⟩
      | none =>
        obtain ⟨-, hle₁, hidle⟩ := h₁ none rfl
        exact (ih (hidle rfl).1 (hshown.mono hle₁)).mono fun _ _ h => h.mono hle₁

/-- The job of a planned retrieval is persisted behind its handle. -/
theorem createRetrieval_work {ws : WorkspaceId} {r : ResolvedRequest} {plan : PlannedRetrieval}
    {h : HandleId} {identity : Option Token} (hlooks : n.LooksUp h)
    (hwork : ∀ h', n.work = some (.fill h') → h' = h) :
    (createRetrieval cfg ws r plan h identity).Obeys (workProtocol cfg) n fun r n' =>
      ∀ answer, r = .ok answer → n'.NotFilling := by
  unfold createRetrieval
  rw [obeys_bind]
  refine obeys_step trivial fun a _ => ?_
  cases a with
  | error e => exact fun _ hr => by cases hr
  | ok u =>
    rw [afterBind_ok, obeys_bind]
    refine obeys_step (fun h => by cases h) fun a _ => ?_
    have hle := n.le_observe (.handles (.putHandle ws .job
      { obsHandle := some h, datasetHandle := some r.request.datasetHandle })) a
    have hlooked := HandleNotes.looked_observe (n := n) (o := .handles (.putHandle ws .job
      { obsHandle := some h, datasetHandle := some r.request.datasetHandle })) (by simp) a
    cases a with
    | error e => exact fun _ hr => by cases hr
    | ok jobHandle =>
      rw [afterBind_ok, obeys_bind]
      refine createJob_work (h := h) rfl (toJsonb_for rfl) (hlooks.mono hle hlooked) hwork
        (fun j n₂ _ hn₂ => ?_) fun e _ hr => by cases hr
      rw [afterBind_ok]
      have hrest : (do
          perform (.provenance (.edge ws h r.request.datasetHandle))
          perform (.queue (.enqueueJob .submitJob j none 0))
          pure { jobHandle := some jobHandle, obsHandle := h, status := some .pending
                 provider := some plan.path } : Program RetrievalAnswer).Only Op.Still :=
        (only_perform.2 trivial).bind fun _ => only_map (only_perform.2 trivial)
      exact (obeys_still hrest).mono fun _ _ hstill _ _ => HandleNotes.NotFilling.of_work hn₂ hstill.2

/-- A request is planned and its handle minted, or the match of a lost race marked pending. -/
theorem planAndCreate_work {ws : WorkspaceId} {r : ResolvedRequest} {signature : Option String}
    {identity : Option Token} (hn : n.work = none) :
    (planAndCreate cfg ws r signature identity).Obeys (workProtocol cfg) n fun r n' =>
      ∀ answer, r = .ok answer → n'.NotFilling := by
  unfold planAndCreate
  rw [obeys_bind]
  refine (obeys_stillStep (o := .planning _) trivial).mono ?_
  rintro (e | plan) n₁ ⟨-, hwork₁⟩
  · exact fun _ hr => by cases hr
  have hn₁ : n₁.work = none := hwork₁.trans hn
  rw [afterBind_ok]
  cases signature with
  | none =>
    dsimp only
    rw [obeys_bind]
    refine obeys_step (fun _ => rfl) fun a hshows => ?_
    match a, hshows with
    | .error e, _ => exact fun _ hr => by cases hr
    | .ok h, hshows =>
      rw [afterBind_ok]
      exact createRetrieval_work ⟨List.mem_cons_self, hshows.names, none, rfl,
        Or.inr fun _ hjob => by cases hjob⟩
        fun h' hfill => absurd hfill (HandleNotes.NotFilling.of_none hn₁ h')
  | some signature =>
    dsimp only
    rw [obeys_bind]
    refine (putHandleUniqueSignature_work ws signature _ rfl).mono ?_
    rintro (e | ⟨row, created⟩) n₂ ⟨hwork₂, hinserted⟩
    · exact fun _ hr => by cases hr
    have hn₂ : n₂.work = none := hwork₂.trans hn₁
    have hins := hinserted row created rfl
    rw [afterBind_ok]
    dsimp only
    split_ifs with hcreated
    · exact createRetrieval_work ⟨hins.known, hins.obs, none, hins.looked hcreated,
        Or.inr fun _ hjob => by cases hjob⟩
        fun h' hfill => absurd hfill (HandleNotes.NotFilling.of_none hn₂ h')
    rw [obeys_bind]
    refine (awaitReuse_work 19 hn₂ ⟨hins.known, hins.obs, hins.expired⟩).mono ?_
    rintro (e | answer) n₃ h₃
    · exact fun _ hr => by cases hr
    obtain ⟨hn₃, hle₃, hunusable⟩ := h₃ answer rfl
    rw [afterBind_ok]
    cases answer with
    | some answer => exact fun _ _ => hn₃
    | none =>
      obtain ⟨hidle, latest, hlooked, hdead⟩ := hunusable rfl
      have hlooks : n₃.LooksUp row.handle :=
        ⟨hle₃.known hins.known, hins.obs, latest, hlooked, Or.inr hdead⟩
      dsimp only
      rw [obeys_bind]
      refine obeys_step ?_ fun a _ => ?_
      · rintro _ ⟨⟩
        exact ⟨hidle, fun h => (by cases h), fun _ => hlooks⟩
      cases a with
      | error e => exact fun _ hr => by cases hr
      | ok row' =>
        rw [afterBind_ok]
        refine createRetrieval_work (hlooks.mono (HandleNotes.le_observe _ _ _) rfl) ?_
        intro h' hfill
        injection hfill with hfill
        injection hfill with hfill
        exact hfill.symm

/-- What a program leaves that ends without an exception. -/
def Completes {α : Type} (r : Except Exn α) (n' : HandleNotes) : Prop :=
  ∀ a, r = .ok a → n'.NotFilling

theorem completes_map {α β : Type} {p : Program α} {f : α → β}
    (hp : p.Obeys (workProtocol cfg) n Completes) :
    (p >>= fun a => pure (f a)).Obeys (workProtocol cfg) n Completes := by
  rw [obeys_bind]
  refine hp.mono ?_
  rintro (e | a) n' hn'
  · exact fun _ hr => by cases hr
  · exact fun _ _ => hn' a rfl

/-- A step after which the program goes on, and which may raise. -/
theorem still_bind {α β : Type} {p : Program α} {f : α → Program β} (hp : p.Only Op.Still)
    (hf : ∀ a n', n.Le n' → n'.work = n.work → (f a).Obeys (workProtocol cfg) n' Completes) :
    (p >>= f).Obeys (workProtocol cfg) n Completes := by
  rw [obeys_bind]
  refine (obeys_still hp).mono ?_
  rintro (e | a) n' ⟨hle, hwork⟩
  · exact fun _ hr => by cases hr
  · exact hf a n' hle hwork

theorem checkReuse_work {ws : WorkspaceId} {signature : String} {identity : Option Token}
    (hn : n.work = none) :
    (checkReuse cfg ws signature identity).Obeys (workProtocol cfg) n fun r n' =>
      ∀ answer, r = .ok answer → n'.NotFilling ∧ (answer = none → n'.work = none) := by
  unfold checkReuse
  rw [obeys_bind]
  refine obeys_step trivial fun a hshows => ?_
  match a, hshows with
  | .error e, _ => exact fun _ hr => by cases hr
  | .ok none, _ => exact fun _ _ => ⟨.of_none hn, fun _ => hn⟩
  | .ok (some row), hshows =>
    rw [afterBind_ok]
    have hn' : (n.observe (.handles (.findBySignature ws signature)) (.ok (some row))).work = none :=
      hn
    exact (reuseResponseForMatch_work hn' ⟨List.mem_cons_self, hshows.names,
      HandleNotes.shown_expired⟩).mono fun r n'' h a hr => ⟨(h a hr).1, fun ha => ((h a hr).2.2 ha).1⟩

theorem submitNormalized_work {ws : WorkspaceId} {request : RetrievalRequest} {dedupe : Bool}
    {now : Time} {identity : Option Token} (hn : n.work = none) :
    (submitNormalized cfg ws request dedupe now identity).Obeys (workProtocol cfg) n Completes := by
  unfold submitNormalized
  refine still_bind (only_perform.2 (by trivial)) fun resolved n₂ _ hwork₂ => ?_
  refine still_bind (only_perform.2 (by trivial)) fun caps n₃ _ hwork₃ => ?_
  have hn₃ : n₃.work = none := (hwork₃.trans hwork₂).trans hn
  dsimp only
  have hscope : (reuseIdentityScope cfg now caps resolved.1 identity).Only Op.Still := by
    unfold reuseIdentityScope
    split_ifs
    · trivial
    · refine (only_perform.2 (by trivial)).bind fun flagged => ?_
      split_ifs <;> trivial
  by_cases hdedupe : dedupe = true
  · rw [if_pos hdedupe]
    refine still_bind hscope fun scope n₄ _ hwork₄ => ?_
    rw [obeys_bind]
    refine (checkReuse_work (hwork₄.trans hn₃)).mono ?_
    rintro (e | answer) n₅ hn₅
    · exact fun _ hr => by cases hr
    rw [afterBind_ok]
    cases answer with
    | some answer => exact fun _ _ => (hn₅ _ rfl).1
    | none => exact planAndCreate_work ((hn₅ _ rfl).2 rfl)
  · rw [if_neg hdedupe]
    exact planAndCreate_work hn₃

theorem submitRetrieval_work {ws : WorkspaceId} {request : RetrievalRequest} {dedupe : Bool}
    {token : Option Token} (hn : n.work = none) :
    (submitRetrieval cfg ws request dedupe token).Obeys (workProtocol cfg) n Completes := by
  unfold submitRetrieval
  refine still_bind (only_perform.2 (by trivial)) fun now n₁ _ hwork₁ => ?_
  split
  · exact fun _ hr => by cases hr
  rename_i identity _
  by_cases hkey : identity.isSome ∧ cfg.earthdataCredentialKey = []
  · rw [if_pos hkey]
    exact fun _ hr => by cases hr
  rw [if_neg hkey]
  split
  · exact fun _ hr => by cases hr
  · exact submitNormalized_work (hwork₁.trans hn)

theorem rematerialize_work {ws : WorkspaceId} {h : HandleId} {token : Option Token}
    (hn : n.work = none) :
    (rematerialize cfg ws h token).Obeys (workProtocol cfg) n Completes := by
  unfold rematerialize
  refine still_bind (only_perform.2 (by trivial)) fun now n₁ _ hwork₁ => ?_
  have hn₁ : n₁.work = none := hwork₁.trans hn
  split
  · exact fun _ hr => by cases hr
  rename_i identity _
  by_cases hkey : identity.isSome ∧ cfg.earthdataCredentialKey = []
  · rw [if_pos hkey]
    exact fun _ hr => by cases hr
  rw [if_neg hkey]
  by_cases htype : ¬ h.evictable
  · rw [if_pos htype]
    exact fun _ hr => by cases hr
  rw [if_neg htype]
  -- the handle is shown to the thread
  have hresolve : (resolveCached ws h).Obeys (workProtocol cfg) n₁ fun r n' => n'.work = none ∧
      ∀ row, r = .ok (some row) → row.handle = h ∧ h ∈ n'.known ∧
        (row.payload.status = some .expired → h ∈ n'.expired) := by
    unfold resolveCached
    rw [obeys_bind, obeys_attempt]
    refine obeys_step trivial fun a hshows => ?_
    rw [afterBind_ok]
    match a, hshows with
    | .ok row, hshows =>
      refine ⟨hn₁, ?_⟩
      rintro _ ⟨⟩
      have hrow : row.handle = h := hshows.names
      exact ⟨hrow, hrow ▸ List.mem_cons_self, fun hexpired =>
        hrow ▸ HandleNotes.shown_expired hexpired⟩
    | .error e, _ =>
      split
      · rename_i heq
        cases heq
      all_goals exact ⟨hn₁, fun _ hr => by cases hr⟩
  rw [obeys_bind]
  refine hresolve.mono ?_
  rintro (e | row) n₂ ⟨hn₂, hrow⟩
  · exact fun _ hr => by cases hr
  rw [afterBind_ok]
  cases row with
  | none => exact fun _ _ => .of_none hn₂
  | some row =>
    obtain ⟨-, hknown, hexpired⟩ := hrow row rfl
    dsimp only
    rw [obeys_bind]
    refine obeys_step trivial fun a hshows => ?_
    cases a with
    | error e => exact fun _ hr => by cases hr
    | ok jobs =>
      rw [afterBind_ok]
      by_cases hstatus : row.payload.status ≠ some .expired
      · rw [if_pos hstatus]
        exact fun _ _ => .of_none hn₂
      rw [if_neg hstatus]
      split
      · exact fun _ _ => .of_none hn₂
      rename_i job hjobs
      have hmem : job ∈ jobs := List.mem_of_head? hjobs
      have hobs : job.obsHandle = some h := hshows.told _ rfl job hmem
      have hgood := hshows.good job hmem
      have hfor : job.requestSpec.For (some h) := hobs ▸ hgood.specFor
      have hn₃ : (n₂.observe (.jobs (.read (.getJobByObsHandle h))) (.ok jobs)).work = none := hn₂
      refine completes_map ((reenqueueReplay_work hn₃ ⟨hknown, hgood.obs h hobs, _, rfl,
        Or.inl (hexpired (not_not.1 hstatus))⟩ hfor).mono fun _ _ hn' a hr => (hn' a hr).1)

theorem runTask_work {id : ArqId} {p : Program Unit}
    (hp : p.Obeys (workProtocol cfg) n Completes) :
    (runTask id p).Obeys (workProtocol cfg) n Completes := by
  unfold runTask
  rw [obeys_bind, obeys_attempt]
  refine hp.mono fun r n₁ hn₁ => ?_
  rw [afterBind_ok]
  cases r with
  | ok u =>
    exact still_bind (only_perform.2 (by trivial)) fun _ n₂ _ hwork _ _ => (hn₁ u rfl).of_work hwork
  | error e =>
    dsimp only
    rw [obeys_bind]
    refine obeys_step trivial fun a _ => ?_
    cases a with
    | error e => exact fun _ hr => by cases hr
    | ok u => exact fun _ hr => by cases hr

theorem completes_of_ordinary {p : Program α} (hp : p.Only Op.Ordinary) (hn : n.work = none) :
    p.Obeys (workProtocol cfg) n Completes :=
  (obeys_ordinary hp hn).mono fun _ _ h _ _ => .of_none h.2

theorem completes_of_notFilling {p : Program α}
    (hp : p.Obeys (workProtocol cfg) n fun _ n' => n'.NotFilling) :
    p.Obeys (workProtocol cfg) n Completes := hp.mono fun _ _ h _ _ => h

theorem HandleNotes.start_work (g : Origin) : (HandleNotes.start g).work = none := by
  unfold HandleNotes.start
  split <;> rfl

/-- Every program does only what it may do, and one that ends without an exception has created
the job of every handle it has marked pending. -/
theorem program_work (g : Origin) :
    (g.program cfg).Obeys (workProtocol cfg) (HandleNotes.start g) Completes := by
  have hn := HandleNotes.start_work g
  have hreclaim (q : JobQuery) (t : Time) : (reclaim q t).Only Op.Ordinary :=
    (reclaim_resumes q t).mono fun _ => ResumeOp.ordinary
  cases g with
  | task id t j =>
    refine runTask_work ?_
    cases t with
    | submitJob =>
      exact completes_of_ordinary ((submitJob_only cfg j).mono fun _ => SubmitOp.ordinary) hn
    | pollJob => exact completes_of_ordinary ((pollJob_only cfg j).mono fun _ => PollOp.ordinary) hn
    | materializeJob => exact completes_of_notFilling (materializeJob_work rfl hn)
  | startup =>
    refine completes_map (completes_of_notFilling ?_)
    unfold EarthdataMcp.startup
    refine ordinary_bind (only_perform.2 (.still (by trivial))) hn (fun now n₁ _ hn₁ => ?_)
      fun _ _ h => .of_none h
    exact ordinary_bind (hreclaim _ _) hn₁ (fun _ n₂ _ hn₂ => swallow_work (sweep_work _ _ hn₂))
      fun _ _ h => .of_none h
  | sweepStalledJobs =>
    refine completes_map (completes_of_ordinary ?_ hn)
    exact (only_perform.2 (.still (by trivial))).bind fun _ => hreclaim _ _
  | evictionSweep svc p => exact completes_map (completes_of_notFilling (sweep_work svc p hn))
  | retrieveSubset ws r t => exact completes_map (submitRetrieval_work hn)
  | retrieveData ws r t => exact completes_map (submitRetrieval_work hn)
  | rematerialize ws h t => exact completes_map (rematerialize_work hn)
  | cancelRetrieval ws h t =>
    exact completes_map (completes_of_ordinary
      ((cancelRetrieval_only cfg ws h t).mono fun _ => CancelOp.ordinary) hn)
  | exportResult ws h t =>
    exact completes_map (completes_of_ordinary
      ((exportResult_only ws h t).mono fun _ ho => .still ho.still) hn)
  | pinResult ws h p t =>
    exact completes_map (completes_of_ordinary
      ((pinResult_only cfg ws h p t).mono fun _ ho => .still ho.still) hn)
  | emitCube ws cube =>
    exact completes_map (completes_of_ordinary
      ((emitCube_only cfg ws cube).mono fun _ ho => .still ho.still) hn)

end programs

end EarthdataMcp
