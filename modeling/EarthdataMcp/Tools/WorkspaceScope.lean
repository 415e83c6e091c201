import EarthdataMcp.Jobs.JobNotes
import EarthdataMcp.Workspace.View

/-!
# Every tool works in the workspace it is called for

The programs of the service against the notes of `Workspace.Registry`: a tool writes handles of its
own workspace only, cancels through a `job_` handle of its own workspace only, and whoever creates a
job registers it in the workspace of the handle it fills.

* `Op.Spare`, the operations that need no note; `program_owner`, for every program;
* `registered_of_reachable`: in every state of every run each job is registered, and found by its
  own `job_` handle;
* `writes_own_workspace`: a step of a tool leaves every handle and every job of another workspace
  as it is.
-/

namespace EarthdataMcp

open Concurrency Concurrency.Prog Concurrency.System

/-! ### Operations that need no note -/

/-- Operations that create no job, of a thread that acts for `caller`. -/
def Op.Spare (caller : Option WorkspaceId) : Op → Prop
  | .jobs (.read _) => True
  | .jobs (.transact _ edit) => caller = none ∧ LifecycleEdit edit
  | .jobs _ => False
  | .handles (.putHandle ws _ _) => ∀ c ∈ caller, c = ws
  | .handles (.insertUnique ws _ _) => ∀ c ∈ caller, c = ws
  | .handles (.updateHandle ws _ _) => ∀ c ∈ caller, c = ws
  | .handles (.touchHandle ws _) => ∀ c ∈ caller, c = ws
  | _ => True

namespace OwnerNotes

/-- `n'` acts for the workspace `n` acts for, and knows what `n` knows. -/
structure Le (n n' : OwnerNotes) : Prop where
  caller : n'.caller = n.caller
  owned : n.owned ⊆ n'.owned

variable {n n' n'' : OwnerNotes}

theorem Le.refl (n : OwnerNotes) : n.Le n := ⟨rfl, fun _ h => h⟩

theorem Le.trans (h : n.Le n') (h' : n'.Le n'') : n.Le n'' :=
  ⟨h'.caller.trans h.caller, List.Subset.trans h.owned h'.owned⟩

theorem le_observe (n : OwnerNotes) (o : Op) (a : Except Exn o.Ans) : n.Le (n.observe o a) := by
  refine ⟨n.observe_caller o a, ?_⟩
  unfold observe
  split
  case h_5 => exact fun _ h => h
  case h_6 => exact fun _ h => h
  all_goals exact List.subset_cons_self _ _

end OwnerNotes

theorem Op.Spare.mayDo {n : OwnerNotes} {o : Op} (h : o.Spare n.caller) : n.MayDo o := by
  cases o with
  | jobs x =>
    cases x with
    | read q => trivial
    | transact q edit =>
      obtain ⟨hnone, hedit⟩ := h
      refine ⟨hedit, fun ws hws => ?_⟩
      rw [hnone] at hws
      cases hws
    | _ => exact h.elim
  | handles x => cases x <;> exact h
  | _ => trivial

section programs

variable {cfg : Settings} {α β : Type} {n : OwnerNotes}

/-- A step of a thread. -/
theorem owner_step {o : Op} {post : Except Exn o.Ans → OwnerNotes → Prop} (ho : n.MayDo o)
    (hpost : ∀ a, n.Trusts o a → post a (n.observe o a)) :
    (perform o).Obeys (ownerProtocol cfg) n post :=
  Monitor.obeys_step (M := ownerMonitor cfg) ho hpost

theorem obeys_spare {p : Program α} (hp : p.Only (Op.Spare n.caller)) :
    p.Obeys (ownerProtocol cfg) n fun _ n' => n.Le n' := by
  refine hp.obeys (fun n' o hle ho => Op.Spare.mayDo (hle.caller ▸ ho))
    (fun n' o a n'' hle _ hnext => ?_) (.refl n)
  obtain rfl := hnext.2
  exact hle.trans (n'.le_observe o a)

/-- A program that needs no note, before one that goes on. -/
theorem spare_bind {p : Program α} {f : α → Program β} (hp : p.Only (Op.Spare n.caller))
    (hf : ∀ a n', n.Le n' → (f a).Obeys (ownerProtocol cfg) n' fun _ n'' => n'.Le n'') :
    (p >>= f).Obeys (ownerProtocol cfg) n fun _ n'' => n.Le n'' := by
  rw [obeys_bind]
  refine (obeys_spare hp).mono ?_
  rintro (e | a) n' hle
  · exact hle
  · exact (hf a n' hle).mono fun _ _ h => hle.trans h

/-- A job is created, and nothing that follows needs a note. -/
theorem create_owner (ws : WorkspaceId) {new : NewJob} {f : JobId → Program β}
    (hcreates : n.Creates new ws) (hf : ∀ j, (f j).Only (Op.Spare n.caller)) :
    (perform (.jobs (.create new)) >>= f).Obeys (ownerProtocol cfg) n fun _ n' => n.Le n' := by
  rw [obeys_bind]
  refine owner_step (o := .jobs (.create new)) ⟨ws, hcreates⟩ fun a _ => ?_
  cases a with
  | error e => exact .refl n
  | ok j =>
    exact (obeys_spare (n := { n with minted := none }) (hf j)).mono
      fun _ _ h => ⟨h.caller, h.owned⟩

/-! ### The sweep, the reclaim passes and the tasks that create nothing -/

theorem SweepOp.spare {o : Op} (h : SweepOp o) : o.Spare none := by
  cases h with
  | expireJob h => exact ⟨rfl, .expire⟩
  | expire ws h => intro c hc; cases hc
  | _ => trivial

theorem TaskOp.spare {j : JobId} {o : Op} (h : TaskOp j o) : o.Spare none := by
  cases h with
  | fail error => exact ⟨rfl, .enter _ _⟩
  | _ => trivial

theorem ReclaimOp.spare {o : Op} (h : ReclaimOp o) : o.Spare none := by
  cases h with
  | triage q t => exact ⟨rfl, .triage t⟩
  | sweep h => exact h.spare
  | _ => trivial

theorem SubmitOp.spare {j : JobId} {o : Op} (h : SubmitOp j o) : o.Spare none := by
  cases h with
  | load wanted => exact ⟨rfl, .load wanted⟩
  | task h => exact h.spare
  | submit spec token => trivial
  | failed h =>
    cases h with
    | task h => exact h.spare
    | reroute _ => exact ⟨rfl, .reroute⟩
    | enqueue => trivial
  | succeeded h =>
    cases h with
    | submitted => exact ⟨rfl, .enter _ _⟩
    | _ => trivial

theorem PollOp.spare {j : JobId} {o : Op} (h : PollOp j o) : o.Spare none := by
  cases h with
  | load wanted => exact ⟨rfl, .load wanted⟩
  | task h => exact h.spare
  | apply status => exact ⟨rfl, .apply status⟩
  | _ => trivial

/-! ### The prefetch -/

/-- Whoever wins the unique insert or finds the row that holds the signature is shown an `obs_`
handle of the workspace. -/
theorem putHandleUniqueSignature_owner {ws : WorkspaceId} (signature : String) (payload : Payload)
    (hn : n.ActsIn ws) :
    (putHandleUniqueSignature ws .obs signature payload).Obeys (ownerProtocol cfg) n
      fun r n' => n.Le n' ∧ ∀ row created, r = .ok (row, created) →
        (ws, row.handle) ∈ n'.owned ∧ row.handle.type = .obs := by
  unfold putHandleUniqueSignature
  rw [obeys_bind]
  refine owner_step hn fun a htrusts => ?_
  match a, htrusts with
  | .error e, _ => exact ⟨.refl n, fun _ _ h => by cases h⟩
  | .ok (some row), htrusts =>
    refine ⟨n.le_observe _ _, ?_⟩
    rintro row' created ⟨⟩
    exact ⟨List.mem_cons_self, htrusts.names⟩
  | .ok none, _ =>
    rw [afterBind_ok, obeys_bind]
    refine owner_step trivial fun a htrusts => ?_
    match a, htrusts with
    | .error e, _ => exact ⟨.refl n, fun _ _ h => by cases h⟩
    | .ok none, _ => exact ⟨.refl n, fun _ _ h => by cases h⟩
    | .ok (some row), htrusts =>
      refine ⟨⟨rfl, List.subset_cons_self _ _⟩, ?_⟩
      rintro row' created ⟨⟩
      exact ⟨List.mem_cons_self, htrusts.names⟩

theorem originDatasetHandle_spare (ws : WorkspaceId) (origin : Option HandleId)
    (caller : Option WorkspaceId) : (originDatasetHandle ws origin).Only (Op.Spare caller) := by
  unfold originDatasetHandle
  split
  · trivial
  · have hget : (perform (.handles (.getHandle ws ‹_›))).Only (Op.Spare caller) :=
      only_perform.2 trivial
    refine hget.attempt.bind fun r => ?_
    split <;> trivial

theorem recordEdgeFrom_spare (ws : WorkspaceId) (target : HandleId) (source : Option HandleId)
    (caller : Option WorkspaceId) : (recordEdgeFrom ws target source).Only (Op.Spare caller) := by
  unfold recordEdgeFrom
  split
  · trivial
  · exact only_perform.2 trivial

theorem enqueuePrefetch_owner (predicted : RequestSpec) (signature : String)
    (origin : Option HandleId) (ws : WorkspaceId) (credential : Option Credential)
    (hn : n.ActsIn ws) :
    (enqueuePrefetch predicted signature origin ws credential).Obeys (ownerProtocol cfg) n
      fun _ n' => n.Le n' := by
  unfold enqueuePrefetch
  rw [obeys_bind]
  refine (putHandleUniqueSignature_owner signature _ hn).mono ?_
  rintro (e | ⟨obs, created⟩) n₁ ⟨hle₁, hobs⟩
  · exact hle₁
  obtain ⟨howned, htype⟩ := hobs obs created rfl
  rw [afterBind_ok]
  dsimp only
  split_ifs
  swap
  · exact hle₁
  refine (spare_bind (originDatasetHandle_spare ws origin _) fun dataset n₂ hle₂ => ?_).mono
    fun _ _ h => hle₁.trans h
  have hacts : n₂.ActsIn ws := by
    intro c hc
    rw [hle₂.caller, hle₁.caller] at hc
    exact hn c hc
  rw [obeys_bind]
  refine owner_step hacts fun a _ => ?_
  cases a with
  | error e => exact .refl n₂
  | ok jobHandle =>
    rw [afterBind_ok]
    refine Obeys.mono (create_owner ws ?_ fun j => ?_)
      fun _ _ h => (n₂.le_observe _ _).trans h
    · exact ⟨hacts, rfl, ⟨obs.handle, rfl, htype, List.mem_cons_of_mem _ (hle₂.owned howned)⟩, rfl⟩
    · exact (recordEdgeFrom_spare _ _ _ _).bind fun _ => (only_perform.2 trivial).bind fun _ =>
        only_map (only_perform.2 trivial)

/-- A step that needs no note. -/
theorem spare_step {o : Op} (ho : o.Spare n.caller) {f : o.Ans → Program β}
    (hf : ∀ a n', n.Le n' → (f a).Obeys (ownerProtocol cfg) n' fun _ n'' => n'.Le n'') :
    (perform o >>= f).Obeys (ownerProtocol cfg) n fun _ n'' => n.Le n'' :=
  spare_bind (only_perform.2 ho) hf

theorem GateOp.spare {o : Op} (h : GateOp o) (caller : Option WorkspaceId) : o.Spare caller := by
  cases h <;> trivial

theorem maybePrefetch_owner (spec : RequestSpec) (speculative : Bool) (size : Option ℕ)
    (credential : Option Credential) (hn : n.caller = none) :
    (maybePrefetch cfg spec speculative size credential).Obeys (ownerProtocol cfg) n
      fun _ n' => n.Le n' := by
  refine @maybePrefetch_obeys cfg _ _ n.Le n (fun n' o hle ho => ⟨(ho.spare _).mayDo, ?_⟩) spec
    credential (fun n' planned signature ws hle => ?_) speculative size (.refl n)
  · rintro a n'' ⟨-, rfl⟩
    exact hle.trans (n'.le_observe o a)
  · refine (enqueuePrefetch_owner _ _ _ _ _ fun c hc => ?_).mono fun _ _ h => hle.trans h
    rw [hle.caller, hn] at hc
    cases hc

/-! ### The materialization -/

theorem swallow_owner {p : Program Unit}
    (hp : p.Obeys (ownerProtocol cfg) n fun _ n' => n.Le n') :
    (swallow p).Obeys (ownerProtocol cfg) n fun _ n' => n.Le n' := by
  unfold swallow
  rw [obeys_bind, obeys_attempt]
  refine hp.mono fun r n' hle => ?_
  rw [afterBind_ok]
  cases r with
  | ok _ => exact hle
  | error e =>
    dsimp only
    split_ifs <;> exact hle

theorem materializeDelivered_owner {j : JobId} {spec : RequestSpec} {job : Job} {key : Key}
    {out : Fetched} (hn : n.caller = none) :
    (materializeDelivered cfg j spec job key out).Obeys (ownerProtocol cfg) n
      fun _ n' => n.Le n' := by
  have htask {o : Op} (h : TaskOp j o) {n' : OwnerNotes} (hle : n.Le n') : o.Spare n'.caller := by
    rw [hle.caller, hn]
    exact h.spare
  have hfree {p : Program Unit} (hp : p.Only (Op.Spare none)) {n' : OwnerNotes} (hle : n.Le n') :
      p.Only (Op.Spare n'.caller) := by
    rw [hle.caller, hn]
    exact hp
  unfold materializeDelivered
  refine spare_bind (hfree ?_ (.refl n)) fun _ n₁ hle₁ =>
    spare_bind (hfree ?_ hle₁) fun _ n₂ hle₂ =>
      spare_bind (hfree (recordEventSafe_only (fun _ => trivial) _ _ _) (hle₁.trans hle₂))
        fun _ n₃ hle₃ => spare_bind (hfree ?_ ((hle₁.trans hle₂).trans hle₃)) fun _ n₄ hle₄ => ?_
  · unfold logMaterializationDrift
    split
    · trivial
    · exact only_swallow (only_map (only_perform.2 trivial))
  · unfold resolveHandle
    split
    · trivial
    · refine only_map (only_perform.2 ?_)
      intro c hc
      cases hc
  · exact transitionState_only ⟨rfl, .enter _ _⟩
  · have hle : n.Le n₄ := ((hle₁.trans hle₂).trans hle₃).trans hle₄
    unfold afterReady
    refine spare_bind (hfree (only_swallow ((sweep_only _ _).mono fun _ => SweepOp.spare)) hle)
      fun _ n₅ hle₅ => swallow_owner ?_
    rw [obeys_bind]
    refine (maybePrefetch_owner _ _ _ _ ?_).mono ?_
    · rw [hle₅.caller, hle.caller, hn]
    · rintro (e | decision) n₆ hle₆ <;> exact hle₆

theorem materializeJob_owner {j : JobId} (hn : n.caller = none) :
    (materializeJob cfg j).Obeys (ownerProtocol cfg) n fun _ n' => n.Le n' := by
  have hfree {α : Type} {p : Program α} (hp : p.Only (TaskOp j)) {n' : OwnerNotes} (hle : n.Le n') :
      p.Only (Op.Spare n'.caller) := by
    rw [hle.caller, hn]
    exact hp.mono fun _ => TaskOp.spare
  unfold materializeJob
  refine spare_step ?_ fun rows n₁ hle₁ => ?_
  · rw [hn]
    exact ⟨rfl, .load _⟩
  unfold withRow
  split
  · exact .refl n₁
  rename_i job rows
  split_ifs
  swap
  · exact .refl n₁
  split
  · exact .refl n₁
  rename_i spec hspec
  show (materializeRow cfg j spec job).Obeys _ _ _
  unfold materializeRow
  refine spare_bind (hfree (loadJobIdentity_only _ _ _ _) hle₁) fun identity n₂ hle₂ =>
    spare_bind (hfree (loadProvider_only _ _) (hle₁.trans hle₂)) fun _ n₃ hle₃ => ?_
  have hle : n.Le n₃ := (hle₁.trans hle₂).trans hle₃
  refine spare_bind (Only.attempt ?_) fun r n₄ hle₄ => ?_
  · have hfetch : (perform (.provider (.fetch j spec.provider job.providerJobUrl identity))).Only
        (Op.Spare n₃.caller) := only_perform.2 trivial
    exact hfetch.bind fun _ => only_map (only_perform.2 trivial)
  · match r with
    | .error e => exact obeys_spare (hfree (materializeFailed_only _ _ _ _) (hle.trans hle₄))
    | .ok (key, out) =>
      refine materializeDelivered_owner ?_
      rw [hle₄.caller, hle.caller, hn]

/-! ### The retrieval tools -/

/-- A replay creates its job in the workspace of the handle it fills. -/
theorem reenqueueReplay_owner {ws : WorkspaceId} {h : HandleId} {job : Job}
    {identity : Option Token} (hn : n.ActsIn ws) (howned : (ws, h) ∈ n.owned) (htype : h.type = .obs)
    (hws : job.workspace = some ws) :
    (reenqueueReplay cfg ws h job identity).Obeys (ownerProtocol cfg) n fun _ n' => n.Le n' := by
  unfold reenqueueReplay
  rw [obeys_bind]
  refine owner_step hn fun a _ => ?_
  cases a with
  | error e => exact .refl n
  | ok jobHandle =>
    have hle₁ := n.le_observe (.handles (.putHandle ws .job { obsHandle := some h })) (.ok jobHandle)
    rw [afterBind_ok, obeys_bind]
    refine owner_step hn fun a _ => ?_
    cases a with
    | error e => exact hle₁
    | ok row =>
      rw [afterBind_ok]
      refine Obeys.mono (create_owner ws ?_ fun j => ?_) fun _ _ hle => hle₁.trans hle
      · exact ⟨hn, rfl, ⟨h, rfl, htype, List.mem_cons_of_mem _ howned⟩, hws⟩
      · exact (only_perform.2 trivial).bind fun _ => only_map (only_perform.2 trivial)

theorem reuseAnswer_spare (ws : WorkspaceId) (row : Handle) (answer : RetrievalAnswer)
    (caller : Option WorkspaceId) : (reuseAnswer ws row answer).Only (Op.Spare caller) := by
  have hevent : (perform (.provenance (.event ws row.handle .reused))).Only (Op.Spare caller) :=
    only_perform.2 trivial
  exact only_map hevent

theorem reuseResponseForMatch_owner {ws : WorkspaceId} {row : Handle} {identity : Option Token}
    (hn : n.ActsIn ws) (howned : (ws, row.handle) ∈ n.owned) :
    (reuseResponseForMatch cfg ws row identity).Obeys (ownerProtocol cfg) n
      fun _ n' => n.Le n' := by
  unfold reuseResponseForMatch
  refine spare_bind ?_ fun _ n₁ hle₁ => ?_
  · unfold promoteIfSpeculative
    split_ifs
    · have hupdate : (perform (.handles (.updateHandle ws row.handle
          { speculative := some false }))).Only (Op.Spare n.caller) := only_perform.2 hn
      exact hupdate.bind fun _ => only_perform.2 trivial
    · trivial
  have hacts : n₁.ActsIn ws := fun c hc => hn c (hle₁.caller ▸ hc)
  rw [obeys_bind]
  refine owner_step trivial fun a htrusts => ?_
  cases a with
  | error e => exact .refl n₁
  | ok jobs =>
    rw [afterBind_ok]
    show Prog.Obeys _ _ n₁ _
    split
    · exact .refl n₁
    · rename_i _ job _ hjobs
      -- the job is one of the handle's, so it is in the handle's workspace
      have hmem : job ∈ jobs := List.mem_of_head? hjobs
      obtain ⟨htype, hws⟩ := htrusts.within job hmem ws row.handle (htrusts.told _ rfl job hmem)
        (hle₁.owned howned)
      rw [obeys_bind]
      refine (reenqueueReplay_owner hacts (hle₁.owned howned) htype hws).mono ?_
      rintro (e | answer) n₂ hle₂
      · exact hle₂
      · exact (obeys_spare (reuseAnswer_spare ws row answer _)).mono fun _ _ h => hle₂.trans h
    · exact obeys_spare (reuseAnswer_spare ws row _ _)
    · exact .refl n₁
    · split_ifs
      · exact .refl n₁
      · exact obeys_spare (reuseAnswer_spare ws row _ _)

theorem awaitReuse_owner {ws : WorkspaceId} {row : Handle} {identity : Option Token} (k : ℕ)
    (hn : n.ActsIn ws) (howned : (ws, row.handle) ∈ n.owned) :
    (awaitReuse cfg ws row identity k).Obeys (ownerProtocol cfg) n fun _ n' => n.Le n' := by
  induction k generalizing n with
  | zero => exact .refl n
  | succ k ih =>
    unfold awaitReuse
    rw [obeys_bind]
    refine (reuseResponseForMatch_owner hn howned).mono ?_
    rintro (e | answer) n₁ hle₁
    · exact hle₁
    · rw [afterBind_ok]
      cases answer with
      | some answer => exact hle₁
      | none =>
        exact (ih (fun c hc => hn c (hle₁.caller ▸ hc)) (hle₁.owned howned)).mono
          fun _ _ h => hle₁.trans h

theorem createRetrieval_owner {ws : WorkspaceId} {r : ResolvedRequest} {plan : PlannedRetrieval}
    {h : HandleId} {identity : Option Token} (hn : n.ActsIn ws) (howned : (ws, h) ∈ n.owned)
    (htype : h.type = .obs) :
    (createRetrieval cfg ws r plan h identity).Obeys (ownerProtocol cfg) n fun _ n' => n.Le n' := by
  unfold createRetrieval
  refine spare_step (o := .provenance _) trivial fun _ n₁ hle₁ => ?_
  have hacts : n₁.ActsIn ws := fun c hc => hn c (hle₁.caller ▸ hc)
  rw [obeys_bind]
  refine owner_step hacts fun a _ => ?_
  cases a with
  | error e => exact .refl n₁
  | ok jobHandle =>
    rw [afterBind_ok]
    refine Obeys.mono (create_owner ws ?_ fun j => ?_)
      fun _ _ hle => (n₁.le_observe (.handles (.putHandle ws .job
        { obsHandle := some h, datasetHandle := some r.request.datasetHandle }))
        (.ok jobHandle)).trans hle
    · exact ⟨hacts, rfl, ⟨h, rfl, htype, List.mem_cons_of_mem _ (hle₁.owned howned)⟩, rfl⟩
    · exact (only_perform.2 trivial).bind fun _ => only_map (only_perform.2 trivial)

theorem planAndCreate_owner {ws : WorkspaceId} {r : ResolvedRequest} {signature : Option String}
    {identity : Option Token} (hn : n.ActsIn ws) :
    (planAndCreate cfg ws r signature identity).Obeys (ownerProtocol cfg) n
      fun _ n' => n.Le n' := by
  unfold planAndCreate
  refine spare_step (o := .planning _) trivial fun plan n₁ hle₁ => ?_
  have hacts {n' : OwnerNotes} (hle : n.Le n') : n'.ActsIn ws :=
    fun c hc => hn c (hle.caller ▸ hc)
  split
  · rw [obeys_bind]
    refine owner_step (hacts hle₁) fun a htrusts => ?_
    cases a with
    | error e => exact .refl n₁
    | ok h =>
      rw [afterBind_ok]
      refine (createRetrieval_owner (hacts (hle₁.trans (n₁.le_observe _ _))) List.mem_cons_self
        htrusts.names).mono fun _ _ hle => (n₁.le_observe (.handles (.putHandle ws .obs
          { status := some .pending })) (.ok h)).trans hle
  · rename_i signature
    rw [obeys_bind]
    refine (putHandleUniqueSignature_owner signature _ (hacts hle₁)).mono ?_
    rintro (e | ⟨row, created⟩) n₂ ⟨hle₂, hrow⟩
    · exact hle₂
    obtain ⟨howned, htype⟩ := hrow row created rfl
    have hle := hle₁.trans hle₂
    rw [afterBind_ok]
    dsimp only
    refine Obeys.mono ?_ fun _ _ h => hle₂.trans h
    split_ifs
    · exact createRetrieval_owner (hacts hle) howned htype
    · rw [obeys_bind]
      refine (awaitReuse_owner raceRetryAttempts (hacts hle) howned).mono ?_
      rintro (e | answer) n₃ hle₃
      · exact hle₃
      rw [afterBind_ok]
      cases answer with
      | some answer => exact hle₃
      | none =>
        refine Obeys.mono (spare_step ?_ fun _ n₄ hle₄ => ?_) fun _ _ h => hle₃.trans h
        · exact hacts (hle.trans hle₃)
        · exact createRetrieval_owner (hacts ((hle.trans hle₃).trans hle₄))
            (hle₄.owned (hle₃.owned howned)) htype

theorem submitNormalized_owner {ws : WorkspaceId} {request : RetrievalRequest} {dedupe : Bool}
    {now : Time} {identity : Option Token} (hn : n.ActsIn ws) :
    (submitNormalized cfg ws request dedupe now identity).Obeys (ownerProtocol cfg) n
      fun _ n' => n.Le n' := by
  have hacts {n' : OwnerNotes} (hle : n.Le n') : n'.ActsIn ws :=
    fun c hc => hn c (hle.caller ▸ hc)
  unfold submitNormalized
  refine spare_step (o := .planning _) trivial fun (conceptId, bbox) n₂ hle₂ =>
    spare_step (o := .planning _) trivial fun caps n₃ hle₃ => ?_
  dsimp only
  split_ifs
  · refine spare_bind ?_ fun scope n₄ hle₄ => ?_
    · unfold reuseIdentityScope
      split_ifs
      · trivial
      · have hflag : (perform (.access (.collectionRestriction conceptId))).Only
            (Op.Spare n₃.caller) := only_perform.2 trivial
        refine hflag.bind fun flagged => ?_
        split_ifs <;> trivial
    · have hle := (hle₂.trans hle₃).trans hle₄
      rw [obeys_bind]
      unfold checkReuse
      rw [obeys_bind]
      refine owner_step trivial fun a htrusts => ?_
      match a with
      | .error e => exact .refl n₄
      | .ok none =>
        rw [afterBind_ok]
        dsimp only
        rw [obeys_pure, afterBind_ok]
        exact planAndCreate_owner (n := n₄) (hacts hle)
      | .ok (some row) =>
        rw [afterBind_ok]
        have hle₅ : n₄.Le (n₄.shown ws row.handle) := ⟨rfl, List.subset_cons_self _ _⟩
        refine (reuseResponseForMatch_owner (hacts (hle.trans hle₅)) List.mem_cons_self).mono ?_
        rintro (e | answer) n₆ hle₆
        · exact hle₅.trans hle₆
        rw [afterBind_ok]
        cases answer with
        | some answer => exact hle₅.trans hle₆
        | none =>
          exact (planAndCreate_owner (hacts ((hle.trans hle₅).trans hle₆))).mono
            fun _ _ h => (hle₅.trans hle₆).trans h
  · exact planAndCreate_owner (hacts (hle₂.trans hle₃))

theorem submitRetrieval_owner {ws : WorkspaceId} {request : RetrievalRequest} {dedupe : Bool}
    {token : Option Token} (hn : n.ActsIn ws) :
    (submitRetrieval cfg ws request dedupe token).Obeys (ownerProtocol cfg) n
      fun _ n' => n.Le n' := by
  unfold submitRetrieval
  refine spare_step (o := .now) trivial fun now n₁ hle₁ => ?_
  split
  · exact .refl n₁
  split_ifs
  · exact .refl n₁
  split
  · exact .refl n₁
  · exact submitNormalized_owner fun c hc => hn c (hle₁.caller ▸ hc)

/-- A handle that is resolved is the workspace's own. -/
theorem resolveCached_owner (ws : WorkspaceId) (h : HandleId) :
    (resolveCached ws h).Obeys (ownerProtocol cfg) n fun r n' =>
      n.Le n' ∧ ∀ row, r = .ok (some row) → (ws, h) ∈ n'.owned := by
  unfold resolveCached
  rw [obeys_bind, obeys_attempt]
  refine owner_step trivial fun a _ => ?_
  rw [afterBind_ok]
  split
  · exact ⟨n.le_observe _ _, fun _ _ => List.mem_cons_self⟩
  · exact ⟨.refl n, fun _ h => by cases h⟩
  · exact ⟨.refl n, fun _ h => by cases h⟩
  · exact ⟨.refl n, fun _ h => by cases h⟩

theorem rematerialize_owner {ws : WorkspaceId} {h : HandleId} {token : Option Token}
    (hn : n.ActsIn ws) :
    (rematerialize cfg ws h token).Obeys (ownerProtocol cfg) n fun _ n' => n.Le n' := by
  unfold rematerialize
  refine spare_step (o := .now) trivial fun now n₁ hle₁ => ?_
  split
  · exact .refl n₁
  split_ifs
  · exact .refl n₁
  swap
  · exact .refl n₁
  rw [obeys_bind]
  refine (resolveCached_owner ws h).mono ?_
  rintro (e | row) n₂ ⟨hle₂, howned⟩
  · exact hle₂
  rw [afterBind_ok]
  cases row with
  | none => exact hle₂
  | some row =>
    have howned := howned row rfl
    dsimp only
    rw [obeys_bind]
    refine owner_step trivial fun a htrusts => ?_
    cases a with
    | error e => exact hle₂
    | ok jobs =>
      rw [afterBind_ok]
      show Prog.Obeys _ _ n₂ _
      split_ifs
      · exact hle₂
      split
      · exact hle₂
      · rename_i job hjobs
        have hmem : job ∈ jobs := List.mem_of_head? hjobs
        obtain ⟨htype, hws⟩ := htrusts.within job hmem ws h (htrusts.told _ rfl job hmem) howned
        rw [obeys_bind]
        refine (reenqueueReplay_owner (fun c hc => hn c ?_) howned htype hws).mono ?_
        · rwa [hle₂.caller, hle₁.caller] at hc
        · rintro (e | answer) n₃ hle₃ <;> exact hle₂.trans hle₃

/-! ### The other tools -/

/-- A job is cancelled through a `job_` handle of the workspace. -/
theorem cancelRetrieval_owner {ws : WorkspaceId} {h : HandleId} {token : Option Token}
    (hn : ∀ c ∈ n.caller, c = ws) :
    (cancelRetrieval cfg ws h token).Obeys (ownerProtocol cfg) n fun _ n' => n.Le n' := by
  unfold cancelRetrieval
  refine spare_step (o := .now) trivial fun now n₁ hle₁ => ?_
  split
  · exact .refl n₁
  split_ifs
  · exact .refl n₁
  rw [obeys_bind, obeys_attempt]
  refine owner_step trivial fun a _ => ?_
  rw [afterBind_ok]
  split
  · exact .refl n₁
  · exact .refl n₁
  · exact .refl n₁
  · rename_i row
    have hle₂ : n₁.Le (n₁.shown ws h) := ⟨rfl, List.subset_cons_self _ _⟩
    have hmay : (n₁.shown ws h).MayDo (.jobs (.transact (.getJobByHandle h) cancelRow)) := by
      refine ⟨.cancel, fun c hc => ⟨h, rfl, ?_⟩⟩
      obtain rfl : c = ws := hn c (hle₁.caller ▸ hc)
      exact List.mem_cons_self
    refine Obeys.mono ?_ fun _ _ hle => hle₂.trans hle
    show Prog.Obeys _ _ (n₁.shown ws h) _
    rw [obeys_bind]
    refine owner_step hmay fun a _ => ?_
    cases a with
    | error e => exact .refl _
    | ok rows =>
      rw [afterBind_ok]
      show Prog.Obeys _ _ (n₁.shown ws h) _
      split
      · exact .refl _
      split_ifs
      · exact .refl _
      · refine obeys_spare (only_map ?_)
        unfold attemptProviderCancel
        split_ifs
        · trivial
        split
        · trivial
        · refine Only.bind (Only.attempt ?_) fun r => ?_
          · unfold cancelUpstream
            split_ifs
            · trivial
            · exact only_perform.2 trivial
          · split
            · trivial
            · split_ifs <;> trivial
      · exact .refl _

theorem resolveCached_spare (ws : WorkspaceId) (h : HandleId) (caller : Option WorkspaceId) :
    (resolveCached ws h).Only (Op.Spare caller) := by
  refine resolveCached_only ?_
  trivial

theorem exportResult_spare {ws : WorkspaceId} (h : HandleId) (token : Option Token)
    {caller : Option WorkspaceId} (hc : ∀ c ∈ caller, c = ws) :
    (exportResult ws h token).Only (Op.Spare caller) := by
  have hnow : (perform .now).Only (Op.Spare caller) := only_perform.2 trivial
  unfold exportResult
  refine hnow.bind fun now => ?_
  split
  · trivial
  split_ifs
  swap
  · trivial
  refine (resolveCached_spare ws h caller).bind fun row => ?_
  split
  · trivial
  split
  · trivial
  split
  · split
    · refine Only.bind ?_ fun size => Only.bind ?_ fun uri => only_map (only_perform.2 hc)
      · unfold exportSize
        split
        · trivial
        · exact only_perform.2 trivial
      · exact only_perform.2 trivial
    · trivial
  · trivial

theorem pinnedSizeOf_spare (payload : Payload) (caller : Option WorkspaceId) :
    (pinnedSizeOf payload).Only (Op.Spare caller) := by
  unfold pinnedSizeOf
  split
  · trivial
  · trivial
  · rename_i key _ _
    have hstat : (perform (.storage (.stat key))).Only (Op.Spare caller) := only_perform.2 trivial
    refine hstat.attempt.bind fun r => ?_
    split <;> trivial

theorem pinnedBytes_spare (ws : WorkspaceId) (h : HandleId) (caller : Option WorkspaceId) :
    (pinnedBytes ws h).Only (Op.Spare caller) := by
  have hof (row : Handle) : (pinnedBytesOf h row).Only (Op.Spare caller) := by
    unfold pinnedBytesOf
    split_ifs
    · trivial
    · exact pinnedSizeOf_spare _ _
  have hlist (type : HandleType) : (perform (.handles (.listHandles ws type))).Only
      (Op.Spare caller) := only_perform.2 trivial
  exact (hlist .obs).bind fun _ => (Only.collect fun r _ => hof r).bind fun _ =>
    (hlist .cube).bind fun _ => (Only.collect fun r _ => hof r).bind fun _ => trivial

theorem pinResult_spare {ws : WorkspaceId} (h : HandleId) (pinned : Bool) (token : Option Token)
    {caller : Option WorkspaceId} (hc : ∀ c ∈ caller, c = ws) :
    (pinResult cfg ws h pinned token).Only (Op.Spare caller) := by
  have hnow : (perform .now).Only (Op.Spare caller) := only_perform.2 trivial
  have hpin (h : HandleId) (b : Bool) : (perform (.handles (.updateHandle ws h
      { pinned := some b }))).Only (Op.Spare caller) := only_perform.2 hc
  unfold pinResult
  refine hnow.bind fun now => ?_
  split
  · trivial
  split_ifs
  · refine (resolveCached_spare ws h caller).bind fun row => ?_
    split
    · trivial
    split_ifs
    · trivial
    · refine (pinnedBytes_spare ws _ caller).bind fun others =>
        (pinnedSizeOf_spare _ caller).bind fun size => ?_
      split_ifs
      · trivial
      · exact only_map (hpin _ true)
    · trivial
  · refine (resolveCached_spare ws h caller).bind fun row => ?_
    split
    · trivial
    · exact (hpin h false).bind fun _ => only_map (pinnedBytes_spare ws h caller)
  · trivial

theorem emitCube_spare {ws : WorkspaceId} (cube : CubeResult) {caller : Option WorkspaceId}
    (hc : ∀ c ∈ caller, c = ws) : (emitCube cfg ws cube).Only (Op.Spare caller) := by
  have hput : (perform (.storage (.put (cube.storageKey cfg)
      { size := cube.size, bytes := cube.bytes }))).Only (Op.Spare caller) := only_perform.2 trivial
  refine hput.bind fun _ => (only_perform.2 hc).bind fun h => ?_
  refine (Only.forEach fun source _ => ?_).bind fun _ => only_map (only_perform.2 trivial)
  exact only_perform.2 trivial

/-! ### Every program -/

theorem taskProgram_owner (t : Task) (j : JobId) (hn : n.caller = none) :
    (t.program cfg j).Obeys (ownerProtocol cfg) n fun _ n' => n.Le n' := by
  cases t with
  | submitJob => exact obeys_spare (hn ▸ (submitJob_only cfg j).mono fun _ => SubmitOp.spare)
  | pollJob => exact obeys_spare (hn ▸ (pollJob_only cfg j).mono fun _ => PollOp.spare)
  | materializeJob => exact materializeJob_owner hn

/-- Every program acts for its caller, and registers the jobs it creates. -/
theorem program_owner (g : Origin) :
    (g.program cfg).Obeys (ownerProtocol cfg) { caller := g.caller } fun _ _ => True := by
  have hmap {α : Type} {p : Program α} {f : α → Outcome} {n : OwnerNotes}
      (hp : p.Obeys (ownerProtocol cfg) n fun _ n' => n.Le n') :
      (do let a ← p; pure (f a) : Program Outcome).Obeys (ownerProtocol cfg) n fun _ _ => True := by
    rw [obeys_bind]
    refine hp.mono ?_
    rintro (e | a) n' - <;> trivial
  have hself (ws : WorkspaceId) : ∀ c ∈ some ws, c = ws := fun c hc => (Option.some.inj hc).symm
  cases g with
  | task id t j =>
    show (runTask id (t.program cfg j)).Obeys (ownerProtocol cfg) {} _
    unfold runTask
    rw [obeys_bind, obeys_attempt]
    refine (taskProgram_owner t j rfl).mono fun r n' hle => ?_
    rw [afterBind_ok]
    refine Obeys.mono (obeys_spare ?_) fun _ _ _ => trivial
    have hfinish (raised : Bool) : (perform (.queue (.finish id raised))).Only
        (Op.Spare n'.caller) := only_perform.2 trivial
    cases r with
    | ok _ => exact only_map (hfinish false)
    | error e => exact (hfinish true).bind fun _ => trivial
  | startup =>
    exact hmap (n := {}) (obeys_spare ((startup_only cfg).mono fun _ => ReclaimOp.spare))
  | sweepStalledJobs =>
    exact hmap (n := {}) (obeys_spare ((sweepStalledJobs_only cfg).mono fun _ => ReclaimOp.spare))
  | evictionSweep svc p =>
    exact hmap (n := {}) (obeys_spare ((sweep_only svc p).mono fun _ => SweepOp.spare))
  | retrieveSubset ws request token => exact hmap (submitRetrieval_owner (hself ws))
  | retrieveData ws request token => exact hmap (submitRetrieval_owner (hself ws))
  | rematerialize ws h token => exact hmap (rematerialize_owner (hself ws))
  | cancelRetrieval ws h token => exact hmap (cancelRetrieval_owner (hself ws))
  | exportResult ws h token => exact hmap (obeys_spare (exportResult_spare h token (hself ws)))
  | pinResult ws h pinned token =>
    exact hmap (obeys_spare (pinResult_spare h pinned token (hself ws)))
  | emitCube ws cube => exact hmap (obeys_spare (emitCube_spare cube (hself ws)))

end programs

/-! ### Every run -/

section runs

variable {cfg : Settings} {s s' : (service cfg).State}

/-- In every state of every run the registry is kept, and every thread acts as its notes allow. -/
theorem registry_of_reachable (h : Reachable initial s) :
    (ownerMonitor cfg).Conforms (ownerProtocol cfg) (fun _ _ _ => True) s ∧ Registrations s :=
  h.invariant (M := ownerMonitor cfg) (fun g => program_owner g)
    (fun _ _ _ _ _ _ _ _ hinv ht _ hmay he _ => hinv.act ht hmay he)
    (fun _ _ _ _ hinv he _ => hinv.env he) registry_initial fun _ h => by cases h

/-- In every state of every run each job, its `job_` handle and the `obs_` handle it fills belong
to one workspace, and the job is the one row that is found by its `job_` handle. -/
theorem registered_of_reachable (h : Reachable initial s) {job : Job}
    (hjob : job ∈ s.world.jobs.rows) :
    job.Registered s.world.handles ∧
      (JobQuery.getJobByHandle job.jobHandle).select s.world.jobs.rows = [job] :=
  ⟨(registry_of_reachable h).2.registered job hjob,
    (registry_of_reachable h).2.select_getJobByHandle hjob⟩

/-- A caller's request becomes a job. -/
def becomesJob : List (service .oneKey).Label :=
  call (.retrieveData 0 .plain none) ::
    acts 0 [.ok, .resolved "C1" none, .capabilities {}, .planned { path := .harmony },
      .ok, .ok, .ok, .ok]

theorem registered_of_reachable_requested : ∃ s : (service .oneKey).State, Reachable initial s ∧
    ∃ job ∈ s.world.jobs.rows, job.Registered s.world.handles ∧
      (JobQuery.getJobByHandle job.jobHandle).select s.world.jobs.rows = [job] := by
  let single (s : (service .oneKey).State) : Bool := s.world.jobs.rows.length = 1
  obtain ⟨s, hs, hjobs⟩ := exists_reach (P := fun _ _ _ => True) (s := initial) (p := single)
    becomesJob (by decide)
  obtain ⟨job, hjob⟩ := List.exists_mem_of_length_pos
    (Nat.lt_of_lt_of_eq Nat.zero_lt_one (of_decide_eq_true hjobs).symm)
  exact ⟨s, hs, job, hjob, registered_of_reachable hs hjob⟩

/-! ### Other workspaces -/

/-- A thread acts for the workspace its tool was called for. -/
theorem note_caller (t : (service cfg).Thread) :
    ((ownerMonitor cfg).note t).caller = t.origin.caller := by
  obtain ⟨g, past, rest⟩ := t
  show ((ownerMonitor cfg).after g past).caller = g.caller
  induction past with
  | nil => rfl
  | cons e past ih => exact (OwnerNotes.observe_caller _ e.op e.ans).trans ih

/-- A method called for one workspace leaves the handles of every other as they are. -/
theorem OwnerNotes.MayDo.ofWorkspace_exec {n : OwnerNotes} {t : HandleTable} (hn : t.Numbered)
    {x : HandleOp} (hmay : n.MayDo (.handles x)) {ws other : WorkspaceId}
    (hcaller : n.caller = some ws) (hother : other ≠ ws) (now : Time) :
    (t.exec now x).2.ofWorkspace other = t.ofWorkspace other := by
  have hacts {ws' : WorkspaceId} (h : n.ActsIn ws') : ws' = ws := (h ws hcaller).symm
  cases x with
  | updateHandle ws' h u =>
    cases hl : t.lookup ws' h with
    | error e => simp only [HandleTable.exec, hl]
    | ok row =>
      obtain ⟨hrow, hws⟩ := HandleTable.lookup_eq_ok_iff.1 hl
      simp only [HandleTable.exec, hl]
      refine HandleTable.ofWorkspace_modify hn.kept hrow (fun row => row.lasts_updated now u) ?_
      rw [hws, hacts hmay]
      exact hother.symm
  | touchHandle ws' h =>
    cases hl : t.lookup ws' h with
    | error e => simp only [HandleTable.exec, hl]
    | ok row =>
      obtain ⟨hrow, hws⟩ := HandleTable.lookup_eq_ok_iff.1 hl
      simp only [HandleTable.exec, hl]
      refine HandleTable.ofWorkspace_modify hn.kept hrow (fun row => row.lasts_touched now) ?_
      rw [hws, hacts hmay]
      exact hother.symm
  | putHandle ws' type payload =>
    refine HandleTable.ofWorkspace_mint now type payload ?_
    rw [hacts hmay]
    exact hother.symm
  | insertUnique ws' type payload =>
    rcases HandleTable.exec_insertUnique (t := t) now ws' type payload with ⟨-, heq⟩ | ⟨-, heq⟩
    · rw [heq]
    · rw [heq]
      refine HandleTable.ofWorkspace_mint now type payload ?_
      rw [hacts hmay]
      exact hother.symm
  | _ => rfl

/-- A step of a tool leaves the handles and the jobs of every other workspace as they are. -/
theorem writes_own_workspace (hs : Reachable initial s) {i : ℕ} {c : Choice}
    {t : (service cfg).Thread} {ws other : WorkspaceId} (ht : s.threads[i]? = some t)
    (hcaller : t.origin.caller = some ws) (hstep : step s (.act i c) = some s')
    (hother : other ≠ ws) :
    s'.world.handles.ofWorkspace other = s.world.handles.ofWorkspace other ∧
      s'.world.jobs.ofWorkspace other = s.world.jobs.ofWorkspace other := by
  obtain ⟨hconf, hreg⟩ := registry_of_reachable hs
  obtain ⟨th, o, k, a, w, hth, hr, he, rfl⟩ := step_act_eq_some.1 hstep
  obtain rfl := Option.some.inj (ht.symm.trans hth)
  have hmay : ((ownerMonitor cfg).note t).MayDo o := hconf.allowed ht hr
  have hn := hreg.holds t (List.mem_of_getElem? ht)
  have hnote := (note_caller t).trans hcaller
  constructor
  · by_cases ho : ∃ x, o = .handles x
    · obtain ⟨x, rfl⟩ := ho
      rcases World.exec_handles he with ⟨-, -, rfl⟩ | ⟨e, -, rfl⟩
      · exact hmay.ofWorkspace_exec hreg.numbered hnote hother _
      · rfl
    · show w.handles.ofWorkspace other = _
      rw [World.exec_handles_eq_self he fun x hx => ho ⟨x, hx⟩]
  · by_cases ho : ∃ x, o = .jobs x
    swap
    · show w.jobs.ofWorkspace other = _
      rw [World.exec_jobs_eq_self he fun x hx => ho ⟨x, hx⟩]
    obtain ⟨x, rfl⟩ := ho
    rcases World.exec_jobs he with ⟨-, rfl, rfl⟩ | ⟨e, -, rfl⟩
    swap
    · rfl
    cases x with
    | read q => rfl
    | commit rows edit => exact hmay.elim
    | create new =>
      obtain ⟨ws', hcreates⟩ := hmay
      obtain rfl := hcreates.actsIn ws hnote
      exact JobTable.ofWorkspace_create _ hcreates.workspace hother.symm
    | transact q edit =>
      -- the rows of the transaction are found by a `job_` handle of the caller's workspace
      obtain ⟨hedit, hquery⟩ := hmay
      obtain ⟨h, rfl, howned⟩ := hquery ws hnote
      refine hreg.indexed.kept.ofWorkspace_transact (fun row hrow => ?_) hedit hother _
      exact (hreg.registered row (JobQuery.mem_of_select hrow)).workspace_of_jobHandle
        (hn.owned ws h howned) (JobQuery.matches_of_select hrow)

/-- The request of one workspace has become a job, and the request of another is about to. -/
def besideAJob : List (service .oneKey).Label :=
  call (.retrieveData 1 .plain none) ::
    (acts 0 [.ok, .resolved "C1" none, .capabilities {}, .planned { path := .harmony },
        .ok, .ok, .ok, .ok] ++
      call (.retrieveData 0 .plain none) ::
        acts 1 [.ok, .resolved "C1" none, .capabilities {}, .planned { path := .harmony },
          .ok, .ok, .ok])

theorem writes_own_workspace_beside_a_job : ∃ s s' : (service .oneKey).State,
    Reachable initial s ∧ step s (.act 1 .ok) = some s' ∧ s'.world.jobs.rows.length = 2 ∧
      (s.world.jobs.ofWorkspace 1).length = 1 ∧
      s'.world.handles.ofWorkspace 1 = s.world.handles.ofWorkspace 1 ∧
      s'.world.jobs.ofWorkspace 1 = s.world.jobs.ofWorkspace 1 := by
  let ready (s : (service .oneKey).State) : Bool :=
    s.threads[1]?.any (fun t => t.origin.caller = some 0) &&
      ((s.world.jobs.ofWorkspace 1).length = 1 &&
        (step s (.act 1 .ok)).any (fun s' => s'.world.jobs.rows.length = 2))
  obtain ⟨s, hs, hready⟩ := exists_reach (P := fun _ _ _ => True) (s := initial) (p := ready)
    besideAJob (by decide)
  obtain ⟨hcaller, hjobs, hstep⟩ := (Bool.and_eq_true_iff.1 hready).imp_right
    Bool.and_eq_true_iff.1
  obtain ⟨t, ht, ht'⟩ := (Option.any_eq_true _ _).1 hcaller
  obtain ⟨s', hs', hlen⟩ := (Option.any_eq_true _ _).1 hstep
  exact ⟨s, s', hs, hs', of_decide_eq_true hlen, of_decide_eq_true hjobs,
    writes_own_workspace hs ht (of_decide_eq_true ht') hs' (by decide)⟩

end runs

end EarthdataMcp
