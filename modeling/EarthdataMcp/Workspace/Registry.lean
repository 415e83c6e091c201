import EarthdataMcp.Jobs.HandleRuns
import EarthdataMcp.Jobs.PrefetchBudget

/-!
# Who owns a handle and a job

A handle belongs to the workspace of its row.  A job has no workspace column: it belongs to the
workspace its specification names, and is reached through its `job_` handle.

* `Job.Registered`: the job, its `job_` handle and the `obs_` handle it fills are in one
  workspace, and the `job_` handle names the `obs_` handle;
* `Handle.Lasts`, what no write changes of a row;
* `OwnerNotes`, the workspace a thread acts for, whose handles it has been shown, and the `job_`
  handle it has minted; `OwnerNotes.MayDo`, `ownerMonitor`;
* `Registrations`, the invariant, and `Registrations.act`: every operation a thread may do keeps
  it.
-/

namespace EarthdataMcp

open Concurrency Concurrency.Prog Concurrency.System

/-! ### Owners -/

/-- The workspace a handle belongs to. -/
def HandleTable.owner (t : HandleTable) (h : HandleId) : Option WorkspaceId :=
  (t.row h).map Handle.workspaceId

/-- The workspace a job belongs to. -/
def Job.workspace (job : Job) : Option WorkspaceId := job.requestSpec.spec.workspaceId

/-- The row is the `job_` handle of a job of the workspace that fills `obs`. -/
structure Handle.Names (row : Handle) (ws : WorkspaceId) (obs : Option HandleId) : Prop where
  workspaceId : row.workspaceId = ws
  obsHandle : row.payload.obsHandle = obs

/-- The job and both its handles are in the workspace. -/
structure Job.RegisteredIn (t : HandleTable) (ws : WorkspaceId) (job : Job) : Prop where
  workspace : job.workspace = some ws
  jobType : job.jobHandle.type = .job
  jobHandle : ∃ row, t.row job.jobHandle = some row ∧ row.Names ws job.obsHandle
  obsHandle : ∃ obs, job.obsHandle = some obs ∧ obs.type = .obs ∧ t.owner obs = some ws

/-- The job and both its handles are in one workspace. -/
def Job.Registered (t : HandleTable) (job : Job) : Prop := ∃ ws, job.RegisteredIn t ws

theorem Job.RegisteredIn.owner {t : HandleTable} {ws : WorkspaceId} {job : Job}
    (h : job.RegisteredIn t ws) : t.owner job.jobHandle = some ws := by
  obtain ⟨row, hrow, hnames⟩ := h.jobHandle
  unfold HandleTable.owner
  rw [hrow, Option.map_some, hnames.workspaceId]

/-! ### What lasts of a row -/

/-- What no write changes of a row of the `handles` table. -/
structure Handle.Lasts (row row' : Handle) : Prop where
  handle : row'.handle = row.handle
  workspaceId : row'.workspaceId = row.workspaceId
  signature : row'.payload.signature = row.payload.signature
  obsHandle : row'.payload.obsHandle = row.payload.obsHandle
  datasetHandle : row'.payload.datasetHandle = row.payload.datasetHandle

theorem Handle.Lasts.refl (row : Handle) : row.Lasts row := ⟨rfl, rfl, rfl, rfl, rfl⟩

theorem Handle.lasts_updated (now : Time) (u : PayloadUpdate) (row : Handle) :
    row.Lasts (row.updated now u) := by
  refine ⟨row.updated_handle now u, row.updated_workspaceId now u, ?_, ?_, ?_⟩ <;>
    rw [Handle.updated_payload] <;> rfl

theorem Handle.lasts_touched (now : Time) (row : Handle) : row.Lasts (row.touched now) :=
  ⟨rfl, rfl, rfl, rfl, rfl⟩

/-- Every row of `t` lives on in `t'`. -/
def HandleTable.Grows (t t' : HandleTable) : Prop :=
  ∀ h row, t.row h = some row → ∃ row', t'.row h = some row' ∧ row.Lasts row'

namespace HandleTable

variable {t t' : HandleTable}

theorem Grows.refl (t : HandleTable) : t.Grows t := fun _ row hrow => ⟨row, hrow, .refl row⟩

theorem grows_modify {h : HandleId} {f : Handle → Handle} (hf : ∀ row : Handle, row.Lasts (f row)) :
    t.Grows (t.modify h f) := by
  intro h' row hrow
  rw [row_modify (fun row => (hf row).handle), hrow, Option.map_some]
  refine ⟨_, rfl, ?_⟩
  split_ifs
  · exact hf row
  · exact .refl row

theorem grows_exec (now : Time) (o : HandleOp) : t.Grows (t.exec now o).2 := by
  rcases exec_cases (t := t) now o with heq | ⟨ws, h, u, row, -, -, heq⟩ | ⟨ws, h, -, heq⟩ |
    ⟨ws, type, payload, -, heq⟩ <;> rw [heq]
  · exact .refl t
  · exact grows_modify fun row => row.lasts_updated now u
  · exact grows_modify fun row => row.lasts_touched now
  · intro h row hrow
    rw [row_mint, hrow, Option.some_or]
    exact ⟨row, rfl, .refl row⟩

theorem Grows.owner (h : t.Grows t') {k : HandleId} {ws : WorkspaceId}
    (hk : t.owner k = some ws) : t'.owner k = some ws := by
  unfold HandleTable.owner at hk ⊢
  obtain ⟨row, hrow, rfl⟩ := Option.map_eq_some_iff.1 hk
  obtain ⟨row', hrow', hlasts⟩ := h k row hrow
  rw [hrow', Option.map_some, hlasts.workspaceId]

theorem Grows.names (h : t.Grows t') {k : HandleId} {ws : WorkspaceId} {obs : Option HandleId}
    (hk : ∃ row, t.row k = some row ∧ row.Names ws obs) :
    ∃ row, t'.row k = some row ∧ row.Names ws obs := by
  obtain ⟨row, hrow, hnames⟩ := hk
  obtain ⟨row', hrow', hlasts⟩ := h k row hrow
  exact ⟨row', hrow', hlasts.workspaceId.trans hnames.workspaceId,
    hlasts.obsHandle.trans hnames.obsHandle⟩

theorem Grows.registered (h : t.Grows t') {job : Job} (hjob : job.Registered t) :
    job.Registered t' := by
  obtain ⟨ws, hws, htype, hjobHandle, obs, hobs, hobsType, howner⟩ := hjob
  exact ⟨ws, hws, htype, h.names hjobHandle, obs, hobs, hobsType, h.owner howner⟩

/-- A row that is there is owned by the workspace it is looked up in. -/
theorem owner_of_lookup {ws : WorkspaceId} {h : HandleId} {row : Handle}
    (hl : t.lookup ws h = .ok row) : t.owner h = some ws := by
  obtain ⟨hrow, hws⟩ := lookup_eq_ok_iff.1 hl
  unfold HandleTable.owner
  rw [hrow, Option.map_some, hws]

theorem Numbered.owner_of_mem (hn : t.Numbered) {row : Handle} (hrow : row ∈ t.rows) :
    t.owner row.handle = some row.workspaceId := by
  unfold HandleTable.owner
  rw [hn.row_eq hrow, Option.map_some]

theorem Numbered.row_minted (hn : t.Numbered) (now : Time) (ws : WorkspaceId) (type : HandleType)
    (payload : Payload) : (t.mint now ws type payload).2.row ⟨type, t.next⟩ =
      some (t.mint now ws type payload).1 := by
  rw [row_mint, hn.row_next, if_pos rfl]
  rfl

end HandleTable

theorem World.grows_exec {w w' : World} {o : Op} {c : Choice} {a : Except Exn o.Ans}
    (he : w.exec o c = some (a, w')) : w.handles.Grows w'.handles := by
  by_cases hs : ∃ ho, o = .handles ho
  · obtain ⟨ho, rfl⟩ := hs
    rcases World.exec_handles he with ⟨-, -, rfl⟩ | ⟨e, -, rfl⟩
    · exact HandleTable.grows_exec w.clock ho
    · exact .refl _
  · rw [World.exec_handles_eq_self he fun x hx => hs ⟨x, hx⟩]
    exact .refl _

/-- What an edit of the system leaves as it is of where a job belongs. -/
structure Job.Stays (job job' : Job) : Prop where
  moves : job.Moves job'
  workspace : job'.workspace = job.workspace

theorem Job.Stays.registered {t : HandleTable} {job job' : Job} (h : job.Stays job')
    (hjob : job.Registered t) : job'.Registered t := by
  obtain ⟨ws, hws, htype, hjobHandle, hobs⟩ := hjob
  refine ⟨ws, h.workspace.trans hws, ?_, ?_, ?_⟩
  · rw [h.moves.jobHandle]
    exact htype
  · rw [h.moves.jobHandle, h.moves.obsHandle]
    exact hjobHandle
  · rw [h.moves.obsHandle]
    exact hobs

theorem LifecycleEdit.stays_writeRow {edit : Edit} (h : LifecycleEdit edit) (now : Time)
    (rows : List Job) (job : Job) : job.Stays (writeRow now edit rows job) :=
  ⟨h.disciplined.writeRow now rows job, h.writeRow_workspaceId now rows job⟩

/-! ### Notes -/

/-- A `job_` handle that was minted for a job which fills `obsHandle`. -/
structure Minted where
  workspaceId : WorkspaceId
  handle : HandleId
  obsHandle : Option HandleId
  deriving DecidableEq

/-- What is known of a thread: the workspace it acts for, the handles it was shown with their
owners, and the `job_` handle it has minted and not yet given to a job. -/
structure OwnerNotes where
  caller : Option WorkspaceId := none
  owned : List (WorkspaceId × HandleId) := []
  minted : Option Minted := none

/-- The workspace a tool is called for; the passes of the worker act for none. -/
def Origin.caller : Origin → Option WorkspaceId
  | retrieveSubset ws _ _ => some ws
  | retrieveData ws _ _ => some ws
  | rematerialize ws _ _ => some ws
  | cancelRetrieval ws _ _ => some ws
  | exportResult ws _ _ => some ws
  | pinResult ws _ _ _ => some ws
  | emitCube ws _ => some ws
  | _ => none

namespace OwnerNotes

/-- A handle of the workspace has been shown. -/
def shown (n : OwnerNotes) (ws : WorkspaceId) (h : HandleId) : OwnerNotes :=
  { n with owned := (ws, h) :: n.owned }

/-- The notes after an operation. -/
def observe (n : OwnerNotes) : (o : Op) → Except Exn o.Ans → OwnerNotes
  | .handles (.getHandle ws h), .ok _ => n.shown ws h
  | .handles (.findBySignature ws _), .ok (some row) => n.shown ws row.handle
  | .handles (.insertUnique ws _ _), .ok (some row) => n.shown ws row.handle
  | .handles (.putHandle ws type payload), .ok h =>
      { n.shown ws h with
        minted := if type = .job then some ⟨ws, h, payload.obsHandle⟩ else n.minted }
  | .jobs (.create _), .ok _ => { n with minted := none }
  | _, _ => n

/-- A thread that acts for a workspace does so in this workspace only. -/
def ActsIn (n : OwnerNotes) (ws : WorkspaceId) : Prop := ∀ caller ∈ n.caller, caller = ws

/-- A job is created under the `job_` handle that was minted for it, and fills an `obs_` handle of
the same workspace, which its specification names. -/
structure Creates (n : OwnerNotes) (new : NewJob) (ws : WorkspaceId) : Prop where
  actsIn : n.ActsIn ws
  minted : n.minted = some ⟨ws, new.jobHandle, new.obsHandle⟩
  obsHandle : ∃ obs, new.obsHandle = some obs ∧ obs.type = .obs ∧ (ws, obs) ∈ n.owned
  workspace : new.requestSpec.spec.workspaceId = some ws

/-- What a thread may do. -/
def MayDo (n : OwnerNotes) : Op → Prop
  | .jobs (.create new) => ∃ ws, n.Creates new ws
  | .jobs (.transact q edit) =>
      LifecycleEdit edit ∧ ∀ ws ∈ n.caller, ∃ h, q = .getJobByHandle h ∧ (ws, h) ∈ n.owned
  | .jobs (.commit _ _) => False
  | .handles (.putHandle ws _ _) => n.ActsIn ws
  | .handles (.insertUnique ws _ _) => n.ActsIn ws
  | .handles (.updateHandle ws _ _) => n.ActsIn ws
  | .handles (.touchHandle ws _) => n.ActsIn ws
  | _ => True

/-- What a thread can rely on: the rows it is shown are those it asks for, an `obs_` handle found
by its signature is one, and the jobs of a handle it was shown are in the handle's workspace. -/
structure Trusts (n : OwnerNotes) (o : Op) (a : Except Exn o.Ans) : Prop where
  told : o.Told a
  names : o.Names a
  within : ∀ row ∈ o.rowsRead a, ∀ ws h, row.obsHandle = some h → (ws, h) ∈ n.owned →
    h.type = .obs ∧ row.workspace = some ws

/-- What is noted is so. -/
structure Holds (n : OwnerNotes) (w : World) : Prop where
  owned : ∀ ws h, (ws, h) ∈ n.owned → w.handles.owner h = some ws
  minted : ∀ m ∈ n.minted, m.handle.type = .job ∧
    (∃ row, w.handles.row m.handle = some row ∧ row.Names m.workspaceId m.obsHandle) ∧
    ∀ job ∈ w.jobs.rows, job.jobHandle ≠ m.handle

theorem observe_caller (n : OwnerNotes) (o : Op) (a : Except Exn o.Ans) :
    (n.observe o a).caller = n.caller := by
  unfold observe
  split <;> rfl

end OwnerNotes

/-- The monitor of owners. -/
def ownerMonitor (cfg : Settings) : Monitor (service cfg) OwnerNotes where
  start g := { caller := g.caller }
  observe n o a := n.observe o a

/-- Threads act for one workspace, and register the jobs they create. -/
abbrev ownerProtocol (cfg : Settings) : Protocol Api OwnerNotes :=
  (ownerMonitor cfg).protocol OwnerNotes.MayDo OwnerNotes.Trusts

/-- Every job is registered, no two of them have one `job_` handle, and what the threads have
noted is so. -/
structure Registrations {cfg : Settings} (s : (service cfg).State) : Prop where
  numbered : s.world.handles.Numbered
  indexed : s.world.jobs.Indexed
  registered : ∀ job ∈ s.world.jobs.rows, job.Registered s.world.handles
  distinct : (s.world.jobs.rows.map Job.jobHandle).Nodup
  holds : ∀ t ∈ s.threads, ((ownerMonitor cfg).note t).Holds s.world
  exclusive : Exclusive (fun t => ((ownerMonitor cfg).note t).minted.map Minted.handle) s.threads

/-! ### One operation -/

section exec

variable {n : OwnerNotes} {w w' : World} {o : Op} {c : Choice} {a : Except Exn o.Ans}

/-- Rows of jobs stay where they belong, or one is created. -/
theorem OwnerNotes.MayDo.jobs (hmay : n.MayDo o) (he : w.exec o c = some (a, w')) :
    (∃ f : Job → Job, (∀ job : Job, job.Stays (f job)) ∧ w'.jobs.rows = w.jobs.rows.map f) ∨
      ∃ new ws j, o = .jobs (.create new) ∧ n.Creates new ws ∧ (n.observe o a).minted = none ∧
        w'.jobs.rows = w.jobs.rows ++ [new.row w.clock j] := by
  have hsame (h : w'.jobs = w.jobs) : ∃ f : Job → Job, (∀ job : Job, job.Stays (f job)) ∧
      w'.jobs.rows = w.jobs.rows.map f :=
    ⟨id, fun job => ⟨.refl job, rfl⟩, by rw [h, List.map_id]⟩
  by_cases hs : ∃ x, o = .jobs x
  swap
  · exact Or.inl (hsame (World.exec_jobs_eq_self he fun x hx => hs ⟨x, hx⟩))
  obtain ⟨x, rfl⟩ := hs
  rcases World.exec_jobs he with ⟨-, rfl, rfl⟩ | ⟨e, -, rfl⟩
  swap
  · exact Or.inl (hsame rfl)
  cases x with
  | read q => exact Or.inl (hsame rfl)
  | transact q edit =>
    cases hfirst : firstError w.clock edit (q.select w.jobs.rows) with
    | some e => exact Or.inl (hsame (by simp only [JobTable.exec, hfirst]))
    | none =>
      refine Or.inl ⟨writeRow w.clock edit (q.select w.jobs.rows),
        fun job => hmay.1.stays_writeRow _ _ job, ?_⟩
      simp only [JobTable.exec, hfirst]
  | commit rows edit => exact hmay.elim
  | create new =>
    obtain ⟨ws, hcreates⟩ := hmay
    exact Or.inr ⟨new, ws, w.jobs.next, rfl, hcreates, rfl, rfl⟩

theorem OwnerNotes.MayDo.indexed_exec (hmay : n.MayDo o) (he : w.exec o c = some (a, w'))
    (hw : w.jobs.Indexed) : w'.jobs.Indexed := by
  by_cases hs : ∃ x, o = .jobs x
  · obtain ⟨x, rfl⟩ := hs
    rcases World.exec_jobs he with ⟨-, -, rfl⟩ | ⟨e, -, rfl⟩
    · refine hw.exec ?_
      cases x with
      | transact q edit => exact hmay.1.disciplined
      | commit rows edit => exact hmay.elim
      | _ => trivial
    · exact hw
  · rw [World.exec_jobs_eq_self he fun x hx => hs ⟨x, hx⟩]
    exact hw

/-- A job that is created is registered. -/
theorem OwnerNotes.Creates.registered {new : NewJob} {ws : WorkspaceId} (h : n.Creates new ws)
    (hn : n.Holds w) (now : Time) (j : JobId) : (new.row now j).Registered w.handles := by
  obtain ⟨htype, hrow, -⟩ := hn.minted _ h.minted
  obtain ⟨obs, hobs, hobsType, howned⟩ := h.obsHandle
  exact ⟨ws, h.workspace, htype, hrow, obs, hobs, hobsType, hn.owned ws obs howned⟩

theorem OwnerNotes.Creates.fresh {new : NewJob} {ws : WorkspaceId} (h : n.Creates new ws)
    (hn : n.Holds w) : ∀ job ∈ w.jobs.rows, job.jobHandle ≠ new.jobHandle :=
  (hn.minted _ h.minted).2.2

/-- A handle that a thread is shown belongs to the workspace it is noted with. -/
theorem OwnerNotes.owned_observe (hw : w.handles.Numbered) (he : w.exec o c = some (a, w'))
    {ws : WorkspaceId} {h : HandleId} (hmem : (ws, h) ∈ (n.observe o a).owned) :
    (ws, h) ∈ n.owned ∨ w'.handles.owner h = some ws := by
  have hw' := World.exec_numbered he hw
  have hcons {ws' : WorkspaceId} {h' : HandleId} (hmem : (ws, h) ∈ (n.shown ws' h').owned)
      (howner : w'.handles.owner h' = some ws') :
      (ws, h) ∈ n.owned ∨ w'.handles.owner h = some ws := by
    rcases List.mem_cons.1 hmem with heq | hold
    · obtain ⟨rfl, rfl⟩ := Prod.mk.inj heq
      exact Or.inr howner
    · exact Or.inl hold
  have hrow {row : Handle} (hmem : row ∈ w'.handles.rows) :
      w'.handles.owner row.handle = some row.workspaceId := hw'.owner_of_mem hmem
  unfold observe at hmem
  split at hmem
  case h_1 ws' h' row =>
    rcases World.exec_handles he with ⟨-, ha, rfl⟩ | ⟨e, ha, -⟩
    · exact hcons hmem (HandleTable.owner_of_lookup ha.symm)
    · cases ha
  case h_2 ws' s row =>
    rcases World.exec_handles he with ⟨-, ha, rfl⟩ | ⟨e, ha, -⟩
    · have hfound := List.mem_filter.1 (List.mem_of_getLast? (Except.ok.inj ha).symm)
      have hws : row.workspaceId = ws' := by
        have hsig := hfound.2
        unfold Handle.hasSignature at hsig
        simp only [Bool.and_eq_true, decide_eq_true_eq] at hsig
        exact hsig.1.1
      exact hcons hmem (hws ▸ hrow hfound.1)
    · cases ha
  case h_3 ws' type payload row =>
    rcases World.exec_handles he with ⟨-, ha, hw₂⟩ | ⟨e, ha, -⟩
    · rcases HandleTable.exec_insertUnique (t := w.handles) w.clock ws' type payload with
        ⟨-, heq⟩ | ⟨-, heq⟩
      · rw [heq] at ha
        cases ha
      · rw [heq] at ha hw₂
        obtain rfl := Option.some.inj (Except.ok.inj ha)
        refine hcons hmem (hrow ?_)
        rw [hw₂]
        exact List.mem_append_right _ List.mem_cons_self
    · cases ha
  case h_4 ws' type payload h' =>
    rcases World.exec_handles he with ⟨-, ha, hw₂⟩ | ⟨e, ha, -⟩
    · obtain rfl := Except.ok.inj ha
      refine @hcons ws' ⟨type, w.handles.next⟩ hmem ?_
      rw [hw₂]
      exact congrArg (Option.map Handle.workspaceId) (hw.row_minted w.clock ws' type payload)
    · cases ha
  all_goals exact Or.inl hmem

/-- The `job_` handle a thread has minted is the one it had, or it is there now and was not
before. -/
theorem OwnerNotes.minted_observe (hw : w.handles.Numbered) (he : w.exec o c = some (a, w'))
    {m : Minted} (hm : (n.observe o a).minted = some m) :
    n.minted = some m ∨ w.handles.row m.handle = none ∧ m.handle.type = .job ∧
      ∃ row, w'.handles.row m.handle = some row ∧ row.Names m.workspaceId m.obsHandle := by
  unfold observe at hm
  split at hm
  case h_4 ws type payload h =>
    dsimp only at hm
    split_ifs at hm with htype
    · subst htype
      obtain rfl := Option.some.inj hm
      rcases World.exec_handles he with ⟨-, ha, rfl⟩ | ⟨e, ha, -⟩
      · obtain rfl := Except.ok.inj ha
        exact Or.inr ⟨hw.row_next .job, rfl, _, hw.row_minted w.clock ws .job payload, rfl, rfl⟩
      · cases ha
    · exact Or.inl hm
  case h_5 => cases hm
  all_goals exact Or.inl hm

/-- What is noted stays so, whatever the thread does next. -/
theorem OwnerNotes.Holds.observe (hn : n.Holds w) (hw : w.handles.Numbered)
    (hjobs : ∀ job ∈ w.jobs.rows, job.Registered w.handles) (hmay : n.MayDo o)
    (he : w.exec o c = some (a, w')) : (n.observe o a).Holds w' := by
  have hgrows := World.grows_exec he
  refine ⟨fun ws h hmem => ?_, fun m hm => ?_⟩
  · exact (owned_observe hw he hmem).elim (fun hold => hgrows.owner (hn.owned ws h hold)) id
  · have hm : (n.observe o a).minted = some m := hm
    rcases hmay.jobs he with ⟨f, hf, hrows⟩ | ⟨new, ws, j, -, -, hnone, -⟩
    · have hnew (hold : ∀ job ∈ w.jobs.rows, job.jobHandle ≠ m.handle) :
          ∀ job ∈ w'.jobs.rows, job.jobHandle ≠ m.handle := by
        intro job' hjob'
        rw [hrows] at hjob'
        obtain ⟨job, hjob, rfl⟩ := List.mem_map.1 hjob'
        rw [(hf job).moves.jobHandle]
        exact hold job hjob
      rcases minted_observe hw he hm with hold | ⟨hnone, htype, hrow⟩
      · obtain ⟨htype, hrow, hfresh⟩ := hn.minted m hold
        exact ⟨htype, hgrows.names hrow, hnew hfresh⟩
      · refine ⟨htype, hrow, hnew fun job hjob heq => ?_⟩
        obtain ⟨ws, -, -, ⟨row, hthere, -⟩, -⟩ := hjobs job hjob
        rw [heq, hnone] at hthere
        cases hthere
    · rw [hnone] at hm
      cases hm

/-- What another thread has noted stays so. -/
theorem OwnerNotes.Holds.others {m : OwnerNotes} (hm : m.Holds w) (hmay : n.MayDo o)
    (he : w.exec o c = some (a, w'))
    (hapart : ∀ h, m.minted.map Minted.handle = some h → n.minted.map Minted.handle ≠ some h) :
    m.Holds w' := by
  have hgrows := World.grows_exec he
  refine ⟨fun ws h hmem => hgrows.owner (hm.owned ws h hmem), fun x hx => ?_⟩
  obtain ⟨htype, hrow, hfresh⟩ := hm.minted x hx
  refine ⟨htype, hgrows.names hrow, fun job' hjob' => ?_⟩
  rcases hmay.jobs he with ⟨f, hf, hrows⟩ | ⟨new, ws, j, -, hcreates, -, hrows⟩
  · rw [hrows] at hjob'
    obtain ⟨job, hjob, rfl⟩ := List.mem_map.1 hjob'
    rw [(hf job).moves.jobHandle]
    exact hfresh job hjob
  · rw [hrows] at hjob'
    rcases List.mem_append.1 hjob' with hold | hnew
    · exact hfresh job' hold
    · obtain rfl := List.mem_singleton.1 hnew
      intro heq
      refine hapart x.handle (by rw [Option.mem_def.1 hx, Option.map_some]) ?_
      rw [hcreates.minted, Option.map_some]
      exact congrArg some heq

/-- What the thread is told can be relied on. -/
theorem OwnerNotes.Holds.trusts (hn : n.Holds w)
    (hjobs : ∀ job ∈ w.jobs.rows, job.Registered w.handles) (he : w.exec o c = some (a, w')) :
    n.Trusts o a := by
  refine ⟨World.told he, World.names he, fun row hrow ws h hobs howned => ?_⟩
  obtain ⟨ws', hws', -, -, obs, hobs', hobsType, howner⟩ := hjobs row (World.rowsRead_mem he hrow).1
  obtain rfl := Option.some.inj (hobs.symm.trans hobs')
  obtain rfl := Option.some.inj ((hn.owned ws h howned).symm.trans howner)
  exact ⟨hobsType, hws'⟩

end exec

/-! ### The invariant -/

section registry

variable {cfg : Settings} {s : (service cfg).State}

/-- Every operation that a thread may do keeps the registry. -/
theorem Registrations.act (h : Registrations s) {i : ℕ} {t : (service cfg).Thread} {o : Op}
    {k : Except Exn o.Ans → Program Outcome} {c : Choice} {a : Except Exn o.Ans} {w : World}
    (ht : s.threads[i]? = some t) (hmay : ((ownerMonitor cfg).note t).MayDo o)
    (he : s.world.exec o c = some (a, w)) :
    ((ownerMonitor cfg).note t).Trusts o a ∧
      @Registrations cfg ⟨w, s.threads.set i (t.advance o a k)⟩ := by
  have hmem := List.mem_of_getElem? ht
  have hn := h.holds t hmem
  have hgrows := World.grows_exec he
  refine ⟨hn.trusts h.registered he, World.exec_numbered he h.numbered,
    hmay.indexed_exec he h.indexed, ?_, ?_, ?_, ?_⟩
  · intro job' hjob'
    rcases hmay.jobs he with ⟨f, hf, hrows⟩ | ⟨new, ws, j, -, hcreates, -, hrows⟩
    · rw [hrows] at hjob'
      obtain ⟨job, hjob, rfl⟩ := List.mem_map.1 hjob'
      exact (hf job).registered (hgrows.registered (h.registered job hjob))
    · rw [hrows] at hjob'
      rcases List.mem_append.1 hjob' with hold | hnew
      · exact hgrows.registered (h.registered job' hold)
      · obtain rfl := List.mem_singleton.1 hnew
        exact hgrows.registered (hcreates.registered hn _ _)
  · rcases hmay.jobs he with ⟨f, hf, hrows⟩ | ⟨new, ws, j, -, hcreates, -, hrows⟩
    · have hsame : w.jobs.rows.map Job.jobHandle = s.world.jobs.rows.map Job.jobHandle := by
        rw [hrows, List.map_map]
        exact List.map_congr_left fun job _ => (hf job).moves.jobHandle
      rw [hsame]
      exact h.distinct
    · rw [hrows, List.map_append, List.map_singleton]
      refine List.Nodup.append h.distinct (List.nodup_singleton _) ?_
      rw [List.disjoint_singleton]
      intro hmem
      obtain ⟨job, hjob, heq⟩ := List.mem_map.1 hmem
      exact hcreates.fresh hn job hjob heq
  · intro u hu
    obtain ⟨j, hj⟩ := List.getElem?_of_mem hu
    rcases getElem?_set_cases hj with ⟨-, rfl⟩ | ⟨hne, hold⟩
    · rw [Monitor.note_advance]
      exact hn.observe h.numbered h.registered hmay he
    · refine (h.holds u (List.mem_of_getElem? hold)).others hmay he fun k hk hk' => ?_
      exact hne (h.exclusive j i u t k hold ht hk hk')
  · refine h.exclusive.set ht fun k hk => ?_
    rw [Monitor.note_advance] at hk
    obtain ⟨m, hm, rfl⟩ := Option.map_eq_some_iff.1 hk
    rcases OwnerNotes.minted_observe h.numbered he hm with hold | ⟨hnone, -, -⟩
    · exact Or.inl (by rw [hold, Option.map_some])
    · refine Or.inr fun u hu hk' => ?_
      obtain ⟨m', hm', heq⟩ := Option.map_eq_some_iff.1 hk'
      obtain ⟨-, ⟨row, hrow, -⟩, -⟩ := (h.holds u hu).minted m' hm'
      rw [heq, hnone] at hrow
      cases hrow

/-- A step of the environment keeps the registry. -/
theorem Registrations.env (h : Registrations s) {e : EnvStep} {w : World} {gs : List Origin}
    (he : e.exec s.world = some (w, gs)) :
    @Registrations cfg ⟨w, s.threads ++ gs.map (service cfg).spawn⟩ := by
  obtain ⟨-, hjobs, hhandles, -, -⟩ := EnvStep.exec_frame he
  have hholds {n : OwnerNotes} (hn : n.Holds s.world) : n.Holds w :=
    ⟨fun ws h hmem => hhandles ▸ hn.owned ws h hmem, fun m hm => by
      rw [hhandles, hjobs]
      exact hn.minted m hm⟩
  refine ⟨by rw [hhandles]; exact h.numbered, by rw [hjobs]; exact h.indexed, ?_,
    by rw [hjobs]; exact h.distinct, ?_, ?_⟩
  · rw [hjobs, hhandles]
    exact h.registered
  · intro u hu
    rcases List.mem_append.1 hu with hold | hnew
    · exact hholds (h.holds u hold)
    · obtain ⟨g, -, rfl⟩ := List.mem_map.1 hnew
      exact ⟨fun ws h hmem => (by cases hmem), fun m hm => (by cases hm)⟩
  · refine h.exclusive.append fun u hu => ?_
    obtain ⟨g, -, rfl⟩ := List.mem_map.1 hu
    rfl

theorem registry_initial : @Registrations cfg initial :=
  ⟨rfl, rfl, fun _ h => (by cases h), List.nodup_nil, fun _ h => (by cases h), .nil⟩

/-- The row that is found by its `job_` handle is the only one with that handle. -/
theorem Registrations.select_getJobByHandle (h : Registrations s) {job : Job}
    (hjob : job ∈ s.world.jobs.rows) :
    (JobQuery.getJobByHandle job.jobHandle).select s.world.jobs.rows = [job] := by
  show (s.world.jobs.rows.find? fun row => row.jobHandle = job.jobHandle).toList = [job]
  cases hfind : s.world.jobs.rows.find? fun row => row.jobHandle = job.jobHandle with
  | none => exact absurd (List.find?_eq_none.1 hfind job hjob) (by simp)
  | some row =>
    have hhandle : row.jobHandle = job.jobHandle := by simpa using List.find?_some hfind
    rw [List.inj_on_of_nodup_map h.distinct (List.mem_of_find?_eq_some hfind) hjob hhandle]
    rfl

end registry

end EarthdataMcp
