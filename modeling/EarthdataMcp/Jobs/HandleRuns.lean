import EarthdataMcp.Jobs.WorkPrograms

/-!
# Handles and their jobs over a run

The status of a handle and the jobs behind it, over every run of the service, seen through the
notes of the threads.

* `HandleTable.status` and `JobTable.latest`, the two copies of what has become of a result;
* `Change`: what one operation does to handles and jobs, and `exec_change`;
* `HandleRun`, what holds along every run: rows are numbered, jobs fill `obs_` handles that are
  there, and what a thread was shown is still so;
* `reach_handles`: an invariant of handles and jobs that every change keeps.
-/

namespace EarthdataMcp

open Concurrency Concurrency.Prog Concurrency.System

/-! ### The two copies -/

/-- The status stored on a handle. -/
def HandleTable.status (t : HandleTable) (h : HandleId) : Option HandleStatus :=
  (t.row h).bind fun row => row.payload.status

/-- The latest job of a handle, the row that `get_job_by_obs_handle` selects. -/
def JobTable.latest (t : JobTable) (h : HandleId) : Option Job :=
  (t.rows.filter fun job => job.obsHandle = some h).getLast?

/-- What a handle's status becomes. -/
theorem HandleTable.status_updated {t : HandleTable} {now : Time} {u : PayloadUpdate}
    {h : HandleId} {row : Handle} (hrow : t.row h = some row) (h' : HandleId) :
    (t.modify h (Handle.updated now u)).status h' =
      if h' = h then u.status.or (t.status h) else t.status h' := by
  unfold status
  rw [row_updated]
  split_ifs with heq
  · rw [hrow]
    show (row.updated now u).payload.status = _
    rw [Handle.updated_payload, Payload.merge_status]
    rfl
  · rfl

theorem HandleTable.status_touched {t : HandleTable} {now : Time} {h : HandleId} (h' : HandleId) :
    (t.modify h (Handle.touched now)).status h' = t.status h' := by
  unfold status
  rw [row_touched]
  split_ifs with heq
  · subst heq
    cases t.row h' <;> rfl
  · rfl

theorem HandleTable.Numbered.status_mint {t : HandleTable} (ht : t.Numbered) (now : Time)
    (ws : WorkspaceId) (type : HandleType) (payload : Payload) (h : HandleId) :
    (t.mint now ws type payload).2.status h =
      if h = ⟨type, t.next⟩ then payload.status else t.status h := by
  unfold status
  rw [row_mint]
  split_ifs with heq
  · rw [heq, ht.row_next]
    rfl
  · rw [Option.or_none]

namespace JobTable

variable {t : JobTable} {h : HandleId}

theorem latest_eq (t : JobTable) (h : HandleId) :
    (JobQuery.getJobByObsHandle h).select t.rows = (t.latest h).toList := rfl

theorem mem_of_latest {job : Job} (hjob : t.latest h = some job) :
    job ∈ t.rows ∧ job.obsHandle = some h := by
  obtain ⟨hmem, hobs⟩ := List.mem_filter.1 (List.mem_of_getLast? hjob)
  exact ⟨hmem, by simpa using hobs⟩

/-- A handle that has a job has a latest one. -/
theorem latest_of_mem {job : Job} (hjob : job ∈ t.rows) (hobs : job.obsHandle = some h) :
    ∃ last, t.latest h = some last := by
  have hmem : job ∈ t.rows.filter fun job => job.obsHandle = some h :=
    List.mem_filter.2 ⟨hjob, by simpa using hobs⟩
  exact ⟨_, List.getLast?_eq_some_getLast (List.ne_nil_of_mem hmem)⟩

theorem latest_map {f : Job → Job} (hf : ∀ job, (f job).obsHandle = job.obsHandle) :
    JobTable.latest { t with rows := t.rows.map f } h = (t.latest h).map f := by
  unfold latest
  dsimp only
  rw [List.filter_map, List.getLast?_map]
  simp only [Function.comp_def, hf]

theorem latest_create (new : NewJob) (now : Time) (j : JobId) (minted : List (Option Credential)) :
    JobTable.latest { rows := t.rows ++ [new.row now j], minted } h =
      if new.obsHandle = some h then some (new.row now j) else t.latest h := by
  unfold latest
  dsimp only
  rw [List.filter_append, List.filter_singleton]
  split_ifs with hnew
  · simp [NewJob.row, hnew]
  · simp [NewJob.row, hnew]

end JobTable

/-! ### Changes -/

/-- What an operation does to handles and jobs, for a thread that knows `n` before it and `n'`
after it. -/
inductive Change (n : HandleNotes) (w : World) : Op → HandleNotes → World → Prop
  /-- A status is written to a handle. -/
  | mark {ws h u n' w'} (status : HandleStatus) (hu : u.status = some status)
      (hwrites : n.Writes h status) (hrow : ∃ row, w.handles.row h = some row)
      (hstatus : ∀ h', w'.handles.status h' = if h' = h then some status else w.handles.status h')
      (hjobs : w'.jobs = w.jobs) (hwork : n'.work = some (HandleNotes.begun h status)) :
      Change n w (.handles (.updateHandle ws h u)) n' w'
  /-- A handle is minted; an `obs_` handle is pending. -/
  | mint {o n' w'} (h : HandleId) (hrow : w.handles.row h = none)
      (hobs : h.type = .obs → w'.handles.status h = some .pending)
      (hstatus : ∀ h', h' ≠ h → w'.handles.status h' = w.handles.status h')
      (hjobs : w'.jobs = w.jobs) (hwork : n'.work = n.work) : Change n w o n' w'
  /-- A job is created. -/
  | create {n' w'} (new : NewJob) (hcreates : n.Creates new) (hhandles : w'.handles = w.handles)
      (hjobs : w'.jobs = (w.jobs.exec w.clock (.create new)).2)
      (hwork : n'.work = HandleNotes.filled new n.work) :
      Change n w (.jobs (.create new)) n' w'
  /-- Jobs are written. -/
  | transact {n' w'} (q : JobQuery) (edit : Edit)
      (hmay : n.Transacts q edit)
      (hhandles : w'.handles = w.handles)
      (hok : firstError w.clock edit (q.select w.jobs.rows) = none)
      (hjobs : w'.jobs =
        { w.jobs with rows := w.jobs.rows.map (writeRow w.clock edit (q.select w.jobs.rows)) })
      (hwork : n'.work = HandleNotes.completed n.work) :
      Change n w (.jobs (.transact q edit)) n' w'
  /-- Neither a status nor a job changes. -/
  | still {o n' w'} (hstatus : ∀ h, w'.handles.status h = w.handles.status h)
      (hjobs : w'.jobs = w.jobs) (hwork : n'.work = n.work) : Change n w o n' w'

/-- An operation that raises changes nothing of what has been begun. -/
theorem HandleNotes.work_error (n : HandleNotes) (o : Op) (e : Exn) :
    (n.observe o (.error e)).work = n.work := by
  unfold observe
  split <;> first | rfl | (rename_i heq; cases heq)

section change

variable {n : HandleNotes} {w w' : World} {o : Op} {c : Choice} {a : Except Exn o.Ans}

theorem exec_change (hn : w.handles.Numbered) (hmay : n.MayDo o)
    (he : w.exec o c = some (a, w')) : Change n w o (n.observe o a) w' := by
  cases o with
  | jobs o =>
    rcases World.exec_jobs he with ⟨-, rfl, rfl⟩ | ⟨e, rfl, rfl⟩
    · cases o with
      | read q => exact .still (fun _ => rfl) rfl (by cases q <;> rfl)
      | transact q edit =>
        rcases World.exec_transact he with ⟨hok, ha, hw⟩ | ⟨e, ha, hw⟩
        · rw [ha]
          refine .transact q edit hmay rfl hok ?_ rfl
          simp only [JobTable.exec, hok]
        · rw [ha, hw]
          exact .still (fun _ => rfl) rfl rfl
      | commit rows edit => exact hmay.elim
      | create new => exact .create new hmay rfl rfl rfl
    · exact .still (fun _ => rfl) rfl (HandleNotes.work_error _ _ _)
  | handles o =>
    rcases World.exec_handles he with ⟨-, rfl, rfl⟩ | ⟨e, rfl, rfl⟩
    · have hmint (ws : WorkspaceId) (type : HandleType) (payload : Payload)
          (hpending : type = .obs → payload.status = some .pending) {n' : HandleNotes}
          (hwork : n'.work = n.work) {op : Op} {w' : World}
          (hhandles : w'.handles = (w.handles.mint w.clock ws type payload).2)
          (hjobs : w'.jobs = w.jobs) : Change n w op n' w' := by
        refine .mint ⟨type, w.handles.next⟩ (hn.row_next type) (fun htype => ?_)
          (fun h' hne => ?_) hjobs hwork
        · rw [hhandles, hn.status_mint, if_pos rfl]
          exact hpending htype
        · rw [hhandles, hn.status_mint, if_neg hne]
      cases o with
      | getHandle ws h =>
        refine .still (fun _ => rfl) rfl ?_
        cases hl : w.handles.lookup ws h <;> simp only [HandleTable.exec, hl] <;> rfl
      | findBySignature ws s =>
        refine .still (fun _ => rfl) rfl ?_
        simp only [HandleTable.exec]
        cases (w.handles.rows.filter (Handle.hasSignature ws s)).getLast? <;> rfl
      | listHandles ws type => exact .still (fun _ => rfl) rfl rfl
      | selectEvictable => exact .still (fun _ => rfl) rfl rfl
      | putHandle ws type payload => refine hmint ws type payload hmay ?_ ?_ ?_ <;> rfl
      | insertUnique ws type payload =>
        rcases HandleTable.exec_insertUnique (t := w.handles) w.clock ws type payload with
          ⟨-, h⟩ | ⟨-, h⟩
        · rw [h]
          exact .still (fun _ => rfl) rfl rfl
        · rw [h]
          refine hmint ws type payload hmay ?_ ?_ ?_ <;> rfl
      | updateHandle ws h u =>
        cases hl : w.handles.lookup ws h with
        | error e =>
          simp only [HandleTable.exec, hl]
          exact .still (fun _ => rfl) rfl rfl
        | ok row =>
          have hrow := (HandleTable.lookup_eq_ok_iff.1 hl).1
          have hwork : (n.observe (.handles (.updateHandle ws h u)) (.ok (row.updated w.clock u))).work =
            (u.status.map (HandleNotes.begun h)).or n.work := rfl
          simp only [HandleTable.exec, hl]
          cases hu : u.status with
          | none =>
            refine .still (fun h' => ?_) rfl (by rw [hwork, hu]; rfl)
            rw [HandleTable.status_updated hrow, hu]
            split_ifs with heq
            · rw [heq]
              rfl
            · rfl
          | some status =>
            refine .mark status hu (hmay status hu) ⟨row, hrow⟩ (fun h' => ?_) rfl
              (by rw [hwork, hu]; rfl)
            rw [HandleTable.status_updated hrow, hu]
            rfl
      | touchHandle ws h =>
        cases hl : w.handles.lookup ws h with
        | error e =>
          simp only [HandleTable.exec, hl]
          exact .still (fun _ => rfl) rfl rfl
        | ok row =>
          simp only [HandleTable.exec, hl]
          exact .still (fun h' => HandleTable.status_touched h') rfl rfl
    · exact .still (fun _ => rfl) rfl (HandleNotes.work_error _ _ _)
  | _ =>
    obtain ⟨-, hjobs, hhandles, -⟩ := World.exec_frame he
    refine .still (fun h => ?_) (hjobs (by simp)) (by cases a <;> rfl)
    rw [hhandles (by simp)]

/-! ### What lasts -/

theorem Job.Keeps.stamp {now : Time} {job job' : Job} (h : job.Keeps job') :
    job.Keeps (job.stamp now job') := by
  refine ⟨h.moves.stamp, fun hspec => ?_⟩
  have hobs : (job.stamp now job').obsHandle = job'.obsHandle :=
    h.moves.stamp.obsHandle.trans h.moves.obsHandle.symm
  unfold Job.SpecFor
  rw [Job.stamp_requestSpec, hobs]
  exact h.specFor hspec

theorem Edit.Keeps.writeRow {edit : Edit} (h : edit.Keeps) (now : Time) (rows : List Job)
    (job : Job) : job.Keeps (writeRow now edit rows job) := by
  rcases writeRow_cases now edit rows job with heq | ⟨job', -, hok, heq⟩
  · rw [heq]
    exact ⟨.refl job, id⟩
  · rw [heq]
    exact (h now job job' hok).stamp

/-- Every transaction that is allowed keeps a row's identity and what its specification names. -/
theorem HandleNotes.keeps_of_mayTransact {q : JobQuery} {edit : Edit}
    (hmay : n.Transacts q edit) : edit.Keeps := by
  rcases hmay with ⟨-, hordinary⟩ | ⟨j, extra, -, rfl, -⟩ | ⟨h, -, -, rfl⟩
  · exact hordinary.keeps
  · exact enterState_keeps _ _
  · exact expireReady_keeps

/-- Rows of jobs change in place, or one is created. -/
theorem Change.jobs {n' : HandleNotes} (h : Change n w o n' w') :
    (∃ f : Job → Job, (∀ job : Job, job.Keeps (f job)) ∧
        w'.jobs = { w.jobs with rows := w.jobs.rows.map f }) ∨
      ∃ new, n.Creates new ∧ w'.jobs = (w.jobs.exec w.clock (.create new)).2 := by
  cases h with
  | create new hcreates _ hjobs _ => exact Or.inr ⟨new, hcreates, hjobs⟩
  | transact q edit hmay _ _ hjobs _ =>
    exact Or.inl ⟨_, fun job => (HandleNotes.keeps_of_mayTransact hmay).writeRow _ _ job, hjobs⟩
  | mark status _ _ _ _ hjobs _ =>
    exact Or.inl ⟨id, fun job => ⟨.refl job, id⟩, by rw [List.map_id]; exact hjobs⟩
  | mint h _ _ _ hjobs _ =>
    exact Or.inl ⟨id, fun job => ⟨.refl job, id⟩, by rw [List.map_id]; exact hjobs⟩
  | still _ hjobs _ =>
    exact Or.inl ⟨id, fun job => ⟨.refl job, id⟩, by rw [List.map_id]; exact hjobs⟩

/-- Every row of a job lives on. -/
theorem Change.job_lasts {n' : HandleNotes} (h : Change n w o n' w') {job : Job}
    (hjob : job ∈ w.jobs.rows) : ∃ job' ∈ w'.jobs.rows, job.Moves job' := by
  rcases h.jobs with ⟨f, hf, heq⟩ | ⟨new, -, heq⟩
  · exact ⟨f job, heq ▸ List.mem_map_of_mem hjob, (hf job).moves⟩
  · exact ⟨job, heq ▸ List.mem_append_left _ hjob, .refl job⟩

/-- No row of the `handles` table is removed. -/
theorem World.row_lasts (he : w.exec o c = some (a, w')) {h : HandleId}
    (hrow : (w.handles.row h).isSome) : (w'.handles.row h).isSome := by
  by_cases hs : ∃ ho, o = .handles ho
  · obtain ⟨ho, rfl⟩ := hs
    rcases World.exec_handles he with ⟨-, -, rfl⟩ | ⟨e, -, rfl⟩
    · show ((w.handles.exec w.clock ho).2.row h).isSome
      rcases HandleTable.exec_cases (t := w.handles) w.clock ho with heq | ⟨ws, h', u, row, -, -, heq⟩ |
        ⟨ws, h', -, heq⟩ | ⟨ws, type, payload, -, heq⟩
      · rw [heq]
        exact hrow
      · rw [heq, HandleTable.row_modify fun row => Handle.updated_handle w.clock u row,
          Option.isSome_map]
        exact hrow
      · rw [heq, HandleTable.row_modify (f := Handle.touched w.clock) fun row => rfl,
          Option.isSome_map]
        exact hrow
      · rw [heq, HandleTable.row_mint, Option.isSome_or, hrow]
        rfl
    · exact hrow
  · rw [World.exec_handles_eq_self he fun x hx => hs ⟨x, hx⟩]
    exact hrow

/-- Every `obs_` handle has a status. -/
def HandleTable.ObsStatus (t : HandleTable) : Prop :=
  ∀ row ∈ t.rows, row.handle.type = .obs → row.payload.status.isSome

theorem World.obsStatus_exec (hmay : n.MayDo o) (he : w.exec o c = some (a, w'))
    (hw : w.handles.ObsStatus) : w'.handles.ObsStatus := by
  by_cases hs : ∃ ho, o = .handles ho
  swap
  · rw [World.exec_handles_eq_self he fun x hx => hs ⟨x, hx⟩]
    exact hw
  obtain ⟨ho, rfl⟩ := hs
  rcases World.exec_handles he with ⟨-, -, rfl⟩ | ⟨e, -, rfl⟩
  swap
  · exact hw
  show (w.handles.exec w.clock ho).2.ObsStatus
  rcases HandleTable.exec_cases (t := w.handles) w.clock ho with heq | ⟨ws, h, u, row, -, -, heq⟩ |
    ⟨ws, h, -, heq⟩ | ⟨ws, type, payload, hmint, heq⟩
  · rw [heq]
    exact hw
  · rw [heq]
    intro row' hrow' htype
    obtain ⟨r, hr, rfl⟩ := List.mem_map.1 hrow'
    split_ifs at htype ⊢
    · rw [Handle.updated_handle] at htype
      rw [Handle.updated_payload, Payload.merge_status, Option.isSome_or, hw r hr htype,
        Bool.or_true]
    · exact hw r hr htype
  · rw [heq]
    intro row' hrow' htype
    obtain ⟨r, hr, rfl⟩ := List.mem_map.1 hrow'
    split_ifs at htype ⊢ <;> exact hw r hr htype
  · rw [heq]
    intro row' hrow' htype
    rcases List.mem_append.1 hrow' with hold | hnew
    · exact hw row' hold htype
    · obtain rfl := List.mem_singleton.1 hnew
      have hpending : payload.status = some .pending := by
        rcases hmint with rfl | rfl <;> exact hmay htype
      show payload.status.isSome
      rw [hpending]
      rfl

/-- A handle that a thread comes to know is there. -/
theorem World.known_exec (hn : w.handles.Numbered) (he : w.exec o c = some (a, w')) {h : HandleId}
    (hh : h ∈ (n.observe o a).known) : h ∈ n.known ∨ (w'.handles.row h).isSome := by
  have hn' := World.exec_numbered he hn
  have hmem {row : Handle} (hrow : row ∈ w'.handles.rows) :
      (w'.handles.row row.handle).isSome := by
    rw [hn'.row_eq hrow]
    rfl
  have hshown {row : Handle} (hrow : row ∈ w'.handles.rows)
      (hh : h ∈ (n.shown row).known) : h ∈ n.known ∨ (w'.handles.row h).isSome := by
    rcases List.mem_cons.1 hh with rfl | hold
    · exact Or.inr (hmem hrow)
    · exact Or.inl hold
  unfold HandleNotes.observe at hh
  split at hh
  case h_1 ws h' row =>
    rcases World.exec_handles he with ⟨-, ha, rfl⟩ | ⟨e, ha, -⟩
    · exact hshown (HandleTable.lookup_eq_ok ha.symm).1 hh
    · cases ha
  case h_2 ws s row =>
    rcases World.exec_handles he with ⟨-, ha, rfl⟩ | ⟨e, ha, -⟩
    · have hlast := Except.ok.inj ha
      exact hshown (List.mem_of_mem_filter (List.mem_of_getLast? hlast.symm)) hh
    · cases ha
  case h_3 ws type payload row =>
    rcases World.exec_handles he with ⟨-, ha, rfl⟩ | ⟨e, ha, -⟩
    · rcases HandleTable.exec_insertUnique (t := w.handles) w.clock ws type payload with
        ⟨-, heq⟩ | ⟨-, heq⟩
      · rw [heq] at ha
        cases ha
      · refine hshown ?_ hh
        show row ∈ (w.handles.exec w.clock (.insertUnique ws type payload)).2.rows
        rw [heq] at ha ⊢
        obtain rfl := Option.some.inj (Except.ok.inj ha)
        exact List.mem_append_right _ List.mem_cons_self
    · cases ha
  case h_4 ws type payload h' =>
    rcases World.exec_handles he with ⟨-, ha, rfl⟩ | ⟨e, ha, -⟩
    · rcases List.mem_cons.1 hh with rfl | hold
      · obtain rfl := Except.ok.inj ha
        exact Or.inr (hmem (List.mem_append_right _ List.mem_cons_self))
      · exact Or.inl hold
    · cases ha
  all_goals exact Or.inl hh

/-- What the thread is told about handles. -/
theorem World.names (he : w.exec o c = some (a, w')) : o.Names a := by
  unfold Op.Names
  split
  case h_1 ws h row =>
    rcases World.exec_handles he with ⟨-, ha, -⟩ | ⟨e, ha, -⟩
    · exact (HandleTable.lookup_eq_ok ha.symm).2.1
    · cases ha
  case h_2 ws s row =>
    rcases World.exec_handles he with ⟨-, ha, -⟩ | ⟨e, ha, -⟩
    · have hlast := List.of_mem_filter (List.mem_of_getLast? (Except.ok.inj ha).symm)
      unfold Handle.hasSignature at hlast
      simp only [Bool.and_eq_true, decide_eq_true_eq] at hlast
      exact hlast.1.2
    · cases ha
  case h_3 ws type payload row =>
    rcases World.exec_handles he with ⟨-, ha, -⟩ | ⟨e, ha, -⟩
    · rcases HandleTable.exec_insertUnique (t := w.handles) w.clock ws type payload with
        ⟨-, heq⟩ | ⟨-, heq⟩
      · rw [heq] at ha
        cases ha
      · rw [heq] at ha
        obtain rfl := Option.some.inj (Except.ok.inj ha)
        rfl
    · cases ha
  case h_4 ws type payload h =>
    rcases World.exec_handles he with ⟨-, ha, -⟩ | ⟨e, ha, -⟩
    · obtain rfl := Except.ok.inj ha
      rfl
    · cases ha
  · trivial

end change

/-! ### Runs -/

/-- The handle a piece of work is about. -/
def HandleWork.handle : HandleWork → HandleId
  | fill h => h
  | deliver h => h
  | expire h => h

/-- What holds of handles, jobs and notes along every run. -/
structure HandleRun (w : World) (ns : List HandleNotes) : Prop where
  numbered : w.handles.Numbered
  indexed : w.jobs.Indexed
  good : ∀ job ∈ w.jobs.rows, job.Good
  placed : ∀ job ∈ w.jobs.rows, ∀ h, job.obsHandle = some h → (w.handles.row h).isSome
  obsStatus : w.handles.ObsStatus
  known : ∀ n ∈ ns, ∀ h ∈ n.known, (w.handles.row h).isSome
  worked : ∀ n ∈ ns, ∀ work, n.work = some work → (w.handles.row work.handle).isSome
  delivers : ∀ n ∈ ns, ∀ h, n.work = some (.deliver h) → ∃ j, n.TaskFor j (some h)
  seen : ∀ n ∈ ns, ∀ row ∈ n.seen, ∃ job ∈ w.jobs.rows, row.Moves job

namespace HandleRun

variable {w w' : World} {ns : List HandleNotes} {n : HandleNotes} {o : Op} {c : Choice}
  {a : Except Exn o.Ans}

/-- What a thread is shown is as it can rely on. -/
theorem shows (hrun : HandleRun w ns) (he : w.exec o c = some (a, w')) : o.Shows a where
  told := World.told he
  good row hrow := hrun.good row (World.rowsRead_mem he hrow).1
  names := World.names he

/-- The rows a thread has seen after an operation are still there. -/
theorem seen_exec (hrun : HandleRun w ns) (hn : n ∈ ns) (hmay : n.MayDo o)
    (he : w.exec o c = some (a, w')) {row : Job} (hrow : row ∈ (n.observe o a).seen) :
    ∃ job ∈ w'.jobs.rows, row.Moves job := by
  have hchange := exec_change hrun.numbered hmay he
  have hlast (hold : ∃ job ∈ w.jobs.rows, row.Moves job) : ∃ job ∈ w'.jobs.rows, row.Moves job := by
    obtain ⟨job, hjob, hmoves⟩ := hold
    obtain ⟨job', hjob', hmoves'⟩ := hchange.job_lasts hjob
    exact ⟨job', hjob', hmoves.trans hmoves'⟩
  have hread (rows : List Job) (hrows : o.rowsRead a = rows) (hrow : row ∈ rows ++ n.seen) :
      ∃ job ∈ w'.jobs.rows, row.Moves job := by
    rcases List.mem_append.1 hrow with hnew | hold
    · exact hlast ⟨row, (World.rowsRead_mem he (hrows ▸ hnew)).1, .refl row⟩
    · exact hlast (hrun.seen n hn row hold)
  unfold HandleNotes.observe at hrow
  split at hrow
  case h_6 h rows => exact hread rows rfl hrow
  case h_7 q rows _ => exact hread rows rfl hrow
  case h_8 q edit rows => exact hread rows rfl hrow
  all_goals exact hlast (hrun.seen n hn row hrow)

/-- The handle that is worked on after an operation is there. -/
theorem worked_exec (hrun : HandleRun w ns) (hn : n ∈ ns) (hmay : n.MayDo o)
    (he : w.exec o c = some (a, w')) {work : HandleWork} (hwork : (n.observe o a).work = some work) :
    (w'.handles.row work.handle).isSome := by
  have hold (hwork : n.work = some work) : (w'.handles.row work.handle).isSome :=
    World.row_lasts he (hrun.worked n hn work hwork)
  generalize hn' : n.observe o a = n' at hwork
  have hchange := exec_change hrun.numbered hmay he
  rw [hn'] at hchange
  cases hchange with
  | mark status hu hwrites hrow hstatus hjobs hw =>
    rw [hw] at hwork
    obtain rfl := Option.some.inj hwork
    obtain ⟨row, hrow⟩ := hrow
    have hsome := World.row_lasts he (by rw [hrow]; rfl)
    cases status <;> exact hsome
  | mint h hrow hobs hstatus hjobs hw => exact hold (hw ▸ hwork)
  | create new hcreates hhandles hjobs hw =>
    refine hold ?_
    rw [hw] at hwork
    unfold HandleNotes.filled at hwork
    split at hwork
    · rename_i h heq
      split_ifs at hwork
      rw [heq]
      exact hwork
    · exact hwork
  | transact q edit hmay hhandles hok hjobs hw =>
    refine hold ?_
    rw [hw] at hwork
    unfold HandleNotes.completed at hwork
    split at hwork
    · rename_i h heq
      rw [heq]
      exact hwork
    · cases hwork
  | still hstatus hjobs hw => exact hold (hw ▸ hwork)

/-- A handle that is delivered after an operation is that of the thread's own job. -/
theorem delivers_exec (hrun : HandleRun w ns) (hn : n ∈ ns) (hmay : n.MayDo o)
    (he : w.exec o c = some (a, w')) {h : HandleId}
    (hwork : (n.observe o a).work = some (.deliver h)) :
    ∃ j, (n.observe o a).TaskFor j (some h) := by
  have hle := n.le_observe o a
  have hold (hwork : n.work = some (.deliver h)) : ∃ j, (n.observe o a).TaskFor j (some h) := by
    obtain ⟨j, htask⟩ := hrun.delivers n hn h hwork
    exact ⟨j, htask.mono hle⟩
  generalize hn' : n.observe o a = n' at hwork hle hold
  have hchange := exec_change hrun.numbered hmay he
  rw [hn'] at hchange
  cases hchange with
  | mark status hu hwrites hrow hstatus hjobs hw =>
    rw [hw] at hwork
    cases status with
    | ready =>
      obtain rfl := HandleWork.deliver.inj (Option.some.inj hwork)
      obtain ⟨j, htask⟩ := hwrites.ready rfl
      exact ⟨j, htask.mono hle⟩
    | pending => cases hwork
    | expired => cases hwork
  | mint h hrow hobs hstatus hjobs hw => exact hold (hw ▸ hwork)
  | create new hcreates hhandles hjobs hw =>
    refine hold ?_
    rw [hw] at hwork
    unfold HandleNotes.filled at hwork
    split at hwork
    · split_ifs at hwork
      cases hwork
    · exact hwork
  | transact q edit hmay hhandles hok hjobs hw =>
    rw [hw] at hwork
    unfold HandleNotes.completed at hwork
    split at hwork <;> cases hwork
  | still hstatus hjobs hw => exact hold (hw ▸ hwork)

/-- What holds of the threads after one of them has performed an operation. -/
theorem forall_set {p q : HandleNotes → Prop} {i : ℕ} {n' : HandleNotes}
    (hold : ∀ m ∈ ns, p m) (hkeep : ∀ m, p m → q m) (hn' : q n') : ∀ m ∈ ns.set i n', q m := by
  intro m hm
  rcases List.mem_or_eq_of_mem_set hm with hm | rfl
  · exact hkeep m (hold m hm)
  · exact hn'

theorem act (hrun : HandleRun w ns) {i : ℕ} (hi : ns[i]? = some n) (hmay : n.MayDo o)
    (he : w.exec o c = some (a, w')) : HandleRun w' (ns.set i (n.observe o a)) := by
  have hn := List.mem_of_getElem? hi
  have hchange := exec_change hrun.numbered hmay he
  refine ⟨World.exec_numbered he hrun.numbered, ?_, fun job hjob => ?_, fun job hjob h hobs => ?_,
    World.obsStatus_exec hmay he hrun.obsStatus, ?_, ?_, ?_, ?_⟩
  · rcases hchange.jobs with ⟨f, hf, heq⟩ | ⟨new, -, heq⟩
    · rw [heq]
      exact hrun.indexed.map fun job _ => (hf job).moves.jobId
    · rw [heq]
      exact hrun.indexed.create new w.clock
  · rcases hchange.jobs with ⟨f, hf, heq⟩ | ⟨new, ⟨h, hnew, hfor, hlooks⟩, heq⟩
    · rw [heq] at hjob
      obtain ⟨job, hold, rfl⟩ := List.mem_map.1 hjob
      exact (hrun.good job hold).keeps (hf job)
    · rw [heq] at hjob
      rcases List.mem_append.1 hjob with hold | hnewRow
      · exact hrun.good job hold
      · obtain rfl := List.mem_singleton.1 hnewRow
        refine ⟨?_, fun h' hobs => ?_⟩
        · show new.requestSpec.For new.obsHandle
          rw [hnew]
          exact hfor
        · obtain rfl := Option.some.inj (hnew.symm.trans hobs)
          exact hlooks.2.1
  · rcases hchange.jobs with ⟨f, hf, heq⟩ | ⟨new, ⟨h', hnew, hfor, hlooks⟩, heq⟩
    · rw [heq] at hjob
      obtain ⟨job, hold, rfl⟩ := List.mem_map.1 hjob
      rw [(hf job).moves.obsHandle] at hobs
      exact World.row_lasts he (hrun.placed job hold h hobs)
    · rw [heq] at hjob
      rcases List.mem_append.1 hjob with hold | hnewRow
      · exact World.row_lasts he (hrun.placed job hold h hobs)
      · obtain rfl := List.mem_singleton.1 hnewRow
        obtain rfl := Option.some.inj (hnew.symm.trans hobs)
        exact World.row_lasts he (hrun.known n hn _ hlooks.1)
  · refine forall_set hrun.known (fun m hm h hh => World.row_lasts he (hm h hh)) fun h hh => ?_
    rcases World.known_exec hrun.numbered he hh with hold | hnew
    · exact World.row_lasts he (hrun.known n hn h hold)
    · exact hnew
  · exact forall_set hrun.worked (fun m hm work hw => World.row_lasts he (hm work hw))
      fun work hw => hrun.worked_exec hn hmay he hw
  · exact forall_set hrun.delivers (fun m hm => hm) fun h hw => hrun.delivers_exec hn hmay he hw
  · refine forall_set hrun.seen (fun m hm row hrow => ?_) fun row hrow =>
      hrun.seen_exec hn hmay he hrow
    obtain ⟨job, hjob, hmoves⟩ := hm row hrow
    obtain ⟨job', hjob', hmoves'⟩ := hchange.job_lasts hjob
    exact ⟨job', hjob', hmoves.trans hmoves'⟩

/-- The environment starts threads that know nothing yet. -/
theorem env (hrun : HandleRun w ns) (hjobs : w'.jobs = w.jobs) (hhandles : w'.handles = w.handles)
    (gs : List Origin) : HandleRun w' (ns ++ gs.map HandleNotes.start) := by
  have hstart {p : HandleNotes → Prop} (hold : ∀ m ∈ ns, p m)
      (hfresh : ∀ g, p (HandleNotes.start g)) : ∀ m ∈ ns ++ gs.map HandleNotes.start, p m := by
    intro m hm
    rcases List.mem_append.1 hm with hm | hm
    · exact hold m hm
    · obtain ⟨g, -, rfl⟩ := List.mem_map.1 hm
      exact hfresh g
  have hfresh (g : Origin) : (HandleNotes.start g).known = [] ∧ (HandleNotes.start g).work = none ∧
      (HandleNotes.start g).seen = [] := by
    unfold HandleNotes.start
    split <;> exact ⟨rfl, rfl, rfl⟩
  obtain ⟨h1, h2, h3, h4, h5, h6, h7, h8, h9⟩ := hrun
  rw [← hhandles] at h1 h4 h5 h6 h7
  rw [← hjobs] at h2 h3 h4 h9
  refine ⟨h1, h2, h3, h4, h5, hstart h6 fun g h hh => ?_, hstart h7 fun g work hw => ?_,
    hstart h8 fun g h hw => ?_, hstart h9 fun g row hrow => ?_⟩
  · rw [(hfresh g).1] at hh
    cases hh
  · rw [(hfresh g).2.1] at hw
    cases hw
  · rw [(hfresh g).2.1] at hw
    cases hw
  · rw [(hfresh g).2.2] at hrow
    cases hrow

end HandleRun

section reach

variable {cfg : Settings}

/-- The notes of every thread. -/
def handleNotes (s : (service cfg).State) : List HandleNotes :=
  s.threads.map (handleMonitor cfg).note

/-- The note of thread `i`. -/
theorem handleNotes_getElem? {s : (service cfg).State} {i : ℕ} {t : (service cfg).Thread}
    (ht : s.threads[i]? = some t) : (handleNotes s)[i]? = some ((handleMonitor cfg).note t) := by
  unfold handleNotes
  rw [List.getElem?_map, ht]
  rfl

/-- A property of handles, jobs and notes that every change keeps holds along every run. -/
theorem reach_handles {P : (service cfg).State → (service cfg).Label → (service cfg).State → Prop}
    {inv : World → List HandleNotes → Prop} (hinit : inv {} [])
    (hact : ∀ (s s' : (service cfg).State) i c n n' o, HandleRun s.world (handleNotes s) →
      inv s.world (handleNotes s) → (handleNotes s)[i]? = some n → nextOp s i = some o →
      Change n s.world o n' s'.world → n.Le n' → handleNotes s' = (handleNotes s).set i n' →
      P s (.act i c) s' → inv s'.world (handleNotes s'))
    (henv : ∀ w w' ns (gs : List Origin), inv w ns → w'.jobs = w.jobs → w'.handles = w.handles →
      inv w' (ns ++ gs.map HandleNotes.start))
    {s : (service cfg).State} (h : Reach P initial s) :
    HandleRun s.world (handleNotes s) ∧ inv s.world (handleNotes s) := by
  let Inv (s : (service cfg).State) : Prop :=
    HandleRun s.world (handleNotes s) ∧ inv s.world (handleNotes s)
  suffices hall : (handleMonitor cfg).Conforms (workProtocol cfg) (fun _ => Completes) s ∧ Inv s from
    hall.2
  refine Reach.invariant (fun g => program_work g) ?_ ?_ h ⟨?_, hinit⟩ fun t ht => by cases ht
  · intro s i t o k c a w ⟨hrun, hinv⟩ ht hr hmay he hP
    have hi := handleNotes_getElem? ht
    have hset : handleNotes (⟨w, s.threads.set i (t.advance o a k)⟩ : (service cfg).State) =
        (handleNotes s).set i (((handleMonitor cfg).note t).observe o a) := by
      unfold handleNotes
      rw [List.map_set]
      rfl
    refine ⟨hrun.shows he, ?_, ?_⟩
    · rw [hset]
      exact hrun.act hi hmay he
    · exact hact s _ i c _ _ o hrun hinv hi (nextOp_eq ht hr) (exec_change hrun.numbered hmay he)
        (HandleNotes.le_observe _ _ _) hset hP
  · intro s e w gs ⟨hrun, hinv⟩ he _
    obtain ⟨-, hjobs, hhandles, -⟩ := EnvStep.exec_frame he
    have happend : handleNotes (⟨w, s.threads ++ gs.map (service cfg).spawn⟩ : (service cfg).State) =
        handleNotes s ++ gs.map HandleNotes.start := by
      unfold handleNotes
      rw [List.map_append, List.map_map]
      rfl
    refine ⟨?_, ?_⟩
    · rw [happend]
      exact hrun.env hjobs hhandles gs
    · rw [happend]
      exact henv _ _ _ gs hinv hjobs hhandles
  · exact ⟨rfl, rfl, fun _ h => (by cases h), fun _ h => (by cases h), fun _ h => (by cases h),
      fun _ h => (by cases h), fun _ h => (by cases h), fun _ h => (by cases h),
      fun _ h => (by cases h)⟩

end reach

/-! ### What a transaction makes of a job -/

/-- What a transaction of a thread with these notes makes of a row. -/
inductive Written (n : HandleNotes) (w : World) (job job' : Job) : Prop
  | same (hstate : job'.state = job.state)
  | moves (hlive : ¬ job.state.Terminal) (hlive' : ¬ job'.state.Terminal)
  | dies (hlive : ¬ job.state.Terminal) (hdead : job'.Dead)
  /-- The thread's own job, whose handle it has marked ready. -/
  | delivered (hstate : job.state = .materializing) (hready : job'.state = .ready)
      (hby : ∀ h, job.obsHandle = some h → n.work = some (.deliver h) ∧ n.task = some job.jobId)
  /-- The latest job of a handle it has marked expired. -/
  | expired (h : HandleId) (hready : job.state = .ready) (hexpired : job'.state = .expired)
      (hby : n.work = some (.expire h)) (hlatest : w.jobs.latest h = some job)

/-- A job whose state follows, and is not ready or expired unless it was. -/
theorem JobState.Follows.live_or_dead {s t : JobState} (h : s.Follows t)
    (hfinal : t = .ready ∨ t = .expired → t = s) :
    t = s ∨ ¬ s.Terminal ∧ (¬ t.Terminal ∨ t = .failed ∨ t = .cancelled) := by
  by_cases hs : s.Terminal
  · rcases h.of_terminal hs with heq | ⟨-, ht⟩
    · exact Or.inl heq
    · exact Or.inl (hfinal (Or.inr ht))
  · cases t with
    | ready => exact Or.inl (hfinal (Or.inl rfl))
    | expired => exact Or.inl (hfinal (Or.inr rfl))
    | failed => exact Or.inr ⟨hs, Or.inr (Or.inl rfl)⟩
    | cancelled => exact Or.inr ⟨hs, Or.inr (Or.inr rfl)⟩
    | _ => exact Or.inr ⟨hs, Or.inl (by decide)⟩

/-- The only row that a selection by id writes has that id. -/
theorem eq_of_isAmong_getJob {rows : List Job} {job : Job} {j : JobId}
    (h : job.isAmong ((JobQuery.getJob j).select rows) = true) : job.jobId = j := by
  obtain ⟨row, hrow, hid⟩ := List.any_eq_true.1 h
  have hj : row.jobId = j := JobQuery.matches_of_select hrow
  rw [← hj]
  exact (of_decide_eq_true hid).symm

theorem HandleRun.written {w : World} {ns : List HandleNotes} {n : HandleNotes} {q : JobQuery}
    {edit : Edit} {job : Job} (hrun : HandleRun w ns) (hn : n ∈ ns)
    (hmay : n.Transacts q edit) (hjob : job ∈ w.jobs.rows) :
    Written n w job (writeRow w.clock edit (q.select w.jobs.rows) job) := by
  rcases writeRow_cases w.clock edit (q.select w.jobs.rows) job with heq | ⟨job', hamong, hok, heq⟩
  · exact .same (by rw [heq])
  have hstate : (writeRow w.clock edit (q.select w.jobs.rows) job).state = job'.state := by
    rw [heq, Job.stamp_state]
  rcases hmay with ⟨-, hordinary⟩ | ⟨j, extra, rfl, rfl, hby⟩ | ⟨h, hby, rfl, rfl⟩
  · have hfollows := (hordinary.keeps _ _ _ hok).moves.follows
    rcases hfollows.live_or_dead (hordinary.final _ _ _ hok) with hsame | ⟨hlive, hlive' | hdead⟩
    · exact .same (hstate.trans hsame)
    · exact .moves hlive (hstate ▸ hlive')
    · refine .dies hlive ?_
      unfold Job.Dead
      rw [hstate]
      exact hdead
  · obtain ⟨hlegal, rfl⟩ := setState_eq_ok.1 (enterState_eq_ok hok)
    rw [Job.enter_state] at hstate
    have hid := eq_of_isAmong_getJob hamong
    -- the row the task has seen is this one
    have hown {h : Option HandleId} (htask : n.TaskFor j h) :
        n.task = some job.jobId ∧ job.obsHandle = h := by
      obtain ⟨htask, row, hrow, hrowId, hobs⟩ := htask
      obtain ⟨job'', hjob'', hmoves⟩ := hrun.seen n hn row hrow
      obtain rfl := hrun.indexed.eq_of_jobId hjob hjob''
        (hid.trans (hrowId.symm.trans hmoves.jobId.symm))
      exact ⟨hid ▸ htask, hmoves.obsHandle.trans hobs⟩
    have hmat : job.state = .materializing := by
      revert hlegal
      cases job.state <;> decide
    refine .delivered hmat hstate fun h hobs => ?_
    rcases hby with ⟨-, htask⟩ | ⟨h', hwork, htask⟩
    · rw [(hown htask).2] at hobs
      cases hobs
    · obtain ⟨hid', hobs'⟩ := hown htask
      obtain rfl := Option.some.inj (hobs.symm.trans hobs')
      exact ⟨hwork, hid'⟩
  · have hlatest : w.jobs.latest h = some job := by
      rw [JobTable.latest_eq] at hamong
      obtain ⟨row, hrow, hid⟩ := List.any_eq_true.1 hamong
      have hrow' := Option.mem_toList.1 hrow
      rw [hrow', hrun.indexed.eq_of_jobId (JobTable.mem_of_latest hrow').1 hjob (of_decide_eq_true hid)]
    unfold expireReady at hok
    split_ifs at hok with hready
    · obtain ⟨-, rfl⟩ := setState_eq_ok.1 (enterState_eq_ok hok)
      rw [Job.enter_state] at hstate
      exact .expired h hready hstate hby hlatest
    · obtain rfl := Except.ok.inj hok
      exact .same hstate

/-! ### Work in flight -/

/-- A call has marked the handle pending and has not created its job. -/
def Filling (ns : List HandleNotes) (h : HandleId) : Prop := ∃ n ∈ ns, n.work = some (.fill h)

/-- A task of the job has marked the handle ready and has not marked the job. -/
def Delivering (ns : List HandleNotes) (h : HandleId) (j : JobId) : Prop :=
  ∃ n ∈ ns, n.work = some (.deliver h) ∧ n.task = some j

instance (ns : List HandleNotes) (h : HandleId) : Decidable (Filling ns h) :=
  inferInstanceAs (Decidable (∃ n ∈ ns, _))

instance (ns : List HandleNotes) (h : HandleId) (j : JobId) : Decidable (Delivering ns h j) :=
  inferInstanceAs (Decidable (∃ n ∈ ns, _))

section inFlight

variable {ns : List HandleNotes} {n n' : HandleNotes} {i : ℕ}

/-- What one of the threads had, one of them still has, unless it was this one and is over. -/
theorem exists_set {p : HandleNotes → Prop} (hi : ns[i]? = some n) (hp : p n → p n')
    (h : ∃ m ∈ ns, p m) : ∃ m ∈ ns.set i n', p m := by
  obtain ⟨m, hm, hpm⟩ := h
  obtain ⟨k, hk⟩ := List.mem_iff_getElem?.1 hm
  obtain ⟨hlt, -⟩ := List.getElem?_eq_some_iff.1 hi
  by_cases hki : k = i
  · obtain rfl := hki
    obtain rfl := Option.some.inj (hi.symm.trans hk)
    exact ⟨n', List.mem_set hlt n', hp hpm⟩
  · refine ⟨m, List.mem_iff_getElem?.2 ⟨k, ?_⟩, hpm⟩
    rw [List.getElem?_set_ne (Ne.symm hki)]
    exact hk

/-- What one of the threads has, one of them had, unless it is this one and is new. -/
theorem exists_of_set {p : HandleNotes → Prop} (hi : ns[i]? = some n) (hp : p n' → p n)
    (h : ∃ m ∈ ns.set i n', p m) : ∃ m ∈ ns, p m := by
  obtain ⟨m, hm, hpm⟩ := h
  rcases List.mem_or_eq_of_mem_set hm with hm | rfl
  · exact ⟨m, hm, hpm⟩
  · exact ⟨n, List.mem_of_getElem? hi, hp hpm⟩

/-- Threads that start have not begun anything. -/
theorem exists_append_start {p : HandleNotes → Prop} (gs : List Origin)
    (hp : ∀ g, ¬ p (HandleNotes.start g)) :
    (∃ m ∈ ns ++ gs.map HandleNotes.start, p m) ↔ ∃ m ∈ ns, p m := by
  constructor
  · rintro ⟨m, hm, hpm⟩
    rcases List.mem_append.1 hm with hm | hm
    · exact ⟨m, hm, hpm⟩
    · obtain ⟨g, -, rfl⟩ := List.mem_map.1 hm
      exact absurd hpm (hp g)
  · rintro ⟨m, hm, hpm⟩
    exact ⟨m, List.mem_append_left _ hm, hpm⟩

theorem filling_append_start (gs : List Origin) (h : HandleId) :
    Filling (ns ++ gs.map HandleNotes.start) h ↔ Filling ns h :=
  exists_append_start gs fun g hwork => by
    rw [HandleNotes.start_work] at hwork
    cases hwork

theorem delivering_append_start (gs : List Origin) (h : HandleId) (j : JobId) :
    Delivering (ns ++ gs.map HandleNotes.start) h j ↔ Delivering ns h j :=
  exists_append_start gs fun g hwork => by
    rw [HandleNotes.start_work] at hwork
    cases hwork.1

/-- No task of a job runs that has yet to be created. -/
theorem HandleRun.not_delivering_next {w : World} (hrun : HandleRun w ns) (h : HandleId) :
    ¬ Delivering ns h w.jobs.next := by
  rintro ⟨m, hm, hdeliver, htask⟩
  obtain ⟨j, htask', row, hrow, hid, -⟩ := hrun.delivers m hm h hdeliver
  obtain ⟨job, hjob, hmoves⟩ := hrun.seen m hm row hrow
  obtain rfl := Option.some.inj (htask'.symm.trans htask)
  have hlt := hrun.indexed.known hjob
  rw [hmoves.jobId, hid] at hlt
  exact lt_irrefl _ hlt

/-- A handle is being filled until its job is created. -/
theorem HandleNotes.completed_fill {work : Option HandleWork} {h : HandleId} :
    completed work = some (.fill h) ↔ work = some (.fill h) := by
  constructor
  · intro hfill
    unfold completed at hfill
    split at hfill
    · exact hfill
    · cases hfill
  · rintro rfl
    rfl

theorem HandleNotes.completed_deliver {work : Option HandleWork} {h : HandleId} :
    completed work ≠ some (.deliver h) := by
  unfold completed
  split <;> exact fun hdeliver => by cases hdeliver

theorem HandleNotes.filled_deliver {work : Option HandleWork} {new : NewJob} {h : HandleId} :
    filled new work = some (.deliver h) ↔ work = some (.deliver h) := by
  unfold filled
  split
  · split_ifs <;> constructor <;> intro h <;> cases h
  · exact Iff.rfl

theorem HandleNotes.filled_fill {work : Option HandleWork} {new : NewJob} {h : HandleId}
    (hne : new.obsHandle ≠ some h) : filled new work = some (.fill h) ↔ work = some (.fill h) := by
  unfold filled
  split
  · rename_i h'
    split_ifs with heq
    · constructor
      · intro hfill
        cases hfill
      · intro hfill
        obtain rfl := HandleWork.fill.inj (Option.some.inj hfill)
        exact absurd heq hne
    · exact Iff.rfl
  · exact Iff.rfl

end inFlight

/-! ### A result that is delivered, and evicted -/

/-- A request becomes the job 0 of the handle 0. -/
def requested : List (service .oneKey).Label :=
  call (.retrieveData 0 .plain none) ::
    acts 0 ([.ok, .resolved "C1" none, .capabilities {}, .planned { path := .opendap }] ++
      List.replicate 6 .ok)

/-- The task with this number submits a job, the next one polls it, the one after that delivers
it; threads `i`, `i + 1` and `i + 2`. -/
def delivered (i task : ℕ) : List (service .oneKey).Label :=
  take (.fresh task) ::
    acts i ([.ok, .capabilities {}, .submitted "a"] ++ List.replicate 4 .ok) ++
  take (.fresh (task + 1)) :: acts (i + 1) ([.ok, .capabilities {}] ++ List.replicate 4 .ok) ++
  take (.fresh (task + 2)) ::
    acts (i + 2) ([.ok, .capabilities {},
      .fetched (resultNamed "out")] ++ List.replicate 6 .ok ++
      [.fault (.other "connection lost"), .ok])

/-- A sweep evicts the only result. -/
def evicted (i : ℕ) : List (service .oneKey).Label :=
  call (sweepUnder 0) :: acts i (List.replicate 8 .ok)

/-- Every thread has ended. -/
def Quiescent {cfg : Settings} (s : (service cfg).State) : Prop :=
  ∀ t ∈ s.threads, t.result.isSome = true

instance {cfg : Settings} (s : (service cfg).State) : Decidable (Quiescent s) :=
  inferInstanceAs (Decidable (∀ t ∈ s.threads, _))

end EarthdataMcp
