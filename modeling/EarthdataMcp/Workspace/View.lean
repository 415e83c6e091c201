import EarthdataMcp.Workspace.Registry

/-!
# The rows of a workspace

* `HandleTable.ofWorkspace` and `JobTable.ofWorkspace`, the rows of a workspace, and what the
  methods of the tables make of them;
* `World.Kept`: rows are told apart, fresh ids are free and every job is registered; it holds in
  every state of every run (`Registrations.kept`);
* `World.Kept.select_getJobByHandle`: the jobs of a handle are found among those of its workspace.
-/

namespace EarthdataMcp

open Concurrency Concurrency.Prog Concurrency.System

/-! ### Rows that are picked -/

section pick

variable {α : Type} {p : α → Bool} {f : α → α} {xs : List α}

/-- What is picked after a change that keeps who is picked. -/
theorem filter_map_of_kept (hkeep : ∀ x ∈ xs, p (f x) = p x) :
    (xs.map f).filter p = (xs.filter p).map f := by
  have hsame : xs.filter (p ∘ f) = xs.filter p := List.filter_congr hkeep
  rw [List.filter_map, hsame]

/-- A change that leaves alone whatever is picked leaves what is picked. -/
theorem filter_map_of_fixed (hkeep : ∀ x ∈ xs, p (f x) = p x)
    (hfix : ∀ x ∈ xs, p x = true → f x = x) : (xs.map f).filter p = xs.filter p := by
  rw [filter_map_of_kept hkeep]
  conv_rhs => rw [← List.map_id (xs.filter p)]
  exact List.map_congr_left fun x hx => hfix x (List.mem_of_mem_filter hx) (List.of_mem_filter hx)

theorem find?_of_picked {q : α → Bool} (h : ∀ x ∈ xs, q x = true → p x = true) :
    (xs.filter p).find? q = xs.find? q := by
  rw [List.find?_filter]
  induction xs with
  | nil => rfl
  | cons x xs ih =>
    obtain ⟨hx, hxs⟩ := List.forall_mem_cons.1 h
    rw [List.find?_cons, List.find?_cons, ih hxs]
    cases hq : q x with
    | false => simp
    | true => simp [hx hq]

theorem filter_of_picked {q : α → Bool} (h : ∀ x ∈ xs, q x = true → p x = true) :
    (xs.filter p).filter q = xs.filter q := by
  rw [List.filter_filter]
  refine List.filter_congr fun x hx => ?_
  cases hq : q x with
  | false => rfl
  | true => rw [h x hx hq, Bool.and_self]

end pick

/-! ### The rows of a workspace -/

/-- The handles of a workspace. -/
def HandleTable.ofWorkspace (t : HandleTable) (ws : WorkspaceId) : List Handle :=
  t.rows.filter fun row => row.workspaceId = ws

/-- The jobs of a workspace. -/
def JobTable.ofWorkspace (t : JobTable) (ws : WorkspaceId) : List Job :=
  t.rows.filter fun job => job.workspace = some ws

/-- No two rows have one handle, and the next suffix is free. -/
structure HandleTable.Kept (t : HandleTable) : Prop where
  distinct : (t.rows.map Handle.handle).Nodup
  fresh : ∀ row ∈ t.rows, row.handle.suffix < t.next

/-- No two rows have one id, and the next id is free. -/
structure JobTable.Kept (t : JobTable) : Prop where
  distinct : (t.rows.map Job.jobId).Nodup
  fresh : ∀ job ∈ t.rows, job.jobId < t.next

/-- Rows are told apart, fresh ids are free, and every job is registered. -/
structure World.Kept (w : World) : Prop where
  handles : w.handles.Kept
  jobs : w.jobs.Kept
  registered : ∀ job ∈ w.jobs.rows, job.Registered w.handles

namespace HandleTable

variable {t : HandleTable} {ws ws' : WorkspaceId} {h : HandleId} {row : Handle}

theorem mem_ofWorkspace : row ∈ t.ofWorkspace ws ↔ row ∈ t.rows ∧ row.workspaceId = ws := by
  simp only [ofWorkspace, List.mem_filter, decide_eq_true_eq]

theorem Numbered.kept (hn : t.Numbered) : t.Kept where
  distinct := by
    have hsuffix : ((t.rows.map Handle.handle).map HandleId.suffix).Nodup := by
      rw [List.map_map]
      show (t.rows.map fun row => row.handle.suffix).Nodup
      rw [hn]
      exact List.nodup_range
    exact hsuffix.of_map _
  fresh _ hrow := hn.lt hrow

theorem Kept.row_eq (hk : t.Kept) (hrow : row ∈ t.rows) : t.row row.handle = some row := by
  cases hfind : t.row row.handle with
  | none => exact absurd (List.find?_eq_none.1 hfind row hrow) (by simp)
  | some row' =>
    rw [List.inj_on_of_nodup_map hk.distinct (List.mem_of_find?_eq_some hfind) hrow
      (row_handle hfind)]

/-- A workspace finds the rows that are its own. -/
theorem Kept.lookup_eq_ok_iff (hk : t.Kept) :
    t.lookup ws h = .ok row ↔ row ∈ t.ofWorkspace ws ∧ row.handle = h := by
  rw [HandleTable.lookup_eq_ok_iff, mem_ofWorkspace]
  constructor
  · rintro ⟨hrow, hws⟩
    exact ⟨⟨List.mem_of_find?_eq_some hrow, hws⟩, row_handle hrow⟩
  · rintro ⟨⟨hrow, hws⟩, rfl⟩
    exact ⟨hk.row_eq hrow, hws⟩

theorem Kept.owner_eq_some_iff (hk : t.Kept) :
    t.owner h = some ws ↔ ∃ row ∈ t.ofWorkspace ws, row.handle = h := by
  constructor
  · intro howner
    obtain ⟨row, hrow, hws⟩ := Option.map_eq_some_iff.1 howner
    exact ⟨row, mem_ofWorkspace.2 ⟨List.mem_of_find?_eq_some hrow, hws⟩, row_handle hrow⟩
  · rintro ⟨row, hrow, rfl⟩
    obtain ⟨hmem, rfl⟩ := mem_ofWorkspace.1 hrow
    exact Option.map_eq_some_iff.2 ⟨row, hk.row_eq hmem, rfl⟩

/-- A row that is not the workspace's own is missing, or another's. -/
def Missing (h : HandleId) (e : Exn) : Prop := e = .handleNotFound h ∨ e = .crossWorkspace h

theorem missing_of_lookup {e : Exn} (hl : t.lookup ws h = .error e) : Missing h e := by
  unfold lookup at hl
  split at hl
  · exact Or.inl (Except.error.inj hl).symm
  · split_ifs at hl
    exact Or.inr (Except.error.inj hl).symm

theorem ofWorkspace_modify_self {f : Handle → Handle} (hf : ∀ row : Handle, row.Lasts (f row)) :
    (t.modify h f).ofWorkspace ws =
      (t.ofWorkspace ws).map fun row => if row.handle = h then f row else row := by
  refine filter_map_of_kept fun r _ => ?_
  split_ifs
  · rw [(hf r).workspaceId]
  · rfl

/-- A change of a row of one workspace leaves the rows of every other as they are. -/
theorem ofWorkspace_modify (hk : t.Kept) (hrow : t.row h = some row) {f : Handle → Handle}
    (hf : ∀ row : Handle, row.Lasts (f row)) (hws : row.workspaceId ≠ ws) :
    (t.modify h f).ofWorkspace ws = t.ofWorkspace ws := by
  refine filter_map_of_fixed (fun r _ => ?_) fun r hr hp => ?_
  · split_ifs
    · rw [(hf r).workspaceId]
    · rfl
  · split_ifs with heq
    · rw [← heq, hk.row_eq hr] at hrow
      obtain rfl := Option.some.inj hrow
      exact absurd (of_decide_eq_true hp) hws
    · rfl

section mint

variable (now : Time) (type : HandleType) (payload : Payload)

theorem ofWorkspace_mint_self : (t.mint now ws type payload).2.ofWorkspace ws =
    t.ofWorkspace ws ++ [(t.mint now ws type payload).1] := by
  show (t.rows ++ [_]).filter _ = _
  rw [List.filter_append, List.filter_cons_of_pos (by simp), List.filter_nil]
  rfl

theorem ofWorkspace_mint (hne : ws ≠ ws') :
    (t.mint now ws type payload).2.ofWorkspace ws' = t.ofWorkspace ws' := by
  show (t.rows ++ [_]).filter _ = _
  rw [List.filter_append, List.filter_cons_of_neg (by simpa using hne), List.filter_nil,
    List.append_nil]
  rfl

theorem Kept.row_next (hk : t.Kept) : t.row ⟨type, t.next⟩ = none := by
  refine List.find?_eq_none.2 fun row hrow heq => ?_
  have hlt := hk.fresh row hrow
  rw [of_decide_eq_true heq] at hlt
  exact lt_irrefl _ hlt

theorem Kept.row_minted (hk : t.Kept) : (t.mint now ws type payload).2.row ⟨type, t.next⟩ =
    some (t.mint now ws type payload).1 := by
  rw [row_mint, hk.row_next, if_pos rfl]
  rfl

theorem Kept.mint (hk : t.Kept) : (t.mint now ws type payload).2.Kept where
  distinct := by
    show ((t.rows ++ [_]).map Handle.handle).Nodup
    rw [List.map_append]
    refine hk.distinct.append (List.nodup_singleton _) fun h hmem hnext => ?_
    obtain ⟨row, hrow, rfl⟩ := List.mem_map.1 hmem
    have hlt := hk.fresh row hrow
    rw [List.mem_singleton.1 hnext] at hlt
    exact lt_irrefl _ hlt
  fresh row hrow := by
    rcases List.mem_append.1 hrow with hrow | hrow
    · exact (hk.fresh row hrow).trans (Nat.lt_succ_self _)
    · obtain rfl := List.mem_singleton.1 hrow
      exact Nat.lt_succ_self _

end mint

theorem Kept.modify (hk : t.Kept) {f : Handle → Handle} (hf : ∀ row : Handle, row.Lasts (f row)) :
    (t.modify h f).Kept := by
  have hhandle (row : Handle) : (if row.handle = h then f row else row).handle = row.handle := by
    split_ifs
    · exact (hf row).handle
    · rfl
  constructor
  · have hsame : (t.modify h f).rows.map Handle.handle = t.rows.map Handle.handle := by
      show (t.rows.map _).map Handle.handle = _
      rw [List.map_map]
      exact List.map_congr_left fun row _ => hhandle row
    rw [hsame]
    exact hk.distinct
  · intro row hrow
    obtain ⟨row, hmem, rfl⟩ := List.mem_map.1 hrow
    rw [hhandle]
    exact hk.fresh row hmem

end HandleTable

namespace JobTable

variable {t : JobTable}

theorem mem_ofWorkspace {ws : WorkspaceId} {job : Job} :
    job ∈ t.ofWorkspace ws ↔ job ∈ t.rows ∧ job.workspace = some ws := by
  simp only [ofWorkspace, List.mem_filter, decide_eq_true_eq]

theorem Indexed.kept (h : t.Indexed) : t.Kept where
  distinct := by
    rw [h]
    exact List.nodup_range
  fresh _ hjob := h.known hjob

theorem Kept.eq_of_jobId (hk : t.Kept) {job job' : Job} (hjob : job ∈ t.rows)
    (hjob' : job' ∈ t.rows) (hid : job.jobId = job'.jobId) : job = job' :=
  List.inj_on_of_nodup_map hk.distinct hjob hjob' hid

theorem Kept.map (hk : t.Kept) {f : Job → Job} (hf : ∀ job : Job, job.Stays (f job)) :
    JobTable.Kept { t with rows := t.rows.map f } where
  distinct := by
    have hsame : (t.rows.map f).map Job.jobId = t.rows.map Job.jobId := by
      rw [List.map_map]
      exact List.map_congr_left fun job _ => (hf job).moves.jobId
    rw [hsame]
    exact hk.distinct
  fresh job hjob := by
    obtain ⟨job, hmem, rfl⟩ := List.mem_map.1 hjob
    rw [(hf job).moves.jobId]
    exact hk.fresh job hmem

theorem Kept.create (hk : t.Kept) (now : Time) (new : NewJob) :
    (t.exec now (.create new)).2.Kept where
  distinct := by
    show ((t.rows ++ [_]).map Job.jobId).Nodup
    rw [List.map_append]
    refine hk.distinct.append (List.nodup_singleton _) fun j hmem hnext => ?_
    obtain ⟨job, hjob, rfl⟩ := List.mem_map.1 hmem
    have hlt := hk.fresh job hjob
    rw [List.mem_singleton.1 hnext] at hlt
    exact lt_irrefl _ hlt
  fresh job hjob := by
    have hnext : (t.exec now (.create new)).2.next = t.next + 1 := by
      show (t.minted ++ [new.credentialEncrypted]).length = t.minted.length + 1
      rw [List.length_append, List.length_singleton]
    rw [hnext]
    rcases List.mem_append.1 hjob with hjob | hjob
    · exact (hk.fresh job hjob).trans (Nat.lt_succ_self _)
    · obtain rfl := List.mem_singleton.1 hjob
      exact Nat.lt_succ_self _

section create

variable (now : Time) {new : NewJob} {ws ws' : WorkspaceId}

theorem ofWorkspace_create_self (hws : new.requestSpec.spec.workspaceId = some ws) :
    (t.exec now (.create new)).2.ofWorkspace ws = t.ofWorkspace ws ++ [new.row now t.next] := by
  show (t.rows ++ [_]).filter _ = _
  have hrow : (new.row now t.next).workspace = some ws := hws
  rw [List.filter_append, List.filter_cons_of_pos (by simpa using hrow), List.filter_nil]
  rfl

theorem ofWorkspace_create (hws : new.requestSpec.spec.workspaceId = some ws) (hne : ws ≠ ws') :
    (t.exec now (.create new)).2.ofWorkspace ws' = t.ofWorkspace ws' := by
  show (t.rows ++ [_]).filter _ = _
  have hrow : (new.row now t.next).workspace = some ws := hws
  rw [List.filter_append, List.filter_cons_of_neg (by rw [hrow]; simpa using hne), List.filter_nil,
    List.append_nil]
  rfl

end create

/-- A transaction on rows of one workspace leaves those of every other as they are. -/
theorem Kept.ofWorkspace_transact (hk : t.Kept) {q : JobQuery} {ws other : WorkspaceId}
    (hrows : ∀ row ∈ q.select t.rows, row.workspace = some ws) {edit : Edit}
    (hedit : LifecycleEdit edit) (hother : other ≠ ws) (now : Time) :
    (t.exec now (.transact q edit)).2.ofWorkspace other = t.ofWorkspace other := by
  have hstays := fun job => hedit.stays_writeRow now (q.select t.rows) job
  simp only [JobTable.exec]
  split
  · rfl
  refine filter_map_of_fixed (fun job _ => by rw [(hstays job).workspace]) fun job hjob hp => ?_
  rcases writeRow_cases now edit (q.select t.rows) job with heq | ⟨job', hamong, -, -⟩
  · exact heq
  · exfalso
    obtain ⟨row, hrow, hid⟩ := List.any_eq_true.1 hamong
    obtain rfl : row = job := hk.eq_of_jobId (JobQuery.mem_of_select hrow) hjob
      (of_decide_eq_true hid)
    rw [hrows row hrow] at hp
    exact hother (Option.some.inj (of_decide_eq_true hp)).symm

end JobTable

/-! ### The jobs of a handle -/

section registered

variable {t : HandleTable} {ws : WorkspaceId} {h : HandleId} {job : Job}

/-- The job of a `job_` handle is in the handle's workspace. -/
theorem Job.Registered.workspace_of_jobHandle (hjob : job.Registered t)
    (howner : t.owner h = some ws) (hjobHandle : job.jobHandle = h) : job.workspace = some ws := by
  obtain ⟨ws', hin⟩ := hjob
  have heq := hin.owner
  rw [hjobHandle, howner] at heq
  rw [hin.workspace, heq]

/-- A job that fills a handle is in the handle's workspace. -/
theorem Job.Registered.workspace_of_obsHandle (hjob : job.Registered t)
    (howner : t.owner h = some ws) (hobs : job.obsHandle = some h) : job.workspace = some ws := by
  obtain ⟨ws', hin⟩ := hjob
  obtain ⟨obs, hobs', -, heq⟩ := hin.obsHandle
  rw [hobs] at hobs'
  rw [← Option.some.inj hobs', howner] at heq
  rw [hin.workspace, heq]

variable {w : World}

theorem World.Kept.select_getJobByHandle (hw : w.Kept) (howner : w.handles.owner h = some ws) :
    (JobQuery.getJobByHandle h).select w.jobs.rows =
      (JobQuery.getJobByHandle h).select (w.jobs.ofWorkspace ws) := by
  refine congrArg Option.toList (find?_of_picked fun job hjob hp => ?_).symm
  exact decide_eq_true
    ((hw.registered job hjob).workspace_of_jobHandle howner (of_decide_eq_true hp))

theorem World.Kept.select_getJobByObsHandle (hw : w.Kept) (howner : w.handles.owner h = some ws) :
    (JobQuery.getJobByObsHandle h).select w.jobs.rows =
      (JobQuery.getJobByObsHandle h).select (w.jobs.ofWorkspace ws) := by
  refine congrArg (fun rows : List Job => rows.getLast?.toList) (filter_of_picked fun job hjob hp =>
    ?_).symm
  exact decide_eq_true
    ((hw.registered job hjob).workspace_of_obsHandle howner (of_decide_eq_true hp))

end registered

/-- In every state of every run the world is kept. -/
theorem Registrations.kept {cfg : Settings} {s : (service cfg).State} (h : Registrations s) :
    s.world.Kept :=
  ⟨h.numbered.kept, h.indexed.kept, h.registered⟩

end EarthdataMcp
