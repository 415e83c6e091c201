import EarthdataMcp.Concurrency.Lockstep
import EarthdataMcp.Tools.RetrievalStatus
import EarthdataMcp.Workspace.View

/-!
# Two worlds that look the same from a workspace

* `SameView ws v w`: the two worlds agree on the clock, on what is minted next and on the
  handles, jobs and blobs of `ws`, and both are kept;
* `WritesIn ws v v'`: from `v` to `v'` no handle and no job of another workspace has changed;
* `After`: from two worlds to two others, in step; what every operation of a workspace on its own
  handles answers in both, and that it keeps them the same;
* `World.only`, a world with nothing of any other workspace, looks the same (`sameView_only`).
-/

namespace EarthdataMcp

open Concurrency Concurrency.Prog

/-- The two worlds are kept, and look the same from the workspace. -/
structure SameView (ws : WorkspaceId) (v w : World) : Prop where
  keptLeft : v.Kept
  keptRight : w.Kept
  clock : w.clock = v.clock
  handles : w.handles.ofWorkspace ws = v.handles.ofWorkspace ws
  nextHandle : w.handles.next = v.handles.next
  jobs : w.jobs.ofWorkspace ws = v.jobs.ofWorkspace ws
  nextJob : w.jobs.next = v.jobs.next
  blobs : ∀ row ∈ v.handles.ofWorkspace ws, ∀ key ∈ row.payload.storageKey,
    w.storage.find key = v.storage.find key

/-- No handle and no job of another workspace has changed, and no handle is lost. -/
structure WritesIn (ws : WorkspaceId) (v v' : World) : Prop where
  grows : v.handles.Grows v'.handles
  handles : ∀ other, other ≠ ws → v'.handles.ofWorkspace other = v.handles.ofWorkspace other
  jobs : ∀ other, other ≠ ws → v'.jobs.ofWorkspace other = v.jobs.ofWorkspace other

/-- Two worlds go on to two others that look the same, by writes in the workspace. -/
structure After (ws : WorkspaceId) (v w v' w' : World) : Prop where
  same : SameView ws v' w'
  left : WritesIn ws v v'
  right : WritesIn ws w w'

theorem HandleTable.Grows.trans {t t' t'' : HandleTable} (h : t.Grows t') (h' : t'.Grows t'') :
    t.Grows t'' := by
  intro k row hrow
  obtain ⟨row', hrow', hl⟩ := h k row hrow
  obtain ⟨row'', hrow'', hl'⟩ := h' k row' hrow'
  exact ⟨row'', hrow'', hl'.handle.trans hl.handle, hl'.workspaceId.trans hl.workspaceId,
    hl'.signature.trans hl.signature, hl'.obsHandle.trans hl.obsHandle,
    hl'.datasetHandle.trans hl.datasetHandle⟩

variable {ws : WorkspaceId} {v w v' w' : World}

theorem WritesIn.refl (ws : WorkspaceId) (v : World) : WritesIn ws v v :=
  ⟨.refl _, fun _ _ => rfl, fun _ _ => rfl⟩

theorem WritesIn.trans {u : World} (h : WritesIn ws v v') (h' : WritesIn ws v' u) :
    WritesIn ws v u :=
  ⟨h.grows.trans h'.grows, fun other hne => (h'.handles other hne).trans (h.handles other hne),
    fun other hne => (h'.jobs other hne).trans (h.jobs other hne)⟩

theorem After.refl (h : SameView ws v w) : After ws v w v w := ⟨h, .refl ws v, .refl ws w⟩

theorem After.trans {v'' w'' : World} (h : After ws v w v' w') (h' : After ws v' w' v'' w'') :
    After ws v w v'' w'' :=
  ⟨h'.same, h.left.trans h'.left, h.right.trans h'.right⟩

namespace SameView

/-- The workspace finds a row in both worlds, or in neither. -/
theorem lookup (h : SameView ws v w) (k : HandleId) :
    (∃ row, v.handles.lookup ws k = .ok row ∧ w.handles.lookup ws k = .ok row) ∨
      ∃ e e', v.handles.lookup ws k = .error e ∧ w.handles.lookup ws k = .error e' := by
  cases hv : v.handles.lookup ws k with
  | ok row =>
    refine Or.inl ⟨row, rfl, ?_⟩
    rw [h.keptRight.handles.lookup_eq_ok_iff, h.handles]
    exact h.keptLeft.handles.lookup_eq_ok_iff.1 hv
  | error e =>
    cases hw : w.handles.lookup ws k with
    | error e' => exact Or.inr ⟨e, e', rfl, rfl⟩
    | ok row =>
      rw [h.keptRight.handles.lookup_eq_ok_iff, h.handles,
        ← h.keptLeft.handles.lookup_eq_ok_iff, hv] at hw
      cases hw

theorem owner (h : SameView ws v w) {k : HandleId} (hk : v.handles.owner k = some ws) :
    w.handles.owner k = some ws := by
  rw [h.keptRight.handles.owner_eq_some_iff, h.handles]
  exact h.keptLeft.handles.owner_eq_some_iff.1 hk

/-- A handle of the workspace is found. -/
theorem lookup_of_owner (h : SameView ws v w) {k : HandleId}
    (hk : v.handles.owner k = some ws) :
    ∃ row, v.handles.lookup ws k = .ok row ∧ w.handles.lookup ws k = .ok row := by
  rcases h.lookup k with hfound | ⟨e, e', hv, -⟩
  · exact hfound
  · obtain ⟨row, hrow, hws⟩ := Option.map_eq_some_iff.1 hk
    rw [HandleTable.lookup_eq_ok_iff.2 ⟨hrow, hws⟩] at hv
    cases hv

/-- Worlds whose tables and blobs are the same as before. -/
theorem congr (h : SameView ws v w) (hc : v'.clock = v.clock) (hh : v'.handles = v.handles)
    (hj : v'.jobs = v.jobs) (hs : v'.storage = v.storage) (hc' : w'.clock = w.clock)
    (hh' : w'.handles = w.handles) (hj' : w'.jobs = w.jobs) (hs' : w'.storage = w.storage) :
    After ws v w v' w' := by
  refine ⟨⟨⟨?_, ?_, ?_⟩, ⟨?_, ?_, ?_⟩, ?_, ?_, ?_, ?_, ?_, ?_⟩, ⟨?_, ?_, ?_⟩, ⟨?_, ?_, ?_⟩⟩
  · exact hh ▸ h.keptLeft.handles
  · exact hj ▸ h.keptLeft.jobs
  · rw [hj, hh]
    exact h.keptLeft.registered
  · exact hh' ▸ h.keptRight.handles
  · exact hj' ▸ h.keptRight.jobs
  · rw [hj', hh']
    exact h.keptRight.registered
  · rw [hc, hc', h.clock]
  · rw [hh, hh', h.handles]
  · rw [hh, hh', h.nextHandle]
  · rw [hj, hj', h.jobs]
  · rw [hj, hj', h.nextJob]
  · rw [hh, hs, hs']
    exact h.blobs
  · rw [hh]
    exact .refl _
  · exact fun _ _ => by rw [hh]
  · exact fun _ _ => by rw [hj]
  · rw [hh']
    exact .refl _
  · exact fun _ _ => by rw [hh']
  · exact fun _ _ => by rw [hj']

/-- Handles and jobs written in the workspace, alike in both worlds. -/
theorem write (h : SameView ws v w) {t t' : HandleTable} {u u' : JobTable}
    (ht : t.Kept) (ht' : t'.Kept) (hu : u.Kept) (hu' : u'.Kept)
    (hr : ∀ job ∈ u.rows, job.Registered t) (hr' : ∀ job ∈ u'.rows, job.Registered t')
    (hhandles : t'.ofWorkspace ws = t.ofWorkspace ws) (hnext : t'.next = t.next)
    (hjobs : u'.ofWorkspace ws = u.ofWorkspace ws) (hnext' : u'.next = u.next)
    (hkeys : ∀ row ∈ t.ofWorkspace ws, ∀ key ∈ row.payload.storageKey,
      ∃ row' ∈ v.handles.ofWorkspace ws, row'.payload.storageKey = some key)
    (hleft : WritesIn ws v { v with handles := t, jobs := u })
    (hright : WritesIn ws w { w with handles := t', jobs := u' }) :
    After ws v w { v with handles := t, jobs := u } { w with handles := t', jobs := u' } := by
  refine ⟨⟨⟨ht, hu, hr⟩, ⟨ht', hu', hr'⟩, h.clock, hhandles, hnext, hjobs, hnext', ?_⟩, hleft,
    hright⟩
  intro row hrow key hkey
  obtain ⟨row', hrow', hkey'⟩ := hkeys row hrow key hkey
  exact h.blobs row' hrow' key hkey'

end SameView

/-! ### Nothing but the workspace -/

/-- The world with the handles and jobs of one workspace, and the blobs they name. -/
def World.only (w : World) (ws : WorkspaceId) : World :=
  { w with
    handles := { w.handles with rows := w.handles.ofWorkspace ws }
    jobs := { w.jobs with rows := w.jobs.ofWorkspace ws }
    storage := ⟨w.storage.blobs.filter fun entry =>
      (w.handles.ofWorkspace ws).any fun row => row.payload.storageKey = some entry.1⟩ }

theorem lookup_filter {α β : Type} [BEq α] [LawfulBEq α] {xs : List (α × β)} {p : α × β → Bool}
    {k : α} (hp : ∀ b, p (k, b) = true) : (xs.filter p).lookup k = xs.lookup k := by
  induction xs with
  | nil => rfl
  | cons x xs ih =>
    obtain ⟨a, b⟩ := x
    by_cases hk : k = a
    · subst hk
      rw [List.filter_cons_of_pos (hp b), List.lookup_cons, List.lookup_cons, beq_self_eq_true]
    · rw [List.lookup_cons, beq_false_of_ne hk, ← ih]
      by_cases hx : p (a, b) = true
      · rw [List.filter_cons_of_pos hx, List.lookup_cons, beq_false_of_ne hk]
      · rw [List.filter_cons_of_neg hx]

theorem HandleTable.ofWorkspace_ofWorkspace (t : HandleTable) (ws : WorkspaceId) :
    HandleTable.ofWorkspace { t with rows := t.ofWorkspace ws } ws = t.ofWorkspace ws := by
  show (t.rows.filter _).filter _ = _
  rw [List.filter_filter]
  simp only [Bool.and_self]
  rfl

theorem World.Kept.only (hw : w.Kept) (ws : WorkspaceId) : (w.only ws).Kept := by
  have hhandles : HandleTable.Kept { w.handles with rows := w.handles.ofWorkspace ws } :=
    ⟨hw.handles.distinct.sublist (List.Sublist.map _ List.filter_sublist),
      fun row hrow => hw.handles.fresh row (HandleTable.mem_ofWorkspace.1 hrow).1⟩
  refine ⟨hhandles, ⟨hw.jobs.distinct.sublist (List.Sublist.map _ List.filter_sublist),
    fun job hjob => hw.jobs.fresh job (JobTable.mem_ofWorkspace.1 hjob).1⟩, fun job hjob => ?_⟩
  -- both handles of a job of the workspace are the workspace's, and so is whatever they name
  obtain ⟨hmem, hws⟩ := JobTable.mem_ofWorkspace.1 hjob
  obtain ⟨ws', hworkspace, htype, ⟨row, hrow, hnames⟩, obs, hobs, hobsType, howner⟩ :=
    hw.registered job hmem
  obtain rfl := Option.some.inj (hworkspace.symm.trans hws)
  refine ⟨ws', hws, htype, ⟨row, ?_, hnames⟩, obs, hobs, hobsType, ?_⟩
  · rw [← HandleTable.row_handle hrow]
    exact hhandles.row_eq (HandleTable.mem_ofWorkspace.2
      ⟨List.mem_of_find?_eq_some hrow, hnames.workspaceId⟩)
  · refine hhandles.owner_eq_some_iff.2 ?_
    rw [HandleTable.ofWorkspace_ofWorkspace]
    exact hw.handles.owner_eq_some_iff.1 howner

theorem sameView_only (hw : w.Kept) (ws : WorkspaceId) : SameView ws w (w.only ws) where
  keptLeft := hw
  keptRight := hw.only ws
  clock := rfl
  handles := HandleTable.ofWorkspace_ofWorkspace _ ws
  nextHandle := rfl
  jobs := by
    show (w.jobs.rows.filter _).filter _ = _
    rw [List.filter_filter]
    simp only [Bool.and_self]
    rfl
  nextJob := rfl
  blobs row hrow key hkey :=
    lookup_filter fun _ => List.any_eq_true.2 ⟨row, hrow, decide_eq_true hkey⟩

/-! ### One operation -/

/-- Reading a blob changes nothing, and what is read depends on that blob only. -/
theorem BlobStore.exec_read {s s' : BlobStore} {key : Key} (h : s'.find key = s.find key)
    {x : StorageOp} (hx : x = .stat key ∨ x = .uri key) :
    (s.exec x).1 = (s'.exec x).1 ∧ (s.exec x).2 = s ∧ (s'.exec x).2 = s' := by
  rcases hx with rfl | rfl
  · simp only [exec, h]
    cases s.find key <;> exact ⟨rfl, rfl, rfl⟩
  · have hhas : s'.Has key ↔ s.Has key := by rw [has_iff_find, has_iff_find, h]
    by_cases hs : s.Has key
    · simp only [exec, hs, hhas.2 hs, if_true, and_self]
    · simp only [exec, hs, mt hhas.1 hs, if_false, and_self]

section operations

theorem lockstep_op {o : Op} {post : Both Api World o.Ans o.Ans}
    (fits : ∀ c, v.exec o c = none ↔ w.exec o c = none)
    (next : ∀ c a v' b w', v.exec o c = some (a, v') → w.exec o c = some (b, w') → post a v' b w') :
    Lockstep World.exec post (perform o) v (perform o) w :=
  @lockstep_perform Api World Choice World.exec v w o post fits next

/-- Whether a choice fits an operation does not depend on the tables. -/
theorem exec_handles_fits (v w : World) (x : HandleOp) (c : Choice) :
    v.exec (.handles x) c = none ↔ w.exec (.handles x) c = none := by
  cases c <;> simp [World.exec]

theorem exec_jobs_fits (v w : World) (x : JobOp) (c : Choice) :
    v.exec (.jobs x) c = none ↔ w.exec (.jobs x) c = none := by
  cases c <;> simp [World.exec]

theorem exec_storage_fits (v w : World) (x : StorageOp) (c : Choice) :
    v.exec (.storage x) c = none ↔ w.exec (.storage x) c = none := by
  cases c <;> simp [World.exec]

/-- Neither world has changed. -/
def Still (v w : World) : World → World → Prop := fun v' w' => v' = v ∧ w' = w

/-- The results are the same, and the worlds go on looking the same. -/
abbrev Ends (ws : WorkspaceId) (v w : World) {α : Type} : Both Api World α α :=
  Alike (After ws v w) fun _ _ _ => True

theorem After.ends {α : Type} {r : Except Exn α} (h : After ws v w v' w') :
    Ends ws v w r v' r w' := ⟨rfl, h, fun _ _ => trivial⟩

/-- What ends alike from a later pair of worlds ends alike from the first. -/
theorem After.lockstep {α : Type} {p q : Program α} (h : After ws v w v' w')
    (hp : Lockstep World.exec (Ends ws v' w') p v' q w') :
    Lockstep World.exec (Ends ws v w) p v' q w' :=
  hp.mono fun _ _ _ _ ⟨heq, hafter, _⟩ => ⟨heq, h.trans hafter, fun _ _ => trivial⟩

/-- An operation on neither tables nor blobs that answers the same in both worlds. -/
theorem lockstep_beside (h : SameView ws v w) {o : Op}
    (hfits : ∀ c, v.exec o c = none ↔ w.exec o c = none)
    (hans : ∀ c a v' b w', v.exec o c = some (a, v') → w.exec o c = some (b, w') → a = b)
    (hjobs : ∀ x, o ≠ .jobs x) (hhandles : ∀ x, o ≠ .handles x) (hstorage : ∀ x, o ≠ .storage x) :
    Lockstep World.exec (Ends ws v w) (perform o) v (perform o) w := by
  refine lockstep_op hfits fun c a v' b w' hv hw => ⟨hans c a v' b w' hv hw, ?_, fun _ _ =>
    trivial⟩
  exact h.congr (World.exec_clock hv) (World.exec_handles_eq_self hv hhandles)
    (World.exec_jobs_eq_self hv hjobs) (World.exec_storage_eq_self hv hstorage)
    (World.exec_clock hw) (World.exec_handles_eq_self hw hhandles)
    (World.exec_jobs_eq_self hw hjobs) (World.exec_storage_eq_self hw hstorage)

theorem lockstep_queue (h : SameView ws v w) (t : Task) (j : JobId) (id : Option ArqId)
    (d : Time) :
    Lockstep World.exec (Ends ws v w)
      (perform (.queue (.enqueueJob t j id d))) v (perform (.queue (.enqueueJob t j id d))) w := by
  refine lockstep_beside h (fun c => by cases c <;> simp [World.exec]) ?_ (by simp) (by simp)
    (by simp)
  intro c a v' b w' hv hw
  cases c <;> simp [World.exec] at hv hw
  · rw [← hv.1, ← hw.1]
  · rw [← hv.1, ← hw.1]

theorem lockstep_provenance (h : SameView ws v w) (write : ProvenanceWrite) :
    Lockstep World.exec (Ends ws v w)
      (perform (.provenance write)) v (perform (.provenance write)) w := by
  refine lockstep_beside h (fun c => by cases c <;> simp [World.exec]) ?_ (by simp) (by simp)
    (by simp)
  intro c a v' b w' hv hw
  cases c <;> simp [World.exec] at hv hw
  · rw [← hv.1, ← hw.1]
  · rw [← hv.1, ← hw.1]

theorem lockstep_provider (h : SameView ws v w) (x : ProviderOp) :
    Lockstep World.exec (Ends ws v w)
      (perform (.provider x)) v (perform (.provider x)) w := by
  refine lockstep_beside h (fun c => ?_) ?_ (by simp) (by simp) (by simp)
  · simp only [World.exec]
    cases x.answer c <;> simp
  · intro c a v' b w' hv hw
    exact Option.some.inj ((World.exec_provider hv).1.symm.trans (World.exec_provider hw).1)

theorem lockstep_now (h : SameView ws v w) :
    Lockstep World.exec (Alike (Still v w) fun _ _ _ => True) (perform .now) v (perform .now) w := by
  refine lockstep_op (fun c => by cases c <;> simp [World.exec]) fun c a v' b w' hv hw => ?_
  obtain ⟨rfl, rfl⟩ := World.exec_now hv
  obtain ⟨rfl, rfl⟩ := World.exec_now hw
  exact ⟨by rw [h.clock], ⟨rfl, rfl⟩, fun _ _ => trivial⟩

/-- A row is found in both worlds, or the lookup raises: the same in both, or it is missing, or
another's. -/
theorem lockstep_getHandle (h : SameView ws v w) (k : HandleId) :
    Lockstep World.exec
      (fun r v' r' w' => Still v w v' w' ∧
        (r = r' ∧ (∀ row, r = .ok row → row ∈ v.handles.ofWorkspace ws ∧ row.handle = k) ∨
          ∃ e e', r = .error e ∧ r' = .error e' ∧ HandleTable.Missing k e ∧
            HandleTable.Missing k e'))
      (perform (.handles (.getHandle ws k))) v (perform (.handles (.getHandle ws k))) w := by
  refine lockstep_op (o := .handles (.getHandle ws k)) (exec_handles_fits v w _)
    fun c a v' b w' hv hw => ?_
  cases c <;> simp only [World.exec, Option.some.injEq, Prod.mk.injEq, reduceCtorEq] at hv hw
  · obtain ⟨rfl, rfl⟩ := hv
    obtain ⟨rfl, rfl⟩ := hw
    refine ⟨⟨rfl, rfl⟩, ?_⟩
    show _ ∨ ∃ e e', v.handles.lookup ws k = .error e ∧ w.handles.lookup ws k = .error e' ∧ _
    rcases h.lookup k with ⟨row, hrow, hrow'⟩ | ⟨e, e', he, he'⟩
    · refine Or.inl ⟨hrow.trans hrow'.symm, fun row' heq => ?_⟩
      exact h.keptLeft.handles.lookup_eq_ok_iff.1 heq
    · exact Or.inr ⟨e, e', he, he', HandleTable.missing_of_lookup he,
        HandleTable.missing_of_lookup he'⟩
  · obtain ⟨rfl, rfl⟩ := hv
    obtain ⟨rfl, rfl⟩ := hw
    exact ⟨⟨rfl, rfl⟩, Or.inl ⟨rfl, fun row heq => by cases heq⟩⟩

theorem lockstep_listHandles (h : SameView ws v w) (type : HandleType) :
    Lockstep World.exec
      (Alike (Still v w) fun rows _ _ => ∀ row ∈ rows, row ∈ v.handles.ofWorkspace ws)
      (perform (.handles (.listHandles ws type))) v (perform (.handles (.listHandles ws type))) w := by
  have hlist (t : HandleTable) : t.rows.filter (fun row => row.workspaceId = ws &&
      row.handle.type = type) = (t.ofWorkspace ws).filter fun row => row.handle.type = type := by
    rw [HandleTable.ofWorkspace, List.filter_filter]
    exact List.filter_congr fun row _ => Bool.and_comm _ _
  refine lockstep_op (exec_handles_fits v w _) fun c a v' b w' hv hw => ?_
  cases c <;> simp only [World.exec, Option.some.injEq, Prod.mk.injEq, reduceCtorEq] at hv hw
  · obtain ⟨rfl, rfl⟩ := hv
    obtain ⟨rfl, rfl⟩ := hw
    refine ⟨?_, ⟨rfl, rfl⟩, ?_⟩
    · show Except.ok _ = Except.ok _
      rw [hlist, hlist, h.handles]
    · rintro rows heq row hrow
      obtain rfl := Except.ok.inj heq
      rw [hlist] at hrow
      exact List.mem_of_mem_filter hrow
  · obtain ⟨rfl, rfl⟩ := hv
    obtain ⟨rfl, rfl⟩ := hw
    exact ⟨rfl, ⟨rfl, rfl⟩, fun rows heq => by cases heq⟩

/-- A blob that a handle of the workspace names is read alike. -/
theorem lockstep_storage (h : SameView ws v w) {row : Handle} {key : Key}
    (hrow : row ∈ v.handles.ofWorkspace ws) (hkey : row.payload.storageKey = some key)
    {x : StorageOp} (hx : x = .stat key ∨ x = .uri key) :
    Lockstep World.exec (Alike (Still v w) fun _ _ _ => True)
      (perform (.storage x)) v (perform (.storage x)) w := by
  have hfind := h.blobs row hrow key hkey
  refine lockstep_op (exec_storage_fits v w _) fun c a v' b w' hv hw => ?_
  cases c <;> simp only [World.exec, Option.some.injEq, Prod.mk.injEq, reduceCtorEq] at hv hw
  · obtain ⟨rfl, rfl⟩ := hv
    obtain ⟨rfl, rfl⟩ := hw
    obtain ⟨hans, hleft, hright⟩ := BlobStore.exec_read hfind hx
    exact ⟨hans, ⟨by rw [hleft], by rw [hright]⟩, fun _ _ => trivial⟩
  · obtain ⟨rfl, rfl⟩ := hv
    obtain ⟨rfl, rfl⟩ := hw
    exact ⟨rfl, ⟨rfl, rfl⟩, fun _ _ => trivial⟩

/-- A row of the workspace is written alike. -/
theorem SameView.modify (h : SameView ws v w) {k : HandleId} (hk : v.handles.owner k = some ws)
    {f : Handle → Handle} (hf : ∀ row : Handle, row.Lasts (f row))
    (hkey : ∀ row : Handle, (f row).payload.storageKey = row.payload.storageKey) :
    After ws v w { v with handles := v.handles.modify k f }
      { w with handles := w.handles.modify k f } := by
  have hcross (t : HandleTable) (ht : t.Kept) (howner : t.owner k = some ws) {other : WorkspaceId}
      (hne : other ≠ ws) : (t.modify k f).ofWorkspace other = t.ofWorkspace other := by
    obtain ⟨row, hrow, hws⟩ := Option.map_eq_some_iff.1 howner
    exact HandleTable.ofWorkspace_modify ht hrow hf (hws ▸ hne.symm)
  refine h.write (h.keptLeft.handles.modify hf) (h.keptRight.handles.modify hf) h.keptLeft.jobs
    h.keptRight.jobs ?_ ?_ ?_ h.nextHandle h.jobs h.nextJob ?_ ⟨HandleTable.grows_modify hf, ?_, ?_⟩
    ⟨HandleTable.grows_modify hf, ?_, ?_⟩
  · exact fun job hjob =>
      (HandleTable.grows_modify hf).registered (h.keptLeft.registered job hjob)
  · exact fun job hjob =>
      (HandleTable.grows_modify hf).registered (h.keptRight.registered job hjob)
  · rw [HandleTable.ofWorkspace_modify_self hf, HandleTable.ofWorkspace_modify_self hf, h.handles]
  · intro row hrow key hkey'
    rw [HandleTable.ofWorkspace_modify_self hf] at hrow
    obtain ⟨row, hmem, rfl⟩ := List.mem_map.1 hrow
    refine ⟨row, hmem, ?_⟩
    split_ifs at hkey'
    · rwa [hkey] at hkey'
    · exact hkey'
  · exact fun other hne => hcross _ h.keptLeft.handles hk hne
  · exact fun _ _ => rfl
  · exact fun other hne => hcross _ h.keptRight.handles (h.owner hk) hne
  · exact fun _ _ => rfl

theorem lockstep_updateHandle (h : SameView ws v w) {k : HandleId}
    (hk : v.handles.owner k = some ws) {u : PayloadUpdate} (hu : u.storageKey = none) :
    Lockstep World.exec (Ends ws v w)
      (perform (.handles (.updateHandle ws k u))) v (perform (.handles (.updateHandle ws k u)))
      w := by
  obtain ⟨row, hrow, hrow'⟩ := h.lookup_of_owner hk
  refine lockstep_op (exec_handles_fits v w _) fun c a v' b w' hv hw => ?_
  cases c <;> simp only [World.exec, HandleTable.exec, hrow, hrow', Option.some.injEq,
    Prod.mk.injEq, reduceCtorEq] at hv hw
  · obtain ⟨rfl, rfl⟩ := hv
    obtain ⟨rfl, rfl⟩ := hw
    refine ⟨by rw [h.clock], ?_, fun _ _ => trivial⟩
    have hkey (row : Handle) : (row.updated v.clock u).payload.storageKey =
        row.payload.storageKey := by
      rw [Handle.updated_payload, Payload.merge_storageKey, hu, Option.getD_none]
    simpa only [h.clock] using h.modify hk (fun row => row.lasts_updated v.clock u) hkey
  · obtain ⟨rfl, rfl⟩ := hv
    obtain ⟨rfl, rfl⟩ := hw
    exact ⟨rfl, .refl h, fun _ _ => trivial⟩

theorem lockstep_touchHandle (h : SameView ws v w) {k : HandleId}
    (hk : v.handles.owner k = some ws) :
    Lockstep World.exec (Ends ws v w)
      (perform (.handles (.touchHandle ws k))) v (perform (.handles (.touchHandle ws k))) w := by
  obtain ⟨row, hrow, hrow'⟩ := h.lookup_of_owner hk
  refine lockstep_op (exec_handles_fits v w _) fun c a v' b w' hv hw => ?_
  cases c <;> simp only [World.exec, HandleTable.exec, hrow, hrow', Option.some.injEq,
    Prod.mk.injEq, reduceCtorEq] at hv hw
  · obtain ⟨rfl, rfl⟩ := hv
    obtain ⟨rfl, rfl⟩ := hw
    refine ⟨rfl, ?_, fun _ _ => trivial⟩
    simpa only [h.clock] using h.modify hk (fun row => row.lasts_touched v.clock) fun _ => rfl
  · obtain ⟨rfl, rfl⟩ := hv
    obtain ⟨rfl, rfl⟩ := hw
    exact ⟨rfl, .refl h, fun _ _ => trivial⟩

/-- A handle is minted alike. -/
theorem lockstep_putHandle (h : SameView ws v w) (type : HandleType) {payload : Payload}
    (hpayload : payload.storageKey = none) :
    Lockstep World.exec
      (Alike (After ws v w) fun k v' _ => k.type = type ∧
        ∃ row, v'.handles.row k = some row ∧ row.Names ws payload.obsHandle)
      (perform (.handles (.putHandle ws type payload))) v
      (perform (.handles (.putHandle ws type payload))) w := by
  have hgrows (t : HandleTable) (now : Time) : t.Grows (t.mint now ws type payload).2 :=
    HandleTable.grows_exec now (.putHandle ws type payload)
  refine lockstep_op (o := .handles (.putHandle ws type payload)) (exec_handles_fits v w _)
    fun c a v' b w' hv hw => ?_
  cases c <;> simp only [World.exec, HandleTable.exec, Option.some.injEq, Prod.mk.injEq,
    reduceCtorEq] at hv hw
  · obtain ⟨rfl, rfl⟩ := hv
    obtain ⟨rfl, rfl⟩ := hw
    have hminted : (w.handles.mint w.clock ws type payload).1 =
        (v.handles.mint v.clock ws type payload).1 := by
      simp only [HandleTable.mint, h.clock, h.nextHandle]
    refine ⟨by rw [hminted], ?_, ?_⟩
    · refine h.write (h.keptLeft.handles.mint _ type payload)
        (h.keptRight.handles.mint _ type payload) h.keptLeft.jobs
        h.keptRight.jobs ?_ ?_ ?_ ?_ h.jobs h.nextJob ?_ ⟨hgrows _ _, ?_, ?_⟩ ⟨hgrows _ _, ?_, ?_⟩
      · exact fun job hjob => (hgrows _ _).registered (h.keptLeft.registered job hjob)
      · exact fun job hjob => (hgrows _ _).registered (h.keptRight.registered job hjob)
      · rw [HandleTable.ofWorkspace_mint_self, HandleTable.ofWorkspace_mint_self, hminted,
          h.handles]
      · exact congrArg (· + 1) h.nextHandle
      · intro row hrow key hkey
        rw [HandleTable.ofWorkspace_mint_self, List.mem_append, List.mem_singleton] at hrow
        rcases hrow with hrow | rfl
        · exact ⟨row, hrow, hkey⟩
        · rw [show (v.handles.mint v.clock ws type payload).1.payload = payload from rfl,
            hpayload] at hkey
          cases hkey
      · exact fun other hne => HandleTable.ofWorkspace_mint _ _ _ hne.symm
      · exact fun _ _ => rfl
      · exact fun other hne => HandleTable.ofWorkspace_mint _ _ _ hne.symm
      · exact fun _ _ => rfl
    · rintro k heq
      obtain rfl := Except.ok.inj heq
      exact ⟨rfl, _, h.keptLeft.handles.row_minted _ type payload, rfl, rfl⟩
  · obtain ⟨rfl, rfl⟩ := hv
    obtain ⟨rfl, rfl⟩ := hw
    exact ⟨rfl, .refl h, fun k heq => by cases heq⟩

/-- The jobs of a handle of the workspace are read alike. -/
theorem lockstep_read {q : JobQuery}
    (hq : q.select v.jobs.rows = q.select w.jobs.rows) :
    Lockstep World.exec (Alike (Still v w) fun rows _ _ => ∀ job ∈ rows,
        job ∈ v.jobs.rows ∧ q.Matches job)
      (perform (.jobs (.read q))) v (perform (.jobs (.read q))) w := by
  refine lockstep_op (exec_jobs_fits v w _) fun c a v' b w' hv hw => ?_
  cases c <;> simp only [World.exec, JobTable.exec, Option.some.injEq, Prod.mk.injEq,
    reduceCtorEq] at hv hw
  · obtain ⟨rfl, rfl⟩ := hv
    obtain ⟨rfl, rfl⟩ := hw
    refine ⟨by rw [hq], ⟨rfl, rfl⟩, ?_⟩
    rintro rows heq job hjob
    obtain rfl := Except.ok.inj heq
    exact ⟨JobQuery.mem_of_select hjob, JobQuery.matches_of_select hjob⟩
  · obtain ⟨rfl, rfl⟩ := hv
    obtain ⟨rfl, rfl⟩ := hw
    exact ⟨rfl, ⟨rfl, rfl⟩, fun rows heq => by cases heq⟩

theorem SameView.select_getJobByHandle (h : SameView ws v w) {k : HandleId}
    (hk : v.handles.owner k = some ws) :
    (JobQuery.getJobByHandle k).select v.jobs.rows =
      (JobQuery.getJobByHandle k).select w.jobs.rows := by
  rw [h.keptLeft.select_getJobByHandle hk, h.keptRight.select_getJobByHandle (h.owner hk), h.jobs]

theorem SameView.select_getJobByObsHandle (h : SameView ws v w) {k : HandleId}
    (hk : v.handles.owner k = some ws) :
    (JobQuery.getJobByObsHandle k).select v.jobs.rows =
      (JobQuery.getJobByObsHandle k).select w.jobs.rows := by
  rw [h.keptLeft.select_getJobByObsHandle hk, h.keptRight.select_getJobByObsHandle (h.owner hk),
    h.jobs]

theorem JobTable.ofWorkspace_map {t : JobTable} {f : Job → Job}
    (hf : ∀ job : Job, job.Stays (f job)) :
    JobTable.ofWorkspace { t with rows := t.rows.map f } ws = (t.ofWorkspace ws).map f :=
  filter_map_of_kept fun job _ => by rw [(hf job).workspace]

/-- A transaction on the job of a `job_` handle of the workspace. -/
theorem SameView.transact (h : SameView ws v w) {k : HandleId}
    (hk : v.handles.owner k = some ws) {edit : Edit} (hedit : LifecycleEdit edit) :
    (v.jobs.exec v.clock (.transact (.getJobByHandle k) edit)).1 =
        (w.jobs.exec w.clock (.transact (.getJobByHandle k) edit)).1 ∧
      After ws v w
        { v with jobs := (v.jobs.exec v.clock (.transact (.getJobByHandle k) edit)).2 }
        { w with jobs := (w.jobs.exec w.clock (.transact (.getJobByHandle k) edit)).2 } := by
  have hsel := h.select_getJobByHandle hk
  have hrows {u : World} (hu : u.Kept) (howner : u.handles.owner k = some ws) :
      ∀ row ∈ (JobQuery.getJobByHandle k).select u.jobs.rows, row.workspace = some ws :=
    fun row hrow => (hu.registered row (JobQuery.mem_of_select hrow)).workspace_of_jobHandle howner
      (JobQuery.matches_of_select hrow)
  have hleft (other : WorkspaceId) (hne : other ≠ ws) := h.keptLeft.jobs.ofWorkspace_transact
    (hrows h.keptLeft hk) hedit hne v.clock
  have hright (other : WorkspaceId) (hne : other ≠ ws) := h.keptRight.jobs.ofWorkspace_transact
    (hrows h.keptRight (h.owner hk)) hedit hne w.clock
  have hstays := fun job => hedit.stays_writeRow v.clock
    ((JobQuery.getJobByHandle k).select v.jobs.rows) job
  simp only [JobTable.exec, ← hsel, h.clock] at hleft hright ⊢
  cases hfirst : firstError v.clock edit ((JobQuery.getJobByHandle k).select v.jobs.rows) with
  | some e => exact ⟨rfl, h.congr rfl rfl rfl rfl h.clock.symm rfl rfl rfl⟩
  | none =>
    simp only [hfirst] at hleft hright ⊢
    have hwrite := h.write h.keptLeft.handles h.keptRight.handles (h.keptLeft.jobs.map hstays)
      (h.keptRight.jobs.map hstays) ?_ ?_ h.handles h.nextHandle ?_ h.nextJob
      (fun row hrow key hkey => ⟨row, hrow, hkey⟩) ⟨.refl _, fun _ _ => rfl, hleft⟩
      ⟨.refl _, fun _ _ => rfl, hright⟩
    · simpa only [h.clock, true_and] using hwrite
    · intro job hjob
      obtain ⟨job, hmem, rfl⟩ := List.mem_map.1 hjob
      exact (hstays job).registered (h.keptLeft.registered job hmem)
    · intro job hjob
      obtain ⟨job, hmem, rfl⟩ := List.mem_map.1 hjob
      exact (hstays job).registered (h.keptRight.registered job hmem)
    · rw [JobTable.ofWorkspace_map hstays, JobTable.ofWorkspace_map hstays, h.jobs]

theorem lockstep_transact (h : SameView ws v w) {k : HandleId} (hk : v.handles.owner k = some ws)
    {edit : Edit} (hedit : LifecycleEdit edit) :
    Lockstep World.exec (Ends ws v w)
      (perform (.jobs (.transact (.getJobByHandle k) edit))) v
      (perform (.jobs (.transact (.getJobByHandle k) edit))) w := by
  obtain ⟨hans, hafter⟩ := h.transact hk hedit
  refine lockstep_op (exec_jobs_fits v w _) fun c a v' b w' hv hw => ?_
  cases c <;> simp only [World.exec, Option.some.injEq, Prod.mk.injEq, reduceCtorEq] at hv hw
  · obtain ⟨rfl, rfl⟩ := hv
    obtain ⟨rfl, rfl⟩ := hw
    exact ⟨hans, hafter, fun _ _ => trivial⟩
  · obtain ⟨rfl, rfl⟩ := hv
    obtain ⟨rfl, rfl⟩ := hw
    exact ⟨rfl, .refl h, fun _ _ => trivial⟩

/-- What makes a job that is created a job of the workspace. -/
structure NewJob.RegisteredIn (new : NewJob) (t : HandleTable) (ws : WorkspaceId) : Prop where
  workspace : new.requestSpec.spec.workspaceId = some ws
  jobType : new.jobHandle.type = .job
  jobHandle : ∃ row, t.row new.jobHandle = some row ∧ row.Names ws new.obsHandle
  obsHandle : ∃ obs, new.obsHandle = some obs ∧ obs.type = .obs ∧ t.owner obs = some ws

theorem SameView.registeredIn (h : SameView ws v w) {new : NewJob}
    (hnew : new.RegisteredIn v.handles ws) : new.RegisteredIn w.handles ws := by
  obtain ⟨hws, htype, ⟨row, hrow, hnames⟩, obs, hobs, hobsType, howner⟩ := hnew
  refine ⟨hws, htype, ⟨row, ?_, hnames⟩, obs, hobs, hobsType, h.owner howner⟩
  have hmem : row ∈ w.handles.ofWorkspace ws := by
    rw [h.handles]
    exact HandleTable.mem_ofWorkspace.2 ⟨List.mem_of_find?_eq_some hrow, hnames.workspaceId⟩
  rw [← HandleTable.row_handle hrow]
  exact h.keptRight.handles.row_eq (HandleTable.mem_ofWorkspace.1 hmem).1

theorem World.Kept.registered_create (hv : v.Kept) {new : NewJob}
    (hnew : new.RegisteredIn v.handles ws) :
    ∀ job ∈ (v.jobs.exec v.clock (.create new)).2.rows, job.Registered v.handles := by
  intro job hjob
  rcases List.mem_append.1 hjob with hjob | hjob
  · exact hv.registered job hjob
  · obtain rfl := List.mem_singleton.1 hjob
    exact ⟨ws, hnew.workspace, hnew.jobType, hnew.jobHandle, hnew.obsHandle⟩

/-- A job is created alike. -/
theorem lockstep_create (h : SameView ws v w) {new : NewJob}
    (hnew : new.RegisteredIn v.handles ws) :
    Lockstep World.exec (Ends ws v w)
      (perform (.jobs (.create new))) v (perform (.jobs (.create new))) w := by
  have hnew' := h.registeredIn hnew
  refine lockstep_op (exec_jobs_fits v w _) fun c a v' b w' hv hw => ?_
  cases c <;> simp only [World.exec, Option.some.injEq, Prod.mk.injEq, reduceCtorEq] at hv hw
  · obtain ⟨rfl, rfl⟩ := hv
    obtain ⟨rfl, rfl⟩ := hw
    refine ⟨congrArg Except.ok h.nextJob.symm, ?_, fun _ _ => trivial⟩
    refine h.write h.keptLeft.handles h.keptRight.handles (h.keptLeft.jobs.create v.clock new)
      (h.keptRight.jobs.create w.clock new) (h.keptLeft.registered_create hnew)
      (h.keptRight.registered_create hnew') h.handles h.nextHandle ?_ ?_
      (fun row hrow key hkey => ⟨row, hrow, hkey⟩) ⟨.refl _, fun _ _ => rfl, ?_⟩
      ⟨.refl _, fun _ _ => rfl, ?_⟩
    · rw [JobTable.ofWorkspace_create_self _ hnew.workspace,
        JobTable.ofWorkspace_create_self _ hnew.workspace, h.jobs, h.clock, h.nextJob]
    · show (w.jobs.minted ++ [_]).length = (v.jobs.minted ++ [_]).length
      rw [List.length_append, List.length_append]
      exact congrArg (· + 1) h.nextJob
    · exact fun other hne => JobTable.ofWorkspace_create _ hnew.workspace hne.symm
    · exact fun other hne => JobTable.ofWorkspace_create _ hnew.workspace hne.symm
  · obtain ⟨rfl, rfl⟩ := hv
    obtain ⟨rfl, rfl⟩ := hw
    exact ⟨rfl, .refl h, fun _ heq => by cases heq⟩

end operations

end EarthdataMcp
