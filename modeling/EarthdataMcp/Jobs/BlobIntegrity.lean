import EarthdataMcp.Concurrency.Cut
import EarthdataMcp.Jobs.EvictionRules

/-!
# Ready handles and their blobs

Every operation on the cache writes several stores, one after the other: a materialization puts
the blob and then marks the handle ready, an eviction deletes the blob and then marks the handle
expired.

* `Intact`: every ready handle names a blob that is stored;
* `evictionWindow`: between the two writes of an eviction the store is not intact;
* `program_intact`: outside that window every program leaves the store intact, if each blob it
  deletes was named by one ready handle at most;
* `intact_of_cut` for sequences of operations cut short anywhere else, `intact_of_whole` for
  sequences of whole operations.
-/

namespace EarthdataMcp

open Concurrency Concurrency.Prog

/-! ### Intact stores -/

/-- The ready handles that name a key. -/
def World.named (w : World) (key : Key) : List Handle :=
  w.handles.rows.filter fun row => row.Ready ∧ row.payload.storageKey = some key

/-- Every ready handle names a blob that is stored. -/
def Intact (w : World) : Prop :=
  ∀ row ∈ w.handles.rows, row.Ready → ∃ key, row.payload.storageKey = some key ∧ w.storage.Has key

/-- The store is intact, and its handles are told apart by their names. -/
structure Settled (w : World) : Prop where
  numbered : w.handles.Numbered
  intact : Intact w

theorem World.mem_named {w : World} {key : Key} {row : Handle} :
    row ∈ w.named key ↔ row ∈ w.handles.rows ∧ row.Ready ∧ row.payload.storageKey = some key := by
  unfold World.named
  rw [List.mem_filter, decide_eq_true_eq]

/-- The operation neither deletes a blob nor makes a handle ready. -/
def Op.Harmless : Op → Prop
  | .storage (.delete _) => False
  | .handles (.putHandle _ _ payload) => payload.status ≠ some .ready
  | .handles (.insertUnique _ _ payload) => payload.status ≠ some .ready
  | .handles (.updateHandle _ _ u) =>
      u.status ≠ some .ready ∧ (u.status = none → u.storageKey = none)
  | _ => True

section step

variable {w w' : World} {o : Op} {c : Choice} {a : Except Exn o.Ans}

/-- A deletion removes the blob, or raises without effect. -/
theorem World.exec_delete {key : Key} {a : Except Exn Unit}
    (he : w.exec (.storage (.delete key)) c = some (a, w')) :
    c = .ok ∧ a = .ok () ∧ w' = { w with storage := (w.storage.exec (.delete key)).2 } ∨
      (∃ e, c = .fault e ∧ a = .error e) ∧ w' = w := by
  cases c <;> simp [World.exec] at he
  · exact Or.inl ⟨rfl, he.1.symm, he.2.symm⟩
  · exact Or.inr ⟨⟨_, rfl, he.1.symm⟩, he.2.symm⟩

/-- Only a deletion removes a blob. -/
theorem World.exec_has (he : w.exec o c = some (a, w')) (ho : ∀ key, o ≠ .storage (.delete key))
    {key : Key} (h : w.storage.Has key) : w'.storage.Has key := by
  by_cases hs : ∃ so, o = .storage so
  · obtain ⟨so, rfl⟩ := hs
    rcases exec_storage he with ⟨-, -, rfl⟩ | ⟨e, -, rfl⟩
    · cases so with
      | put k blob => exact (BlobStore.has_put _ _ _ _).2 (Or.inr h)
      | delete k => exact absurd rfl (ho k)
      | _ =>
        rw [BlobStore.exec_eq_self] <;> simp
        exact h
    · exact h
  · rw [exec_storage_eq_self he fun x hx => hs ⟨x, hx⟩]
    exact h

/-- A harmless operation makes no handle ready, and leaves the ready ones as they are. -/
theorem World.exec_ready (he : w.exec o c = some (a, w')) (ho : o.Harmless) {row' : Handle}
    (hrow' : row' ∈ w'.handles.rows) (hready : row'.Ready) :
    ∃ row ∈ w.handles.rows, row.Ready ∧ row.payload.storageKey = row'.payload.storageKey := by
  by_cases hs : ∃ ho, o = .handles ho
  · obtain ⟨hop, rfl⟩ := hs
    rcases exec_handles he with ⟨-, -, rfl⟩ | ⟨e, -, rfl⟩
    · rcases HandleTable.exec_cases (t := w.handles) w.clock hop with h | ⟨ws, h, u, row, rfl, -, heq⟩ |
        ⟨ws, h, rfl, heq⟩ | ⟨ws, type, payload, hmint, heq⟩
      · rw [show w.handles = _ from h.symm]
        exact ⟨row', hrow', hready, rfl⟩
      · change row' ∈ (w.handles.exec w.clock _).2.rows at hrow'
        rw [heq] at hrow'
        obtain ⟨r, hr, rfl⟩ := List.mem_map.1 hrow'
        split_ifs at hready ⊢
        · unfold Handle.Ready at hready
          rw [Handle.updated_payload, Payload.merge_status] at hready
          have hnone : u.status = none := by
            cases hu : u.status with
            | none => rfl
            | some status =>
              rw [hu] at hready
              exact absurd (hu.trans hready) ho.1
          rw [hnone] at hready
          refine ⟨r, hr, hready, ?_⟩
          rw [Handle.updated_payload, Payload.merge_storageKey, ho.2 hnone]
          rfl
        · exact ⟨r, hr, hready, rfl⟩
      · change row' ∈ (w.handles.exec w.clock _).2.rows at hrow'
        rw [heq] at hrow'
        obtain ⟨r, hr, rfl⟩ := List.mem_map.1 hrow'
        split_ifs at hready ⊢ <;> exact ⟨r, hr, hready, rfl⟩
      · change row' ∈ (w.handles.exec w.clock _).2.rows at hrow'
        rw [heq] at hrow'
        rcases List.mem_append.1 hrow' with hold | hnew
        · exact ⟨row', hold, hready, rfl⟩
        · obtain rfl := List.mem_singleton.1 hnew
          rcases hmint with rfl | rfl <;> exact absurd hready ho
    · exact ⟨row', hrow', hready, rfl⟩
  · rw [exec_handles_eq_self he fun x hx => hs ⟨x, hx⟩] at hrow'
    exact ⟨row', hrow', hready, rfl⟩

theorem Settled.harmless (hw : Settled w) (ho : o.Harmless) (he : w.exec o c = some (a, w')) :
    Settled w' := by
  refine ⟨World.exec_numbered he hw.numbered, fun row' hrow' hready' => ?_⟩
  obtain ⟨row, hrow, hready, hkey⟩ := World.exec_ready he ho hrow' hready'
  obtain ⟨key, hnames, hhas⟩ := hw.intact row hrow hready
  refine ⟨key, hkey ▸ hnames, World.exec_has he ?_ hhas⟩
  rintro k rfl
  exact ho

end step

/-! ### The window of an eviction -/

/-- The operation writes to a handle. -/
def Op.UpdatesHandle : Op → Prop
  | .handles (.updateHandle _ _ _) => True
  | _ => False

instance : (o : Op) → Decidable o.UpdatesHandle
  | .handles (.updateHandle _ _ _) => instDecidableTrue
  | .now | .jobs _ | .handles (.getHandle _ _) | .handles (.findBySignature _ _)
  | .handles (.listHandles _ _) | .handles .selectEvictable | .handles (.putHandle _ _ _)
  | .handles (.insertUnique _ _ _) | .handles (.touchHandle _ _) | .storage _ | .queue _
  | .provider _ | .planning _ | .access _ | .provenance _ | .orphanSweepDue _ => instDecidableFalse

/-- Between the deletion of a blob that a ready handle names and the next write to a handle,
the store is not intact. -/
def evictionWindow : Window Api World Choice where
  opens w o c :=
    match o, c with
    | .storage (.delete key), .ok => !(w.named key).isEmpty
    | _, _ => false
  closing := Op.UpdatesHandle
  effective c :=
    match c with
    | .ok => true
    | _ => false

/-- A blob is deleted only if one ready handle at most names it, and this one is of a type the
sweep knows. -/
def OneOwner (w : World) : Op → Prop
  | .storage (.delete key) =>
      (w.named key).length ≤ 1 ∧ ∀ row ∈ w.named key, row.handle.evictable = true
  | _ => True

instance (w : World) : (o : Op) → Decidable (OneOwner w o)
  | .storage (.delete _) => inferInstanceAs (Decidable (_ ∧ ∀ row ∈ w.named _, _))
  | .now | .jobs _ | .handles _ | .storage (.put _ _) | .storage (.get _) | .storage (.list _)
  | .storage (.stat _) | .storage (.uri _) | .queue _ | .provider _ | .planning _ | .access _
  | .provenance _ | .orphanSweepDue _ => instDecidableTrue

/-- What programs obey: outside the window the store is settled. -/
abbrev intactProtocol : Protocol Api (World × Bool) :=
  evictionWindow.protocol World.exec (fun w o _ => OneOwner w o) Settled

section programs

variable {α : Type} {w : World} {s : World × Bool}

theorem opens_eq_false {o : Op} {c : Choice} (ho : ∀ key, o ≠ .storage (.delete key)) :
    evictionWindow.opens w o c = false := by
  unfold evictionWindow
  dsimp only
  split
  · rename_i key
    exact absurd rfl (ho key)
  · rfl

theorem opens_delete (key : Key) :
    evictionWindow.opens w (.storage (.delete key)) .ok = !(w.named key).isEmpty := rfl

/-- The store is settled, and holds at least the blobs of `w`. -/
def Kept (w : World) (s : World × Bool) : Prop :=
  s.2 = false ∧ Settled s.1 ∧ ∀ key, w.storage.Has key → s.1.storage.Has key

theorem Kept.harmless {o : Op} {a : Except Exn o.Ans} {s' : World × Bool} (hs : Kept w s)
    (ho : o.Harmless) (hnext : intactProtocol.next s o a s') : Kept w s' := by
  obtain ⟨c, -, -, he, hopen⟩ := hnext
  have hdel (key : Key) : o ≠ .storage (.delete key) := by
    rintro rfl
    exact ho
  refine ⟨hopen.trans (opens_eq_false hdel), hs.2.1.harmless ho he, fun key h => ?_⟩
  exact World.exec_has he hdel (hs.2.2 key h)

/-- In a settled store a thread may do anything. -/
theorem Kept.allows (hs : Kept w s) (o : Op) : intactProtocol.allows s o :=
  ⟨fun _ => hs.2.1, fun h => by rw [hs.1] at h; cases h⟩

theorem harmless_obeys {p : Program α} (hp : p.Only Op.Harmless) (hs : Kept w s) :
    p.Obeys intactProtocol s fun _ s' => Kept w s' :=
  hp.obeys (fun _ o hs _ => hs.allows o) (fun _ _ _ _ hs ho hnext => hs.harmless ho hnext) hs

/-! ### The sweep -/

/-- The handle of the candidate is still as the candidate says. -/
def Candidate.Current (w : World) (c : Candidate) : Prop :=
  ∃ row, w.handles.row c.handle = some row ∧ row.Ready ∧ row.workspaceId = c.workspaceId ∧
    row.payload.storageKey = some c.storageKey

/-- The candidates of the queue are current, and no two of them are for one handle. -/
structure Evictable (queue : List Candidate) (s : World × Bool) : Prop where
  isClosed : s.2 = false
  settled : Settled s.1
  distinct : (queue.map Candidate.handle).Nodup
  current : ∀ c ∈ queue, c.Current s.1

theorem Candidate.Current.mem_named {c : Candidate} {row : Handle}
    (hrow : w.handles.row c.handle = some row) (hready : row.Ready)
    (hkey : row.payload.storageKey = some c.storageKey) : row ∈ w.named c.storageKey :=
  World.mem_named.2 ⟨List.mem_of_find?_eq_some hrow, hready, hkey⟩

/-- The deletion of an eviction: it raises without effect, or opens the window. -/
theorem evict_delete {c : Candidate} {queue : List Candidate} {a : Except Exn Unit}
    {s' : World × Bool} (hs : Evictable (c :: queue) s)
    (hnext : intactProtocol.next s (.storage (.delete c.storageKey)) a s') :
    (∃ e, a = .error e) ∧ s' = s ∨
      a = .ok () ∧ s'.2 = true ∧ (s.1.named c.storageKey).length ≤ 1 ∧
        s'.1 = { s.1 with storage := (s.1.storage.exec (.delete c.storageKey)).2 } := by
  obtain ⟨ch, hone, -, he, hopen⟩ := hnext
  obtain ⟨row, hrow, hready, -, hkey⟩ := hs.current c List.mem_cons_self
  have hnamed := Candidate.Current.mem_named hrow hready hkey
  rcases World.exec_delete he with ⟨rfl, ha, hw⟩ | ⟨⟨e, rfl, ha⟩, hw⟩
  · refine Or.inr ⟨ha, ?_, hone.1, hw⟩
    rw [hopen, opens_delete, Bool.not_eq_true', List.isEmpty_eq_false_iff]
    exact List.ne_nil_of_mem hnamed
  · exact Or.inl ⟨⟨e, ha⟩, Prod.ext hw (hopen.trans hs.isClosed.symm)⟩

/-- The expiry of an eviction closes the window. -/
theorem evict_expire {c : Candidate} {queue : List Candidate} {a : Except Exn Handle}
    {t t' : World × Bool} (hs : Evictable (c :: queue) s) (hone : (s.1.named c.storageKey).length ≤ 1)
    (hopen : t.2 = true)
    (ht : t.1 = { s.1 with storage := (s.1.storage.exec (.delete c.storageKey)).2 })
    (hnext : intactProtocol.next t (.handles (.updateHandle c.workspaceId c.handle
      { status := some .expired, storageKey := some none })) a t') : Evictable queue t' := by
  obtain ⟨ch, -, heff, he, hclosed⟩ := hnext
  obtain ⟨row, hrow, hready, hws, hkey⟩ := hs.current c List.mem_cons_self
  have hnumbered := hs.settled.numbered
  have hhandles : t.1.handles = s.1.handles := by rw [ht]
  have hlookup : t.1.handles.lookup c.workspaceId c.handle = .ok row :=
    HandleTable.lookup_eq_ok_iff.2 ⟨hhandles ▸ hrow, hws⟩
  have hch := heff hopen
  cases ch <;> try cases hch
  rcases World.exec_handles he with ⟨-, -, hw⟩ | ⟨e, ha, -⟩
  · have hw' : t'.1.handles = s.1.handles.modify c.handle
        (Handle.updated t.1.clock { status := some .expired, storageKey := some none }) := by
      rw [hw, ← hhandles]
      simp only [HandleTable.exec, hlookup]
    have hstorage : t'.1.storage = (s.1.storage.exec (.delete c.storageKey)).2 := by rw [hw, ht]
    refine ⟨hclosed.trans (opens_eq_false (by simp)), ⟨?_, ?_⟩, ?_, ?_⟩
    · rw [hw']
      exact hnumbered.modify fun row => Handle.updated_handle _ _ row
    · -- a ready handle that is left names another blob
      intro row' hrow' hready'
      rw [hw'] at hrow'
      obtain ⟨r, hr, rfl⟩ := List.mem_map.1 hrow'
      split_ifs at hready' ⊢ with hh
      · unfold Handle.Ready at hready'
        rw [Handle.updated_payload] at hready'
        cases hready'
      · obtain ⟨key, hnames, hhas⟩ := hs.settled.intact r hr hready'
        refine ⟨key, hnames, ?_⟩
        rw [hstorage, BlobStore.has_delete]
        refine ⟨?_, hhas⟩
        rintro rfl
        have hmem := World.mem_named.2 ⟨hr, hready', hnames⟩
        have hmem' := Candidate.Current.mem_named hrow hready hkey
        obtain ⟨only, honly⟩ := List.length_eq_one_iff.1
          (le_antisymm hone (List.length_pos_of_mem hmem))
        rw [honly] at hmem hmem'
        obtain rfl := (List.mem_singleton.1 hmem).trans (List.mem_singleton.1 hmem').symm
        exact hh (HandleTable.row_handle hrow)
    · exact (List.nodup_cons.1 hs.distinct).2
    · intro c' hc'
      obtain ⟨row', hrow', hrest⟩ := hs.current c' (List.mem_cons_of_mem _ hc')
      have hne : c'.handle ≠ c.handle := by
        intro heq
        exact (List.nodup_cons.1 hs.distinct).1 (heq ▸ List.mem_map_of_mem hc')
      refine ⟨row', ?_, hrest⟩
      rw [hw', HandleTable.row_updated, if_neg hne]
      exact hrow'
  · have hok :
        a = .ok (row.updated t.1.clock { status := some .expired, storageKey := some none }) := by
      simp only [World.exec, HandleTable.exec, hlookup, Option.some.injEq, Prod.mk.injEq] at he
      exact he.1.symm
    rw [hok] at ha
    cases ha

theorem Evictable.handles {queue : List Candidate} {s' : World × Bool} (hs : Evictable queue s)
    (hclosed : s'.2 = false) (hsettled : Settled s'.1) (hhandles : s'.1.handles = s.1.handles) :
    Evictable queue s' := by
  refine ⟨hclosed, hsettled, hs.distinct, fun c hc => ?_⟩
  unfold Candidate.Current
  rw [hhandles]
  exact hs.current c hc

/-- A step that is harmless and changes no handle. -/
theorem Evictable.step {queue : List Candidate} {o : Op} (ho : o.Harmless)
    (hhandles : ∀ x, o ≠ .handles x) (hs : Evictable queue s) :
    (perform o).Obeys intactProtocol s fun _ s' => Evictable queue s' := by
  have hkept : Kept s.1 s := ⟨hs.isClosed, hs.settled, fun _ h => h⟩
  rw [obeys_perform]
  refine ⟨hkept.allows o, fun a s' hnext => ?_⟩
  obtain ⟨hclosed, hsettled, -⟩ := hkept.harmless ho hnext
  obtain ⟨c, -, -, he, -⟩ := hnext
  exact hs.handles hclosed hsettled (World.exec_handles_eq_self he hhandles)

theorem evictOne_intact {c : Candidate} {queue : List Candidate} (hs : Evictable (c :: queue) s) :
    (evictOne c).Obeys intactProtocol s fun _ s' => Evictable queue s' := by
  have hkept : Kept s.1 s := ⟨hs.isClosed, hs.settled, fun _ h => h⟩
  unfold evictOne
  rw [obeys_bind, obeys_perform]
  refine ⟨hkept.allows _, fun a t hnext => ?_⟩
  rcases evict_delete hs hnext with ⟨⟨e, rfl⟩, rfl⟩ | ⟨rfl, hopen, hone, ht⟩
  · exact ⟨hs.isClosed, hs.settled, (List.nodup_cons.1 hs.distinct).2,
      fun c' hc' => hs.current c' (List.mem_cons_of_mem _ hc')⟩
  rw [afterBind_ok, obeys_bind, obeys_perform]
  refine ⟨⟨fun h => ?_, fun _ => trivial⟩, fun a t' hnext' => ?_⟩
  · rw [hopen] at h
    cases h
  have ht' := evict_expire hs hone hopen ht hnext'
  cases a with
  | error e => exact ht'
  | ok row =>
    rw [afterBind_ok, obeys_bind]
    refine (ht'.step (o := .provenance _) trivial (by simp)).mono ?_
    rintro (e | ⟨⟩) u hu
    · exact hu
    rw [afterBind_ok, obeys_bind]
    refine (hu.step (o := .jobs _) trivial (by simp)).mono ?_
    rintro (e | rows) v hv <;> exact hv

theorem SweepOp.Quiet.harmless {o : Op} (ho : SweepOp.Quiet o) :
    o.Harmless ∧ ∀ x, o ≠ .handles x := by
  cases ho <;> exact ⟨trivial, by simp⟩

/-- The snapshot is what the handles are. -/
def Fresh (rows : List Handle) (s : World × Bool) : Prop :=
  s.2 = false ∧ Settled s.1 ∧ s.1.handles.rows.filter (fun row => row.handle.evictable) = rows

theorem intact_sweepRules :
    SweepRules intactProtocol (fun s => s.2 = false ∧ Settled s.1) Fresh Evictable
      (fun s => s.2 = false ∧ Settled s.1) where
  ended_of_inv _ hs := hs
  inv_of_fresh _ _ hs := ⟨hs.1, hs.2.1⟩
  inv_of_left _ _ hs := ⟨hs.isClosed, hs.settled⟩
  quiet s o hs _ := Kept.allows (w := s.1) ⟨hs.1, hs.2, fun _ h => h⟩ o
  quiet_inv s o a s' hs ho hnext := by
    have hkept : Kept s.1 s := ⟨hs.1, hs.2, fun _ h => h⟩
    obtain ⟨hclosed, hsettled, -⟩ := hkept.harmless ho.harmless.1 hnext
    exact ⟨hclosed, hsettled⟩
  quiet_fresh rows s o a s' hs ho hnext := by
    have hkept : Kept s.1 s := ⟨hs.1, hs.2.1, fun _ h => h⟩
    obtain ⟨hclosed, hsettled, -⟩ := hkept.harmless ho.harmless.1 hnext
    obtain ⟨c, -, -, he, -⟩ := hnext
    refine ⟨hclosed, hsettled, ?_⟩
    rw [World.exec_handles_eq_self he ho.harmless.2]
    exact hs.2.2
  select s hs := Kept.allows (w := s.1) ⟨hs.1, hs.2, fun _ h => h⟩ _
  select_ok s rows s' hs hnext := by
    have hkept : Kept s.1 s := ⟨hs.1, hs.2, fun _ h => h⟩
    obtain ⟨hclosed, hsettled, -⟩ :=
      hkept.harmless (o := .handles .selectEvictable) trivial hnext
    obtain ⟨c, -, -, he, -⟩ := hnext
    rcases World.exec_handles he with ⟨-, ha, hw⟩ | ⟨e, ha, -⟩
    · refine ⟨hclosed, hsettled, ?_⟩
      rw [hw]
      exact (Except.ok.inj ha).symm
    · cases ha
  select_error s e s' hs hnext := by
    have hkept : Kept s.1 s := ⟨hs.1, hs.2, fun _ h => h⟩
    obtain ⟨hclosed, hsettled, -⟩ :=
      hkept.harmless (o := .handles .selectEvictable) trivial hnext
    exact ⟨hclosed, hsettled⟩
  orphan rows s key hs hnone := by
    have hkept : Kept s.1 s := ⟨hs.1, hs.2.1, fun _ h => h⟩
    rw [obeys_perform]
    refine ⟨hkept.allows _, fun a s' hnext => ?_⟩
    obtain ⟨c, hone, -, he, hopen⟩ := hnext
    -- no ready handle names the key: it would be in the snapshot
    have hempty : s.1.named key = [] := by
      refine List.eq_nil_iff_forall_not_mem.2 fun row hrow => ?_
      have hev := hone.2 row hrow
      obtain ⟨hmem, -, hkey⟩ := World.mem_named.1 hrow
      exact hnone row (hs.2.2 ▸ List.mem_filter.2 ⟨hmem, hev⟩) hkey
    rcases World.exec_delete he with ⟨rfl, -, hw⟩ | ⟨⟨e, rfl, -⟩, hw⟩
    · rw [opens_delete, hempty] at hopen
      refine ⟨hopen, ⟨?_, fun row hrow hready => ?_⟩, ?_⟩
      · rw [hw]
        exact hs.2.1.numbered
      · rw [hw] at hrow
        obtain ⟨key', hnames, hhas⟩ := hs.2.1.intact row hrow hready
        refine ⟨key', hnames, ?_⟩
        rw [hw, BlobStore.has_delete]
        refine ⟨?_, hhas⟩
        rintro rfl
        have hmem : row ∈ s.1.named key' := World.mem_named.2 ⟨hrow, hready, hnames⟩
        rw [hempty] at hmem
        cases hmem
      · rw [hw]
        exact hs.2.2
    · exact ⟨hopen, hw ▸ hs.2.1, hw ▸ hs.2.2⟩
  start rows s cs queue hs hmade hsub _ := by
    have hrows : (rows.map Handle.handle).Nodup := by
      refine List.Nodup.of_map (fun h => h.suffix) ?_
      rw [List.map_map, ← hs.2.2]
      refine List.Nodup.sublist (List.filter_sublist.map _) ?_
      show (s.1.handles.rows.map fun row => row.handle.suffix).Nodup
      rw [hs.2.1.numbered]
      exact List.nodup_range
    obtain ⟨l, hperm, hlist⟩ := hsub
    refine ⟨hs.1, hs.2.1, ?_, fun c hc => ?_⟩
    · exact (hperm.map _).nodup_iff.1 ((hrows.sublist hmade.handles).sublist (hlist.map _))
    · obtain ⟨row, hof⟩ := hmade.of c (hlist.subset (hperm.mem_iff.2 hc))
      have hmem := hof.mem
      rw [← hs.2.2] at hmem
      refine ⟨row, ?_, hof.ready, hof.workspaceId, hof.storageKey⟩
      rw [← hof.handle]
      exact hs.2.1.numbered.row_eq (List.mem_of_mem_filter hmem)
  perm queue queue' s hs hperm :=
    ⟨hs.isClosed, hs.settled, (hperm.map _).nodup_iff.1 hs.distinct,
      fun c hc => hs.current c (hperm.mem_iff.2 hc)⟩
  evict c queue s hs :=
    (evictOne_intact hs).mono fun _ _ hs' => ⟨⟨hs'.isClosed, hs'.settled⟩, fun _ => hs'⟩

theorem sweep_intact (svc : EvictionService) (h : Option HandleId) (hs : s.2 = false ∧ Settled s.1) :
    (svc.sweep h).Obeys intactProtocol s fun _ s' => s'.2 = false ∧ Settled s'.1 :=
  sweep_obeys intact_sweepRules svc h hs

/-! ### The other programs -/

theorem TaskOp.harmless {j : JobId} {o : Op} (h : TaskOp j o) : o.Harmless := by
  cases h <;> trivial

theorem SubmitOp.harmless {j : JobId} {o : Op} (h : SubmitOp j o) : o.Harmless := by
  cases h with
  | task h => exact h.harmless
  | failed h =>
    cases h with
    | task h => exact h.harmless
    | _ => trivial
  | succeeded h => cases h <;> trivial
  | _ => trivial

theorem PollOp.harmless {j : JobId} {o : Op} (h : PollOp j o) : o.Harmless := by
  cases h with
  | task h => exact h.harmless
  | _ => trivial

theorem PrefetchOp.harmless {credential : Option Credential} {o : Op}
    (h : PrefetchOp credential o) : o.Harmless := by
  cases h with
  | insert ws signature => exact fun h => by cases h
  | mintJob ws obs dataset => exact fun h => by cases h
  | _ => trivial

theorem RetrievalOp.harmless {cfg : Settings} {o : Op} (h : RetrievalOp cfg o) : o.Harmless := by
  cases h with
  | promote ws h => exact ⟨fun h => (by cases h), fun _ => rfl⟩
  | pending ws h => exact ⟨fun h => (by cases h), fun _ => rfl⟩
  | insert ws signature => exact fun h => by cases h
  | mintObs ws => exact fun h => by cases h
  | mintJob ws obs dataset => exact fun h => by cases h
  | _ => trivial

theorem CancelOp.harmless {o : Op} (h : CancelOp o) : o.Harmless := by
  cases h <;> trivial

theorem ReadingOp.harmless {o : Op} (h : ReadingOp o) : o.Harmless := by
  cases h with
  | pin ws h b => exact ⟨fun h => (by cases h), fun _ => rfl⟩
  | _ => trivial

theorem ResumeOp.harmless {o : Op} (h : ResumeOp o) : o.Harmless := by
  cases h <;> trivial

/-- A program that ends outside the window, in a settled store. -/
def LeavesIntact (s : World × Bool) (p : Program α) : Prop :=
  p.Obeys intactProtocol s fun _ s' => s'.2 = false ∧ Settled s'.1

theorem leavesIntact_of_only {p : Program α} (hp : p.Only Op.Harmless)
    (hs : s.2 = false ∧ Settled s.1) : LeavesIntact s p :=
  (harmless_obeys (w := s.1) hp ⟨hs.1, hs.2, fun _ h => h⟩).mono fun _ _ h => ⟨h.1, h.2.1⟩

theorem LeavesIntact.bind {β : Type} {p : Program α} {f : α → Program β} (hp : LeavesIntact s p)
    (hf : ∀ a s', s'.2 = false ∧ Settled s'.1 → LeavesIntact s' (f a)) :
    LeavesIntact s (p >>= f) := by
  unfold LeavesIntact
  rw [obeys_bind]
  refine hp.mono ?_
  rintro (e | a) s' hs'
  · exact hs'
  · exact hf a s' hs'

theorem LeavesIntact.attempt {p : Program α} (hp : LeavesIntact s p) : LeavesIntact s p.attempt := by
  unfold LeavesIntact
  rw [obeys_attempt]
  exact hp

theorem LeavesIntact.swallow {p : Program Unit} (hp : LeavesIntact s p) :
    LeavesIntact s (swallow p) := by
  unfold EarthdataMcp.swallow
  refine hp.attempt.bind fun r s' hs' => ?_
  cases r with
  | ok _ => exact hs'
  | error e =>
    dsimp only
    split_ifs <;> exact hs'

/-- A handle is written to be ready under a key that is stored. -/
theorem resolveHandle_intact {cfg : Settings} {spec : RequestSpec} {key : Key} {out : Fetched}
    (hs : s.2 = false ∧ Settled s.1) (hkey : s.1.storage.Has key) :
    LeavesIntact s (resolveHandle cfg spec key out) := by
  have hkept : Kept s.1 s := ⟨hs.1, hs.2, fun _ h => h⟩
  unfold resolveHandle
  split
  · exact hs
  rename_i h _
  unfold LeavesIntact
  rw [obeys_bind, obeys_perform]
  refine ⟨hkept.allows _, fun a s' hnext => ?_⟩
  suffices hs' : s'.2 = false ∧ Settled s'.1 by cases a <;> exact hs'
  obtain ⟨c, -, -, he, hopen⟩ := hnext
  refine ⟨hopen.trans (opens_eq_false (by simp)), World.exec_numbered he hs.2.numbered, ?_⟩
  rcases World.exec_handles he with ⟨-, -, hw⟩ | ⟨e, -, hw⟩
  · intro row' hrow' hready'
    rw [hw] at hrow' ⊢
    rcases HandleTable.exec_cases (t := s.1.handles) s.1.clock _ with heq |
      ⟨ws, h', u, row, hop, -, heq⟩ | ⟨ws, h', hop, -⟩ | ⟨ws, type, payload, hop | hop, -⟩
    · change row' ∈ (s.1.handles.exec s.1.clock _).2.rows at hrow'
      rw [heq] at hrow'
      exact hs.2.intact row' hrow' hready'
    · change row' ∈ (s.1.handles.exec s.1.clock _).2.rows at hrow'
      rw [heq] at hrow'
      injection hop with _ _ hu
      obtain ⟨r, hr, rfl⟩ := List.mem_map.1 hrow'
      split_ifs at hready' ⊢
      · refine ⟨key, ?_, hkey⟩
        rw [Handle.updated_payload, Payload.merge_storageKey, ← hu]
        rfl
      · exact hs.2.intact r hr hready'
    · cases hop
    · cases hop
    · cases hop
  · rw [hw]
    exact hs.2.intact

/-- A materialization puts the blob before it makes the handle ready. -/
theorem materializeJob_intact (cfg : Settings) (j : JobId) (hs : s.2 = false ∧ Settled s.1) :
    LeavesIntact s (materializeJob cfg j) := by
  have htask {α : Type} {p : Program α} (hp : p.Only (TaskOp j)) : p.Only Op.Harmless :=
    hp.mono fun _ => TaskOp.harmless
  unfold materializeJob
  refine (leavesIntact_of_only (only_perform.2 (by trivial)) hs).bind fun rows s₁ hs₁ => ?_
  unfold withRow
  split
  · exact hs₁
  rename_i job _
  split_ifs
  swap
  · exact hs₁
  split
  · exact hs₁
  rename_i spec _
  show LeavesIntact s₁ (materializeRow cfg j spec job)
  unfold materializeRow
  refine (leavesIntact_of_only (htask (loadJobIdentity_only _ _ _ _)) hs₁).bind
    fun identity s₂ hs₂ => ?_
  refine (leavesIntact_of_only (htask (loadProvider_only _ _)) hs₂).bind fun _ s₃ hs₃ => ?_
  unfold LeavesIntact
  rw [obeys_bind, obeys_attempt]
  have hput : (providerMaterialize j spec job.providerJobUrl identity).Obeys intactProtocol s₃
      fun r s' => (s'.2 = false ∧ Settled s'.1) ∧
        ∀ key out, r = .ok (key, out) → s'.1.storage.Has key := by
    unfold providerMaterialize
    rw [obeys_bind]
    refine (leavesIntact_of_only (only_perform.2 (by trivial)) hs₃).mono ?_
    rintro (e | out) s₄ hs₄
    · exact ⟨hs₄, fun _ _ h => by cases h⟩
    have hkept : Kept s₄.1 s₄ := ⟨hs₄.1, hs₄.2, fun _ h => h⟩
    rw [afterBind_ok, obeys_bind, obeys_perform]
    refine ⟨hkept.allows _, fun a s₅ hnext => ?_⟩
    have hkept' := hkept.harmless (o := .storage (.put _ _)) trivial hnext
    obtain ⟨c, -, -, he, -⟩ := hnext
    rcases World.exec_storage he with ⟨-, rfl, hw⟩ | ⟨e, rfl, -⟩
    · refine ⟨⟨hkept'.1, hkept'.2.1⟩, ?_⟩
      rintro key out' ⟨⟩
      rw [hw]
      exact (BlobStore.has_put _ _ _ _).2 (Or.inl rfl)
    · exact ⟨⟨hkept'.1, hkept'.2.1⟩, fun _ _ h => by cases h⟩
  refine hput.mono ?_
  rintro (e | ⟨key, out⟩) s₄ ⟨hs₄, hhas⟩
  · exact leavesIntact_of_only (htask (materializeFailed_only _ _ _ _)) hs₄
  rw [afterBind_ok]
  show LeavesIntact s₄ (materializeDelivered cfg j spec job key out)
  unfold materializeDelivered
  have hdrift : (logMaterializationDrift j spec).Only Op.Harmless := by
    unfold logMaterializationDrift
    split
    · trivial
    · exact only_swallow (only_map (only_perform.2 trivial))
  unfold LeavesIntact
  rw [obeys_bind]
  refine (harmless_obeys (w := s₄.1) hdrift ⟨hs₄.1, hs₄.2, fun _ h => h⟩).mono ?_
  rintro (e | ⟨⟩) s₅ ⟨hclosed, hsettled, hkeep⟩
  · exact ⟨hclosed, hsettled⟩
  rw [afterBind_ok]
  refine (resolveHandle_intact ⟨hclosed, hsettled⟩ (hkeep key (hhas key out rfl))).bind
    fun _ s₆ hs₆ => ?_
  refine (leavesIntact_of_only (recordEventSafe_only (fun _ => trivial) _ _ _) hs₆).bind
    fun _ s₇ hs₇ => ?_
  refine (leavesIntact_of_only (transitionState_only trivial) hs₇).bind fun _ s₈ hs₈ => ?_
  unfold afterReady
  refine (LeavesIntact.swallow (sweep_intact _ _ hs₈)).bind fun _ s₉ hs₉ => ?_
  refine LeavesIntact.swallow ((leavesIntact_of_only ?_ hs₉).bind fun _ _ h => h)
  exact (maybePrefetch_only _ _ _ _ _).mono fun _ => PrefetchOp.harmless

/-- A transform puts the cube before it mints the handle. -/
theorem emitCube_intact (cfg : Settings) (ws : WorkspaceId) (cube : CubeResult)
    (hs : s.2 = false ∧ Settled s.1) : LeavesIntact s (emitCube cfg ws cube) := by
  have hkept : Kept s.1 s := ⟨hs.1, hs.2, fun _ h => h⟩
  unfold emitCube LeavesIntact
  rw [obeys_bind, obeys_perform]
  refine ⟨hkept.allows _, fun a s₁ hnext => ?_⟩
  have hkept₁ := hkept.harmless (o := .storage (.put _ _)) trivial hnext
  obtain ⟨c, -, -, he, -⟩ := hnext
  rcases World.exec_storage he with ⟨-, rfl, hw⟩ | ⟨e, rfl, -⟩
  case inr => exact ⟨hkept₁.1, hkept₁.2.1⟩
  have hhas : s₁.1.storage.Has (cube.storageKey cfg) := by
    rw [hw]
    exact (BlobStore.has_put _ _ _ _).2 (Or.inl rfl)
  show Obeys intactProtocol _ s₁ _
  rw [obeys_bind, obeys_perform]
  refine ⟨hkept₁.allows _, fun a s₂ hnext₂ => ?_⟩
  have hs₂ : s₂.2 = false ∧ Settled s₂.1 := by
    obtain ⟨c, -, -, he, hopen⟩ := hnext₂
    refine ⟨hopen.trans (opens_eq_false (by simp)), World.exec_numbered he hkept₁.2.1.numbered, ?_⟩
    rcases World.exec_handles he with ⟨-, -, hw⟩ | ⟨e, -, hw⟩
    · intro row hrow hready
      rw [hw] at hrow ⊢
      rcases List.mem_append.1 hrow with hold | hnew
      · exact hkept₁.2.1.intact row hold hready
      · obtain rfl := List.mem_singleton.1 hnew
        exact ⟨_, rfl, hhas⟩
    · rw [hw]
      exact hkept₁.2.1.intact
  cases a with
  | error e => exact hs₂
  | ok h =>
    rw [afterBind_ok]
    refine leavesIntact_of_only (Only.bind (.forEach fun _ _ => only_perform.2 trivial) fun _ => ?_) hs₂
    exact only_map (only_perform.2 trivial)

/-- Every program leaves the store intact, outside the window of an eviction. -/
theorem program_intact (cfg : Settings) (g : Origin) (hs : s.2 = false ∧ Settled s.1) :
    LeavesIntact s (g.program cfg) := by
  cases g with
  | task id t j =>
    have htask : LeavesIntact s (t.program cfg j) := by
      cases t with
      | submitJob =>
        exact leavesIntact_of_only ((submitJob_only cfg j).mono fun _ => SubmitOp.harmless) hs
      | pollJob => exact leavesIntact_of_only ((pollJob_only cfg j).mono fun _ => PollOp.harmless) hs
      | materializeJob => exact materializeJob_intact cfg j hs
    refine htask.attempt.bind fun r s' hs' => ?_
    cases r with
    | ok _ => exact leavesIntact_of_only (only_map (only_perform.2 trivial)) hs'
    | error e => exact leavesIntact_of_only ((only_perform.2 trivial).bind fun _ => trivial) hs'
  | startup =>
    refine LeavesIntact.bind ?_ fun _ _ h => h
    refine (leavesIntact_of_only (only_perform.2 (by trivial)) hs).bind fun _ s₁ hs₁ => ?_
    refine (leavesIntact_of_only ((reclaim_resumes _ _).mono fun _ => ResumeOp.harmless) hs₁).bind
      fun _ s₂ hs₂ => ?_
    exact LeavesIntact.swallow (sweep_intact _ _ hs₂)
  | sweepStalledJobs =>
    refine LeavesIntact.bind ?_ fun _ _ h => h
    refine (leavesIntact_of_only (only_perform.2 (by trivial)) hs).bind fun _ s₁ hs₁ => ?_
    exact leavesIntact_of_only ((reclaim_resumes _ _).mono fun _ => ResumeOp.harmless) hs₁
  | evictionSweep svc h => exact LeavesIntact.bind (sweep_intact svc h hs) fun _ _ h => h
  | retrieveSubset ws r t =>
    exact leavesIntact_of_only
      (only_map ((submitRetrieval_only cfg ws _ _ t).mono fun _ => RetrievalOp.harmless)) hs
  | retrieveData ws r t =>
    exact leavesIntact_of_only
      (only_map ((submitRetrieval_only cfg ws _ _ t).mono fun _ => RetrievalOp.harmless)) hs
  | rematerialize ws h t =>
    exact leavesIntact_of_only
      (only_map ((rematerialize_only cfg ws h t).mono fun _ => RetrievalOp.harmless)) hs
  | cancelRetrieval ws h t =>
    exact leavesIntact_of_only
      (only_map ((cancelRetrieval_only cfg ws h t).mono fun _ => CancelOp.harmless)) hs
  | exportResult ws h t =>
    exact leavesIntact_of_only
      (only_map ((exportResult_only ws h t).mono fun _ => ReadingOp.harmless)) hs
  | pinResult ws h pinned t =>
    exact leavesIntact_of_only
      (only_map ((pinResult_only cfg ws h pinned t).mono fun _ => ReadingOp.harmless)) hs
  | emitCube ws cube => exact (emitCube_intact cfg ws cube hs).bind fun _ _ h => h

end programs

/-! ### Sequences of operations -/

/-- Time passes, or a program runs alone, as far as the choices go. -/
inductive Happening
  | tick (d : Time)
  | run (g : Origin) (cs : List Choice)

section sequences

variable (cfg : Settings)

/-- The steps of what happens. -/
def Happening.performed (w : World) : Happening → List (Performed Api World Choice)
  | tick _ => []
  | run g cs => (g.program cfg).performed World.exec w cs

/-- The world that is left. -/
def Happening.leaves (w : World) : Happening → World
  | tick d => { w with clock := w.clock + d }
  | run g cs => (g.program cfg).leaves World.exec w cs

/-- The world that a sequence leaves. -/
def leavesAll : World → List Happening → World
  | w, [] => w
  | w, x :: xs => leavesAll (x.leaves cfg w) xs

/-- Everything that happens in a sequence satisfies `φ` in the world it finds. -/
def EachHappening (φ : World → Happening → Prop) : World → List Happening → Prop
  | _, [] => True
  | w, x :: xs => φ w x ∧ EachHappening φ (x.leaves cfg w) xs

instance decidableEachHappening {φ : World → Happening → Prop} [∀ w x, Decidable (φ w x)] :
    ∀ (w : World) (xs : List Happening), Decidable (EachHappening cfg φ w xs)
  | _, [] => inferInstanceAs (Decidable True)
  | w, x :: xs => @instDecidableAnd _ _ inferInstance (decidableEachHappening (x.leaves cfg w) xs)

/-- A program ends, and none of its writes to a handle raises. -/
def Happening.Whole (w : World) : Happening → Prop
  | tick _ => True
  | run g cs =>
      ((g.program cfg).runAlone World.exec w cs).isSome ∧
        ∀ x ∈ (g.program cfg).performed World.exec w cs,
          x.op.UpdatesHandle → evictionWindow.effective x.choice = true

instance (w : World) : (x : Happening) → Decidable (x.Whole cfg w)
  | .tick _ => inferInstanceAs (Decidable True)
  | .run _ _ => inferInstanceAs (Decidable (_ ∧ ∀ x ∈ _, _))

/-- No blob is deleted that two ready handles name. -/
def Happening.OneOwner (w : World) (x : Happening) : Prop :=
  ∀ step ∈ x.performed cfg w, EarthdataMcp.OneOwner step.world step.op

instance (w : World) (x : Happening) : Decidable (x.OneOwner cfg w) :=
  inferInstanceAs (Decidable (∀ step ∈ x.performed cfg w, _))

/-- A program is cut short anywhere but between the two writes of an eviction. -/
def Happening.CutOutsideEviction (w : World) (x : Happening) : Prop :=
  evictionWindow.Closed false (x.performed cfg w)

instance (w : World) (x : Happening) : Decidable (x.CutOutsideEviction cfg w) :=
  inferInstanceAs (Decidable (evictionWindow.Closed false (x.performed cfg w)))

variable {cfg} {w : World}

theorem Settled.tick (hw : Settled w) (d : Time) : Settled { w with clock := w.clock + d } :=
  ⟨hw.numbered, hw.intact⟩

theorem Settled.cut (hw : Settled w) {x : Happening} (hone : x.OneOwner cfg w)
    (hcut : x.CutOutsideEviction cfg w) : Settled (x.leaves cfg w) := by
  cases x with
  | tick d => exact hw.tick d
  | run g cs => exact (program_intact cfg g ⟨rfl, hw⟩).settled_leaves hone hcut

theorem Settled.whole (hw : Settled w) {x : Happening} (hwhole : x.Whole cfg w)
    (hone : x.OneOwner cfg w) : Settled (x.leaves cfg w) := by
  cases x with
  | tick d => exact hw.tick d
  | run g cs =>
    obtain ⟨⟨r, w'⟩, hrun⟩ := Option.isSome_iff_exists.1 hwhole.1
    have hleaves : (g.program cfg).leaves World.exec w cs = w' := leaves_of_runAlone hrun
    show Settled ((g.program cfg).leaves World.exec w cs)
    rw [hleaves]
    exact (program_intact cfg g ⟨rfl, hw⟩).settled_whole hrun hone hwhole.2

theorem settled_each {φ : World → Happening → Prop} {xs : List Happening} (hw : Settled w)
    (hφ : ∀ w x, Settled w → φ w x → Settled (x.leaves cfg w)) (h : EachHappening cfg φ w xs) :
    Settled (leavesAll cfg w xs) := by
  induction xs generalizing w with
  | nil => exact hw
  | cons x xs ih => exact ih (hφ w x hw h.1) h.2

/-- Cut short outside evictions, any sequence of operations leaves an intact store intact. -/
theorem intact_of_cut {xs : List Happening} (hw : Settled w)
    (h : EachHappening cfg (fun w x => x.OneOwner cfg w ∧ x.CutOutsideEviction cfg w) w xs) :
    Intact (leavesAll cfg w xs) :=
  (settled_each hw (fun _ _ hw hx => hw.cut hx.1 hx.2) h).intact

instance (w : World) : Decidable (Intact w) :=
  decidable_of_iff
    (∀ row ∈ w.handles.rows, row.Ready → (row.payload.storageKey.any w.storage.Has) = true)
    (by unfold Intact; simp [Option.any_eq_true])

/-- A sweep that is cut short after it has marked one result expired, and a transform that is
cut short before it mints its handle. -/
theorem intact_of_cut_twice : Intact (leavesAll .oneKey twoResults
    [.run (sweepUnder 0) [.ok, .ok, .ok, .ok, .ok, .ok],
      .run (.emitCube 0
        { recipe := "subset", sourceHandles := [], name := "a.nc", mediaType := "", size := 5 })
        [.ok]]) :=
  intact_of_cut ⟨rfl, by decide⟩ (by decide +kernel)

/-- A sweep is cut short between its two writes: the handle stays ready, the blob is gone. -/
theorem not_intact_of_cut : ¬ ∀ (cfg : Settings) (w : World) (xs : List Happening),
    Settled w → Intact (leavesAll cfg w xs) := by
  intro h
  have hintact := h .oneKey twoResults [.run (sweepUnder 0) [.ok, .ok, .ok, .ok, .ok]]
    ⟨rfl, by decide⟩
  revert hintact
  decide +kernel

/-- Any sequence of whole operations leaves the store intact, if no blob is deleted that two
ready handles name. -/
theorem intact_of_whole {xs : List Happening} (hwhole : EachHappening cfg (Happening.Whole cfg) {} xs)
    (hone : EachHappening cfg (Happening.OneOwner cfg) {} xs) : Intact (leavesAll cfg {} xs) := by
  have hstart : Settled {} := ⟨rfl, fun row hrow => by cases hrow⟩
  have hboth : ∀ (w : World) (xs : List Happening), EachHappening cfg (Happening.Whole cfg) w xs →
      EachHappening cfg (Happening.OneOwner cfg) w xs →
        EachHappening cfg (fun w x => x.Whole cfg w ∧ x.OneOwner cfg w) w xs := by
    intro w xs
    induction xs generalizing w with
    | nil => exact fun _ _ => trivial
    | cons x xs ih => exact fun hwhole hone => ⟨⟨hwhole.1, hone.1⟩, ih _ hwhole.2 hone.2⟩
  exact (settled_each hstart (fun _ _ hw hx => hw.whole hx.1 hx.2) (hboth _ _ hwhole hone)).intact

/-- A cube of 5 bytes, emitted by a call that ends. -/
def emitted (recipe : String) : Happening :=
  .run (.emitCube 0 { recipe, sourceHandles := [], name := "a.nc", mediaType := "", size := 5 })
    [.ok, .ok, .ok]

/-- A sweep of two cubes, whose sizes are read from the storage, that evicts one of them. -/
def sweptOnce : Happening :=
  .run (sweepUnder 5) (List.replicate 15 .ok)

/-- Two transforms, and a sweep that evicts one of their cubes. -/
theorem intact_of_whole_twoRecipes : (World.named (leavesAll .oneKey {}
      [emitted "subset", emitted "reproject", sweptOnce]) (.transform "subset" "a.nc")).length = 1 ∧
    Intact (leavesAll .oneKey {} [emitted "subset", emitted "reproject", sweptOnce]) :=
  ⟨by decide +kernel, intact_of_whole (by decide +kernel) (by decide +kernel)⟩

/-- The same transform twice, and a sweep that evicts one of the two handles: it deletes the
blob of both. -/
theorem not_intact_of_whole : ¬ ∀ (cfg : Settings) (xs : List Happening),
    EachHappening cfg (Happening.Whole cfg) {} xs → Intact (leavesAll cfg {} xs) := by
  intro h
  have hintact := h .oneKey [emitted "subset", emitted "subset", sweptOnce] (by decide +kernel)
  revert hintact
  decide +kernel

end sequences

end EarthdataMcp
