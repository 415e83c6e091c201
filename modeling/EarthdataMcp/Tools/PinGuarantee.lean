import EarthdataMcp.Jobs.EvictionRules

/-!
# What a granted pin guarantees

`pin_result` checks a handle and pins it in a later transaction; a sweep reads its candidates
and evicts them in later steps.  While pins and sweeps run side by side over one store:

* `PinsHonoured`: a handle whose pin was granted and stands is ready, and keeps its blob;
* `PinsStand`: a pin is written to a result that is still held, and a sweep that removes a
  pinned result had seen the pin;
* `pinsHonoured`: the first in every run whose steps all satisfy the second.
-/

namespace EarthdataMcp

open Concurrency Concurrency.Prog Concurrency.System

/-! ### Notes -/

/-- What is known of a thread: whether it is a pin or a sweep, the latest snapshot of handles it
has read, and the handles it has pinned. -/
structure PinNotes where
  retention : Bool := false
  snapshot : List Handle := []
  pins : List HandleId := []

/-- A pin, an unpin, or a sweep. -/
def Origin.retention : Origin → Bool
  | pinResult _ _ _ _ => true
  | evictionSweep _ _ => true
  | _ => false

namespace PinNotes

/-- The notes after an operation. -/
def observe (n : PinNotes) : (o : Op) → Except Exn o.Ans → PinNotes
  | .handles .selectEvictable, .ok rows => { n with snapshot := rows }
  | .handles (.updateHandle _ h u), .ok _ =>
      { n with pins := if u.pinned = some true then h :: n.pins else n.pins }
  | _, _ => n

/-- The key to be deleted is not named by the snapshot, or by an unpinned ready row of it. -/
def Deletes (n : PinNotes) (key : Key) : Prop :=
  (∀ row ∈ n.snapshot, row.payload.storageKey ≠ some key) ∨
    ∃ row ∈ n.snapshot, row.Ready ∧ row.payload.pinned = false ∧ row.payload.storageKey = some key

/-- The handle to be marked expired is an unpinned row of the snapshot. -/
def Expires (n : PinNotes) (h : HandleId) : Prop :=
  ∃ row ∈ n.snapshot, row.handle = h ∧ row.payload.pinned = false

/-- What a pin or a sweep may do. -/
def MayDo (n : PinNotes) : Op → Prop
  | .storage (.put _ _) => False
  | .storage (.delete key) => n.Deletes key
  | .handles (.putHandle _ _ _) => False
  | .handles (.insertUnique _ _ _) => False
  | .handles (.updateHandle _ h u) =>
      (∃ b, u = { pinned := some b }) ∨
        n.Expires h ∧ u = { status := some .expired, storageKey := some none }
  | _ => True

end PinNotes

/-- A handle that was asked for is the one that is answered. -/
def Op.Found (o : Op) (a : Except Exn o.Ans) : Prop :=
  match o, a with
  | .handles (.getHandle _ h), .ok row => row.handle = h
  | _, _ => True

theorem World.found {w w' : World} {o : Op} {c : Choice} {a : Except Exn o.Ans}
    (h : w.exec o c = some (a, w')) : o.Found a := by
  unfold Op.Found
  split
  · rename_i ws h' row
    rcases exec_handles h with ⟨-, ha, -⟩ | ⟨e, ha, -⟩
    · exact (HandleTable.lookup_eq_ok ha.symm).2.1
    · cases ha
  · trivial

/-- The monitor of pins and sweeps. -/
def pinMonitor (cfg : Settings) : Monitor (service cfg) PinNotes where
  start g := { retention := g.retention }
  observe n o a := n.observe o a

/-- Pins and sweeps do what they may; nothing is said of other threads. -/
abbrev pinProtocol (cfg : Settings) : Protocol Api PinNotes :=
  (pinMonitor cfg).protocol (fun n o => n.retention = true → n.MayDo o) fun _ o a => o.Found a

/-- A pin that is granted has been written. -/
def PinNotes.ends : Origin → Except Exn Outcome → PinNotes → Prop
  | .pinResult _ h true _, .ok (.pin (.pinned _)), n => h ∈ n.pins
  | _, _, _ => True

/-! ### The programs keep to that -/

section programs

variable {cfg : Settings} {n : PinNotes} {α : Type}

/-- A step, and what is known after it. -/
theorem pinObeys_step {o : Op} {post : Except Exn o.Ans → PinNotes → Prop} (ho : n.MayDo o)
    (hpost : ∀ a, o.Found a → post a (n.observe o a)) :
    (perform o).Obeys (pinProtocol cfg) n post := by
  rw [obeys_perform]
  refine ⟨fun _ => ho, ?_⟩
  rintro a n' ⟨hfound, rfl⟩
  exact hpost a hfound

/-- Operations that are always allowed and leave the notes as they are. -/
inductive PinNotes.Plain : Op → Prop
  | now : Plain .now
  | get (ws h) : Plain (.handles (.getHandle ws h))
  | listHandles (ws type) : Plain (.handles (.listHandles ws type))
  | stat (k) : Plain (.storage (.stat k))

theorem pinObeys_plain {p : Program α} (hp : p.Only PinNotes.Plain) :
    p.Obeys (pinProtocol cfg) n fun _ n' => n' = n := by
  refine hp.obeys (fun m o _ ho _ => ?_) (fun m o a m' hm ho hnext => ?_) rfl
  · cases ho <;> trivial
  · obtain ⟨-, rfl⟩ := hnext
    rw [hm]
    cases ho <;> rfl

theorem plain_pinnedSizeOf (payload : Payload) : (pinnedSizeOf payload).Only PinNotes.Plain := by
  unfold pinnedSizeOf
  split
  · trivial
  · trivial
  · refine (only_perform.2 (.stat _)).attempt.bind fun r => ?_
    split <;> trivial

theorem plain_pinnedBytes (ws : WorkspaceId) (h : HandleId) :
    (pinnedBytes ws h).Only PinNotes.Plain := by
  have hof (row : Handle) : (pinnedBytesOf h row).Only PinNotes.Plain := by
    unfold pinnedBytesOf
    split_ifs
    · trivial
    · exact plain_pinnedSizeOf _
  exact (only_perform.2 (.listHandles _ _)).bind fun _ => (Only.collect fun r _ => hof r).bind
    fun _ => (only_perform.2 (.listHandles _ _)).bind fun _ =>
      (Only.collect fun r _ => hof r).bind fun _ => trivial

/-- The writes of a sweep, seen through its notes. -/
theorem pin_sweepRules :
    SweepRules (pinProtocol cfg) (fun _ => True) (fun rows n => n.snapshot = rows)
      (fun queue n => ∀ c ∈ queue, c.pinned = false ∧ ∃ row, c.Of n.snapshot row)
      fun _ => True where
  ended_of_inv _ _ := trivial
  inv_of_fresh _ _ _ := trivial
  inv_of_left _ _ _ := trivial
  quiet n o _ ho _ := by cases ho <;> trivial
  quiet_inv _ _ _ _ _ _ _ := trivial
  quiet_fresh rows n o a n' hn ho hnext := by
    obtain ⟨-, rfl⟩ := hnext
    rw [← hn]
    cases ho <;> rfl
  select n _ _ := trivial
  select_ok n rows n' _ hnext := by
    obtain ⟨-, rfl⟩ := hnext
    rfl
  select_error _ _ _ _ _ := trivial
  orphan rows n key hn hkey :=
    pinObeys_step (Or.inl (hn ▸ hkey)) fun _ _ => hn
  start rows n cs queue hn hmade hsub hunpinned c hc :=
    ⟨hunpinned c hc, hn ▸ hmade.of c (hsub.subset hc)⟩
  perm queue queue' n hn hperm c hc := hn c (hperm.mem_iff.2 hc)
  evict c queue n hn := by
    obtain ⟨hpinned, row, hof⟩ := hn c List.mem_cons_self
    have hunpinned : row.payload.pinned = false := hof.pinned.trans hpinned
    have hrest : ∀ c ∈ queue, c.pinned = false ∧ ∃ row, c.Of n.snapshot row :=
      fun c' hc' => hn c' (List.mem_cons_of_mem _ hc')
    refine Obeys.mono ?_ fun _ n' (h : ∀ c ∈ queue, c.pinned = false ∧ ∃ row, c.Of n'.snapshot row) =>
      ⟨trivial, fun _ => h⟩
    unfold evictOne
    rw [obeys_bind]
    refine pinObeys_step (Or.inr ⟨row, hof.mem, hof.ready, hunpinned, hof.storageKey⟩) ?_
    rintro (e | ⟨⟩) -
    · exact hrest
    rw [afterBind_ok, obeys_bind]
    refine pinObeys_step (Or.inr ⟨⟨row, hof.mem, hof.handle, hunpinned⟩, rfl⟩) ?_
    rintro (e | updated) -
    · exact hrest
    rw [afterBind_ok, obeys_bind]
    refine pinObeys_step trivial ?_
    rintro (e | ⟨⟩) -
    · exact hrest
    rw [afterBind_ok, obeys_bind]
    refine pinObeys_step trivial ?_
    rintro (e | jobs) - <;> exact hrest

theorem pinReady_obeys (ws : WorkspaceId) (row : Handle) :
    (pinReady cfg ws row).Obeys (pinProtocol cfg) n fun r n' =>
      ∀ held, r = .ok (.pinned held) → row.handle ∈ n'.pins := by
  unfold pinReady
  rw [obeys_bind]
  refine (pinObeys_plain (plain_pinnedBytes ws row.handle)).mono ?_
  rintro (e | others) n' -
  · exact fun held h => by cases h
  rw [afterBind_ok, obeys_bind]
  refine (pinObeys_plain (plain_pinnedSizeOf row.payload)).mono ?_
  rintro (e | size) n'' -
  · exact fun held h => by cases h
  rw [afterBind_ok]
  split_ifs
  · exact fun held h => by cases h
  · rw [obeys_bind]
    refine pinObeys_step (Or.inl ⟨true, rfl⟩) ?_
    rintro (e | updated) -
    · exact fun held h => by cases h
    · exact fun held _ => List.mem_cons_self

/-- A pin that is granted is written to the handle it was asked for. -/
theorem pinResult_obeys (ws : WorkspaceId) (h : HandleId) (pinned : Bool) (token : Option Token) :
    (pinResult cfg ws h pinned token).Obeys (pinProtocol cfg) n fun r n' =>
      ∀ held, r = .ok (.pinned held) → h ∈ n'.pins := by
  unfold pinResult
  rw [obeys_bind]
  refine pinObeys_step trivial ?_
  rintro (e | now) -
  · exact fun held hr => by cases hr
  rw [afterBind_ok]
  split
  · exact fun held hr => by cases hr
  by_cases hevictable : ¬ h.evictable
  · rw [if_pos hevictable]
    exact fun held hr => by cases hr
  rw [if_neg hevictable, obeys_bind]
  have hresolve : (resolveCached ws h).Obeys (pinProtocol cfg) (n.observe .now (.ok now))
      fun r _ => ∀ row, r = .ok (some row) → row.handle = h := by
    unfold resolveCached
    rw [obeys_bind, obeys_attempt]
    refine pinObeys_step trivial fun a hfound => ?_
    rw [afterBind_ok]
    split
    · rintro row ⟨⟩
      exact hfound
    all_goals exact fun row hr => by cases hr
  refine hresolve.mono ?_
  rintro (e | row) n' hrow
  · exact fun held hr => by cases hr
  rw [afterBind_ok]
  split
  · exact fun held hr => by cases hr
  rename_i row
  split_ifs
  · exact fun held hr => by cases hr
  · rw [← hrow row rfl]
    exact pinReady_obeys ws row
  · exact fun held hr => by cases hr
  · rw [obeys_bind]
    refine pinObeys_step (Or.inl ⟨false, rfl⟩) ?_
    rintro (e | updated) -
    · exact fun held hr => by cases hr
    rw [afterBind_ok, obeys_bind]
    refine (pinObeys_plain (plain_pinnedBytes ws h)).mono ?_
    rintro (e | held) n'' -
    · exact fun held hr => by cases hr
    · exact fun held hr => by cases hr

/-- Every program conforms. -/
theorem program_pins (g : Origin) :
    (g.program cfg).Obeys (pinProtocol cfg) ((pinMonitor cfg).start g) (PinNotes.ends g) := by
  by_cases hret : g.retention = true
  · cases g with
    | pinResult ws h pinned token =>
      unfold Origin.program
      rw [obeys_bind]
      refine (pinResult_obeys ws h pinned token).mono ?_
      rintro (e | answer) n' hanswer
      · rw [afterBind_error]
        cases pinned <;> trivial
      · rw [afterBind_ok, obeys_pure]
        cases pinned with
        | false => trivial
        | true =>
          cases answer with
          | pinned held => exact hanswer held rfl
          | _ => trivial
    | evictionSweep svc protectedHandle =>
      unfold Origin.program
      rw [obeys_bind]
      refine (sweep_obeys pin_sweepRules svc protectedHandle trivial).mono ?_
      rintro (e | ⟨⟩) n' - <;> trivial
    | _ => cases hret
  · have honly := (g.program_only cfg).mono (ψ := fun _ => True) fun _ _ => trivial
    have hobeys : (g.program cfg).Obeys (pinProtocol cfg) ((pinMonitor cfg).start g)
        fun _ n => n.retention = false := by
      refine honly.obeys ?_ ?_ (Bool.eq_false_of_not_eq_true hret)
      · intro n _ hn _ hn'
        rw [hn] at hn'
        cases hn'
      · intro n o a n' hn _ hnext
        obtain ⟨-, rfl⟩ := hnext
        show (n.observe o a).retention = false
        unfold PinNotes.observe
        split <;> exact hn
    · refine hobeys.mono fun r n' _ => ?_
      unfold PinNotes.ends
      split
      · exact absurd rfl hret
      · trivial

end programs

/-! ### Runs -/

section runs

variable {cfg : Settings}

/-- Only pins and sweeps are called, at any time. -/
def RetentionCall : (service cfg).Label → Prop
  | .act _ _ => True
  | .env (.tick _) => True
  | .env (.take _) => False
  | .env (.call g) => g.retention = true

instance (l : (service cfg).Label) : Decidable (RetentionCall l) :=
  match l with
  | .act _ _ => inferInstanceAs (Decidable True)
  | .env (.tick _) => inferInstanceAs (Decidable True)
  | .env (.take _) => inferInstanceAs (Decidable False)
  | .env (.call g) => inferInstanceAs (Decidable (g.retention = true))

/-- The latest snapshot of handles that thread `i` has read. -/
def snapshotOf (s : (service cfg).State) (i : ℕ) : List Handle :=
  match s.threads[i]? with
  | some t => ((pinMonitor cfg).note t).snapshot
  | none => []

/-- The result is ready, and its blob is still there if it was in `w₀`. -/
def Handle.Held (w₀ w : World) (row : Handle) : Prop :=
  row.Ready ∧ ∀ key ∈ row.payload.storageKey, w₀.storage.Has key → w.storage.Has key

instance (w₀ w : World) (row : Handle) : Decidable (row.Held w₀ w) :=
  inferInstanceAs (Decidable (_ ∧ ∀ key ∈ row.payload.storageKey, _))

/-- The thread is a `pin_result` that has answered that the handle is pinned. -/
def PinGranted (h : HandleId) (t : (service cfg).Thread) : Prop :=
  match t.origin, t.result with
  | .pinResult _ h' true _, some (.ok (.pin (.pinned _))) => h' = h
  | _, _ => False

instance (h : HandleId) (t : (service cfg).Thread) : Decidable (PinGranted h t) := by
  unfold PinGranted
  split <;> infer_instance

/-- In each handle whose pin was granted and stands, the result is held. -/
def PinsHonoured (w₀ : World) (s : (service cfg).State) : Prop :=
  ∀ t ∈ s.threads, ∀ h, PinGranted h t →
    ∃ row, s.world.handles.row h = some row ∧ (row.payload.pinned = true → row.Held w₀ s.world)

/-- A pin is written only to a result that is held.  When a sweep marks a pinned handle expired,
or deletes the blob of a ready pinned handle, the pin is in its snapshot; and no other ready
handle of the snapshot names that blob. -/
def PinsStand (w₀ : World) (s : (service cfg).State) (i : ℕ) : Op → Prop
  | .handles (.updateHandle _ h u) =>
      ∀ row ∈ s.world.handles.row h,
        (u.pinned = some true → row.Held w₀ s.world) ∧
        (u.status = some .expired → row.payload.pinned = true →
          ∃ seen ∈ snapshotOf s i, seen.handle = h ∧ seen.payload.pinned = true)
  | .storage (.delete key) =>
      ∀ row ∈ s.world.handles.rows, row.Ready → row.payload.pinned = true →
        row.payload.storageKey = some key →
          (∃ seen ∈ snapshotOf s i, seen.handle = row.handle ∧ seen.payload.pinned = true) ∧
          ∀ seen ∈ snapshotOf s i, seen.Ready → seen.payload.storageKey = some key →
            seen.handle = row.handle
  | _ => True

instance (w₀ : World) (s : (service cfg).State) (i : ℕ) : (o : Op) → Decidable (PinsStand w₀ s i o)
  | .handles (.updateHandle _ h _) =>
      inferInstanceAs (Decidable (∀ row ∈ s.world.handles.row h, _ ∧ (_ → _ → ∃ seen ∈ _, _)))
  | .storage (.delete _) =>
      inferInstanceAs (Decidable (∀ row ∈ s.world.handles.rows, _ → _ → _ →
        (∃ seen ∈ _, _) ∧ ∀ seen ∈ _, _))
  | .now | .jobs _ | .handles (.getHandle _ _) | .handles (.findBySignature _ _)
  | .handles (.listHandles _ _) | .handles .selectEvictable | .handles (.putHandle _ _ _)
  | .handles (.insertUnique _ _ _) | .handles (.touchHandle _ _) | .storage (.put _ _)
  | .storage (.get _) | .storage (.list _) | .storage (.stat _) | .storage (.uri _) | .queue _
  | .provider _ | .planning _ | .access _ | .provenance _ | .orphanSweepDue _ => instDecidableTrue

/-- A step of a run of pins and sweeps in which the pins stand. -/
def PinRun (w₀ : World) (s : (service cfg).State) (l : (service cfg).Label)
    (s' : (service cfg).State) : Prop :=
  RetentionCall l ∧ EachOp (PinsStand w₀) s l s'

instance (w₀ : World) (s : (service cfg).State) (l : (service cfg).Label) (s' : (service cfg).State) :
    Decidable (PinRun w₀ s l s') :=
  inferInstanceAs (Decidable (_ ∧ _))

/-! ### What a snapshot is worth -/

/-- The handles are at most less ready than in the snapshot: a ready one was ready there, under
the same key. -/
structure SnapshotOf (rows : List Handle) (t : HandleTable) : Prop where
  inj : ∀ row ∈ rows, ∀ row' ∈ rows, row.handle = row'.handle → row = row'
  older : ∀ row ∈ rows, ∀ row', t.row row.handle = some row' → row'.Ready →
    row.Ready ∧ row.payload.storageKey = row'.payload.storageKey

theorem SnapshotOf.nil (t : HandleTable) : SnapshotOf [] t :=
  ⟨fun _ h => (by cases h), fun _ h => (by cases h)⟩

/-- The snapshot that is read now. -/
theorem SnapshotOf.self {t : HandleTable} (ht : t.Numbered) (p : Handle → Bool) :
    SnapshotOf (t.rows.filter p) t := by
  refine ⟨fun row hrow row' hrow' heq => ?_, fun row hrow row' hrow' hready => ?_⟩
  · have h := ht.row_eq (List.mem_of_mem_filter hrow)
    have h' := ht.row_eq (List.mem_of_mem_filter hrow')
    rw [heq] at h
    exact Option.some.inj (h.symm.trans h')
  · have h := ht.row_eq (List.mem_of_mem_filter hrow)
    obtain rfl := Option.some.inj (h.symm.trans hrow')
    exact ⟨hready, rfl⟩

/-- No handle becomes ready, and the ready ones keep their keys. -/
def Wanes (t t' : HandleTable) : Prop :=
  ∀ h row', t'.row h = some row' → ∃ row, t.row h = some row ∧
    (row'.Ready → row.Ready ∧ row.payload.storageKey = row'.payload.storageKey)

theorem Wanes.refl (t : HandleTable) : Wanes t t := fun _ row' hrow' => ⟨row', hrow', fun h => ⟨h, rfl⟩⟩

theorem SnapshotOf.wanes {rows : List Handle} {t t' : HandleTable} (h : SnapshotOf rows t)
    (ht : Wanes t t') : SnapshotOf rows t' := by
  refine ⟨h.inj, fun row hrow row' hrow' hready => ?_⟩
  obtain ⟨row'', hrow'', hback⟩ := ht row.handle row' hrow'
  obtain ⟨hready', hkey⟩ := hback hready
  obtain ⟨hready'', hkey'⟩ := h.older row hrow row'' hrow'' hready'
  exact ⟨hready'', hkey'.trans hkey⟩

/-- A write to one handle that does not make it ready. -/
theorem wanes_modify {t : HandleTable} {h : HandleId} {f : Handle → Handle}
    (hf : ∀ row, (f row).handle = row.handle)
    (hready : ∀ row, (f row).Ready → row.Ready ∧ row.payload.storageKey = (f row).payload.storageKey) :
    Wanes t (t.modify h f) := by
  intro h' row' hrow'
  rw [HandleTable.row_modify hf, Option.map_eq_some_iff] at hrow'
  obtain ⟨row, hrow, rfl⟩ := hrow'
  refine ⟨row, hrow, ?_⟩
  split_ifs
  · exact hready row
  · exact fun hr => ⟨hr, rfl⟩

/-! ### The invariant -/

/-- What holds in every run of pins and sweeps in which the pins stand. -/
structure PinInv (w₀ : World) (s : (service cfg).State) : Prop where
  numbered : s.world.handles.Numbered
  retention : ∀ t ∈ s.threads, ((pinMonitor cfg).note t).retention = true
  snapshots : ∀ t ∈ s.threads, SnapshotOf ((pinMonitor cfg).note t).snapshot s.world.handles
  blobs : ∀ row ∈ s.world.handles.rows, row.Ready → row.payload.pinned = true →
    row.Held w₀ s.world
  pins : ∀ t ∈ s.threads, ∀ h ∈ ((pinMonitor cfg).note t).pins,
    ∃ row, s.world.handles.row h = some row ∧ (row.payload.pinned = true → row.Ready)

namespace PinInv

variable {w₀ : World} {s : (service cfg).State} {i : ℕ} {t : (service cfg).Thread} {o : Op}
  {k : Except Exn o.Ans → Program Outcome} {c : Choice} {a : Except Exn o.Ans} {w : World}

theorem retention_observe (n : PinNotes) (o : Op) (a : Except Exn o.Ans) :
    (n.observe o a).retention = n.retention := by
  unfold PinNotes.observe
  split <;> rfl

/-- What a step has to establish about the world, and about the thread that takes it. -/
theorem advance (hs : PinInv w₀ s) (ht : s.threads[i]? = some t)
    (hnumbered : w.handles.Numbered) (hwanes : Wanes s.world.handles w.handles)
    (hsnapshot :
      ((pinMonitor cfg).note (t.advance o a k)).snapshot = ((pinMonitor cfg).note t).snapshot ∨
      SnapshotOf ((pinMonitor cfg).note (t.advance o a k)).snapshot w.handles)
    (hblobs : ∀ row ∈ w.handles.rows, row.Ready → row.payload.pinned = true → row.Held w₀ w)
    (hpins : ∀ h row, s.world.handles.row h = some row → (row.payload.pinned = true → row.Ready) →
      ∃ row', w.handles.row h = some row' ∧ (row'.payload.pinned = true → row'.Ready))
    (hnew : ∀ h ∈ ((pinMonitor cfg).note (t.advance o a k)).pins,
      h ∈ ((pinMonitor cfg).note t).pins ∨
        ∃ row', w.handles.row h = some row' ∧ (row'.payload.pinned = true → row'.Ready)) :
    PinInv w₀ ⟨w, s.threads.set i (t.advance o a k)⟩ := by
  have hmem := List.mem_of_getElem? ht
  refine ⟨hnumbered, fun u hu => ?_, fun u hu => ?_, hblobs, fun u hu h hh => ?_⟩ <;>
    rcases List.mem_or_eq_of_mem_set hu with hu | rfl
  · exact hs.retention u hu
  · rw [Monitor.note_advance]
    exact (retention_observe _ o a).trans (hs.retention t hmem)
  · exact (hs.snapshots u hu).wanes hwanes
  · rcases hsnapshot with heq | hnow
    · rw [heq]
      exact (hs.snapshots t hmem).wanes hwanes
    · exact hnow
  · obtain ⟨row, hrow, hready⟩ := hs.pins u hu h hh
    exact hpins h row hrow hready
  · rcases hnew h hh with hold | hnow
    · obtain ⟨row, hrow, hready⟩ := hs.pins t hmem h hold
      exact hpins h row hrow hready
    · exact hnow

/-- A step that changes no handle and removes no blob. -/
theorem of_frame (hs : PinInv w₀ s) (ht : s.threads[i]? = some t)
    (hhandles : w.handles = s.world.handles)
    (hstorage : ∀ key, s.world.storage.Has key → w.storage.Has key)
    (hsnapshot :
      ((pinMonitor cfg).note (t.advance o a k)).snapshot = ((pinMonitor cfg).note t).snapshot ∨
      SnapshotOf ((pinMonitor cfg).note (t.advance o a k)).snapshot w.handles)
    (hpins : ((pinMonitor cfg).note (t.advance o a k)).pins = ((pinMonitor cfg).note t).pins) :
    PinInv w₀ ⟨w, s.threads.set i (t.advance o a k)⟩ := by
  refine hs.advance ht (hhandles ▸ hs.numbered) (hhandles ▸ .refl _) hsnapshot ?_ ?_ ?_
  · intro row hrow hready hpinned
    rw [hhandles] at hrow
    obtain ⟨-, hkey⟩ := hs.blobs row hrow hready hpinned
    exact ⟨hready, fun key hk h₀ => hstorage key (hkey key hk h₀)⟩
  · intro h row hrow hready
    exact ⟨row, hhandles ▸ hrow, hready⟩
  · intro h hh
    exact Or.inl (hpins ▸ hh)

/-- A write to the handle `h` that does not make it ready, and leaves it ready if it is pinned. -/
theorem of_modify (hs : PinInv w₀ s) (ht : s.threads[i]? = some t) {h : HandleId}
    {f : Handle → Handle} (hf : ∀ row, (f row).handle = row.handle)
    (hhandles : w.handles = s.world.handles.modify h f) (hstorage : w.storage = s.world.storage)
    (hready : ∀ row, (f row).Ready → row.Ready ∧ row.payload.storageKey = (f row).payload.storageKey)
    (hheld : ∀ row, s.world.handles.row h = some row → (f row).payload.pinned = true →
      (row.payload.pinned = true → row.Ready) → (f row).Ready)
    (hblob : ∀ row, s.world.handles.row h = some row → (f row).payload.pinned = true →
      (f row).Ready → row.Held w₀ s.world)
    (hsnapshot :
      ((pinMonitor cfg).note (t.advance o a k)).snapshot = ((pinMonitor cfg).note t).snapshot)
    (hnew : ∀ h' ∈ ((pinMonitor cfg).note (t.advance o a k)).pins,
      h' ∈ ((pinMonitor cfg).note t).pins ∨
        ∃ row', w.handles.row h' = some row' ∧ (row'.payload.pinned = true → row'.Ready)) :
    PinInv w₀ ⟨w, s.threads.set i (t.advance o a k)⟩ := by
  refine hs.advance ht ?_ ?_ (Or.inl hsnapshot) ?_ ?_ hnew
  · rw [hhandles]
    exact hs.numbered.modify hf
  · rw [hhandles]
    exact wanes_modify hf hready
  · intro row' hrow' hr hp
    rw [hhandles] at hrow'
    obtain ⟨row, hrow, rfl⟩ := List.mem_map.1 hrow'
    split_ifs at hr hp ⊢ with hh
    · obtain ⟨-, hkey⟩ := hblob row (hh ▸ hs.numbered.row_eq hrow) hp hr
      refine ⟨hr, fun key hk h₀ => ?_⟩
      rw [hstorage]
      exact hkey key ((hready row hr).2.trans hk) h₀
    · obtain ⟨-, hkey⟩ := hs.blobs row hrow hr hp
      exact ⟨hr, fun key hk h₀ => hstorage ▸ hkey key hk h₀⟩
  · intro h' row hrow hpin
    refine ⟨if row.handle = h then f row else row, ?_, ?_⟩
    · rw [hhandles, HandleTable.row_modify hf, hrow]
      rfl
    · split_ifs with hh
      · have hrow' : s.world.handles.row h = some row := by
          rw [← hh, HandleTable.row_handle hrow]
          exact hrow
        exact fun hp => hheld row hrow' hp hpin
      · exact hpin

/-- A pin or an unpin is written. -/
theorem pin (hs : PinInv w₀ s) (ht : s.threads[i]? = some t) {ws : WorkspaceId} {h : HandleId}
    {b : Bool} {a : Except Exn Handle} {k : Except Exn Handle → Program Outcome}
    (hlookup : ∃ row, s.world.handles.lookup ws h = .ok row)
    (hstand : PinsStand w₀ s i (.handles (.updateHandle ws h { pinned := some b })))
    (hhandles :
      w.handles = s.world.handles.modify h (Handle.updated s.world.clock { pinned := some b }))
    (hstorage : w.storage = s.world.storage) :
    PinInv w₀
      ⟨w, s.threads.set i (t.advance (.handles (.updateHandle ws h { pinned := some b })) a k)⟩ := by
  set f := Handle.updated s.world.clock { pinned := some b } with hf
  have hpayload (row : Handle) : (f row).payload = row.payload.merge { pinned := some b } :=
    Handle.updated_payload _ _ row
  have hpinned (row : Handle) : (f row).payload.pinned = b := by rw [hpayload]; rfl
  have hstatus (row : Handle) : (f row).Ready ↔ row.Ready := by
    unfold Handle.Ready
    rw [hpayload]
    rfl
  have hheld (row : Handle) (hrow : s.world.handles.row h = some row)
      (hp : (f row).payload.pinned = true) : row.Held w₀ s.world :=
    (hstand row hrow).1 (congrArg some ((hpinned row).symm.trans hp))
  refine hs.of_modify ht (fun row => Handle.updated_handle _ _ row) hhandles hstorage
    (fun row hr => ⟨(hstatus row).1 hr, by rw [hpayload]; rfl⟩)
    (fun row hrow hp _ => (hstatus row).2 (hheld row hrow hp).1)
    (fun row hrow hp _ => hheld row hrow hp) ?_ ?_
  · cases a <;> rfl
  · intro h' hh'
    cases a with
    | error e => exact Or.inl hh'
    | ok answer =>
      change h' ∈ (if some b = some true then h :: _ else _) at hh'
      split_ifs at hh' with hb
      · rcases List.mem_cons.1 hh' with rfl | hh'
        · obtain ⟨row, hl⟩ := hlookup
          have hrow := (HandleTable.lookup_eq_ok_iff.1 hl).1
          refine Or.inr ⟨f row, ?_, fun hp => (hstatus row).2 (hheld row hrow hp).1⟩
          rw [hhandles, HandleTable.row_updated, if_pos rfl, hrow]
          rfl
        · exact Or.inl hh'
      · exact Or.inl hh'

/-- A sweep marks a handle of its snapshot expired. -/
theorem expire (hs : PinInv w₀ s) (ht : s.threads[i]? = some t) {ws : WorkspaceId} {h : HandleId}
    {a : Except Exn Handle} {k : Except Exn Handle → Program Outcome}
    (hexpires : ((pinMonitor cfg).note t).Expires h)
    (hstand : PinsStand w₀ s i
      (.handles (.updateHandle ws h { status := some .expired, storageKey := some none })))
    (hhandles : w.handles = s.world.handles.modify h
      (Handle.updated s.world.clock { status := some .expired, storageKey := some none }))
    (hstorage : w.storage = s.world.storage) :
    PinInv w₀ ⟨w, s.threads.set i (t.advance (.handles
      (.updateHandle ws h { status := some .expired, storageKey := some none })) a k)⟩ := by
  have hpayload (row : Handle) := Handle.updated_payload s.world.clock
    { status := some .expired, storageKey := some none } row
  have hexpired (row : Handle) : ¬ (Handle.updated s.world.clock
      { status := some .expired, storageKey := some none } row).Ready := by
    unfold Handle.Ready
    rw [hpayload, Payload.merge_status]
    intro h
    cases h
  refine hs.of_modify ht (fun row => Handle.updated_handle _ _ row) hhandles hstorage
    (fun row hr => absurd hr (hexpired row)) (fun row hrow hp _ => ?_)
    (fun row _ _ hr => absurd hr (hexpired row)) ?_ ?_
  · -- a standing pin was in the snapshot, where the handle is unpinned
    rw [hpayload] at hp
    obtain ⟨seen, hseen, hh, hpinned⟩ := (hstand row hrow).2 rfl hp
    obtain ⟨seen', hseen', hh', hunpinned⟩ := hexpires
    have hsnap : snapshotOf s i = ((pinMonitor cfg).note t).snapshot := by
      simp only [snapshotOf, ht]
    rw [hsnap] at hseen
    have hsame := (hs.snapshots t (List.mem_of_getElem? ht)).inj seen hseen seen' hseen'
      (hh.trans hh'.symm)
    rw [hsame, hunpinned] at hpinned
    cases hpinned
  · cases a <;> rfl
  · intro h' hh'
    cases a <;> exact Or.inl hh'

/-- A sweep deletes a blob. -/
theorem delete (hs : PinInv w₀ s) (ht : s.threads[i]? = some t) {key : Key}
    {a : Except Exn Unit} {k : Except Exn Unit → Program Outcome}
    (hdeletes : ((pinMonitor cfg).note t).Deletes key)
    (hstand : PinsStand w₀ s i (.storage (.delete key)))
    (hhandles : w.handles = s.world.handles)
    (hstorage : w.storage = (s.world.storage.exec (.delete key)).2) :
    PinInv w₀ ⟨w, s.threads.set i (t.advance (.storage (.delete key)) a k)⟩ := by
  have hmem := List.mem_of_getElem? ht
  have hsnap : snapshotOf s i = ((pinMonitor cfg).note t).snapshot := by
    simp only [snapshotOf, ht]
  have hkeep (row : Handle) (hrow : row ∈ s.world.handles.rows) (hready : row.Ready)
      (hpinned : row.payload.pinned = true) : row.payload.storageKey ≠ some key := by
    intro hkey
    obtain ⟨⟨seen, hseen, hh, hpin⟩, hother⟩ := hstand row hrow hready hpinned hkey
    rw [hsnap] at hseen hother
    rcases hdeletes with hnone | ⟨seen', hseen', hready', hunpinned, hkey'⟩
    · have hold := (hs.snapshots t hmem).older seen hseen row
        (hh ▸ hs.numbered.row_eq hrow) hready
      exact hnone seen hseen (hold.2.trans hkey)
    · have hh' := hother seen' hseen' hready' hkey'
      have hsame := (hs.snapshots t hmem).inj seen hseen seen' hseen' (hh.trans hh'.symm)
      rw [hsame, hunpinned] at hpin
      cases hpin
  refine hs.advance ht (hhandles ▸ hs.numbered) (hhandles ▸ .refl _) (Or.inl ?_) ?_ ?_ ?_
  · cases a <;> rfl
  · intro row hrow hready hpinned
    rw [hhandles] at hrow
    obtain ⟨-, hblob⟩ := hs.blobs row hrow hready hpinned
    refine ⟨hready, fun key' hk h₀ => ?_⟩
    rw [hstorage, BlobStore.has_delete]
    refine ⟨?_, hblob key' hk h₀⟩
    rintro rfl
    exact hkeep row hrow hready hpinned hk
  · intro h row hrow hready
    exact ⟨row, hhandles ▸ hrow, hready⟩
  · intro h hh
    cases a <;> exact Or.inl hh

/-- One operation of a pin or a sweep keeps the invariant. -/
theorem act (hs : PinInv w₀ s) (ht : s.threads[i]? = some t) (hr : t.rest = .act o k)
    (hmay : ((pinMonitor cfg).note t).MayDo o) (he : s.world.exec o c = some (a, w))
    (hstand : EachOp (PinsStand w₀) s (.act i c) ⟨w, s.threads.set i (t.advance o a k)⟩) :
    PinInv w₀ ⟨w, s.threads.set i (t.advance o a k)⟩ := by
  have hst : PinsStand w₀ s i o := hstand o (nextOp_eq ht hr)
  have hsame (hw : w = s.world)
      (hnote : ((pinMonitor cfg).note t).observe o a = (pinMonitor cfg).note t) :
      PinInv w₀ ⟨w, s.threads.set i (t.advance o a k)⟩ := by
    subst hw
    refine hs.of_frame ht rfl (fun _ h => h) (Or.inl ?_) ?_ <;>
    · rw [Monitor.note_advance]
      exact congrArg _ hnote
  cases o with
  | handles o =>
    rcases World.exec_handles he with ⟨-, rfl, rfl⟩ | ⟨e, rfl, rfl⟩
    · cases o with
      | selectEvictable =>
        exact hs.of_frame ht rfl (fun _ h => h) (Or.inr (.self hs.numbered _)) rfl
      | putHandle ws type payload => exact hmay.elim
      | insertUnique ws type payload => exact hmay.elim
      | updateHandle ws h u =>
        cases hl : s.world.handles.lookup ws h with
        | error e =>
          refine hsame ?_ ?_
          · simp only [HandleTable.exec, hl]
          · simp only [HandleTable.exec, hl]
            rfl
        | ok row =>
          have hhandles : (s.world.handles.exec s.world.clock (.updateHandle ws h u)).2 =
              s.world.handles.modify h (Handle.updated s.world.clock u) := by
            simp only [HandleTable.exec, hl]
          rcases hmay with ⟨b, rfl⟩ | ⟨hexpires, rfl⟩
          · exact hs.pin ht ⟨row, hl⟩ hst hhandles rfl
          · exact hs.expire ht hexpires hst hhandles rfl
      | touchHandle ws h =>
        cases hl : s.world.handles.lookup ws h with
        | error e => exact hsame (by simp only [HandleTable.exec, hl]) rfl
        | ok row =>
          refine hs.of_modify (f := Handle.touched s.world.clock) (h := h) ht (fun row => rfl)
            (by simp only [HandleTable.exec, hl]) rfl (fun row hready => ⟨hready, rfl⟩)
            (fun row _ hp hpin => hpin hp) (fun row hrow hp hready => ?_) rfl fun h' hh' => Or.inl hh'
          exact hs.blobs row (List.mem_of_find?_eq_some hrow) hready hp
      | _ => exact hsame rfl rfl
    · exact hsame rfl (by cases o <;> rfl)
  | storage o =>
    rcases World.exec_storage he with ⟨-, rfl, rfl⟩ | ⟨e, rfl, rfl⟩
    · cases o with
      | put key blob => exact hmay.elim
      | delete key => exact hs.delete ht hmay hst rfl rfl
      | _ => exact hsame (by rw [BlobStore.exec_eq_self] <;> simp) rfl
    · exact hsame rfl rfl
  | _ =>
    refine hs.of_frame ht (World.exec_handles_eq_self he (by simp)) (fun key h => ?_) (Or.inl rfl) rfl
    rw [World.exec_storage_eq_self he (by simp)]
    exact h

/-- A step of the environment keeps the invariant. -/
theorem env (hs : PinInv w₀ s) {e : EnvStep} {gs : List Origin} (he : e.exec s.world = some (w, gs))
    (hcall : RetentionCall (.env e : (service cfg).Label)) :
    PinInv w₀ ⟨w, s.threads ++ gs.map (service cfg).spawn⟩ := by
  obtain ⟨-, -, hhandles, hstorage, -⟩ := EnvStep.exec_frame he
  have hspawn (u : (service cfg).Thread) (hu : u ∈ gs.map (service cfg).spawn) :
      ((pinMonitor cfg).note u).retention = true ∧ ((pinMonitor cfg).note u).snapshot = [] ∧
        ((pinMonitor cfg).note u).pins = [] := by
    obtain ⟨g, hg, rfl⟩ := List.mem_map.1 hu
    rw [Monitor.note_spawn]
    refine ⟨?_, rfl, rfl⟩
    cases e with
    | tick d =>
      obtain ⟨-, rfl⟩ := Prod.mk.inj (Option.some.inj he)
      cases hg
    | take id => exact hcall.elim
    | call g' =>
      simp only [EnvStep.exec] at he
      split_ifs at he
      obtain ⟨-, rfl⟩ := Prod.mk.inj (Option.some.inj he)
      obtain rfl := List.mem_singleton.1 hg
      exact hcall
  refine ⟨?_, fun u hu => ?_, fun u hu => ?_, fun row hrow hready hpinned => ?_, fun u hu h hh => ?_⟩
  · show w.handles.Numbered
    rw [hhandles]
    exact hs.numbered
  · rcases List.mem_append.1 hu with hu | hu
    · exact hs.retention u hu
    · exact (hspawn u hu).1
  · show SnapshotOf _ w.handles
    rw [hhandles]
    rcases List.mem_append.1 hu with hu | hu
    · exact hs.snapshots u hu
    · rw [(hspawn u hu).2.1]
      exact .nil _
  · change row ∈ w.handles.rows at hrow
    rw [hhandles] at hrow
    obtain ⟨-, hkey⟩ := hs.blobs row hrow hready hpinned
    refine ⟨hready, fun key hk h₀ => ?_⟩
    show w.storage.Has key
    rw [hstorage]
    exact hkey key hk h₀
  · show ∃ row, w.handles.row h = some row ∧ _
    rw [hhandles]
    rcases List.mem_append.1 hu with hu | hu
    · exact hs.pins u hu h hh
    · rw [(hspawn u hu).2.2] at hh
      cases hh

end PinInv

/-- In every run of pins and sweeps in which the pins stand, a granted pin is honoured. -/
theorem pinsHonoured {w₀ : World} (hw₀ : w₀.handles.Numbered) {s : (service cfg).State}
    (h : Reach (PinRun w₀) ⟨w₀, []⟩ s) : PinsHonoured w₀ s := by
  have hinit : PinInv w₀ (⟨w₀, []⟩ : (service cfg).State) := by
    refine ⟨hw₀, fun t ht => (by cases ht), fun t ht => (by cases ht), fun row _ hready _ => ?_,
      fun t ht => (by cases ht)⟩
    exact ⟨hready, fun _ _ h₀ => h₀⟩
  obtain ⟨hconf, hinv⟩ :
      (pinMonitor cfg).Conforms (pinProtocol cfg) PinNotes.ends s ∧ PinInv w₀ s :=
    Reach.invariant program_pins
    (fun s i t o k c a w hs ht hr hmay he hP =>
      ⟨World.found he, hs.act ht hr (hmay (hs.retention t (List.mem_of_getElem? ht))) he hP.2⟩)
    (fun s e w gs hs he hP => hs.env he hP.1) h hinit (fun t ht => (by cases ht))
  intro t ht h hgranted
  unfold PinGranted at hgranted
  split at hgranted
  case h_2 => exact hgranted.elim
  rename_i ws h' token held horigin hresult
  have hends := hconf.ended ht (Thread.result_eq_some.1 hresult)
  rw [horigin] at hends
  obtain ⟨row, hrow, hready⟩ := hinv.pins t ht h (hgranted ▸ hends)
  refine ⟨row, hrow, fun hpinned => ?_⟩
  exact hinv.blobs row (List.mem_of_find?_eq_some hrow) (hready hpinned) hpinned

/-! ### Two results, one of which is pinned -/

/-- The first result is pinned. -/
def pinFirst : Origin := .pinResult 0 ⟨.obs, 0⟩ true none

/-- A result is pinned before the sweep, which evicts the other one. -/
theorem pinsHonoured_pinBeforeSweep : ∃ s : (service Settings.oneKey).State,
    twoResults.handles.Numbered ∧ Reach (PinRun twoResults) ⟨twoResults, []⟩ s ∧
      (∃ t ∈ s.threads, PinGranted ⟨.obs, 0⟩ t) ∧
      (s.world.handles.row ⟨.obs, 1⟩).any (fun row => row.payload.status = some .expired) = true ∧
      PinsHonoured twoResults s := by
  obtain ⟨s, hs, hend⟩ := exists_reach (S := service Settings.oneKey)
    (P := PinRun twoResults) (s := ⟨twoResults, []⟩)
    (p := fun s => (∃ t ∈ s.threads, PinGranted ⟨.obs, 0⟩ t) ∧
      (s.world.handles.row ⟨.obs, 1⟩).any (fun row => row.payload.status = some .expired) = true)
    ([call pinFirst] ++ acts 0 [.ok, .ok, .ok, .ok, .ok] ++ [call (sweepUnder 5)] ++
      acts 1 [.ok, .ok, .ok, .ok, .ok, .ok, .ok, .ok]) (by decide +kernel)
  obtain ⟨hgranted, hexpired⟩ := of_decide_eq_true hend
  have hnumbered : twoResults.handles.Numbered := rfl
  exact ⟨s, hnumbered, hs, hgranted, hexpired, pinsHonoured hnumbered hs⟩

/-- The sweep has read its candidates when the pin is granted, and evicts the result. -/
theorem not_pinsHonoured : ¬ ∀ (cfg : Settings) (w₀ : World) (s : (service cfg).State),
    w₀.handles.Numbered → Reach (fun _ l _ => RetentionCall l) ⟨w₀, []⟩ s → PinsHonoured w₀ s := by
  intro h
  obtain ⟨s, hs, hend⟩ := exists_reach (S := service Settings.oneKey)
    (P := fun _ l _ => RetentionCall l) (s := ⟨twoResults, []⟩)
    (p := fun s => (∃ t ∈ s.threads, PinGranted ⟨.obs, 0⟩ t) ∧
      (s.world.handles.row ⟨.obs, 0⟩).any (fun row => row.payload.pinned ∧ ¬ row.Ready) = true)
    ([call (sweepUnder 0)] ++ acts 0 [.ok, .ok, .ok, .ok] ++ [call pinFirst] ++
      acts 1 [.ok, .ok, .ok, .ok, .ok] ++ acts 0 [.ok, .ok, .ok, .ok, .ok, .ok, .ok, .ok])
    (by decide +kernel)
  obtain ⟨⟨t, ht, hgranted⟩, hevicted⟩ := of_decide_eq_true hend
  obtain ⟨row, hrow, hheld⟩ := h .oneKey twoResults s rfl hs t ht _ hgranted
  rw [hrow] at hevicted
  obtain ⟨hpinned, hnot⟩ := of_decide_eq_true hevicted
  exact hnot (hheld hpinned).1

end runs

end EarthdataMcp
