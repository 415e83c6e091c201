import EarthdataMcp.Cache.FairShare
import EarthdataMcp.Jobs.AdmissionGate
import EarthdataMcp.Tools.PinGuarantee

/-!
# The pin ceiling

`pin_result` adds up what its workspace has pinned, from two lists of handles and from the
storage, and writes the pin in a later transaction.

* `World.pinnedBytes`, what a workspace has pinned and ready; `WithinCeiling`;
* `PinReads`, what a call of `pin_result` has read, and `PinReads.counted`, what it adds up;
* `PinsCounted`: what is pinned when a pin is written was added up before, and nothing grows
  while it is pinned;
* `pinned_withinCeiling`: the ceiling holds in every run whose steps all satisfy that.
-/

namespace EarthdataMcp

open Concurrency Concurrency.Prog Concurrency.System

/-! ### Pinned bytes -/

/-- The size of a result as `_size_of` finds it in this state. -/
def World.sizeNow (w : World) (p : Payload) : ℕ :=
  p.sizeBytes.getD (((p.storageKey.bind w.storage.find).map Blob.size).getD 0)

/-- The results of a workspace that are pinned and ready. -/
def World.pinned (w : World) (ws : WorkspaceId) : List Handle :=
  w.handles.rows.filter fun row => row.workspaceId = ws ∧ row.payload.pinned ∧ row.Ready

/-- What a workspace has pinned. -/
def World.pinnedBytes (w : World) (ws : WorkspaceId) : ℕ :=
  ((w.pinned ws).map fun row => w.sizeNow row.payload).sum

/-- No workspace has more pinned than the ceiling allows. -/
def WithinCeiling (cfg : Settings) (w : World) : Prop :=
  ∀ ws, w.pinnedBytes ws ≤ cfg.pinnedBytesMaxPerWorkspace

/-- What a row adds to the pinned bytes of a workspace. -/
def World.pinnedWeight (w : World) (ws : WorkspaceId) (row : Handle) : ℕ :=
  if row.workspaceId = ws ∧ row.payload.pinned ∧ row.Ready then w.sizeNow row.payload else 0

section pinned

variable {w w' : World} {ws : WorkspaceId} {row : Handle}

theorem World.mem_pinned :
    row ∈ w.pinned ws ↔
      row ∈ w.handles.rows ∧ row.workspaceId = ws ∧ row.payload.pinned ∧ row.Ready := by
  unfold pinned
  rw [List.mem_filter, decide_eq_true_iff]

theorem World.pinnedBytes_eq (w : World) (ws : WorkspaceId) :
    w.pinnedBytes ws = FairShare.bytes (w.pinnedWeight ws) w.handles.rows := by
  unfold pinnedBytes pinned
  induction w.handles.rows with
  | nil => rfl
  | cons row rows ih =>
    rw [FairShare.bytes_cons, ← ih]
    unfold pinnedWeight
    by_cases h : row.workspaceId = ws ∧ row.payload.pinned ∧ row.Ready
    · rw [List.filter_cons_of_pos (by simpa using h), if_pos h, List.map_cons, List.sum_cons]
    · rw [List.filter_cons_of_neg (by simpa using h), if_neg h, Nat.zero_add]

/-- Rows that are changed so that none weighs more. -/
theorem World.pinnedBytes_le_of_map {f : Handle → Handle}
    (hrows : w'.handles.rows = w.handles.rows.map f)
    (h : ∀ row ∈ w.handles.rows, w'.pinnedWeight ws (f row) ≤ w.pinnedWeight ws row) :
    w'.pinnedBytes ws ≤ w.pinnedBytes ws := by
  rw [pinnedBytes_eq, pinnedBytes_eq, hrows]
  revert h
  generalize w.handles.rows = rows
  intro h
  induction rows with
  | nil => exact le_rfl
  | cons row rows ih =>
    obtain ⟨hrow, hrest⟩ := List.forall_mem_cons.1 h
    rw [List.map_cons, FairShare.bytes_cons, FairShare.bytes_cons]
    exact Nat.add_le_add hrow (ih hrest)

/-- A payload with a recorded size has that size whatever the storage holds. -/
theorem World.sizeNow_congr {p p' : Payload} (hstorage : w'.storage = w.storage)
    (hsize : p'.sizeBytes = p.sizeBytes) (hkey : p'.storageKey = p.storageKey) :
    w'.sizeNow p' = w.sizeNow p := by
  unfold sizeNow
  rw [hstorage, hsize, hkey]

theorem World.pinnedBytes_congr (hhandles : w'.handles = w.handles)
    (hstorage : w'.storage = w.storage) : w'.pinnedBytes ws = w.pinnedBytes ws := by
  unfold pinnedBytes pinned sizeNow
  rw [hhandles, hstorage]

end pinned

/-! ### What a pin has read -/

/-- What a thread has read: the handle it has looked up, the handles it has listed, and the
sizes the storage has told it; a key that has vanished counts as nothing. -/
structure PinReads where
  looked : Option Handle := none
  listed : List Handle := []
  stats : List (Key × ℕ) := []

namespace PinReads

/-- The notes after an operation. -/
def observe (n : PinReads) : (o : Op) → Except Exn o.Ans → PinReads
  | .handles (.getHandle _ _), .ok row => { n with looked := some row }
  | .handles (.listHandles _ _), .ok rows => { n with listed := n.listed ++ rows }
  | .storage (.stat key), .ok size => { n with stats := (key, size) :: n.stats }
  | .storage (.stat key), .error .missingKey => { n with stats := (key, 0) :: n.stats }
  | _, _ => n

/-- The listed row counts against a pin of the handle. -/
def Counts (h : HandleId) (row : Handle) : Prop :=
  row.handle ≠ h ∧ row.payload.pinned = true ∧ row.Ready

instance (h : HandleId) (row : Handle) : Decidable (Counts h row) :=
  inferInstanceAs (Decidable (_ ∧ _ ∧ _))

/-- The rows whose sizes a pin of the handle adds up. -/
def counted (n : PinReads) (h : HandleId) : List Handle :=
  n.looked.toList ++ n.listed.filter fun row => Counts h row

/-- The sizes that were read for a payload: the recorded one, or what the storage told. -/
def sizes (n : PinReads) (p : Payload) : List ℕ :=
  match p.sizeBytes, p.storageKey with
  | some size, _ => [size]
  | none, some key => (n.stats.filter fun s => s.1 = key).map Prod.snd
  | none, none => [0]

/-- What a pin of the handle adds up stays within the ceiling. -/
def Fits (n : PinReads) (h : HandleId) (ceiling : ℕ) : Prop :=
  ∃ sizes, List.Forall₂ (fun row size => size ∈ n.sizes row.payload) (n.counted h) sizes ∧
    sizes.sum ≤ ceiling

/-- A pin is written to the handle that was looked up, and what was added up stays within the
ceiling; every other operation is one of those that do not pin. -/
def MayDo (ceiling : ℕ) (n : PinReads) : Op → Prop
  | .handles x => HandleUse False x ∨ ∃ ws h b, x = .updateHandle ws h { pinned := some b } ∧
      (b = true → n.Fits h ceiling)
  | _ => True

theorem sizes_mono {n n' : PinReads} (h : n.stats ⊆ n'.stats) {p : Payload} {size : ℕ}
    (hsize : size ∈ n.sizes p) : size ∈ n'.sizes p := by
  unfold sizes at hsize ⊢
  split at hsize
  · exact hsize
  · obtain ⟨s, hs, rfl⟩ := List.mem_map.1 hsize
    obtain ⟨hmem, hkey⟩ := List.mem_filter.1 hs
    exact List.mem_map.2 ⟨s, List.mem_filter.2 ⟨h hmem, hkey⟩, rfl⟩
  · exact hsize

/-- More has been read of the storage, and nothing else. -/
structure Grows (n n' : PinReads) : Prop where
  looked : n'.looked = n.looked
  listed : n'.listed = n.listed
  stats : n.stats ⊆ n'.stats

theorem Grows.refl (n : PinReads) : n.Grows n := ⟨rfl, rfl, fun _ h => h⟩

theorem Grows.trans {n n' n'' : PinReads} (h : n.Grows n') (h' : n'.Grows n'') : n.Grows n'' :=
  ⟨h'.looked.trans h.looked, h'.listed.trans h.listed, fun _ hs => h'.stats (h.stats hs)⟩

/-- What was read for a listed row. -/
def Read (h : HandleId) (n : PinReads) (row : Handle) (size : ℕ) : Prop :=
  if Counts h row then size ∈ n.sizes row.payload else size = 0

theorem Grows.read {n n' : PinReads} (hgrows : n.Grows n') {h : HandleId} {row : Handle} {size : ℕ}
    (hread : Read h n row size) : Read h n' row size := by
  unfold Read at hread ⊢
  split_ifs at hread ⊢
  · exact sizes_mono hgrows.stats hread
  · exact hread

/-- The rows that do not count add nothing. -/
theorem Read.filter {n : PinReads} {h : HandleId} {rows : List Handle} {found : List ℕ}
    (hread : List.Forall₂ (Read h n) rows found) :
    ∃ sizes, List.Forall₂ (fun row size => size ∈ n.sizes row.payload)
      (rows.filter fun row => Counts h row) sizes ∧ sizes.sum = found.sum := by
  induction hread with
  | nil => exact ⟨[], .nil, rfl⟩
  | @cons row size rows found hsize _ ih =>
    obtain ⟨sizes, hsizes, hsum⟩ := ih
    unfold Read at hsize
    by_cases hcounts : Counts h row
    · rw [if_pos hcounts] at hsize
      rw [List.filter_cons_of_pos (by simpa using hcounts)]
      exact ⟨size :: sizes, .cons hsize hsizes, by simp [hsum]⟩
    · rw [if_neg hcounts] at hsize
      rw [List.filter_cons_of_neg (by simpa using hcounts)]
      exact ⟨sizes, hsizes, by simp [hsum, hsize]⟩

end PinReads

/-- The monitor of what a thread has read. -/
def readsMonitor (cfg : Settings) : Monitor (service cfg) PinReads where
  start _ := {}
  observe n o a := n.observe o a

/-- Threads pin only what they have found to fit. -/
abbrev readsProtocol (cfg : Settings) : Protocol Api PinReads :=
  (readsMonitor cfg).protocol (fun n o => n.MayDo cfg.pinnedBytesMaxPerWorkspace o)
    fun _ o a => o.Found a

/-! ### `pin_result` keeps to that -/

section programs

variable {cfg : Settings} {n : PinReads}

theorem pinnedSizeOf_reads (p : Payload) :
    (pinnedSizeOf p).Obeys (readsProtocol cfg) n fun r n' =>
      n.Grows n' ∧ ∀ size, r = .ok size → size ∈ n'.sizes p := by
  unfold pinnedSizeOf
  split
  · rename_i size hsize
    refine ⟨.refl n, ?_⟩
    rintro _ ⟨⟩
    simp [PinReads.sizes, hsize]
  · rename_i hsize hkey
    refine ⟨.refl n, ?_⟩
    rintro _ ⟨⟩
    simp [PinReads.sizes, hsize, hkey]
  · rename_i key hsize hkey
    rw [obeys_bind, obeys_attempt]
    refine Monitor.obeys_step trivial fun a _ => ?_
    rw [afterBind_ok]
    have hgrows (size : ℕ) : n.Grows { n with stats := (key, size) :: n.stats } :=
      ⟨rfl, rfl, List.subset_cons_self _ _⟩
    have hread (size : ℕ) :
        size ∈ PinReads.sizes { n with stats := (key, size) :: n.stats } p := by
      simp [PinReads.sizes, hsize, hkey]
    split
    · rename_i size _
      refine ⟨hgrows size, ?_⟩
      rintro _ ⟨⟩
      exact hread size
    · refine ⟨hgrows 0, ?_⟩
      rintro _ ⟨⟩
      exact hread 0
    · rename_i e hne _
      refine ⟨?_, fun _ h => by cases h⟩
      cases e with
      | missingKey => exact absurd rfl hne
      | _ => exact .refl n

theorem pinnedBytesOf_reads (h : HandleId) (row : Handle) :
    (pinnedBytesOf h row).Obeys (readsProtocol cfg) n fun r n' =>
      n.Grows n' ∧ ∀ size, r = .ok size → PinReads.Read h n' row size := by
  unfold pinnedBytesOf PinReads.Read
  by_cases hcounts : PinReads.Counts h row
  · obtain ⟨hne, hpinned, hready⟩ := hcounts
    rw [if_neg (by simp [hne, hpinned, hready])]
    refine (pinnedSizeOf_reads row.payload).mono fun r n' hread => ⟨hread.1, fun size hr => ?_⟩
    rw [if_pos (show PinReads.Counts h row from ⟨hne, hpinned, hready⟩)]
    exact hread.2 size hr
  · rw [if_pos (by unfold PinReads.Counts at hcounts; tauto)]
    refine ⟨.refl n, ?_⟩
    rintro _ ⟨⟩
    rw [if_neg hcounts]

theorem collect_pinnedBytesOf_reads (h : HandleId) (rows : List Handle) :
    (collect (pinnedBytesOf h) rows).Obeys (readsProtocol cfg) n fun r n' =>
      n.Grows n' ∧ ∀ found, r = .ok found → List.Forall₂ (PinReads.Read h n') rows found :=
  obeys_collect_grows .refl (fun _ _ _ => .trans) (fun _ _ _ _ hgrows => hgrows.read)
    fun row _ _ => pinnedBytesOf_reads h row

theorem pinnedBytes_reads (ws : WorkspaceId) (h : HandleId) :
    (pinnedBytes ws h).Obeys (readsProtocol cfg) n fun r n' => ∀ others, r = .ok others →
      n'.looked = n.looked ∧ ∃ rows, n'.listed = n.listed ++ rows ∧
        ∃ sizes, List.Forall₂ (fun row size => size ∈ n'.sizes row.payload)
          (rows.filter fun row => PinReads.Counts h row) sizes ∧ sizes.sum = others := by
  unfold pinnedBytes
  rw [obeys_bind]
  refine Monitor.obeys_step (Or.inl (.listHandles ws .obs)) ?_
  rintro (e | obs) -
  · exact fun others hr => by cases hr
  rw [afterBind_ok, obeys_bind]
  refine (collect_pinnedBytesOf_reads h obs).mono ?_
  rintro (e | obsSizes) n₁ ⟨hgrows₁, hread₁⟩
  · exact fun others hr => by cases hr
  rw [afterBind_ok, obeys_bind]
  refine Monitor.obeys_step (Or.inl (.listHandles ws .cube)) ?_
  rintro (e | cubes) -
  · exact fun others hr => by cases hr
  rw [afterBind_ok, obeys_bind]
  refine (collect_pinnedBytesOf_reads h cubes).mono ?_
  rintro (e | cubeSizes) n₂ ⟨hgrows₂, hread₂⟩
  · exact fun others hr => by cases hr
  rintro others ⟨⟩
  refine ⟨hgrows₂.looked.trans hgrows₁.looked, obs ++ cubes, ?_, ?_⟩
  · rw [hgrows₂.listed]
    show n₁.listed ++ cubes = _
    rw [hgrows₁.listed, ← List.append_assoc]
    rfl
  · obtain ⟨sizes₁, hsizes₁, hsum₁⟩ := PinReads.Read.filter (hread₁ _ rfl)
    obtain ⟨sizes₂, hsizes₂, hsum₂⟩ := PinReads.Read.filter (hread₂ _ rfl)
    refine ⟨sizes₁ ++ sizes₂, ?_, by rw [List.sum_append, hsum₁, hsum₂]⟩
    rw [List.filter_append]
    exact List.rel_append (hsizes₁.imp fun _ _ => PinReads.sizes_mono hgrows₂.stats) hsizes₂

theorem pinReady_reads (ws : WorkspaceId) (row : Handle) (hlisted : n.listed = [])
    (hlooked : n.looked = some row) :
    (pinReady cfg ws row).Obeys (readsProtocol cfg) n fun _ _ => True := by
  unfold pinReady
  rw [obeys_bind]
  refine (pinnedBytes_reads ws row.handle).mono ?_
  rintro (e | others) n₁ hothers
  · trivial
  obtain ⟨hlooked₁, rows, hlisted₁, sizes, hsizes, hsum⟩ := hothers others rfl
  rw [afterBind_ok, obeys_bind]
  refine (pinnedSizeOf_reads row.payload).mono ?_
  rintro (e | size) n₂ ⟨hgrows, hsize⟩
  · trivial
  rw [afterBind_ok]
  split_ifs with hover
  · trivial
  · rw [obeys_bind]
    refine Monitor.obeys_step (Or.inr ⟨ws, row.handle, true, rfl, fun _ => ?_⟩) ?_
    · refine ⟨size :: sizes, ?_, ?_⟩
      · unfold PinReads.counted
        rw [hgrows.looked, hlooked₁, hlooked, hgrows.listed, hlisted₁, hlisted, List.nil_append]
        exact .cons (hsize size rfl) (hsizes.imp fun _ _ => PinReads.sizes_mono hgrows.stats)
      · rw [List.sum_cons]
        omega
    · rintro (e | updated) - <;> trivial

/-- A pin is written only where what was read of the workspace fits. -/
theorem pinResult_reads (ws : WorkspaceId) (h : HandleId) (pinned : Bool) (token : Option Token)
    (hlisted : n.listed = []) :
    (pinResult cfg ws h pinned token).Obeys (readsProtocol cfg) n fun _ _ => True := by
  unfold pinResult
  rw [obeys_bind]
  refine Monitor.obeys_step trivial ?_
  rintro (e | now) -
  · trivial
  rw [afterBind_ok]
  split
  · trivial
  by_cases hevictable : ¬ h.evictable
  · rw [if_pos hevictable]
    trivial
  rw [if_neg hevictable, obeys_bind]
  have hresolve : (resolveCached ws h).Obeys (readsProtocol cfg) n fun r n' =>
      ∀ row, r = .ok (some row) → n'.listed = [] ∧ n'.looked = some row := by
    unfold resolveCached
    rw [obeys_bind, obeys_attempt]
    refine Monitor.obeys_step (Or.inl (.get ws h)) fun a _ => ?_
    rw [afterBind_ok]
    split
    · rintro _ ⟨⟩
      exact ⟨hlisted, rfl⟩
    all_goals exact fun row hr => by cases hr
  refine hresolve.mono ?_
  rintro (e | row) n' hrow
  · trivial
  rw [afterBind_ok]
  split
  · trivial
  rename_i row
  obtain ⟨hlisted', hlooked⟩ := hrow row rfl
  split_ifs
  · trivial
  · exact pinReady_reads ws row hlisted' hlooked
  · trivial
  · rw [obeys_bind]
    refine Monitor.obeys_step (Or.inr ⟨ws, h, false, rfl, fun hb => by cases hb⟩) ?_
    rintro (e | updated) -
    · trivial
    rw [afterBind_ok, obeys_bind]
    refine (pinnedBytes_reads ws h).mono ?_
    rintro (e | held) n'' - <;> trivial

/-- Every program conforms. -/
theorem program_reads (g : Origin) :
    (g.program cfg).Obeys (readsProtocol cfg) ((readsMonitor cfg).start g) fun _ _ => True := by
  by_cases hpin : ∃ ws h pinned token, g = .pinResult ws h pinned token
  · obtain ⟨ws, h, pinned, token, rfl⟩ := hpin
    unfold Origin.program
    rw [obeys_bind]
    refine (pinResult_reads ws h pinned token rfl).mono ?_
    rintro (e | answer) n' - <;> trivial
  · refine (g.program_handles cfg).obeys (fun n o _ ho => ?_) (fun _ _ _ _ _ _ _ => trivial) trivial
    cases o with
    | handles x =>
      refine Or.inl ?_
      rw [eq_false hpin] at ho
      exact ho x rfl
    | _ => trivial

end programs

/-! ### Runs -/

section runs

variable {cfg : Settings}

/-- What thread `i` has read. -/
def readsOf (s : (service cfg).State) (i : ℕ) : PinReads :=
  match s.threads[i]? with
  | some t => (readsMonitor cfg).note t
  | none => {}

/-- When a pin is written, every result that is pinned from then on is among those the call has
added up, and is no larger than it was.  A result that is made ready, or whose blob is stored
again, is not pinned meanwhile, or does not grow. -/
def PinsCounted (s : (service cfg).State) (i : ℕ) : Op → Prop
  | .handles (.updateHandle ws h u) =>
      (u.pinned = some true → ∀ row ∈ s.world.handles.rows, row.workspaceId = ws → row.Ready →
        row.handle = h ∨ row.payload.pinned = true →
          ∃ seen ∈ (readsOf s i).counted h, seen.handle = row.handle ∧
            ∀ size ∈ (readsOf s i).sizes seen.payload, s.world.sizeNow row.payload ≤ size) ∧
      (u.status = some .ready → ∀ row ∈ s.world.handles.rows, row.handle = h →
        row.payload.pinned = true →
          row.Ready ∧ s.world.sizeNow (row.payload.merge u) ≤ s.world.sizeNow row.payload)
  | .storage (.put key blob) =>
      ∀ row ∈ s.world.handles.rows, row.Ready → row.payload.pinned = true →
        row.payload.sizeBytes = none → row.payload.storageKey = some key →
          blob.size ≤ s.world.sizeNow row.payload
  | _ => True

instance (s : (service cfg).State) (i : ℕ) : (o : Op) → Decidable (PinsCounted s i o)
  | .handles (.updateHandle _ _ _) =>
      inferInstanceAs (Decidable ((_ → ∀ row ∈ _, _ → _ → _ → ∃ seen ∈ _, _ ∧ ∀ size ∈ _, _) ∧
        (_ → ∀ row ∈ _, _ → _ → _)))
  | .storage (.put _ _) =>
      inferInstanceAs (Decidable (∀ row ∈ s.world.handles.rows, _ → _ → _ → _ → _))
  | .now | .jobs _ | .handles (.getHandle _ _) | .handles (.findBySignature _ _)
  | .handles (.listHandles _ _) | .handles .selectEvictable | .handles (.putHandle _ _ _)
  | .handles (.insertUnique _ _ _) | .handles (.touchHandle _ _) | .storage (.delete _)
  | .storage (.get _) | .storage (.list _) | .storage (.stat _) | .storage (.uri _) | .queue _
  | .provider _ | .planning _ | .access _ | .provenance _ | .orphanSweepDue _ => instDecidableTrue

/-! ### What a step adds -/

section step

variable {w w' : World} {ws ws' : WorkspaceId} {h : HandleId} {u : PayloadUpdate}

/-- A write of a payload by `update_handle`. -/
theorem World.pinnedWeight_updated (hstorage : w'.storage = w.storage) {now : Time} {row : Handle} :
    w'.pinnedWeight ws (row.updated now u) =
      if row.workspaceId = ws ∧ (row.payload.merge u).pinned = true ∧
          (row.payload.merge u).status = some .ready then
        w.sizeNow (row.payload.merge u)
      else 0 := by
  refine if_congr ?_ ?_ rfl
  · unfold Handle.Ready
    rw [Handle.updated_workspaceId, Handle.updated_payload]
  · rw [Handle.updated_payload, World.sizeNow_congr hstorage rfl rfl]

/-- A write that does not let any row weigh more. -/
theorem World.pinnedBytes_modify_le {f : Handle → Handle}
    (hrows : w'.handles = w.handles.modify h f) (hstorage : w'.storage = w.storage)
    (hf : ∀ row ∈ w.handles.rows, row.handle = h →
      w'.pinnedWeight ws (f row) ≤ w.pinnedWeight ws row) :
    w'.pinnedBytes ws ≤ w.pinnedBytes ws := by
  refine World.pinnedBytes_le_of_map (congrArg HandleTable.rows hrows) fun row hrow => ?_
  split_ifs with hh
  · exact hf row hrow hh
  · unfold World.pinnedWeight
    rw [World.sizeNow_congr hstorage rfl rfl]

/-- A write other than a pin, by any program. -/
theorem World.pinnedWeight_use {pins : Prop} (huse : HandleUse pins (.updateHandle ws' h u))
    (hpin : u.pinned ≠ some true) (hstorage : w'.storage = w.storage) {now : Time} {row : Handle}
    (hgrow : u.status = some .ready → row.payload.pinned = true →
      row.Ready ∧ w.sizeNow (row.payload.merge u) ≤ w.sizeNow row.payload) :
    w'.pinnedWeight ws (row.updated now u) ≤ w.pinnedWeight ws row := by
  rw [World.pinnedWeight_updated hstorage]
  split_ifs with hnew
  · obtain ⟨hws, hpinned, hready⟩ := hnew
    unfold World.pinnedWeight
    cases huse with
    | expire ws h | pending ws h => cases hready
    | resolve ws h key mediaType size contentDigest isPartial granuleCount =>
      obtain ⟨hready, hle⟩ := hgrow rfl hpinned
      rw [if_pos ⟨hws, hpinned, hready⟩]
      exact hle
    | promote ws h =>
      rw [if_pos ⟨hws, hpinned, hready⟩]
      exact le_rfl
    | pin ws h b hp =>
      cases b with
      | true => exact absurd rfl hpin
      | false => cases hpinned
  · exact Nat.zero_le _

/-- The rows of distinct handles. -/
theorem HandleTable.Numbered.nodup {t : HandleTable} (ht : t.Numbered) :
    (t.rows.map Handle.handle).Nodup := by
  have hsuffixes : ((t.rows.map Handle.handle).map HandleId.suffix).Nodup := by
    rw [List.map_map]
    exact ht ▸ List.nodup_range
  exact hsuffixes.of_map

/-- A pin whose call has counted everything that is pinned from then on. -/
theorem World.pinnedBytes_pin {n : PinReads} {ceiling : ℕ} {now : Time}
    (hnumbered : w'.handles.Numbered) (hfits : n.Fits h ceiling)
    (hcounted : ∀ row ∈ w.handles.rows, row.workspaceId = ws → row.Ready →
      row.handle = h ∨ row.payload.pinned = true →
        ∃ seen ∈ n.counted h, seen.handle = row.handle ∧
          ∀ size ∈ n.sizes seen.payload, w.sizeNow row.payload ≤ size)
    (hhandles : w'.handles = w.handles.modify h (Handle.updated now { pinned := some true }))
    (hstorage : w'.storage = w.storage) : w'.pinnedBytes ws ≤ ceiling := by
  obtain ⟨sizes, hsizes, hsum⟩ := hfits
  obtain ⟨hlength, hzip⟩ := List.forall₂_iff_zip.1 hsizes
  have hnodup : ((w'.pinned ws).map Handle.handle).Nodup :=
    hnumbered.nodup.sublist (List.filter_sublist.map _)
  have hcover (row : Handle) (hrow : row ∈ w'.pinned ws) :
      ∃ p ∈ (n.counted h).zip sizes, p.1.handle = row.handle ∧ w'.sizeNow row.payload ≤ p.2 := by
    obtain ⟨hmem, hws, hpinned, hready⟩ := World.mem_pinned.1 hrow
    rw [hhandles] at hmem
    obtain ⟨old, hold, rfl⟩ := List.mem_map.1 hmem
    -- the pin changes neither the status nor the size
    have hsame : old.workspaceId = ws ∧ old.Ready ∧
        (old.handle = h ∨ old.payload.pinned = true) ∧
        w'.sizeNow (if old.handle = h then old.updated now { pinned := some true } else old).payload
          = w.sizeNow old.payload := by
      split_ifs at hws hready hpinned ⊢ with hh
      · unfold Handle.Ready at hready
        rw [Handle.updated_payload] at hready
        rw [Handle.updated_workspaceId] at hws
        rw [Handle.updated_payload]
        exact ⟨hws, hready, Or.inl hh, World.sizeNow_congr hstorage rfl rfl⟩
      · exact ⟨hws, hready, Or.inr hpinned, World.sizeNow_congr hstorage rfl rfl⟩
    obtain ⟨hws', hready', hpinned', hsize⟩ := hsame
    obtain ⟨seen, hseen, hhandle, hle⟩ := hcounted old hold hws' hready' hpinned'
    have hfst : ((n.counted h).zip sizes).map Prod.fst = n.counted h :=
      List.map_fst_zip hlength.le
    rw [← hfst] at hseen
    obtain ⟨p, hp, rfl⟩ := List.mem_map.1 hseen
    refine ⟨p, hp, ?_, ?_⟩
    · rw [hhandle]
      split_ifs
      · rw [Handle.updated_handle]
      · rfl
    · rw [hsize]
      exact hle p.2 (hzip hp)
  calc w'.pinnedBytes ws
      = FairShare.bytes (fun row : Handle => w'.sizeNow row.payload) (w'.pinned ws) := rfl
    _ ≤ FairShare.bytes Prod.snd ((n.counted h).zip sizes) :=
        FairShare.bytes_le_of_covered hnodup hcover
    _ = sizes.sum := by
        unfold FairShare.bytes
        rw [List.map_snd_zip hlength.ge]
    _ ≤ ceiling := hsum

/-- A pin adds nothing to the other workspaces. -/
theorem World.pinnedBytes_pin_other {row : Handle} {now : Time}
    (hnumbered : w.handles.Numbered) (hlookup : w.handles.lookup ws' h = .ok row)
    (hhandles : w'.handles = w.handles.modify h (Handle.updated now u))
    (hstorage : w'.storage = w.storage) (hws : ws ≠ ws') :
    w'.pinnedBytes ws ≤ w.pinnedBytes ws := by
  refine World.pinnedBytes_modify_le hhandles hstorage fun row' hrow' hh => ?_
  obtain ⟨hrow, hws'⟩ := HandleTable.lookup_eq_ok_iff.1 hlookup
  have hrow'' := hnumbered.row_eq hrow'
  rw [hh, hrow] at hrow''
  obtain rfl := Option.some.inj hrow''
  rw [World.pinnedWeight_updated hstorage, if_neg fun hnew => hws (hnew.1.symm.trans hws')]
  exact Nat.zero_le _

/-- A new row is not pinned. -/
theorem World.pinnedBytes_mint_le {now : Time} {type : HandleType} {payload : Payload}
    (hunpinned : payload.pinned = false)
    (hhandles : w'.handles = (w.handles.mint now ws' type payload).2)
    (hstorage : w'.storage = w.storage) : w'.pinnedBytes ws ≤ w.pinnedBytes ws := by
  have hrows : w'.handles.rows = w.handles.rows ++ [(w.handles.mint now ws' type payload).1] :=
    congrArg HandleTable.rows hhandles
  have hnew : w'.pinnedWeight ws (w.handles.mint now ws' type payload).1 = 0 := by
    refine if_neg fun hpinned => ?_
    have htrue : payload.pinned = true := hpinned.2.1
    rw [hunpinned] at htrue
    cases htrue
  have hsame : w'.pinnedWeight ws = w.pinnedWeight ws := by
    funext row
    unfold World.pinnedWeight
    rw [World.sizeNow_congr hstorage rfl rfl]
  rw [World.pinnedBytes_eq, World.pinnedBytes_eq, hrows, FairShare.bytes_append,
    FairShare.bytes_cons, FairShare.bytes_nil, hnew, hsame]
  exact le_rfl

/-- An operation of the storage that lets no pinned result grow. -/
theorem World.pinnedBytes_storage_le {o : StorageOp} (hhandles : w'.handles = w.handles)
    (hstorage : w'.storage = (w.storage.exec o).2)
    (hput : ∀ key blob, o = .put key blob → ∀ row ∈ w.handles.rows, row.Ready →
      row.payload.pinned = true → row.payload.sizeBytes = none →
        row.payload.storageKey = some key → blob.size ≤ w.sizeNow row.payload) :
    w'.pinnedBytes ws ≤ w.pinnedBytes ws := by
  have hrows : w'.handles.rows = w.handles.rows.map id := by rw [hhandles, List.map_id]
  refine World.pinnedBytes_le_of_map hrows fun row hrow => ?_
  unfold World.pinnedWeight
  show (if row.workspaceId = ws ∧ row.payload.pinned = true ∧ row.Ready then
    w'.sizeNow row.payload else 0) ≤ _
  split_ifs with hpinned
  · obtain ⟨-, hpinned, hready⟩ := hpinned
    have hfind (key : Key) (hkey : row.payload.storageKey = some key)
        (hsize : row.payload.sizeBytes = none) :
        ((w'.storage.find key).map Blob.size).getD 0 ≤
          ((w.storage.find key).map Blob.size).getD 0 := by
      rw [hstorage]
      cases o with
      | put key' blob =>
        rw [BlobStore.find_put]
        split_ifs with heq
        · subst heq
          have hle := hput key blob rfl row hrow hready hpinned hsize hkey
          simpa [World.sizeNow, hsize, hkey] using hle
        · exact le_rfl
      | delete key' =>
        rw [BlobStore.find_delete_cases]
        split_ifs
        · exact Nat.zero_le _
        · exact le_rfl
      | _ =>
        rw [BlobStore.exec_eq_self (by simp) (by simp)]
    unfold World.sizeNow
    cases hsize : row.payload.sizeBytes with
    | some size => exact le_rfl
    | none =>
      cases hkey : row.payload.storageKey with
      | none => exact le_rfl
      | some key => exact hfind key hkey hsize
  · exact le_rfl

end step

/-- One operation keeps every workspace within the ceiling. -/
theorem withinCeiling_act {s : (service cfg).State} {i : ℕ} {n : PinReads} {o : Op} {c : Choice}
    {a : Except Exn o.Ans} {w : World} (hnumbered : s.world.handles.Numbered)
    (hwithin : WithinCeiling cfg s.world) (hn : readsOf s i = n)
    (hmay : n.MayDo cfg.pinnedBytesMaxPerWorkspace o) (he : s.world.exec o c = some (a, w))
    (hcounted : PinsCounted s i o) : WithinCeiling cfg w := by
  cases o with
  | handles x =>
    rcases World.exec_handles he with ⟨-, -, rfl⟩ | ⟨e, -, rfl⟩
    swap
    · exact hwithin
    have hnumbered' := hnumbered.exec s.world.clock x
    intro ws
    rcases HandleTable.exec_cases (t := s.world.handles) s.world.clock x with
      h | ⟨ws', h, u, row, rfl, hlookup, hhandles⟩ | ⟨ws', h, rfl, hhandles⟩ |
        ⟨ws', type, payload, hx, hhandles⟩
    · rw [h]
      exact hwithin ws
    · obtain ⟨hpins, hgrows⟩ := hcounted
      by_cases hpin : u.pinned = some true
      · -- the ceiling was checked against what the call had counted
        by_cases hws : ws = ws'
        · subst hws
          obtain ⟨hfits, rfl⟩ : n.Fits h cfg.pinnedBytesMaxPerWorkspace ∧
              u = { pinned := some true } := by
            rcases hmay with huse | ⟨_, _, b, heq, hfits⟩
            · cases huse <;> cases hpin
              contradiction
            · obtain ⟨-, rfl, rfl⟩ := HandleOp.updateHandle.inj heq
              obtain rfl := Option.some.inj hpin
              exact ⟨hfits rfl, rfl⟩
          exact World.pinnedBytes_pin hnumbered' hfits (hn ▸ hpins rfl) hhandles rfl
        · exact le_trans (World.pinnedBytes_pin_other (w := s.world) hnumbered hlookup hhandles
            rfl hws) (hwithin ws)
      · refine le_trans (World.pinnedBytes_modify_le (w := s.world) hhandles rfl
          fun row' hrow' hh => ?_) (hwithin ws)
        have huse : HandleUse True (.updateHandle ws' h u) := by
          rcases hmay with huse | ⟨_, _, b, heq, -⟩
          · cases huse <;> constructor
            contradiction
          · rw [heq]
            exact .pin _ _ _ trivial
        exact World.pinnedWeight_use huse hpin rfl fun hready => hgrows hready row' hrow' hh
    · refine le_trans (World.pinnedBytes_modify_le (w := s.world) hhandles rfl
        fun row' _ _ => ?_) (hwithin ws)
      exact le_rfl
    · refine le_trans (World.pinnedBytes_mint_le (w := s.world) ?_ hhandles rfl) (hwithin ws)
      rcases hmay with huse | ⟨_, _, b, heq, -⟩
      · rcases hx with rfl | rfl <;> cases huse <;> rfl
      · rcases hx with rfl | rfl <;> cases heq
  | storage x =>
    rcases World.exec_storage he with ⟨-, -, rfl⟩ | ⟨e, -, rfl⟩
    · intro ws
      refine le_trans (World.pinnedBytes_storage_le (w := s.world) rfl rfl ?_) (hwithin ws)
      rintro key blob rfl
      exact hcounted
    · exact hwithin
  | _ =>
    intro ws
    have hhandles : w.handles = s.world.handles := World.exec_handles_eq_self he (by simp)
    have hstorage : w.storage = s.world.storage := World.exec_storage_eq_self he (by simp)
    exact (World.pinnedBytes_congr hhandles hstorage).le.trans (hwithin ws)

/-- In every run in which pins count what is pinned, no workspace has more pinned than the
ceiling allows. -/
theorem pinned_withinCeiling {s : (service cfg).State}
    (h : Reach (EachOp PinsCounted) initial s) : WithinCeiling cfg s.world := by
  let Inv (s : (service cfg).State) : Prop :=
    s.world.handles.Numbered ∧ WithinCeiling cfg s.world
  suffices hrun : (readsMonitor cfg).Conforms (readsProtocol cfg) (fun _ _ _ => True) s ∧ Inv s from
    hrun.2.2
  refine Reach.invariant program_reads ?_ ?_ h ⟨rfl, fun ws => Nat.zero_le _⟩
    fun t ht => by cases ht
  · intro s i t o k c a w ⟨hnumbered, hwithin⟩ ht hr hmay he hP
    have hn : readsOf s i = (readsMonitor cfg).note t := by
      simp only [readsOf, ht]
    exact ⟨World.found he, World.exec_numbered he hnumbered,
      withinCeiling_act hnumbered hwithin hn hmay he (hP o (nextOp_eq ht hr))⟩
  · intro s e w gs ⟨hnumbered, hwithin⟩ he _
    obtain ⟨-, -, hhandles, hstorage, -⟩ := EnvStep.exec_frame he
    refine ⟨?_, fun ws => ?_⟩
    · show w.handles.Numbered
      rw [hhandles]
      exact hnumbered
    · exact (World.pinnedBytes_congr hhandles hstorage).le.trans (hwithin ws)

/-! ### Two cubes, of which one may be pinned -/

/-- A ceiling of six bytes. -/
def Settings.sixBytes : Settings := { Settings.oneKey with pinnedBytesMaxPerWorkspace := 6 }

/-- Two cubes of five bytes each are emitted. -/
def twoCubes : List (service .sixBytes).Label :=
  [call (.emitCube 0 .small)] ++ acts 0 [.ok, .ok, .ok, .ok] ++
    [call (.emitCube 0 { CubeResult.small with name := "other.nc" })] ++ acts 1 [.ok, .ok, .ok, .ok]

/-- One pin is granted before the other call begins, and then the ceiling is reached. -/
theorem pinned_withinCeiling_inTurn : ∃ s : (service .sixBytes).State,
    Reach (EachOp PinsCounted) initial s ∧ s.world.pinnedBytes 0 = 5 ∧
      (∃ t ∈ s.threads, t.result = some (.ok (.pin (.refusedOverCeiling 5)))) ∧
      WithinCeiling .sixBytes s.world := by
  obtain ⟨s, hs, hend⟩ := exists_reach (S := service .sixBytes) (P := EachOp PinsCounted)
    (s := initial)
    (p := fun s => s.world.pinnedBytes 0 = 5 ∧
      (∃ t ∈ s.threads, t.result = some (.ok (.pin (.refusedOverCeiling 5)))))
    (twoCubes ++ [call (.pinResult 0 ⟨.cube, 0⟩ true none)] ++
      acts 2 [.ok, .ok, .ok, .ok, .ok, .ok] ++ [call (.pinResult 0 ⟨.cube, 1⟩ true none)] ++
      acts 3 [.ok, .ok, .ok, .ok, .ok, .ok])
    (by decide +kernel)
  obtain ⟨hbytes, hrefused⟩ := of_decide_eq_true hend
  exact ⟨s, hs, hbytes, hrefused, pinned_withinCeiling hs⟩

/-- Both calls have counted before either pins. -/
theorem not_withinCeiling : ¬ ∀ (cfg : Settings) (s : (service cfg).State),
    Reachable initial s → WithinCeiling cfg s.world := by
  intro h
  obtain ⟨s, hs, hend⟩ := exists_reach (S := service .sixBytes) (P := fun _ _ _ => True)
    (s := initial) (p := fun s => s.world.pinnedBytes 0 = 10)
    (twoCubes ++ [call (.pinResult 0 ⟨.cube, 0⟩ true none),
      call (.pinResult 0 ⟨.cube, 1⟩ true none)] ++ acts 2 [.ok, .ok, .ok, .ok, .ok] ++
      acts 3 [.ok, .ok, .ok, .ok, .ok, .ok] ++ acts 2 [.ok])
    (by decide +kernel)
  have hbytes : s.world.pinnedBytes 0 = 10 := of_decide_eq_true hend
  have hle := h .sixBytes s hs 0
  rw [hbytes] at hle
  exact absurd hle (by decide)

end runs

end EarthdataMcp
