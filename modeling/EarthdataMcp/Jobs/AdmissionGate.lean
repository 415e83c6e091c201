import EarthdataMcp.Jobs.HandleRuns
import EarthdataMcp.Jobs.SpeculativeResults

/-!
# The admission gate and the sweep

Fair share is measured twice: by the gate of a prefetch, from the sizes the handles record, and
by the sweep, which asks the storage for a size that is not recorded.

* `Payload.Sized`: a result that is ready has a key, and a retrieval has recorded its size;
* `recordedBytes` and `measuredBytes`, what the gate counts of a workspace and what it does not;
* `SameMeasure`, and `Weightless`, the stores in which nothing that is measured weighs anything;
* `Overlooked`: with this cap, what is measured takes a workspace over its share;
* `sameMeasure_iff`: the two measure the same in just those stores, and with a given cap they do so
  for just the workspaces that are not overlooked.
-/

namespace EarthdataMcp

open Concurrency Concurrency.Prog Concurrency.System

/-! ### What every payload satisfies -/

section payloads

variable {Q : HandleType → Payload → Prop}

/-- The operation keeps what holds of every payload of every type. -/
def Op.KeepsPayloads (Q : HandleType → Payload → Prop) : Op → Prop
  | .handles (.updateHandle _ _ u) => ∀ type p, Q type p → Q type (p.merge u)
  | .handles (.putHandle _ type p) => Q type p
  | .handles (.insertUnique _ type p) => Q type p
  | _ => True

theorem HandleTable.forall_exec {t : HandleTable} {o : HandleOp} (now : Time)
    (ho : (Op.handles o).KeepsPayloads Q)
    (ht : ∀ row ∈ t.rows, Q row.handle.type row.payload) :
    ∀ row ∈ (t.exec now o).2.rows, Q row.handle.type row.payload := by
  intro row hrow
  rcases HandleTable.exec_cases (t := t) now o with h | ⟨ws, h, u, r, rfl, -, heq⟩ |
    ⟨ws, h, rfl, heq⟩ | ⟨ws, type, payload, hmint, heq⟩
  · rw [h] at hrow
    exact ht row hrow
  · rw [heq] at hrow
    obtain ⟨r, hr, rfl⟩ := List.mem_map.1 hrow
    split_ifs
    · rw [Handle.updated_handle, Handle.updated_payload]
      exact ho _ _ (ht r hr)
    · exact ht r hr
  · rw [heq] at hrow
    obtain ⟨r, hr, rfl⟩ := List.mem_map.1 hrow
    split_ifs <;> exact ht r hr
  · rw [heq] at hrow
    rcases List.mem_append.1 hrow with hold | hnew
    · exact ht row hold
    · obtain rfl := List.mem_singleton.1 hnew
      rcases hmint with rfl | rfl <;> exact ho

/-- What every operation of every program keeps holds of every payload in every run. -/
theorem payloads_of_reach {cfg : Settings} {s : (service cfg).State}
    (hkeeps : ∀ g o, Origin.Touches cfg g o → o.KeepsPayloads Q) (hs : Reachable initial s) :
    ∀ row ∈ s.world.handles.rows, Q row.handle.type row.payload := by
  let Inv (u : (service cfg).State) : Prop :=
    ∀ row ∈ u.world.handles.rows, Q row.handle.type row.payload
  have hprog (g : Origin) : (g.program cfg).Only (Op.KeepsPayloads Q) :=
    (g.program_only cfg).mono fun o => hkeeps g o
  suffices h : AllOnly (Op.KeepsPayloads Q) s ∧ Inv s from h.2
  refine Reach.invariant_only hprog ?_ ?_ hs ?_ ?_
  · intro u i th o k c a w hinv _ _ ho he _
    by_cases hh : ∃ hop, o = .handles hop
    · obtain ⟨hop, rfl⟩ := hh
      rcases World.exec_handles he with ⟨-, -, rfl⟩ | ⟨e, -, rfl⟩
      · exact HandleTable.forall_exec _ ho hinv
      · exact hinv
    · show ∀ row ∈ w.handles.rows, _
      rw [World.exec_handles_eq_self he (not_exists.1 hh)]
      exact hinv
  · intro u e w gs hinv he _
    show ∀ row ∈ w.handles.rows, _
    rw [(EnvStep.exec_frame he).2.2.1]
    exact hinv
  · exact fun row hrow => absurd hrow List.not_mem_nil
  · exact fun t ht => absurd ht List.not_mem_nil

end payloads

/-! ### Recorded sizes -/

/-- A ready result has a key; a retrieval has recorded its size. -/
def Payload.Sized (type : HandleType) (p : Payload) : Prop :=
  p.status = some .ready → p.storageKey.isSome ∧ (type = .obs → p.sizeBytes.isSome)

theorem keepsSized_of_status {u : PayloadUpdate} {status : HandleStatus}
    (hu : u.status = some status) (hne : status ≠ .ready) (type : HandleType) (p : Payload) :
    (p.merge u).Sized type := by
  intro hready
  rw [Payload.merge_status, hu] at hready
  exact absurd (Option.some.inj hready) hne

section sized

variable {cfg : Settings} {o : Op}

theorem HandleUse.sized {pins : Prop} {x : HandleOp} (h : HandleUse pins x) :
    (Op.handles x).KeepsPayloads Payload.Sized := by
  cases h with
  | expire ws h | pending ws h =>
    exact fun type p _ => keepsSized_of_status rfl (by decide) type p
  | resolve ws h key mediaType size contentDigest isPartial granuleCount =>
    exact fun type p _ _ => ⟨rfl, fun _ => rfl⟩
  | promote ws h | pin ws h b hp => exact fun type p hp => hp
  | insert ws s speculative | mintObs ws | mintJob ws o d => exact fun hready => by cases hready
  | mintCube ws key mediaType => exact fun _ => ⟨rfl, fun hobs => by cases hobs⟩
  | _ => trivial

theorem Origin.Touches.sized {g : Origin} (h : g.Touches cfg o) :
    o.KeepsPayloads Payload.Sized := by
  cases o with
  | handles x => exact h.handles.sized
  | _ => trivial

end sized

/-! ### The two measures -/

/-- The results whose recorded size the gate counts. -/
def World.recorded (w : World) : List Handle :=
  w.results.filter fun row => row.Ready && row.payload.sizeBytes.isSome

/-- The size of a cube's blob, for a ready cube that has recorded none. -/
def World.cubeSize (w : World) (row : Handle) : Option ℕ :=
  if row.Ready ∧ row.handle.type = .cube ∧ row.payload.sizeBytes = none then
    (row.payload.storageKey.bind w.storage.find).map Blob.size
  else none

/-- What the gate counts of a workspace. -/
def World.recordedBytes (w : World) (ws : WorkspaceId) : ℕ :=
  ((w.recorded.filter fun row => row.workspaceId = ws).map fun row =>
    row.payload.sizeBytes.getD 0).sum

/-- What the sweep counts of a workspace besides. -/
def World.measuredBytes (w : World) (ws : WorkspaceId) : ℕ :=
  ((w.results.filter fun row => row.workspaceId = ws).map fun row => (w.cubeSize row).getD 0).sum

/-- The workspaces with a recorded result. -/
def World.recordedIn (w : World) : Finset WorkspaceId := (w.recorded.map Handle.workspaceId).toFinset

/-- The workspaces with a measured result. -/
def World.measuredIn (w : World) : Finset WorkspaceId :=
  ((w.results.filter fun row => (w.cubeSize row).isSome).map Handle.workspaceId).toFinset

section measures

variable {w : World} {row : Handle}

theorem World.mem_recorded :
    row ∈ w.recorded ↔ row ∈ w.results ∧ row.Ready ∧ row.payload.sizeBytes.isSome := by
  unfold recorded
  rw [List.mem_filter, Bool.and_eq_true, decide_eq_true_iff]

theorem World.mem_recordedIn {ws : WorkspaceId} :
    ws ∈ w.recordedIn ↔ ∃ row ∈ w.recorded, row.workspaceId = ws := by
  unfold recordedIn
  rw [List.mem_toFinset, List.mem_map]

theorem World.mem_measuredIn {ws : WorkspaceId} :
    ws ∈ w.measuredIn ↔ ∃ row ∈ w.results, (w.cubeSize row).isSome ∧ row.workspaceId = ws := by
  unfold measuredIn
  rw [List.mem_toFinset, List.mem_map]
  constructor
  · rintro ⟨row, hrow, rfl⟩
    exact ⟨row, (List.mem_filter.1 hrow).1, (List.mem_filter.1 hrow).2, rfl⟩
  · rintro ⟨row, hrow, hsize, rfl⟩
    exact ⟨row, List.mem_filter.2 ⟨hrow, hsize⟩, rfl⟩

theorem World.cubeSize_ready {size : ℕ} (h : w.cubeSize row = some size) : row.Ready := by
  unfold cubeSize at h
  split_ifs at h with hcube
  exact hcube.1

/-- What the sweep counts of a row is what the row records, or what its blob weighs. -/
theorem World.candidateOf_size (svc : EvictionService) (costs : List Job)
    (hsized : row.payload.Sized row.handle.type) (hrow : row.handle.evictable) :
    (w.candidateOf svc costs row).map Candidate.sizeBytes =
      (if row.Ready && row.payload.sizeBytes.isSome then row.payload.sizeBytes else none).or
        (w.cubeSize row) := by
  unfold candidateOf cubeSize
  by_cases hready : row.Ready
  · obtain ⟨hkey, hobs⟩ := hsized hready
    obtain ⟨key, hkey⟩ := Option.isSome_iff_exists.1 hkey
    rw [hkey]
    cases hsize : row.payload.sizeBytes with
    | some size => simp [World.sizeOf, hready, hsize, Handle.candidate]
    | none =>
      have hcube : row.handle.type = .cube := by
        unfold HandleId.evictable at hrow
        by_contra hne
        simp [hne] at hrow
        simpa [hsize] using hobs hrow
      simp [World.sizeOf, hready, hsize, hcube, Handle.candidate, Function.comp_def]
  · cases row.payload.storageKey <;> simp [hready]

theorem World.candidateOf_workspaceId {svc : EvictionService} {costs : List Job} {c : Candidate}
    (h : w.candidateOf svc costs row = some c) : c.workspaceId = row.workspaceId := by
  unfold candidateOf at h
  split at h
  · cases h
  · split_ifs at h
    obtain ⟨size, -, rfl⟩ := Option.map_eq_some_iff.1 h
    rfl

theorem underFairShare_iff (cap : ℕ) (ws : WorkspaceId) :
    underFairShare cap 0 ws w.results = true ↔
      w.recordedBytes ws * (insert ws w.recordedIn).card ≤ cap := by
  unfold underFairShare
  rw [decide_eq_true_iff, Nat.add_zero, ← List.card_toFinset, List.toFinset_cons]
  rfl

theorem heldBy_le_fairShare_iff (cap : ℕ) (cs : List Candidate) (ws : WorkspaceId) :
    heldBy cs ws ≤ fairShare cap cs ↔
      heldBy cs ws * (cs.map Candidate.workspaceId).toFinset.card ≤ cap := by
  unfold fairShare
  by_cases hcard : (cs.map Candidate.workspaceId).toFinset.card = 0
  · have hnil : cs = [] := by simpa using hcard
    subst hnil
    simp [heldBy, totalBytes]
  · have hpos : (0 : ℚ) < (cs.map Candidate.workspaceId).toFinset.card := by
      exact_mod_cast Nat.pos_of_ne_zero hcard
    rw [le_div_iff₀ hpos]
    exact_mod_cast Iff.rfl

/-- The sizes of a store's results are known. -/
def World.Sized (w : World) : Prop := ∀ row ∈ w.handles.rows, row.payload.Sized row.handle.type

theorem World.Sized.of_result (h : w.Sized) (hrow : row ∈ w.results) :
    row.payload.Sized row.handle.type ∧ row.handle.evictable := by
  obtain ⟨hmem, hevictable⟩ := List.mem_filter.1 hrow
  exact ⟨h row hmem, hevictable⟩

/-- The sweep counts what the gate counts, and the cubes. -/
theorem heldBy_candidates (hw : w.Sized) (svc : EvictionService) (ws : WorkspaceId) :
    heldBy (w.candidates svc) ws = w.recordedBytes ws + w.measuredBytes ws := by
  let recordedSize (row : Handle) : ℕ :=
    if row.Ready && row.payload.sizeBytes.isSome then row.payload.sizeBytes.getD 0 else 0
  let measuredSize (row : Handle) : ℕ := (w.cubeSize row).getD 0
  have hsize (row : Handle) (hrow : row ∈ w.results) : recordedSize row + measuredSize row =
      ((w.candidateOf svc w.costs row).map Candidate.sizeBytes).getD 0 := by
    obtain ⟨hsized, hevictable⟩ := hw.of_result hrow
    rw [World.candidateOf_size svc w.costs hsized hevictable]
    simp only [recordedSize, measuredSize, World.cubeSize]
    cases row.payload.sizeBytes <;> by_cases hready : row.Ready <;> simp [hready]
  calc heldBy (w.candidates svc) ws
      = FairShare.holding Candidate.sizeBytes Candidate.workspaceId (w.candidates svc) ws := rfl
    _ = FairShare.holding (fun row => recordedSize row + measuredSize row) Handle.workspaceId
          w.results ws :=
        FairShare.holding_filterMap hsize
          (fun row _ c hc => World.candidateOf_workspaceId hc) ws
    _ = FairShare.holding recordedSize Handle.workspaceId w.results ws +
          FairShare.holding measuredSize Handle.workspaceId w.results ws :=
        FairShare.holding_add _ _ _ _ _
    _ = w.recordedBytes ws + w.measuredBytes ws := by
        congr 1
        exact (FairShare.holding_filter _ _ _ _ _).symm

/-- The workspaces that divide the cap for the sweep. -/
theorem workspaces_candidates (hw : w.Sized) (svc : EvictionService) :
    ((w.candidates svc).map Candidate.workspaceId).toFinset = w.recordedIn ∪ w.measuredIn := by
  ext ws
  rw [Finset.mem_union, World.mem_recordedIn, World.mem_measuredIn, List.mem_toFinset,
    List.mem_map]
  have hsome (row : Handle) (hrow : row ∈ w.results) :
      (∃ c, w.candidateOf svc w.costs row = some c) ↔
        row ∈ w.recorded ∨ (w.cubeSize row).isSome := by
    obtain ⟨hsized, hevictable⟩ := hw.of_result hrow
    have hmap := World.candidateOf_size (w := w) svc w.costs hsized hevictable
    rw [← Option.isSome_iff_exists, ← Option.isSome_map (f := Candidate.sizeBytes), hmap,
      World.mem_recorded]
    cases hsize : row.payload.sizeBytes <;> by_cases hready : row.Ready <;>
      simp [hready, hrow]
  constructor
  · rintro ⟨c, hc, rfl⟩
    obtain ⟨row, hrow, hcand⟩ := List.mem_filterMap.1 hc
    have hws := World.candidateOf_workspaceId hcand
    rcases (hsome row hrow).1 ⟨c, hcand⟩ with h | h
    · exact Or.inl ⟨row, h, hws.symm⟩
    · exact Or.inr ⟨row, hrow, h, hws.symm⟩
  · have hback (row : Handle) (hrow : row ∈ w.results)
        (h : row ∈ w.recorded ∨ (w.cubeSize row).isSome) :
        ∃ c ∈ w.candidates svc, c.workspaceId = row.workspaceId := by
      obtain ⟨c, hc⟩ := (hsome row hrow).2 h
      exact ⟨c, List.mem_filterMap.2 ⟨row, hrow, hc⟩, World.candidateOf_workspaceId hc⟩
    rintro (⟨row, hrow, rfl⟩ | ⟨row, hrow, hsize, rfl⟩)
    · exact hback row (World.mem_recorded.1 hrow).1 (Or.inl hrow)
    · exact hback row hrow (Or.inr hsize)

end measures

/-! ### When the two measure the same -/

/-- With any cap, and for any workspace that has a ready result, the gate finds the workspace
within its share just if the sweep does. -/
def SameMeasure (w : World) : Prop :=
  ∀ (svc : EvictionService) (ws : WorkspaceId),
    (∃ row ∈ w.results, row.Ready ∧ row.workspaceId = ws) →
      (underFairShare svc.maxBytes 0 ws w.results = true ↔
        heldBy (w.candidates svc) ws ≤ fairShare svc.maxBytes (w.candidates svc))

/-- No cube whose blob is stored weighs anything, and none is alone in its workspace unless
nothing that is recorded weighs anything either. -/
def Weightless (w : World) : Prop :=
  ∀ row ∈ w.results, ∀ size ∈ w.cubeSize row, size = 0 ∧
    ((∃ other ∈ w.recorded, other.workspaceId = row.workspaceId) ∨
      ∀ other ∈ w.recorded, other.payload.sizeBytes = some 0)

/-- What the gate counts of the workspace is within its share of the cap; with the cubes that it
does not count, and the workspaces that have some, the workspace is over its share. -/
def Overlooked (w : World) (cap : ℕ) (ws : WorkspaceId) : Prop :=
  w.recordedBytes ws * (insert ws w.recordedIn).card ≤ cap ∧
    cap < (w.recordedBytes ws + w.measuredBytes ws) * (w.recordedIn ∪ w.measuredIn).card

instance (w : World) : Decidable (Weightless w) :=
  inferInstanceAs (Decidable (∀ row ∈ w.results, ∀ size ∈ w.cubeSize row, _))

section sameMeasure

variable {w : World}

theorem World.recordedBytes_eq_zero_iff {ws : WorkspaceId} :
    w.recordedBytes ws = 0 ↔
      ∀ row ∈ w.recorded, row.workspaceId = ws → row.payload.sizeBytes = some 0 := by
  have hzero : w.recordedBytes ws = 0 ↔ ∀ row ∈ w.recorded, row.workspaceId = ws →
      row.payload.sizeBytes.getD 0 = 0 :=
    FairShare.holding_eq_zero_iff _ Handle.workspaceId
  refine hzero.trans (forall₂_congr fun row hrow => imp_congr_right fun _ => ?_)
  obtain ⟨-, -, hsome⟩ := World.mem_recorded.1 hrow
  obtain ⟨size, hsize⟩ := Option.isSome_iff_exists.1 hsome
  simp [hsize]

theorem World.measuredBytes_eq_zero_iff {ws : WorkspaceId} :
    w.measuredBytes ws = 0 ↔
      ∀ row ∈ w.results, row.workspaceId = ws → ∀ size ∈ w.cubeSize row, size = 0 := by
  have hzero : w.measuredBytes ws = 0 ↔ ∀ row ∈ w.results, row.workspaceId = ws →
      (w.cubeSize row).getD 0 = 0 :=
    FairShare.holding_eq_zero_iff _ Handle.workspaceId
  refine hzero.trans (forall₂_congr fun row _ => imp_congr_right fun _ => ?_)
  cases w.cubeSize row <;> simp

/-- The condition on the results, by workspace. -/
theorem weightless_iff : Weightless w ↔ ∀ ws ∈ w.measuredIn, w.measuredBytes ws = 0 ∧
    (ws ∈ w.recordedIn ∨ ∀ ws' ∈ w.recordedIn, w.recordedBytes ws' = 0) := by
  have hrecorded : (∀ ws' ∈ w.recordedIn, w.recordedBytes ws' = 0) ↔
      ∀ other ∈ w.recorded, other.payload.sizeBytes = some 0 := by
    constructor
    · intro h other hother
      have hws := h _ (World.mem_recordedIn.2 ⟨other, hother, rfl⟩)
      exact World.recordedBytes_eq_zero_iff.1 hws other hother rfl
    · intro h ws' _
      exact World.recordedBytes_eq_zero_iff.2 fun row hrow _ => h row hrow
  rw [hrecorded]
  constructor
  · intro h ws hws
    obtain ⟨row, hrow, hsome, rfl⟩ := World.mem_measuredIn.1 hws
    obtain ⟨size, hsize⟩ := Option.isSome_iff_exists.1 hsome
    refine ⟨World.measuredBytes_eq_zero_iff.2 fun other hother _ size' hsize' =>
      (h other hother size' hsize').1, ?_⟩
    exact (h row hrow size hsize).2.imp_left World.mem_recordedIn.2
  · intro h row hrow size hsize
    obtain ⟨hzero, hshared⟩ := h row.workspaceId (World.mem_measuredIn.2
      ⟨row, hrow, Option.isSome_iff_exists.2 ⟨size, hsize⟩, rfl⟩)
    exact ⟨World.measuredBytes_eq_zero_iff.1 hzero row hrow rfl size hsize,
      hshared.imp_left World.mem_recordedIn.1⟩

theorem World.recordedBytes_of_notMem {ws : WorkspaceId} (hws : ws ∉ w.recordedIn) :
    w.recordedBytes ws = 0 :=
  World.recordedBytes_eq_zero_iff.2 fun row hrow heq =>
    absurd (World.mem_recordedIn.2 ⟨row, hrow, heq⟩) hws

/-- The two measures of a workspace, in a store whose sizes are known. -/
theorem World.Sized.measures_iff (hw : w.Sized) (svc : EvictionService) (ws : WorkspaceId) :
    (underFairShare svc.maxBytes 0 ws w.results = true ↔
      heldBy (w.candidates svc) ws ≤ fairShare svc.maxBytes (w.candidates svc)) ↔
    (w.recordedBytes ws * (insert ws w.recordedIn).card ≤ svc.maxBytes ↔
      (w.recordedBytes ws + w.measuredBytes ws) *
        (w.recordedIn ∪ w.measuredIn).card ≤ svc.maxBytes) := by
  rw [underFairShare_iff, heldBy_le_fairShare_iff, heldBy_candidates hw, workspaces_candidates hw]

theorem World.Sized.same_iff (hw : w.Sized) : SameMeasure w ↔ Weightless w := by
  have hrecorded : ∀ ws ∉ w.recordedIn, w.recordedBytes ws = 0 :=
    fun ws => World.recordedBytes_of_notMem
  have hmeasured (ws : WorkspaceId) (hws : ws ∉ w.measuredIn) : w.measuredBytes ws = 0 :=
    World.measuredBytes_eq_zero_iff.2 fun row hrow heq size hsize =>
      absurd (World.mem_measuredIn.2 ⟨row, hrow, Option.isSome_iff_exists.2 ⟨size, hsize⟩, heq⟩) hws
  rw [weightless_iff, ← FairShare.shares_agree_iff hrecorded hmeasured
    (R := fun ws => ∃ row ∈ w.results, row.Ready ∧ row.workspaceId = ws) ?_]
  · constructor
    · intro h cap ws hws
      exact (hw.measures_iff ⟨cap, 0, 0⟩ ws).1 (h ⟨cap, 0, 0⟩ ws hws)
    · intro h svc ws hws
      exact (hw.measures_iff svc ws).2 (h svc.maxBytes ws hws)
  · intro ws hws
    rcases Finset.mem_union.1 hws with hws | hws
    · obtain ⟨row, hrow, heq⟩ := World.mem_recordedIn.1 hws
      obtain ⟨hmem, hready, -⟩ := World.mem_recorded.1 hrow
      exact ⟨row, hmem, hready, heq⟩
    · obtain ⟨row, hrow, hsome, heq⟩ := World.mem_measuredIn.1 hws
      obtain ⟨size, hsize⟩ := Option.isSome_iff_exists.1 hsome
      exact ⟨row, hrow, World.cubeSize_ready hsize, heq⟩

end sameMeasure

/-- In every reachable state, the gate and the sweep measure the same if and only if no cube weighs
anything for the sweep; with a given cap they agree on a workspace if and only if the cubes do not
take it over its share. -/
theorem sameMeasure_iff {cfg : Settings} {s : (service cfg).State} (hs : Reachable initial s) :
    (SameMeasure s.world ↔ Weightless s.world) ∧
      ∀ (svc : EvictionService) (ws : WorkspaceId),
        (underFairShare svc.maxBytes 0 ws s.world.results = true ↔
          heldBy (s.world.candidates svc) ws ≤
            fairShare svc.maxBytes (s.world.candidates svc)) ↔
          ¬ Overlooked s.world svc.maxBytes ws := by
  have hsized : s.world.Sized := payloads_of_reach (fun _ _ h => h.sized) hs
  refine ⟨hsized.same_iff, fun svc ws => (hsized.measures_iff svc ws).trans ?_⟩
  exact FairShare.share_agrees_iff World.recordedBytes_of_notMem svc.maxBytes

/-- A retrieval has been delivered. -/
theorem sameMeasure_delivered : ∃ s : (service .oneKey).State,
    (∃ row ∈ s.world.results, row.Ready) ∧ SameMeasure s.world := by
  obtain ⟨s, hs, hp⟩ := exists_reach (P := fun _ _ _ => True) (s := initial)
    (p := fun s => ((∃ row ∈ s.world.results, row.Ready) ∧ Weightless s.world : Bool))
    (requested ++ delivered 1 0) (by decide +kernel)
  obtain ⟨hready, hweightless⟩ := of_decide_eq_true hp
  exact ⟨s, hready, (sameMeasure_iff hs).1.2 hweightless⟩

/-- A transform of one result, of five bytes. -/
def CubeResult.small : CubeResult where
  recipe := "monthly mean"
  sourceHandles := [⟨.obs, 0⟩]
  name := "cube.nc"
  mediaType := "application/netcdf4"
  size := 5

/-- The gate does not see a cube that the sweep finds above its workspace's share. -/
theorem not_sameMeasure : ¬ ∀ (cfg : Settings) (s : (service cfg).State),
    Reachable initial s → SameMeasure s.world := by
  intro h
  let svc : EvictionService := ⟨4, 60, seconds 3600⟩
  obtain ⟨s, hs, hp⟩ := exists_reach (S := service .oneKey) (P := fun _ _ _ => True) (s := initial)
    (p := fun s => ((∃ row ∈ s.world.results, row.Ready ∧ row.workspaceId = 0) ∧
      underFairShare svc.maxBytes 0 0 s.world.results = true ∧
        ¬ heldBy (s.world.candidates svc) 0 ≤
          fairShare svc.maxBytes (s.world.candidates svc) : Bool))
    (call (.emitCube 0 .small) :: acts 0 [.ok, .ok, .ok, .ok]) (by decide +kernel)
  obtain ⟨hready, hgate, hsweep⟩ := of_decide_eq_true hp
  exact hsweep ((h .oneKey s hs svc 0 hready).1 hgate)

end EarthdataMcp
