import EarthdataMcp.Tools.Recovery

/-!
# Signature slots

The unique index gives a signature one handle for good; a request with the signature must find
that handle ready, or with a job that goes on, or get a new job for it.

* `PendingExplained`: a pending handle whose latest job has been delivered was marked by a call
  that has not created its job;
* `reuseResponseForMatch_runWith`, `awaitReuse_runWith`, `planAndCreate_runWith`: what the reuse
  makes of a match, run alone;
* `alive_of_reach`: when a repeated `retrieve_subset` leaves its handle ready or with a job that
  goes on.
-/

namespace EarthdataMcp

open Concurrency Concurrency.Prog Concurrency.System

/-! ### Pending handles -/

/-- The job of the handle has been delivered, or is being delivered. -/
def DeliveryBegun (ns : List HandleNotes) (h : HandleId) (job : Job) : Prop :=
  job.state = .ready ∨ job.state = .expired ∨ Delivering ns h job.jobId

/-- A pending handle whose latest job has been delivered was marked by a call that has not
created its job. -/
def PendingExplained (w : World) (ns : List HandleNotes) : Prop :=
  ∀ h job, w.handles.status h = some .pending → w.jobs.latest h = some job → DeliveryBegun ns h job →
    Filling ns h

section step

variable {w w' : World} {ns : List HandleNotes} {n n' : HandleNotes} {i : ℕ} {h : HandleId}
  {job job' : Job}

/-- A job that a step leaves as it is settles only by its own delivery. -/
theorem DeliveryBegun.of_set (hs : DeliveryBegun (ns.set i n') h job') (hi : ns[i]? = some n)
    (hstate : job'.state = .ready ∨ job'.state = .expired → DeliveryBegun ns h job)
    (hdeliver : n'.work = some (.deliver h) → n.work = some (.deliver h)) (htask : n'.task = n.task)
    (hid : job'.jobId = job.jobId) : DeliveryBegun ns h job := by
  rcases hs with hready | hexpired | hd
  · exact hstate (Or.inl hready)
  · exact hstate (Or.inr hexpired)
  · rw [hid] at hd
    exact Or.inr (Or.inr (exists_of_set hi (fun hn => ⟨hdeliver hn.1, htask ▸ hn.2⟩) hd))

theorem deliveryBegun_of_state (hs : job.state = .ready ∨ job.state = .expired) :
    DeliveryBegun ns h job :=
  hs.elim Or.inl fun hexpired => Or.inr (Or.inl hexpired)

theorem PendingExplained.change {o : Op} (hinv : PendingExplained w ns) (hrun : HandleRun w ns)
    (hi : ns[i]? = some n) (hchange : Change n w o n' w') (hle : n.Le n') :
    PendingExplained w' (ns.set i n') := by
  have hn := List.mem_of_getElem? hi
  intro h job hpending hlatest hbegun
  cases hchange with
  | mark status hu hwrites hrow hstatus hjobs hwork =>
    rw [hstatus] at hpending
    split_ifs at hpending with heq
    · -- the handle is marked pending by this thread
      obtain rfl := Option.some.inj hpending
      subst heq
      exact ⟨n', List.mem_set (List.getElem?_eq_some_iff.1 hi).1 _, hwork⟩
    · rw [hjobs] at hlatest
      refine exists_set hi (fun hfill => ?_) (hinv h job hpending hlatest
        (hbegun.of_set hi deliveryBegun_of_state (fun hdeliver => ?_) hle.task rfl))
      · rw [hwrites.idle] at hfill
        cases hfill
      · rw [hwork] at hdeliver
        cases status with
        | ready => exact absurd (HandleWork.deliver.inj (Option.some.inj hdeliver)).symm heq
        | pending => cases hdeliver
        | expired => cases hdeliver
  | mint h₀ hrow _ hstatus hjobs hwork =>
    rw [hjobs] at hlatest
    have hplaced := hrun.placed job (JobTable.mem_of_latest hlatest).1 h
      (JobTable.mem_of_latest hlatest).2
    have hne : h ≠ h₀ := by
      rintro rfl
      rw [hrow] at hplaced
      cases hplaced
    rw [hstatus h hne] at hpending
    exact exists_set hi (fun hfill => hwork.trans hfill) (hinv h job hpending hlatest
      (hbegun.of_set hi deliveryBegun_of_state (fun hdeliver => hwork ▸ hdeliver) hle.task rfl))
  | create new hcreates hhandles hjobs hwork =>
    rw [hhandles] at hpending
    have hlatest' : w'.jobs.latest h =
        if new.obsHandle = some h then some (new.row w.clock w.jobs.next) else w.jobs.latest h := by
      rw [hjobs]
      exact JobTable.latest_create new _ _ _
    rw [hlatest'] at hlatest
    split_ifs at hlatest with hnew
    · -- the new job is neither delivered nor being delivered
      obtain rfl := Option.some.inj hlatest
      rcases hbegun with hready | hexpired | hd
      · cases hready
      · cases hexpired
      · refine absurd (exists_of_set hi (fun hn => ⟨?_, hle.task ▸ hn.2⟩) hd)
          (hrun.not_delivering_next h)
        exact HandleNotes.filled_deliver.1 (hwork ▸ hn.1)
    · refine exists_set hi (fun hfill => ?_) (hinv h job hpending hlatest
        (hbegun.of_set hi deliveryBegun_of_state (fun hdeliver => ?_) hle.task rfl))
      · rw [hwork]
        exact (HandleNotes.filled_fill hnew).2 hfill
      · rw [hwork] at hdeliver
        exact HandleNotes.filled_deliver.1 hdeliver
  | transact q edit hmay hhandles hok hjobs hwork =>
    have hkeeps := HandleNotes.keeps_of_mayTransact hmay
    rw [hhandles] at hpending
    have hlatest' : w'.jobs.latest h =
        (w.jobs.latest h).map (writeRow w.clock edit (q.select w.jobs.rows)) := by
      rw [hjobs]
      exact JobTable.latest_map fun job => (hkeeps.writeRow _ _ job).moves.obsHandle
    rw [hlatest'] at hlatest
    obtain ⟨old, hold, rfl⟩ := Option.map_eq_some_iff.1 hlatest
    obtain ⟨holdMem, hobs⟩ := JobTable.mem_of_latest hold
    refine exists_set hi (fun hfill => ?_) (hinv h old hpending hold
      (hbegun.of_set hi (fun hstate => ?_) (fun hdeliver => ?_) hle.task
        (hkeeps.writeRow _ _ old).moves.jobId))
    · rw [hwork]
      exact HandleNotes.completed_fill.2 hfill
    · cases hrun.written hn hmay holdMem with
      | same hsame => exact deliveryBegun_of_state (hsame ▸ hstate)
      | moves _ hlive' =>
        refine absurd ?_ hlive'
        rcases hstate with heq | heq <;> rw [heq]
        · exact JobState.terminal_ready
        · exact JobState.terminal_expired
      | dies _ hdead => rcases hstate with heq | heq <;> rcases hdead with hd | hd <;>
          cases heq.symm.trans hd
      | delivered _ _ hby => exact Or.inr (Or.inr ⟨n, hn, hby h hobs⟩)
      | expired _ hready _ _ _ => exact Or.inl hready
    · rw [hwork] at hdeliver
      exact absurd hdeliver HandleNotes.completed_deliver
  | still hstatus hjobs hwork =>
    rw [hstatus] at hpending
    rw [hjobs] at hlatest
    exact exists_set hi (fun hfill => hwork.trans hfill) (hinv h job hpending hlatest
      (hbegun.of_set hi deliveryBegun_of_state (fun hdeliver => hwork ▸ hdeliver) hle.task rfl))

end step

/-- Along every run, pending handles are explained. -/
theorem pendingExplained_of_reach {cfg : Settings} {s : (service cfg).State}
    (h : Reachable initial s) :
    HandleRun s.world (handleNotes s) ∧ PendingExplained s.world (handleNotes s) := by
  refine reach_handles (fun _ _ _ hlatest => by cases hlatest) ?_ ?_ h
  · intro s s' i c n n' o hrun hinv hi _ hchange hle hset _
    rw [hset]
    exact hinv.change hrun hi hchange hle
  · intro w w' ns gs hinv hjobs hhandles h job hpending hlatest hbegun
    rw [hhandles] at hpending
    rw [hjobs] at hlatest
    refine (filling_append_start gs h).2 (hinv h job hpending hlatest ?_)
    rcases hbegun with hready | hexpired | hd
    · exact Or.inl hready
    · exact Or.inr (Or.inl hexpired)
    · exact Or.inr (Or.inr ((delivering_append_start gs h _).1 hd))

/-! ### A request that is repeated -/

/-- The handle is ready, or one of its jobs goes on. -/
def Alive (w : World) (h : HandleId) : Prop :=
  w.handles.status h = some .ready ∨
    ∃ job ∈ w.jobs.rows, job.obsHandle = some h ∧ ¬ job.state.Terminal

/-- The handle is pending and its latest job has not died, but all its jobs have ended. -/
def Stranded (w : World) (h : HandleId) : Prop :=
  w.handles.status h = some .pending ∧ (∃ job, w.jobs.latest h = some job ∧ ¬ job.Dead) ∧
    ∀ job ∈ w.jobs.rows, job.obsHandle = some h → job.state.Terminal

/-- A row that keeps what the reuse goes by. -/
structure Handle.Alike (row row' : Handle) : Prop where
  handle : row'.handle = row.handle
  workspaceId : row'.workspaceId = row.workspaceId
  signature : row'.payload.signature = row.payload.signature
  status : row'.payload.status = row.payload.status

/-- The jobs stay, and every handle keeps what the reuse goes by. -/
structure Calm (w w' : World) : Prop where
  jobs : w'.jobs = w.jobs
  next : w'.handles.next = w.handles.next
  rows : ∃ f : Handle → Handle, (∀ row, Handle.Alike row (f row)) ∧
    w'.handles.rows = w.handles.rows.map f

namespace Calm

variable {w w' w'' : World}

theorem refl (w : World) : Calm w w :=
  ⟨rfl, rfl, id, fun _ => ⟨rfl, rfl, rfl, rfl⟩, (List.map_id _).symm⟩

theorem trans (h : Calm w w') (h' : Calm w' w'') : Calm w w'' := by
  obtain ⟨hjobs, hnext, f, hf, hrows⟩ := h
  obtain ⟨hjobs', hnext', g, hg, hrows'⟩ := h'
  refine ⟨hjobs'.trans hjobs, hnext'.trans hnext, g ∘ f, fun row => ?_,
    by rw [hrows', hrows, List.map_map]⟩
  have hfr := hf row
  have hgr := hg (f row)
  exact ⟨hgr.handle.trans hfr.handle, hgr.workspaceId.trans hfr.workspaceId,
    hgr.signature.trans hfr.signature, hgr.status.trans hfr.status⟩

/-- The row of a handle is still like it was. -/
theorem row (h : Calm w w') : ∃ f : Handle → Handle, (∀ row, Handle.Alike row (f row)) ∧
    w'.handles.rows = w.handles.rows.map f ∧ ∀ k, w'.handles.row k = (w.handles.row k).map f := by
  obtain ⟨-, -, f, hf, hrows⟩ := h
  refine ⟨f, hf, hrows, fun k => ?_⟩
  show w'.handles.rows.find? _ = _
  rw [hrows, List.find?_map]
  simp only [Function.comp_def, (hf _).handle]
  rfl

theorem status (h : Calm w w') (k : HandleId) : w'.handles.status k = w.handles.status k := by
  obtain ⟨f, hf, -, hrow⟩ := h.row
  unfold HandleTable.status
  rw [hrow]
  cases w.handles.row k with
  | none => rfl
  | some row => exact (hf row).status

theorem alive (h : Calm w w') (k : HandleId) : Alive w' k ↔ Alive w k := by
  unfold Alive
  rw [h.status, h.jobs]

theorem stranded (h : Calm w w') (k : HandleId) : Stranded w' k ↔ Stranded w k := by
  unfold Stranded
  rw [h.status, h.jobs]

theorem numbered (h : Calm w w') (hn : w.handles.Numbered) : w'.handles.Numbered := by
  obtain ⟨f, hf, hrows, -⟩ := h.row
  unfold HandleTable.Numbered
  rw [hrows, List.map_map, h.next, ← hn]
  exact List.map_congr_left fun row _ => congrArg HandleId.suffix (hf row).handle

theorem obsStatus (h : Calm w w') (hs : w.handles.ObsStatus) : w'.handles.ObsStatus := by
  obtain ⟨f, hf, hrows, -⟩ := h.row
  intro row hrow htype
  rw [hrows] at hrow
  obtain ⟨old, hold, rfl⟩ := List.mem_map.1 hrow
  rw [(hf old).status]
  exact hs old hold ((hf old).handle ▸ htype)

end Calm

/-- The match as it was read, and as it still is as far as the reuse goes by it. -/
structure Matched (ws : WorkspaceId) (row : Handle) (w : World) : Prop where
  status : row.payload.status.isSome
  held : ∃ now, w.handles.row row.handle = some now ∧ now.workspaceId = ws ∧
    now.payload.status = row.payload.status

namespace Matched

variable {w w' : World} {ws : WorkspaceId} {row : Handle}

theorem calm (hm : Matched ws row w) (h : Calm w w') : Matched ws row w' := by
  obtain ⟨hstatus, now, hnow, hws, hsame⟩ := hm
  obtain ⟨f, hf, -, hrow⟩ := h.row
  exact ⟨hstatus, f now, by rw [hrow, hnow]; rfl, (hf now).workspaceId.trans hws,
    (hf now).status.trans hsame⟩

theorem lookup (hm : Matched ws row w) : ∃ now, w.handles.lookup ws row.handle = .ok now := by
  obtain ⟨-, now, hnow, hws, -⟩ := hm
  exact ⟨now, HandleTable.lookup_eq_ok_iff.2 ⟨hnow, hws⟩⟩

theorem status_eq (hm : Matched ws row w) : w.handles.status row.handle = row.payload.status := by
  obtain ⟨-, now, hnow, -, hsame⟩ := hm
  unfold HandleTable.status
  rw [hnow]
  exact hsame

end Matched

section alone

variable (cfg : Settings) {w : World} {ws : WorkspaceId} {row : Handle} {pick : Op → Choice}
  (identity : Option Token)

theorem promoteIfSpeculative_runWith (hpick : Faultless pick) (hm : Matched ws row w) :
    ∃ w', (promoteIfSpeculative ws row).runWith World.exec pick w = some (.ok (), w') ∧
      Calm w w' := by
  unfold promoteIfSpeculative
  split_ifs
  · obtain ⟨now, hlookup⟩ := hm.lookup
    let promote : Handle → Handle := Handle.updated w.clock { speculative := some false }
    refine ⟨{ w with handles := w.handles.modify row.handle promote }, ?_, rfl, rfl,
      fun r => if r.handle = row.handle then promote r else r, fun r => ?_, rfl⟩
    · rw [runWith_bind (updateHandle_runWith hpick hlookup _)]
      exact record_runWith hpick _
    · dsimp only
      split_ifs
      · exact ⟨Handle.updated_handle _ _ _, Handle.updated_workspaceId _ _ _,
          by rw [Handle.updated_payload, Payload.merge_signature],
          by rw [Handle.updated_payload, Payload.merge_status]; rfl⟩
      · exact ⟨rfl, rfl, rfl, rfl⟩
  · exact ⟨w, rfl, .refl w⟩

theorem reuseAnswer_runWith (hpick : Faultless pick) (answer : RetrievalAnswer) :
    (reuseAnswer ws row answer).runWith World.exec pick w =
      some (.ok (some { answer with reused := true }), w) := by
  unfold reuseAnswer
  rw [runWith_bind (record_runWith hpick _)]
  rfl

/-- A replay leaves its handle with a job that goes on. -/
theorem Replays.alive {w w' : World} {h : HandleId} {answer : RetrievalAnswer}
    (hr : Replays w h answer w') : Alive w' h := by
  obtain ⟨-, job, hrows, hobs, hstate, -⟩ := hr
  refine Or.inr ⟨job, ?_, hobs, ?_⟩
  · rw [hrows]
    exact List.mem_append_right _ List.mem_cons_self
  · rw [hstate]
    exact JobState.not_terminal_pending

/-- What the reuse makes of a match: an answer for its handle, which is alive unless it was
stranded, or nothing, and then it was not. -/
def Reused (w : World) (row : Handle) (answer : Option RetrievalAnswer) (w' : World) : Prop :=
  match answer with
  | some answer =>
      answer.obsHandle = row.handle ∧ (Alive w' row.handle ↔ ¬ Stranded w row.handle)
  | none => Calm w w' ∧ ¬ Stranded w row.handle

theorem not_stranded_of_status {h : HandleId} (hstatus : w.handles.status h ≠ some .pending) :
    ¬ Stranded w h := fun hs => hstatus hs.1

theorem reuseResponseForMatch_runWith (hpick : Faultless pick) (hm : Matched ws row w) :
    ∃ answer w', (reuseResponseForMatch cfg ws row identity).runWith World.exec pick w =
      some (.ok answer, w') ∧ Reused w row answer w' := by
  obtain ⟨w₁, hpromote, hcalm⟩ := promoteIfSpeculative_runWith hpick hm
  have hm₁ := hm.calm hcalm
  obtain ⟨now, hlookup⟩ := hm₁.lookup
  have hstatus := hm.status_eq
  unfold reuseResponseForMatch
  rw [runWith_bind hpromote, runWith_bind (read_latest_runWith hpick), hcalm.jobs]
  obtain ⟨status, hrow⟩ := Option.isSome_iff_exists.1 hm.status
  rw [hrow] at hstatus ⊢
  cases status with
  | expired =>
    have hnot : ¬ Stranded w row.handle :=
      not_stranded_of_status (by rw [hstatus]; intro h; cases h)
    cases hlatest : w.jobs.latest row.handle with
    | none => exact ⟨none, w₁, rfl, hcalm, hnot⟩
    | some job =>
      obtain ⟨answer, w₂, hrun, hreplays⟩ := reenqueueReplay_runWith cfg job identity hpick
        hlookup
      refine ⟨some { answer with reused := true }, w₂, ?_, hreplays.1, fun _ => hnot,
        fun _ => hreplays.alive⟩
      show (reenqueueReplay cfg ws row.handle job identity >>= _).runWith _ _ w₁ = _
      rw [runWith_bind hrun]
      exact reuseAnswer_runWith hpick answer
  | ready =>
    have hnot : ¬ Stranded w row.handle :=
      not_stranded_of_status (by rw [hstatus]; intro h; cases h)
    exact ⟨some { existingAnswer row (w.jobs.latest row.handle).toList.head? with reused := true },
      w₁, reuseAnswer_runWith hpick _, rfl, fun _ => hnot,
      fun _ => (hcalm.alive _).2 (Or.inl hstatus)⟩
  | pending =>
    cases hlatest : w.jobs.latest row.handle with
    | none =>
      refine ⟨none, w₁, rfl, hcalm, ?_⟩
      rintro ⟨-, ⟨job, hjob, -⟩, -⟩
      cases hlatest.symm.trans hjob
    | some job =>
      by_cases hdead : job.Dead
      · refine ⟨none, w₁, ?_, hcalm, ?_⟩
        · show (if job.Dead then _ else _ : Program _).runWith _ _ w₁ = _
          rw [if_pos hdead]
          rfl
        · rintro ⟨-, ⟨job', hjob', hnot⟩, -⟩
          obtain rfl := Option.some.inj (hlatest.symm.trans hjob')
          exact hnot hdead
      · refine ⟨some { existingAnswer row (some job) with reused := true }, w₁, ?_, rfl, ?_⟩
        · show (if job.Dead then _ else _ : Program _).runWith _ _ w₁ = _
          rw [if_neg hdead]
          exact reuseAnswer_runWith hpick _
        · rw [hcalm.alive]
          constructor
          · rintro (hready | ⟨live, hlive, hobs, hgoes⟩) ⟨hpending, -, hended⟩
            · cases hready.symm.trans hpending
            · exact hgoes (hended live hlive hobs)
          · intro hnot
            by_contra hdead'
            refine hnot ⟨hstatus, ⟨job, hlatest, hdead⟩, fun live hlive hobs => ?_⟩
            by_contra hgoes
            exact hdead' (Or.inr ⟨live, hlive, hobs, hgoes⟩)

theorem awaitReuse_runWith (hpick : Faultless pick) (attempts : ℕ) (hm : Matched ws row w)
    (hnot : ¬ Stranded w row.handle) :
    ∃ answer w', (awaitReuse cfg ws row identity attempts).runWith World.exec pick w =
      some (.ok answer, w') ∧ Reused w row answer w' := by
  induction attempts generalizing w with
  | zero => exact ⟨none, w, rfl, .refl w, hnot⟩
  | succ attempts ih =>
    obtain ⟨answer, w₁, hrun, hreused⟩ := reuseResponseForMatch_runWith cfg identity
      hpick hm
    unfold awaitReuse
    rw [runWith_bind hrun]
    cases answer with
    | some answer => exact ⟨some answer, w₁, rfl, hreused⟩
    | none =>
      obtain ⟨hcalm, -⟩ := hreused
      obtain ⟨answer, w₂, hrun₂, hreused₂⟩ := ih (hm.calm hcalm) (by rwa [hcalm.stranded])
      refine ⟨answer, w₂, hrun₂, ?_⟩
      cases answer with
      | some answer => exact ⟨hreused₂.1, by rw [hreused₂.2, hcalm.stranded]⟩
      | none => exact ⟨hcalm.trans hreused₂.1, hnot⟩

end alone

/-! ### Planning that succeeds -/

/-- What the services answer while a request is planned. -/
structure Planning where
  conceptId : String
  bbox : Option Bbox := none
  caps : Capabilities := {}
  plan : PlannedRetrieval

/-- Planning answers, and every operation on the service's own stores takes effect. -/
def Planning.choice (p : Planning) : Op → Choice
  | .planning (.resolveHandles _ _) => .resolved p.conceptId p.bbox
  | .planning (.collectionCapabilities _ _) => .capabilities p.caps
  | .planning (.planRetrieval _ _) => .planned p.plan
  | _ => .ok

theorem Planning.faultless (p : Planning) : Faultless p.choice :=
  ⟨rfl, fun _ => rfl, fun _ => rfl, fun _ => rfl, fun _ => rfl, fun _ => rfl⟩

/-- The identity dimension of a request, as `reuseIdentityScope` finds it. -/
def scopeIn (cfg : Settings) (w : World) (caps : Capabilities) (conceptId : String)
    (identity : Option Token) : Option String :=
  if caps.accessRestricted = some false ∧ conceptId ∉ w.restricted then none
  else some (identityScope cfg w.clock identity)

/-- The signature of a request that is planned so. -/
def Planning.signature (p : Planning) (cfg : Settings) (w : World) (request : RetrievalRequest)
    (identity : Option Token) : String :=
  computeRequestSignature cfg (some p.conceptId) p.bbox (some request.timeRange)
    request.variableNames (outputFormat { request with needsPointSample := false } p.caps)
    (scopeIn cfg w p.caps p.conceptId identity)

/-- The handle that holds a signature, as `find_by_signature` selects it. -/
def HandleTable.matchOf (t : HandleTable) (ws : WorkspaceId) (signature : String) :
    Option Handle :=
  (t.rows.filter (Handle.hasSignature ws signature)).getLast?

namespace HandleTable

variable {t : HandleTable} {ws : WorkspaceId} {signature : String} {row : Handle}

theorem mem_of_matchOf (h : t.matchOf ws signature = some row) :
    row ∈ t.rows ∧ row.workspaceId = ws ∧ row.handle.type = .obs := by
  obtain ⟨hmem, hsig⟩ := List.mem_filter.1 (List.mem_of_getLast? h)
  unfold Handle.hasSignature at hsig
  simp only [Bool.and_eq_true, decide_eq_true_eq] at hsig
  exact ⟨hmem, hsig.1.1, hsig.1.2⟩

/-- The unique index holds a signature if and only if it has a match. -/
theorem any_hasSignature :
    t.rows.any (Handle.hasSignature ws signature) = (t.matchOf ws signature).isSome := by
  unfold matchOf
  cases hlast : (t.rows.filter (Handle.hasSignature ws signature)).getLast? with
  | none =>
    rw [List.getLast?_eq_none_iff, List.filter_eq_nil_iff] at hlast
    exact List.any_eq_false.2 hlast
  | some row =>
    obtain ⟨hmem, hsig⟩ := List.mem_filter.1 (List.mem_of_getLast? hlast)
    exact List.any_eq_true.2 ⟨row, hmem, hsig⟩

end HandleTable

section alone

variable (cfg : Settings) {w w' : World} {ws : WorkspaceId} {row : Handle} (identity : Option Token)
  {signature : String} (p : Planning) (r : ResolvedRequest)

/-- The match of a signature was its match before. -/
theorem Calm.matchOf_of {row' : Handle} (h : Calm w w')
    (hmatch : w'.handles.matchOf ws signature = some row') :
    ∃ row, w.handles.matchOf ws signature = some row ∧ row'.handle = row.handle := by
  obtain ⟨f, hf, hrows, -⟩ := h.row
  have hsame (r : Handle) : Handle.hasSignature ws signature (f r) =
      Handle.hasSignature ws signature r := by
    unfold Handle.hasSignature
    rw [(hf r).handle, (hf r).workspaceId, (hf r).signature]
  unfold HandleTable.matchOf at hmatch ⊢
  rw [hrows, List.filter_map, List.getLast?_map] at hmatch
  simp only [Function.comp_def, hsame] at hmatch
  obtain ⟨row, hrow, rfl⟩ := Option.map_eq_some_iff.1 hmatch
  exact ⟨row, hrow, (hf row).handle⟩

/-- The match of a signature, in a world whose handles are numbered and have a status. -/
theorem matched_of_matchOf (hn : w.handles.Numbered) (hs : w.handles.ObsStatus)
    (h : w.handles.matchOf ws signature = some row) : Matched ws row w := by
  obtain ⟨hmem, hws, hobs⟩ := HandleTable.mem_of_matchOf h
  exact ⟨hs row hmem hobs, row, hn.row_eq hmem, hws, rfl⟩

variable (w ws) in
theorem createRetrieval_runWith (h : HandleId) (plan : PlannedRetrieval) :
    ∃ answer w', (createRetrieval cfg ws r plan h identity).runWith World.exec p.choice w =
      some (.ok answer, w') ∧ answer.obsHandle = h ∧ Alive w' h := by
  refine ⟨_, _, rfl, rfl, Or.inr ⟨_, List.mem_append_right _ List.mem_cons_self, rfl, ?_⟩⟩
  exact JobState.not_terminal_pending

theorem reuseIdentityScope_runWith (caps : Capabilities) (conceptId : String) :
    (reuseIdentityScope cfg w.clock caps conceptId identity).runWith World.exec p.choice w =
      some (.ok (scopeIn cfg w caps conceptId identity), w) := by
  unfold reuseIdentityScope scopeIn
  by_cases htrue : caps.accessRestricted = some true
  · rw [if_pos htrue, if_neg (by rw [htrue]; intro h; cases h.1)]
    rfl
  · rw [if_neg htrue]
    have hread : (perform (.access (.collectionRestriction conceptId))).runWith World.exec p.choice
        w = some (.ok (if conceptId ∈ w.restricted then some true else none), w) := rfl
    rw [runWith_bind hread]
    by_cases hopen : caps.accessRestricted = some false ∧ conceptId ∉ w.restricted
    · rw [if_pos hopen, if_neg hopen.2, if_neg (by rw [hopen.1]; simp)]
      rfl
    · rw [if_neg hopen, if_pos]
      · rfl
      · by_cases hflag : conceptId ∈ w.restricted
        · exact Or.inl (if_pos hflag)
        · exact Or.inr fun hfalse => hopen ⟨hfalse, hflag⟩

variable (w ws signature) in
/-- The unique insert lets a new signature in, and finds the match of any other. -/
theorem putHandleUniqueSignature_runWith (payload : Payload) :
    (∃ row w', (putHandleUniqueSignature ws .obs signature payload).runWith World.exec p.choice w =
        some (.ok (row, true), w')) ∧ w.handles.matchOf ws signature = none ∨
      ∃ row, w.handles.matchOf ws signature = some row ∧
        (putHandleUniqueSignature ws .obs signature payload).runWith World.exec p.choice w =
          some (.ok (row, false), w) := by
  let new : Payload := { payload with signature := some signature }
  have hexec : w.handles.exec w.clock (.insertUnique ws .obs new) =
      if (w.handles.matchOf ws signature).isSome then (.ok none, w.handles)
      else (.ok (some (w.handles.mint w.clock ws .obs new).1),
        (w.handles.mint w.clock ws .obs new).2) := by
    rw [← HandleTable.any_hasSignature]
    rfl
  have hinsert : (perform (.handles (.insertUnique ws .obs new))).runWith World.exec p.choice w =
      some ((w.handles.exec w.clock (.insertUnique ws .obs new)).1,
        { w with handles := (w.handles.exec w.clock (.insertUnique ws .obs new)).2 }) := rfl
  rw [hexec] at hinsert
  unfold putHandleUniqueSignature
  cases hmatch : w.handles.matchOf ws signature with
  | none =>
    rw [hmatch] at hinsert
    exact Or.inl ⟨⟨_, _, runWith_bind hinsert⟩, rfl⟩
  | some row =>
    have hfind : (perform (.handles (.findBySignature ws signature))).runWith World.exec p.choice w =
        some (.ok (some row), w) := by
      refine runWith_perform ?_
      show some (Except.ok (w.handles.matchOf ws signature), w) = _
      rw [hmatch]
    rw [hmatch] at hinsert
    refine Or.inr ⟨row, rfl, ?_⟩
    rw [runWith_bind hinsert]
    exact runWith_bind hfind

/-- Planning a request whose match, if it has one, is not stranded gives it a job. -/
theorem planAndCreate_runWith (hn : w.handles.Numbered) (hs : w.handles.ObsStatus)
    (hnot : ∀ row, w.handles.matchOf ws signature = some row → ¬ Stranded w row.handle) :
    ∃ answer w', (planAndCreate cfg ws r (some signature) identity).runWith World.exec p.choice w =
      some (.ok answer, w') ∧ Alive w' answer.obsHandle := by
  have hplan : (perform (.planning (.planRetrieval r.request identity))).runWith World.exec p.choice
      w = some (.ok p.plan, w) := rfl
  unfold planAndCreate
  rw [runWith_bind hplan]
  rcases putHandleUniqueSignature_runWith w ws signature p { status := some .pending } with
    ⟨⟨row, w₁, hput⟩, -⟩ | ⟨row, hmatch, hput⟩
  · obtain ⟨answer, w₂, hcreate, hobs, halive⟩ := createRetrieval_runWith cfg w₁ ws identity p r
      row.handle p.plan
    refine ⟨answer, w₂, ?_, hobs ▸ halive⟩
    show (putHandleUniqueSignature ws .obs signature _ >>= _).runWith _ _ w = _
    rw [runWith_bind hput]
    exact hcreate
  · have hm := matched_of_matchOf hn hs hmatch
    have hnot := hnot row hmatch
    obtain ⟨answer, w₁, hawait, hreused⟩ := awaitReuse_runWith cfg identity
      p.faultless raceRetryAttempts hm hnot
    cases answer with
    | some answer =>
      refine ⟨answer, w₁, ?_, ?_⟩
      · show (putHandleUniqueSignature ws .obs signature _ >>= _).runWith _ _ w = _
        rw [runWith_bind hput]
        exact runWith_bind hawait
      · rw [hreused.1]
        exact hreused.2.2 hnot
    | none =>
      obtain ⟨now, hlookup⟩ := (hm.calm hreused.1).lookup
      let pending : Handle → Handle := Handle.updated w₁.clock { status := some .pending }
      let w₂ : World := { w₁ with handles := w₁.handles.modify row.handle pending }
      have hmark : (perform (.handles (.updateHandle ws row.handle { status := some .pending }))).runWith
          World.exec p.choice w₁ = some (.ok (pending now), w₂) :=
        updateHandle_runWith p.faultless hlookup _
      obtain ⟨answer, w₃, hcreate, hobs, halive⟩ := createRetrieval_runWith cfg w₂ ws identity p r
        row.handle p.plan
      refine ⟨answer, w₃, ?_, hobs ▸ halive⟩
      show (putHandleUniqueSignature ws .obs signature _ >>= _).runWith _ _ w = _
      rw [runWith_bind hput]
      show (awaitReuse cfg ws row identity raceRetryAttempts >>= _).runWith _ _ w = _
      rw [runWith_bind hawait]
      show (perform (.handles (.updateHandle ws row.handle { status := some .pending })) >>=
        _).runWith _ _ w₁ = _
      rw [runWith_bind hmark]
      exact hcreate

variable (ws signature) in
/-- The lookup answers what the reuse makes of the match, and nothing if there is none. -/
theorem checkReuse_runWith (hn : w.handles.Numbered) (hs : w.handles.ObsStatus) :
    ∃ answer w', (checkReuse cfg ws signature identity).runWith World.exec p.choice w =
      some (.ok answer, w') ∧
        (∀ row, w.handles.matchOf ws signature = some row → Reused w row answer w') ∧
          (w.handles.matchOf ws signature = none → answer = none ∧ w' = w) := by
  have hfind : (perform (.handles (.findBySignature ws signature))).runWith World.exec p.choice w =
      some (.ok (w.handles.matchOf ws signature), w) := rfl
  unfold checkReuse
  rw [runWith_bind hfind]
  cases hmatch : w.handles.matchOf ws signature with
  | none => exact ⟨none, w, rfl, fun _ h => (by cases h), fun _ => ⟨rfl, rfl⟩⟩
  | some row =>
    obtain ⟨answer, w', hrun, hreused⟩ := reuseResponseForMatch_runWith cfg
      identity p.faultless (matched_of_matchOf hn hs hmatch)
    refine ⟨answer, w', hrun, ?_, fun h => (by cases h)⟩
    rintro _ ⟨⟩
    exact hreused

/-- A request that is admitted and planned ends with an answer; its handle is alive if and only
if the match of its signature was not stranded. -/
theorem retrieveSubset_runWith {request canonical : RetrievalRequest} {token : Option Token}
    (hn : w.handles.Numbered) (hs : w.handles.ObsStatus)
    (htoken : Admitted cfg w.clock token identity)
    (htime : request.normalize cfg = .ok canonical) :
    ∃ answer w', (retrieveSubset cfg ws request token).runWith World.exec p.choice w =
      some (.ok answer, w') ∧
        (Alive w' answer.obsHandle ↔ ∀ row,
          w.handles.matchOf ws (p.signature cfg w canonical identity) = some row →
            ¬ Stranded w row.handle) := by
  obtain ⟨hparse, hkey⟩ := htoken
  obtain ⟨timeRange, hrange, rfl⟩ := RetrievalRequest.normalize_eq_ok htime
  let canonical : RetrievalRequest := { request with timeRange := String.ofList timeRange }
  let signature := p.signature cfg w canonical identity
  let plain : RetrievalRequest := { canonical with needsPointSample := false }
  have hplain : RetrievalRequest.normalize cfg { request with needsPointSample := false } =
      .ok plain := by
    unfold RetrievalRequest.normalize
    rw [hrange]
    rfl
  let r : ResolvedRequest :=
    { request := plain, conceptId := p.conceptId, bbox := p.bbox, caps := p.caps
      format := outputFormat plain p.caps }
  have hnow : (perform .now).runWith World.exec p.choice w = some (.ok w.clock, w) := rfl
  have hresolve : (perform (.planning (.resolveHandles ws plain))).runWith World.exec p.choice w =
      some (.ok (p.conceptId, p.bbox), w) := rfl
  have hcaps : (perform (.planning (.collectionCapabilities (some p.conceptId) identity))).runWith
      World.exec p.choice w = some (.ok p.caps, w) := rfl
  unfold retrieveSubset submitRetrieval
  rw [runWith_bind hnow]
  simp only [hparse]
  rw [if_neg hkey, hplain]
  dsimp only
  unfold submitNormalized
  rw [runWith_bind hresolve, runWith_bind hcaps]
  dsimp only
  rw [if_pos rfl,
    runWith_bind (reuseIdentityScope_runWith cfg identity p p.caps p.conceptId)]
  obtain ⟨reused, w₁, hcheck, hreused, hfresh⟩ := checkReuse_runWith cfg ws
    identity signature p hn hs
  cases reused with
  | some answer =>
    obtain ⟨row, hmatch⟩ : ∃ row, w.handles.matchOf ws signature = some row := by
      cases hmatch : w.handles.matchOf ws signature with
      | none => cases (hfresh hmatch).1
      | some row => exact ⟨row, rfl⟩
    obtain ⟨hobs, halive⟩ := hreused row hmatch
    refine ⟨answer, w₁, ?_, ?_⟩
    · show (checkReuse cfg ws signature identity >>= _).runWith _ _ w = _
      rw [runWith_bind hcheck]
      rfl
    · rw [hobs, halive]
      constructor
      · rintro hnot row' hmatch'
        obtain rfl := Option.some.inj (hmatch.symm.trans hmatch')
        exact hnot
      · exact fun hnot => hnot row hmatch
  | none =>
    -- there is no match, or it is dead and nothing has changed that matters
    have hcalm : Calm w w₁ ∧
        ∀ row, w.handles.matchOf ws signature = some row → ¬ Stranded w row.handle := by
      cases hmatch : w.handles.matchOf ws signature with
      | none =>
        rw [(hfresh hmatch).2]
        exact ⟨.refl w, fun _ h => (by cases h)⟩
      | some row =>
        obtain ⟨hcalm, hnot⟩ := hreused row hmatch
        refine ⟨hcalm, ?_⟩
        rintro _ ⟨⟩
        exact hnot
    obtain ⟨hcalm, hnot⟩ := hcalm
    obtain ⟨answer, w₂, hrun, halive⟩ := planAndCreate_runWith cfg identity p r
      (hcalm.numbered hn) (hcalm.obsStatus hs) fun row' hmatch' => by
        obtain ⟨row, hmatch, hhandle⟩ := hcalm.matchOf_of hmatch'
        rw [hhandle, hcalm.stranded]
        exact hnot row hmatch
    refine ⟨answer, w₂, ?_, fun _ => hnot, fun _ => halive⟩
    show (checkReuse cfg ws signature identity >>= _).runWith _ _ w = _
    rw [runWith_bind hcheck]
    exact hrun

end alone

/-! ### In every reachable state -/

/-- The match of the signature was marked pending by a call that has not created its job, after
its earlier jobs had been delivered. -/
def SlotLost {cfg : Settings} (s : (service cfg).State) (ws : WorkspaceId) (signature : String) :
    Prop :=
  ∃ row, s.world.handles.matchOf ws signature = some row ∧ Filling (handleNotes s) row.handle ∧
    Stranded s.world row.handle

/-- A repeated request ends with an answer; its handle is ready or has a job that goes on, if and
only if the slot of its signature was not lost. -/
theorem alive_of_reach {cfg : Settings} {s : (service cfg).State} (hreach : Reachable initial s)
    (p : Planning) (ws : WorkspaceId) {request canonical : RetrievalRequest}
    {token identity : Option Token} (htoken : Admitted cfg s.world.clock token identity)
    (htime : request.normalize cfg = .ok canonical) :
    ∃ answer w', (retrieveSubset cfg ws request token).runWith World.exec p.choice s.world =
      some (.ok answer, w') ∧
        (Alive w' answer.obsHandle ↔
          ¬ SlotLost s ws (p.signature cfg s.world canonical identity)) := by
  obtain ⟨hrun, hexplained⟩ := pendingExplained_of_reach hreach
  obtain ⟨answer, w', hanswer, halive⟩ := retrieveSubset_runWith cfg identity p
    hrun.numbered hrun.obsStatus htoken htime
  refine ⟨answer, w', hanswer, halive.trans ⟨?_, fun hslot row hmatch hstranded => ?_⟩⟩
  · rintro hnot ⟨row, hmatch, -, hstranded⟩
    exact hnot row hmatch hstranded
  · -- a stranded handle has been delivered, so that a call must have marked it pending
    refine hslot ⟨row, hmatch, ?_, hstranded⟩
    obtain ⟨hpending, ⟨job, hlatest, hnot⟩, hended⟩ := hstranded
    obtain ⟨hjob, hobs⟩ := JobTable.mem_of_latest hlatest
    refine hexplained row.handle job hpending hlatest (deliveryBegun_of_state ?_)
    have hterminal := hended job hjob hobs
    unfold Job.Dead at hnot
    revert hterminal hnot
    cases job.state <;> decide

instance (w : World) (h : HandleId) : Decidable (Alive w h) :=
  inferInstanceAs (Decidable (_ ∨ ∃ job ∈ w.jobs.rows, _))

instance (w : World) (h : HandleId) : Decidable (Stranded w h) :=
  inferInstanceAs (Decidable (_ ∧ (∃ job ∈ w.jobs.latest h, _) ∧ ∀ job ∈ w.jobs.rows, _))

instance {cfg : Settings} (s : (service cfg).State) (ws : WorkspaceId) (signature : String) :
    Decidable (SlotLost s ws signature) :=
  inferInstanceAs (Decidable (∃ row ∈ s.world.handles.matchOf ws signature, _))

/-- A request is routed to OPeNDAP. -/
def Planning.toOpendap : Planning := { conceptId := "C1", plan := { path := .opendap } }

/-- A request becomes the job 0 of the handle 0, which holds its signature. -/
def subsetRequested : List (service .oneKey).Label :=
  call (.retrieveSubset 0 .plain none) ::
    acts 0 ([.ok, .resolved "C1" none, .capabilities {}, .ok, .ok, .planned { path := .opendap }] ++
      List.replicate 6 .ok)

theorem normalize_plain : RetrievalRequest.plain.normalize .oneKey = .ok .plain := by
  decide +kernel

/-- A result that was delivered and evicted is requested again. -/
theorem alive_of_reach_evicted : ∃ (s : (service .oneKey).State) (answer : RetrievalAnswer)
    (w' : World), (retrieveSubset .oneKey 0 .plain none).runWith World.exec
      Planning.toOpendap.choice s.world = some (.ok answer, w') ∧ Alive w' answer.obsHandle := by
  obtain ⟨s, hs, hp⟩ := exists_reach (P := fun _ _ _ => True) (s := initial)
    (p := fun s => (¬ SlotLost s 0 (Planning.toOpendap.signature .oneKey s.world .plain none) : Bool))
    (subsetRequested ++ delivered 1 0 ++ evicted 4) (by decide +kernel)
  obtain ⟨answer, w', hrun, halive⟩ := alive_of_reach hs Planning.toOpendap 0
    (admitted_none _ _) normalize_plain
  exact ⟨s, answer, w', hrun, halive.2 (of_decide_eq_true hp)⟩

/-- A replay of an evicted result dies once it has marked the handle pending: every later request
is answered that the handle is pending, and it has no job that goes on. -/
theorem not_alive : ¬ ∀ (cfg : Settings) (s : (service cfg).State) (p : Planning)
    (ws : WorkspaceId) (request canonical : RetrievalRequest) (token identity : Option Token),
    Reachable initial s → Admitted cfg s.world.clock token identity →
      request.normalize cfg = .ok canonical →
        ∃ answer w', (retrieveSubset cfg ws request token).runWith World.exec p.choice s.world =
          some (.ok answer, w') ∧ Alive w' answer.obsHandle := by
  intro h
  obtain ⟨s, hs, hp⟩ := exists_reach (P := fun _ _ _ => True) (s := initial)
    (p := fun s => ((retrieveSubset .oneKey 0 .plain none).runWith World.exec
      Planning.toOpendap.choice s.world).any fun out =>
        out.1.toOption.any fun answer => ¬ Alive out.2 answer.obsHandle)
    (subsetRequested ++ delivered 1 0 ++ evicted 4 ++
      call (.rematerialize 0 ⟨.obs, 0⟩ none) :: acts 5 (List.replicate 5 .ok))
    (by decide +kernel)
  obtain ⟨answer, w', hrun, halive⟩ := h .oneKey s Planning.toOpendap 0 .plain .plain none none hs
    (admitted_none _ _) normalize_plain
  rw [hrun] at hp
  exact of_decide_eq_true hp halive

end EarthdataMcp
