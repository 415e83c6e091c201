import EarthdataMcp.Concurrency.Sequential
import EarthdataMcp.Jobs.HandleRuns

/-!
# Recovering an evicted result

`rematerialize` replays the latest job of a handle only if the handle is expired; of any other it
answers the stored status.

* `Recovers`: `rematerialize`, run alone, creates a job and queues it;
* `KeepsPursued`: a step that fails or cancels a job leaves a pending handle with another job;
* `recovers_of_reach`: in every run of such steps, a handle that is not ready and whose jobs have
  all ended can be recovered, unless a call has marked it pending and not created its job.
-/

namespace EarthdataMcp

open Concurrency Concurrency.Prog Concurrency.System

/-! ### Pending handles are pursued -/

/-- A job is being created for the handle, or one of its jobs goes on and is not being
delivered. -/
def Pursued (w : World) (ns : List HandleNotes) (h : HandleId) : Prop :=
  Filling ns h ∨
    ∃ job ∈ w.jobs.rows, job.obsHandle = some h ∧ ¬ job.state.Terminal ∧
      ¬ Delivering ns h job.jobId

instance (w : World) (ns : List HandleNotes) (h : HandleId) : Decidable (Pursued w ns h) :=
  inferInstanceAs (Decidable (_ ∨ ∃ job ∈ w.jobs.rows, _))

/-- A step that fails or cancels a job of a pending handle leaves the handle pursued. -/
def KeepsPursued {cfg : Settings} (s : (service cfg).State) (_ : (service cfg).Label)
    (s' : (service cfg).State) : Prop :=
  ∀ job ∈ s.world.jobs.rows, ∀ job' ∈ s'.world.jobs.rows, job'.jobId = job.jobId →
    ¬ job.state.Terminal → job'.Dead → ∀ h ∈ job.obsHandle,
      s.world.handles.status h = some .pending → Pursued s'.world (handleNotes s') h

instance {cfg : Settings} (s : (service cfg).State) (l : (service cfg).Label)
    (s' : (service cfg).State) : Decidable (KeepsPursued s l s') :=
  inferInstanceAs (Decidable (∀ job ∈ s.world.jobs.rows, ∀ job' ∈ s'.world.jobs.rows, _))

/-- Every pending handle that has a job is pursued. -/
def PendingPursued (w : World) (ns : List HandleNotes) : Prop :=
  ∀ h, w.handles.status h = some .pending → ∀ job ∈ w.jobs.rows, job.obsHandle = some h →
    Pursued w ns h

section step

variable {w w' : World} {ns : List HandleNotes} {n n' : HandleNotes} {i : ℕ} {h : HandleId}

/-- A handle stays pursued by the jobs that go on, if no thread begins to deliver it. -/
theorem Pursued.mono (hp : Pursued w ns h) (hi : ns[i]? = some n)
    (hfill : n.work = some (.fill h) → n'.work = some (.fill h))
    (hdeliver : n'.work = some (.deliver h) → n.work = some (.deliver h)) (htask : n'.task = n.task)
    (hjobs : ∀ job ∈ w.jobs.rows, job.obsHandle = some h → ¬ job.state.Terminal →
      ¬ Delivering ns h job.jobId → ∃ job' ∈ w'.jobs.rows, job.Moves job' ∧ ¬ job'.state.Terminal) :
    Pursued w' (ns.set i n') h := by
  rcases hp with hfilling | ⟨job, hjob, hobs, hlive, hnot⟩
  · exact Or.inl (exists_set hi hfill hfilling)
  · obtain ⟨job', hjob', hmoves, hlive'⟩ := hjobs job hjob hobs hlive hnot
    refine Or.inr ⟨job', hjob', hmoves.obsHandle.trans hobs, hlive', fun hd => hnot ?_⟩
    rw [hmoves.jobId] at hd
    exact exists_of_set hi (fun hn => ⟨hdeliver hn.1, htask ▸ hn.2⟩) hd

/-- A change leaves every pending handle pursued, if one that fails or cancels a job does. -/
theorem PendingPursued.change {o : Op} (hinv : PendingPursued w ns) (hrun : HandleRun w ns)
    (hi : ns[i]? = some n) (hchange : Change n w o n' w') (hle : n.Le n')
    (hdies : ∀ job ∈ w.jobs.rows, ∀ job' ∈ w'.jobs.rows, job'.jobId = job.jobId →
      ¬ job.state.Terminal → job'.Dead → ∀ h ∈ job.obsHandle,
        w.handles.status h = some .pending → Pursued w' (ns.set i n') h) :
    PendingPursued w' (ns.set i n') := by
  have hn := List.mem_of_getElem? hi
  intro h hpending job hjob hobs
  cases hchange with
  | mark status hu hwrites hrow hstatus hjobs hwork =>
    rw [hstatus] at hpending
    split_ifs at hpending with heq
    · -- the handle is marked pending by this thread
      obtain rfl := Option.some.inj hpending
      subst heq
      exact Or.inl ⟨n', List.mem_set (List.getElem?_eq_some_iff.1 hi).1 _, hwork⟩
    · rw [hjobs] at hjob
      refine (hinv h hpending job hjob hobs).mono hi
        (fun hfill => by rw [hwrites.idle] at hfill; cases hfill)
        (fun hdeliver => ?_) hle.task fun job' hjob' _ hlive _ =>
          ⟨job', hjobs ▸ hjob', .refl job', hlive⟩
      rw [hwork] at hdeliver
      cases status with
      | ready => exact absurd (HandleWork.deliver.inj (Option.some.inj hdeliver)).symm heq
      | pending => cases hdeliver
      | expired => cases hdeliver
  | mint h₀ hrow _ hstatus hjobs hwork =>
    rw [hjobs] at hjob
    have hplaced := hrun.placed job hjob h hobs
    have hne : h ≠ h₀ := by
      rintro rfl
      rw [hrow] at hplaced
      cases hplaced
    rw [hstatus h hne] at hpending
    exact (hinv h hpending job hjob hobs).mono hi (fun h => hwork.trans h) (fun h => hwork ▸ h)
      hle.task fun job' hjob' _ hlive _ => ⟨job', hjobs ▸ hjob', .refl job', hlive⟩
  | create new hcreates hhandles hjobs hwork =>
    rw [hhandles] at hpending
    by_cases hnew : new.obsHandle = some h
    · -- the new job goes on, and no task of it runs yet
      refine Or.inr ⟨new.row w.clock w.jobs.next, ?_, hnew, JobState.not_terminal_pending, ?_⟩
      · rw [hjobs]
        exact List.mem_append_right _ List.mem_cons_self
      · intro hd
        refine hrun.not_delivering_next h (exists_of_set hi (fun hn => ⟨?_, hle.task ▸ hn.2⟩) hd)
        exact HandleNotes.filled_deliver.1 (hwork ▸ hn.1)
    · have hold : job ∈ w.jobs.rows := by
        rw [hjobs] at hjob
        rcases List.mem_append.1 hjob with hold | hadded
        · exact hold
        · obtain rfl := List.mem_singleton.1 hadded
          exact absurd hobs hnew
      refine (hinv h hpending job hold hobs).mono hi (fun hfill => ?_) (fun hdeliver => ?_) hle.task
        fun job' hjob' _ hlive _ => ⟨job', ?_, .refl job', hlive⟩
      · rw [hwork]
        exact (HandleNotes.filled_fill hnew).2 hfill
      · rw [hwork] at hdeliver
        exact HandleNotes.filled_deliver.1 hdeliver
      · rw [hjobs]
        exact List.mem_append_left _ hjob'
  | transact q edit hmay hhandles hok hjobs hwork =>
    have hkeeps := HandleNotes.keeps_of_mayTransact hmay
    rw [hhandles] at hpending
    have hjob₀ := hjob
    rw [hjobs] at hjob₀
    obtain ⟨old, hold, rfl⟩ := List.mem_map.1 hjob₀
    have hobs' : old.obsHandle = some h :=
      (hkeeps.writeRow _ _ old).moves.obsHandle.symm.trans hobs
    -- a job of the handle that fails or is cancelled leaves the handle pursued
    by_cases hdead : ∃ job ∈ w.jobs.rows, job.obsHandle = some h ∧ ¬ job.state.Terminal ∧
        (writeRow w.clock edit (q.select w.jobs.rows) job).Dead
    · obtain ⟨job, hjob, hobs, hlive, hdead⟩ := hdead
      refine hdies job hjob _ ?_ (hkeeps.writeRow _ _ job).moves.jobId hlive hdead h hobs hpending
      rw [hjobs]
      exact List.mem_map_of_mem hjob
    · refine (hinv h hpending old hold hobs').mono hi (fun hfill => ?_) (fun hdeliver => ?_) hle.task
        fun job hjob hobs hlive hnot => ⟨writeRow w.clock edit (q.select w.jobs.rows) job, ?_,
          (hkeeps.writeRow _ _ job).moves, ?_⟩
      · rw [hwork]
        exact HandleNotes.completed_fill.2 hfill
      · rw [hwork] at hdeliver
        exact absurd hdeliver HandleNotes.completed_deliver
      · rw [hjobs]
        exact List.mem_map_of_mem hjob
      · cases hrun.written hn hmay hjob with
        | same hstate =>
          rw [hstate]
          exact hlive
        | moves _ hlive' => exact hlive'
        | dies _ hd => exact absurd ⟨job, hjob, hobs, hlive, hd⟩ hdead
        | delivered _ _ hby => exact absurd ⟨n, hn, hby h hobs⟩ hnot
        | expired _ hready _ _ _ => exact absurd (hready ▸ JobState.terminal_ready) hlive
  | still hstatus hjobs hwork =>
    rw [hstatus] at hpending
    rw [hjobs] at hjob
    exact (hinv h hpending job hjob hobs).mono hi (fun h => hwork.trans h) (fun h => hwork ▸ h)
      hle.task fun job' hjob' _ hlive _ => ⟨job', hjobs ▸ hjob', .refl job', hlive⟩

end step

/-- Along every run whose steps leave pending handles pursued, they are. -/
theorem pendingPursued_of_reach {cfg : Settings} {s : (service cfg).State}
    (h : Reach KeepsPursued initial s) :
    HandleRun s.world (handleNotes s) ∧ PendingPursued s.world (handleNotes s) := by
  refine reach_handles (fun _ _ _ hjob => by cases hjob) ?_ ?_ h
  · intro s s' i c n n' o hrun hinv hi _ hchange hle hset hP
    rw [hset]
    refine hinv.change hrun hi hchange hle fun job hjob job' hjob' hid hlive hdead h hobs hpending => ?_
    rw [← hset]
    exact hP job hjob job' hjob' hid hlive hdead h hobs hpending
  · intro w w' ns gs hinv hjobs hhandles h hpending job hjob hobs
    rw [hhandles] at hpending
    rw [hjobs] at hjob
    rcases hinv h hpending job hjob hobs with hfilling | ⟨job', hjob', hobs', hlive, hnot⟩
    · exact Or.inl ((filling_append_start gs h).2 hfilling)
    · exact Or.inr ⟨job', hjobs ▸ hjob', hobs', hlive, fun hd =>
        hnot ((delivering_append_start gs h _).1 hd)⟩

/-! ### Rematerializing alone -/

/-- A job is created for the handle, and its submission is queued. -/
def Replays (w : World) (h : HandleId) (answer : RetrievalAnswer) (w' : World) : Prop :=
  answer.obsHandle = h ∧
    ∃ job, w'.jobs.rows = w.jobs.rows ++ [job] ∧ job.obsHandle = some h ∧ job.state = .pending ∧
      answer.jobHandle = some job.jobHandle ∧
      ∃ entry ∈ w'.queue.entries, entry.task = .submitJob ∧ entry.job = job.jobId

/-- `rematerialize`, run alone, creates a job for the handle and queues it. -/
def Recovers (cfg : Settings) (w : World) (ws : WorkspaceId) (h : HandleId)
    (token : Option Token) : Prop :=
  ∃ answer w', (rematerialize cfg ws h token).runWith World.exec (fun _ => .ok) w =
    some (.ok (.replayed answer), w') ∧ Replays w h answer w'

/-- The answer is that of a replay. -/
def RematerializeAnswer.isReplayed : RematerializeAnswer → Bool
  | replayed _ => true
  | _ => false

/-- The caller's token can be read, and a key is configured for it. -/
def Admitted (cfg : Settings) (now : Time) (token identity : Option Token) : Prop :=
  parseEdlToken now token = .ok identity ∧ ¬ (identity.isSome ∧ cfg.earthdataCredentialKey = [])

/-- Every operation on the service's own stores takes effect. -/
structure Faultless (pick : Op → Choice) : Prop where
  now : pick .now = .ok
  jobs : ∀ o, pick (.jobs o) = .ok
  handles : ∀ o, pick (.handles o) = .ok
  queue : ∀ o, pick (.queue o) = .ok
  access : ∀ o, pick (.access o) = .ok
  provenance : ∀ write, pick (.provenance write) = .ok

section alone

variable {cfg : Settings} {w : World} {ws : WorkspaceId} {h : HandleId} {row : Handle} {job : Job}
  {pick : Op → Choice}

theorem read_latest_runWith (hpick : Faultless pick) :
    (perform (.jobs (.read (.getJobByObsHandle h)))).runWith World.exec pick w =
      some (.ok (w.jobs.latest h).toList, w) :=
  runWith_perform (by rw [hpick.jobs]; rfl)

theorem record_runWith (hpick : Faultless pick) (write : ProvenanceWrite) :
    (perform (.provenance write)).runWith World.exec pick w = some (.ok (), w) :=
  runWith_perform (by rw [hpick.provenance]; rfl)

theorem updateHandle_runWith (hpick : Faultless pick) (hlookup : w.handles.lookup ws h = .ok row)
    (u : PayloadUpdate) :
    (perform (.handles (.updateHandle ws h u))).runWith World.exec pick w =
      some (.ok (row.updated w.clock u),
        { w with handles := w.handles.modify h (Handle.updated w.clock u) }) := by
  refine runWith_perform ?_
  rw [hpick.handles]
  simp only [World.exec, HandleTable.exec, hlookup]

theorem faultless_ok : Faultless fun _ => .ok :=
  ⟨rfl, fun _ => rfl, fun _ => rfl, fun _ => rfl, fun _ => rfl, fun _ => rfl⟩

variable (cfg job) in
theorem reenqueueReplay_runWith (identity : Option Token) (hpick : Faultless pick)
    (hlookup : w.handles.lookup ws h = .ok row) :
    ∃ answer w', (reenqueueReplay cfg ws h job identity).runWith World.exec pick w =
      some (.ok answer, w') ∧ Replays w h answer w' := by
  obtain ⟨hrow, hws⟩ := HandleTable.lookup_eq_ok_iff.1 hlookup
  let minted := (w.handles.mint w.clock ws .job { obsHandle := some h }).2
  let pending := Handle.updated w.clock { status := some .pending }
  let new : NewJob :=
    { jobHandle := ⟨.job, w.handles.next⟩, obsHandle := some h, provider := job.provider
      requestSpec := job.requestSpec, credentialEncrypted := storedCredential cfg identity }
  let w₂ : World := { w with handles := minted.modify h pending }
  let w₃ : World := { w₂ with jobs := (w.jobs.exec w.clock (.create new)).2 }
  let w₄ : World := { w₃ with queue := w.queue.enqueueJob w.clock .submitJob w.jobs.next none 0 }
  have hlookup' : minted.lookup ws h = .ok row := by
    rw [HandleTable.lookup_eq_ok_iff, HandleTable.row_mint, hrow]
    exact ⟨rfl, hws⟩
  have hmint : (perform (.handles (.putHandle ws .job { obsHandle := some h }))).runWith World.exec
      pick w = some (.ok (⟨.job, w.handles.next⟩ : HandleId), { w with handles := minted }) :=
    runWith_perform (by rw [hpick.handles]; rfl)
  have hupdate : (perform (.handles (.updateHandle ws h { status := some .pending }))).runWith
      World.exec pick { w with handles := minted } = some (.ok (pending row), w₂) :=
    updateHandle_runWith hpick hlookup' _
  have hcreate : (perform (.jobs (.create new))).runWith World.exec pick w₂ =
      some (.ok w.jobs.next, w₃) := runWith_perform (by rw [hpick.jobs]; rfl)
  have henqueue : (perform (.queue (.enqueueJob .submitJob w.jobs.next none 0))).runWith World.exec
      pick w₃ = some (.ok (), w₄) := runWith_perform (by rw [hpick.queue]; rfl)
  refine ⟨{ jobHandle := some ⟨.job, w.handles.next⟩, obsHandle := h, status := some .pending
            provider := some job.provider }, w₄, ?_, rfl, new.row w.clock w.jobs.next, rfl, rfl, rfl,
    rfl, _, List.mem_append_right _ List.mem_cons_self, rfl, rfl⟩
  unfold reenqueueReplay
  rw [runWith_bind hmint, runWith_bind hupdate, runWith_bind hcreate,
    runWith_bind (record_runWith hpick _), runWith_bind henqueue]
  rfl

/-- An expired handle that has a job can be recovered. -/
theorem recovers_of_expired {token identity : Option Token}
    (htoken : Admitted cfg w.clock token identity) (hrow : w.handles.row h = some row)
    (hevictable : h.evictable) (hexpired : row.payload.status = some .expired)
    (hjob : w.jobs.latest h = some job) : Recovers cfg w row.workspaceId h token := by
  obtain ⟨hparse, hkey⟩ := htoken
  have hlookup : w.handles.lookup row.workspaceId h = .ok row :=
    HandleTable.lookup_eq_ok_iff.2 ⟨hrow, rfl⟩
  obtain ⟨answer, w', hrun, hreplays⟩ := reenqueueReplay_runWith cfg job identity faultless_ok
    hlookup
  refine ⟨answer, w', ?_, hreplays⟩
  have hnow : (perform .now).runWith World.exec (fun _ => .ok) w = some (.ok w.clock, w) := rfl
  have hresolve : (resolveCached row.workspaceId h).runWith World.exec (fun _ => .ok) w =
      some (.ok (some row), w) := by
    unfold resolveCached
    have hget : (perform (.handles (.getHandle row.workspaceId h))).runWith World.exec
        (fun _ => .ok) w = some (.ok row, w) := by
      refine runWith_perform ?_
      simp only [World.exec, HandleTable.exec, hlookup]
    rw [runWith_bind (runWith_attempt hget)]
    rfl
  have hread : (perform (.jobs (.read (.getJobByObsHandle h)))).runWith World.exec (fun _ => .ok) w =
      some (.ok [job], w) := by
    rw [read_latest_runWith faultless_ok, hjob]
    rfl
  unfold rematerialize
  rw [runWith_bind hnow]
  simp only [hparse]
  rw [if_neg hkey, if_neg (not_not.2 hevictable), runWith_bind hresolve]
  dsimp only
  rw [runWith_bind hread, if_neg (not_not.2 hexpired)]
  show (reenqueueReplay cfg row.workspaceId h job identity >>= _).runWith _ _ w = _
  rw [runWith_bind hrun]
  rfl

end alone

/-! ### Along every run -/

/-- An `obs_` handle that has a job, is not ready, and whose jobs have all ended. -/
def Spent (w : World) (row : Handle) : Prop :=
  row ∈ w.handles.rows ∧ row.handle.type = .obs ∧ ¬ row.Ready ∧
    (∃ job ∈ w.jobs.rows, job.obsHandle = some row.handle) ∧
      ∀ job ∈ w.jobs.rows, job.obsHandle = some row.handle → job.state.Terminal

instance (w : World) (row : Handle) : Decidable (Spent w row) :=
  inferInstanceAs (Decidable (_ ∧ _))

/-- A spent handle can be recovered, unless a call has marked it pending and not created its
job. -/
theorem recovers_of_reach {cfg : Settings} {s : (service cfg).State}
    (hreach : Reach KeepsPursued initial s) {row : Handle} (hspent : Spent s.world row)
    (hfilling : ¬ Filling (handleNotes s) row.handle) {token identity : Option Token}
    (htoken : Admitted cfg s.world.clock token identity) :
    Recovers cfg s.world row.workspaceId row.handle token := by
  obtain ⟨hrun, hpursued⟩ := pendingPursued_of_reach hreach
  obtain ⟨hrow, hobs, hready, ⟨job, hjob, hjobObs⟩, hended⟩ := hspent
  have hlookup := hrun.numbered.row_eq hrow
  obtain ⟨last, hlast⟩ := JobTable.latest_of_mem hjob hjobObs
  refine recovers_of_expired htoken hlookup (by simp [HandleId.evictable, hobs]) ?_ hlast
  obtain ⟨status, hstatus⟩ := Option.isSome_iff_exists.1 (hrun.obsStatus row hrow hobs)
  cases status with
  | ready => exact absurd hstatus hready
  | expired => exact hstatus
  | pending =>
    have hpending : s.world.handles.status row.handle = some .pending := by
      unfold HandleTable.status
      rw [hlookup]
      exact hstatus
    rcases hpursued row.handle hpending job hjob hjobObs with hfill | ⟨other, hother, hobs', hlive, -⟩
    · exact absurd hfill hfilling
    · exact absurd (hended other hother hobs') hlive

theorem admitted_none (cfg : Settings) (now : Time) : Admitted cfg now none none :=
  ⟨rfl, fun h => by cases h.1⟩

/-- A result that was delivered and evicted. -/
theorem recovers_of_reach_evicted : ∃ (s : (service .oneKey).State) (row : Handle),
    Spent s.world row ∧ Recovers .oneKey s.world row.workspaceId row.handle none := by
  obtain ⟨s, hs, hp⟩ := exists_reach (P := KeepsPursued) (s := initial)
    (p := fun s => (∃ row ∈ s.world.handles.rows, Spent s.world row ∧
      ¬ Filling (handleNotes s) row.handle : Bool))
    (requested ++ delivered 1 0 ++ evicted 4) (by decide +kernel)
  obtain ⟨row, -, hspent, hfilling⟩ := of_decide_eq_true hp
  exact ⟨s, row, hspent, recovers_of_reach hs hspent hfilling (admitted_none _ _)⟩

/-- The replay of an evicted result fails: the handle stays pending, and `rematerialize` answers
that it is. -/
theorem not_recovers : ¬ ∀ (cfg : Settings) (s : (service cfg).State) (row : Handle)
    (token identity : Option Token), Reachable initial s → Quiescent s → Spent s.world row →
      Admitted cfg s.world.clock token identity →
        Recovers cfg s.world row.workspaceId row.handle token := by
  intro h
  obtain ⟨s, hs, hp⟩ := exists_reach (P := fun _ _ _ => True) (s := initial)
    (p := fun s => (Quiescent s ∧ ∃ row ∈ s.world.handles.rows, Spent s.world row ∧
      ¬ ((rematerialize .oneKey row.workspaceId row.handle none).runWith World.exec (fun _ => .ok)
        s.world).any fun out => out.1.toOption.any RematerializeAnswer.isReplayed : Bool))
    (requested ++ delivered 1 0 ++ evicted 4 ++
      call (.rematerialize 0 ⟨.obs, 0⟩ none) :: acts 5 (List.replicate 8 .ok) ++
      take (.fresh 3) ::
        acts 6 ([.ok, .capabilities {}, .fault (.other "unavailable")] ++ List.replicate 4 .ok))
    (by decide +kernel)
  obtain ⟨hquiet, row, -, hspent, hnone⟩ := of_decide_eq_true hp
  obtain ⟨answer, w', hrun, -⟩ := h .oneKey s row none none hs hquiet hspent (admitted_none _ _)
  rw [hrun] at hnone
  exact hnone rfl

end EarthdataMcp
