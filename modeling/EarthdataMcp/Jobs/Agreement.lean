import EarthdataMcp.Jobs.HandleRuns

/-!
# A handle and its latest job

What has become of a result is stored twice, as the status of its handle and as the state of its
latest job.  Every operation that changes both writes the handle first.

* `Agree`: the handle is ready exactly if its latest job is, and expired exactly if that is;
* `Busy`: a thread stands between its two writes;
* `InTurn`: writes that take their turn, and find the other copy as they expect it;
* `Coherent`: what a thread has begun and the copies it leaves meanwhile, kept by every change;
* `agree_of_reach`: in every run of such steps, every handle that is not busy agrees.
-/

namespace EarthdataMcp

open Concurrency Concurrency.Prog Concurrency.System

/-! ### Agreement -/

/-- The status of a handle and the state of its latest job say the same. -/
def Agree (status : Option HandleStatus) (latest : Option Job) : Prop :=
  (status = some .ready ↔ latest.map Job.state = some .ready) ∧
    (status = some .expired ↔ latest.map Job.state = some .expired)

instance (status : Option HandleStatus) (latest : Option Job) : Decidable (Agree status latest) :=
  inferInstanceAs (Decidable (_ ∧ _))

/-- The handle a thread stands between its two writes on. -/
def HandleNotes.holds (n : HandleNotes) : Option HandleId := n.work.map HandleWork.handle

/-- A thread stands between its two writes on the handle. -/
def Busy (ns : List HandleNotes) (h : HandleId) : Prop := ∃ n ∈ ns, n.holds = some h

instance (ns : List HandleNotes) (h : HandleId) : Decidable (Busy ns h) :=
  inferInstanceAs (Decidable (∃ n ∈ ns, _))

theorem HandleNotes.holds_of_work {n : HandleNotes} {work : HandleWork} (h : n.work = some work) :
    n.holds = some work.handle := by
  unfold holds
  rw [h]
  rfl

/-! ### The conditions -/

/-- A status is written to a handle that no thread holds; `ready` by the task of its latest job,
which is being materialized, and `expired` to a ready handle.  A job is created for a pending
handle. -/
def TakesTurn {cfg : Settings} (s : (service cfg).State) (i : ℕ) : Op → Prop
  | .handles (.updateHandle _ h u) =>
      (u.status.isSome → ¬ Busy (handleNotes s) h) ∧
      (u.status = some .ready → ∃ job ∈ s.world.jobs.latest h, job.state = .materializing ∧
        ∃ n ∈ (handleNotes s)[i]?, n.task = some job.jobId) ∧
      (u.status = some .expired → s.world.handles.status h = some .ready)
  | .jobs (.create new) => ∀ h ∈ new.obsHandle, s.world.handles.status h = some .pending
  | _ => True

instance {cfg : Settings} (s : (service cfg).State) (i : ℕ) :
    (o : Op) → Decidable (TakesTurn s i o)
  | .handles (.updateHandle _ _ _) =>
      inferInstanceAs (Decidable ((_ → _) ∧ (_ → ∃ job ∈ s.world.jobs.latest _, _ ∧ ∃ n ∈ _, _) ∧ _))
  | .jobs (.create new) => inferInstanceAs (Decidable (∀ h ∈ new.obsHandle, _))
  | .now | .jobs (.read _) | .jobs (.transact _ _) | .jobs (.commit _ _)
  | .handles (.getHandle _ _) | .handles (.findBySignature _ _) | .handles (.listHandles _ _)
  | .handles .selectEvictable | .handles (.putHandle _ _ _) | .handles (.insertUnique _ _ _)
  | .handles (.touchHandle _ _) | .storage _ | .queue _ | .provider _ | .planning _ | .access _
  | .provenance _ | .orphanSweepDue _ => instDecidableTrue

/-- No job fails or is cancelled while it is being delivered. -/
def DeliversWhole {cfg : Settings} (s s' : (service cfg).State) : Prop :=
  ∀ job ∈ s.world.jobs.rows, ∀ job' ∈ s'.world.jobs.rows, job'.jobId = job.jobId →
    ¬ job.state.Terminal → job'.Dead → ∀ h ∈ job.obsHandle, ¬ Delivering (handleNotes s) h job.jobId

instance {cfg : Settings} (s s' : (service cfg).State) : Decidable (DeliversWhole s s') :=
  inferInstanceAs (Decidable (∀ job ∈ s.world.jobs.rows, ∀ job' ∈ s'.world.jobs.rows, _))

/-- A step of a run whose writes take their turn. -/
def InTurn {cfg : Settings} (s : (service cfg).State) (l : (service cfg).Label)
    (s' : (service cfg).State) : Prop :=
  EachOp TakesTurn s l s' ∧ DeliversWhole s s'

instance {cfg : Settings} (s : (service cfg).State) (l : (service cfg).Label)
    (s' : (service cfg).State) : Decidable (InTurn s l s') :=
  inferInstanceAs (Decidable (_ ∧ _))

/-! ### What the copies are meanwhile -/

/-- What a thread that has begun something on a handle has left there. -/
def Midway (w : World) (n : HandleNotes) : HandleWork → Prop
  | .fill h => w.handles.status h = some .pending
  | .deliver h => w.handles.status h = some .ready ∧
      ∃ job, w.jobs.latest h = some job ∧ job.state = .materializing ∧ n.task = some job.jobId
  | .expire h => w.handles.status h = some .expired ∧
      ∃ job, w.jobs.latest h = some job ∧ job.state = .ready

/-- No two threads hold one handle; an `obs_` handle that is held is as its holder has left it, and
any other agrees. -/
structure Coherent (w : World) (ns : List HandleNotes) : Prop where
  exclusive : Exclusive HandleNotes.holds ns
  midway : ∀ n ∈ ns, ∀ work, n.work = some work → work.handle.type = .obs → Midway w n work
  agree : ∀ h, h.type = .obs → ¬ Busy ns h → Agree (w.handles.status h) (w.jobs.latest h)

/-- A job that is being materialized goes on, or is no longer live. -/
theorem JobState.Follows.of_materializing {t : JobState} (h : JobState.materializing.Follows t)
    (ht : ¬ t.Terminal) : t = .materializing := by
  rcases Relation.ReflTransGen.cases_head h with heq | ⟨u, hlegal, hrest⟩
  · exact heq.symm
  · have hu : u.Terminal := by
      revert hlegal
      cases u <;> decide
    exact absurd (JobState.Follows.terminal hrest hu) ht

section step

variable {w w' : World} {ns : List HandleNotes} {n n' m : HandleNotes} {i : ℕ} {h : HandleId}

theorem Midway.congr {work : HandleWork} (hm : Midway w m work)
    (hstatus : w'.handles.status work.handle = w.handles.status work.handle)
    (hlatest : w'.jobs.latest work.handle = w.jobs.latest work.handle) : Midway w' m work := by
  cases work <;> simp only [Midway, HandleWork.handle] at hm hstatus hlatest ⊢ <;>
    rw [hstatus] <;> first | exact hm | (rw [hlatest]; exact hm)

theorem Midway.of_task {work : HandleWork} (hm : Midway w n work) (htask : n'.task = n.task) :
    Midway w n' work := by
  cases work with
  | fill h => exact hm
  | deliver h =>
    obtain ⟨hready, job, hlatest, hstate, hown⟩ := hm
    exact ⟨hready, job, hlatest, hstate, htask.trans hown⟩
  | expire h => exact hm

/-- A live job leaves agreement as it is, unless it becomes ready or expired. -/
theorem agree_live {status : Option HandleStatus} {job job' : Job} (hlive : ¬ job.state.Terminal)
    (hready : job'.state ≠ .ready) (hexpired : job'.state ≠ .expired)
    (hagree : Agree status (some job)) : Agree status (some job') := by
  obtain ⟨h₁, h₂⟩ := hagree
  simp only [Option.map_some, Option.some.injEq] at h₁ h₂
  have hr : job.state ≠ .ready := fun h => hlive (h ▸ JobState.terminal_ready)
  have he : job.state ≠ .expired := fun h => hlive (h ▸ JobState.terminal_expired)
  refine ⟨?_, ?_⟩ <;> simp only [Option.map_some, Option.some.injEq]
  · exact iff_of_false (fun h => hr (h₁.1 h)) hready
  · exact iff_of_false (fun h => he (h₂.1 h)) hexpired

/-- A pending handle, or one that is not there, agrees with a job that is not there. -/
theorem agree_none (status : Option HandleStatus)
    (hstatus : status.getD .pending = .pending) : Agree status none := by
  constructor <;> constructor <;> intro heq
  · rw [heq] at hstatus
    cases hstatus
  · cases heq
  · rw [heq] at hstatus
    cases hstatus
  · cases heq

/-- A handle that no other thread holds after a step of this one. -/
theorem busy_set (n' : HandleNotes) (hi : ns[i]? = some n) (hbusy : Busy ns h) :
    Busy (ns.set i n') h ∨ n.holds = some h := by
  obtain ⟨m, hm, hholds⟩ := hbusy
  obtain ⟨k, hk⟩ := List.mem_iff_getElem?.1 hm
  by_cases hki : k = i
  · subst hki
    obtain rfl := Option.some.inj (hi.symm.trans hk)
    exact Or.inr hholds
  · refine Or.inl ⟨m, List.mem_iff_getElem?.2 ⟨k, ?_⟩, hholds⟩
    rw [List.getElem?_set_ne (Ne.symm hki)]
    exact hk

/-- The notes of a thread other than the one that took the step. -/
theorem mem_set_cases (hm : m ∈ ns.set i n') :
    m = n' ∨ ∃ k, k ≠ i ∧ ns[k]? = some m := by
  obtain ⟨k, hk⟩ := List.mem_iff_getElem?.1 hm
  rcases getElem?_set_cases hk with ⟨-, rfl⟩ | ⟨hne, hk'⟩
  · exact Or.inl rfl
  · exact Or.inr ⟨k, hne, hk'⟩

/-- Two threads do not hold the same handle. -/
theorem Coherent.other (hw : Coherent w ns) (hi : ns[i]? = some n) {k : ℕ} (hk : k ≠ i)
    (hkm : ns[k]? = some m) (hm : m.holds = some h) : n.holds ≠ some h :=
  fun hn => hk (hw.exclusive k i m n h hkm hi hm hn)

/-- Nothing that the invariant speaks of changes. -/
theorem Coherent.still (hw : Coherent w ns) (hi : ns[i]? = some n)
    (hstatus : ∀ h, w'.handles.status h = w.handles.status h) (hjobs : w'.jobs = w.jobs)
    (hwork : n'.work = n.work) (hle : n.Le n') : Coherent w' (ns.set i n') := by
  have hholds : n'.holds = n.holds := by
    unfold HandleNotes.holds
    rw [hwork]
  refine ⟨hw.exclusive.set hi fun k hk => Or.inl (hholds ▸ hk), fun m hm work hmwork htype => ?_,
    fun h htype hnot => ?_⟩
  · have hmid : Midway w m work := by
      rcases mem_set_cases hm with rfl | ⟨k, -, hk⟩
      · exact (hw.midway n (List.mem_of_getElem? hi) work (hwork ▸ hmwork) htype).of_task hle.task
      · exact hw.midway m (List.mem_of_getElem? hk) work hmwork htype
    exact hmid.congr (hstatus _) (by rw [hjobs])
  · rw [hstatus, hjobs]
    refine hw.agree h htype fun hbusy => hnot ?_
    rcases busy_set n' hi hbusy with hb | hn
    · exact hb
    · exact ⟨n', List.mem_set (List.getElem?_eq_some_iff.1 hi).1 _, hholds.trans hn⟩

/-- A status is written to a handle that no thread holds. -/
theorem Coherent.mark (hw : Coherent w ns) (hi : ns[i]? = some n) {status : HandleStatus}
    (hidle : n.work = none) (hnot : ¬ Busy ns h)
    (hready : status = .ready → ∃ job, w.jobs.latest h = some job ∧ job.state = .materializing ∧
      n'.task = some job.jobId)
    (hexpired : status = .expired → w.handles.status h = some .ready)
    (hstatus : ∀ h', w'.handles.status h' = if h' = h then some status else w.handles.status h')
    (hjobs : w'.jobs = w.jobs) (hwork : n'.work = some (HandleNotes.begun h status)) :
    Coherent w' (ns.set i n') := by
  have hholds : n'.holds = some h := by
    rw [HandleNotes.holds_of_work hwork]
    cases status <;> rfl
  have hne {m : HandleNotes} {work : HandleWork} {k : ℕ} (hk : ns[k]? = some m)
      (hmwork : m.work = some work) : work.handle ≠ h := by
    rintro rfl
    exact hnot ⟨m, List.mem_of_getElem? hk, HandleNotes.holds_of_work hmwork⟩
  refine ⟨hw.exclusive.set hi fun k hk => Or.inr fun m hm hmk => ?_, fun m hm work hmwork htype => ?_,
    fun h' htype' hnot' => ?_⟩
  · obtain rfl := Option.some.inj (hholds.symm.trans hk)
    exact hnot ⟨m, hm, hmk⟩
  · rcases mem_set_cases hm with rfl | ⟨k, -, hk⟩
    · rw [hwork] at hmwork
      obtain rfl := Option.some.inj hmwork
      have hself : w'.handles.status h = some status := by rw [hstatus, if_pos rfl]
      cases status with
      | pending => exact hself
      | ready =>
        refine ⟨hself, ?_⟩
        rw [hjobs]
        exact hready rfl
      | expired =>
        refine ⟨hself, ?_⟩
        rw [hjobs]
        obtain ⟨job, hlatest, hstate⟩ := Option.map_eq_some_iff.1
          ((hw.agree h htype hnot).1.1 (hexpired rfl))
        exact ⟨job, hlatest, hstate⟩
    · refine (hw.midway m (List.mem_of_getElem? hk) work hmwork htype).congr ?_ (by rw [hjobs])
      rw [hstatus, if_neg (hne hk hmwork)]
  · have hh' : h' ≠ h := by
      rintro rfl
      exact hnot' ⟨n', List.mem_set (List.getElem?_eq_some_iff.1 hi).1 _, hholds⟩
    rw [hstatus, if_neg hh', hjobs]
    refine hw.agree h' htype' fun hbusy => hnot' ?_
    rcases busy_set n' hi hbusy with hb | hn
    · exact hb
    · unfold HandleNotes.holds at hn
      rw [hidle] at hn
      cases hn

/-- A handle is minted, on which no thread stands and which has no job. -/
theorem Coherent.mint (hw : Coherent w ns) (hrun : HandleRun w ns) (hi : ns[i]? = some n)
    (hrow : w.handles.row h = none) (hobs : h.type = .obs → w'.handles.status h = some .pending)
    (hstatus : ∀ h', h' ≠ h → w'.handles.status h' = w.handles.status h') (hjobs : w'.jobs = w.jobs)
    (hwork : n'.work = n.work) (hle : n.Le n') : Coherent w' (ns.set i n') := by
  have hne {m : HandleNotes} (hm : m ∈ ns) {work : HandleWork} (hmwork : m.work = some work) :
      work.handle ≠ h := by
    rintro rfl
    have hsome := hrun.worked m hm work hmwork
    rw [hrow] at hsome
    cases hsome
  have hholds : n'.holds = n.holds := by
    unfold HandleNotes.holds
    rw [hwork]
  refine ⟨hw.exclusive.set hi fun k hk => Or.inl (hholds ▸ hk), fun m hm work hmwork htype => ?_,
    fun h' htype hnot => ?_⟩
  · rcases mem_set_cases hm with rfl | ⟨k, -, hk⟩
    · have hn := List.mem_of_getElem? hi
      exact ((hw.midway n hn work (hwork ▸ hmwork) htype).of_task hle.task).congr
        (hstatus _ (hne hn (hwork ▸ hmwork))) (by rw [hjobs])
    · have hm' := List.mem_of_getElem? hk
      exact (hw.midway m hm' work hmwork htype).congr (hstatus _ (hne hm' hmwork)) (by rw [hjobs])
  · by_cases hh : h' = h
    · subst hh
      have hnone : w.jobs.latest h' = none := by
        cases hlatest : w.jobs.latest h' with
        | none => rfl
        | some job =>
          obtain ⟨hjob, hjobObs⟩ := JobTable.mem_of_latest hlatest
          have hsome := hrun.placed job hjob h' hjobObs
          rw [hrow] at hsome
          cases hsome
      rw [hobs htype, hjobs, hnone]
      exact agree_none _ rfl
    · rw [hstatus h' hh, hjobs]
      refine hw.agree h' htype fun hbusy => hnot ?_
      rcases busy_set n' hi hbusy with hb | hn
      · exact hb
      · exact ⟨n', List.mem_set (List.getElem?_eq_some_iff.1 hi).1 _, hholds.trans hn⟩

/-- A job is created for a pending handle. -/
theorem Coherent.create (hw : Coherent w ns) (hi : ns[i]? = some n) {new : NewJob}
    (hnew : new.obsHandle = some h) (hpending : w.handles.status h = some .pending)
    (hhandles : w'.handles = w.handles) (hjobs : w'.jobs = (w.jobs.exec w.clock (.create new)).2)
    (hwork : n'.work = HandleNotes.filled new n.work) (hle : n.Le n') :
    Coherent w' (ns.set i n') := by
  have hlatest (h' : HandleId) : w'.jobs.latest h' =
      if h' = h then some (new.row w.clock w.jobs.next) else w.jobs.latest h' := by
    rw [hjobs]
    refine (JobTable.latest_create new w.clock w.jobs.next _).trans ?_
    rw [hnew]
    by_cases hh : h' = h
    · rw [if_pos hh, if_pos (by rw [hh])]
    · rw [if_neg hh, if_neg fun heq => hh (Option.some.inj heq).symm]
  -- the thread keeps what it has begun, unless this is the job that was to be created
  have hkeeps : n'.work = n.work ∨ n.work = some (.fill h) ∧ n'.work = none := by
    rw [hwork]
    unfold HandleNotes.filled
    split
    · rename_i h' heq
      split_ifs with hfill
      · obtain rfl := Option.some.inj (hnew.symm.trans hfill)
        exact Or.inr ⟨heq, rfl⟩
      · exact Or.inl heq.symm
    · exact Or.inl rfl
  have hmidway {m : HandleNotes} {work : HandleWork} (hmid : Midway w m work) : Midway w' m work := by
    cases work with
    | fill h' =>
      show w'.handles.status h' = _
      rw [hhandles]
      exact hmid
    | deliver h' =>
      have hne : h' ≠ h := by
        rintro rfl
        rw [hmid.1] at hpending
        cases hpending
      exact hmid.congr (by rw [hhandles]) (by rw [hlatest]; exact if_neg hne)
    | expire h' =>
      have hne : h' ≠ h := by
        rintro rfl
        rw [hmid.1] at hpending
        cases hpending
      exact hmid.congr (by rw [hhandles]) (by rw [hlatest]; exact if_neg hne)
  refine ⟨hw.exclusive.set hi fun k hk => Or.inl ?_, fun m hm work hmwork htype => ?_,
    fun h' htype hnot => ?_⟩
  · unfold HandleNotes.holds at hk ⊢
    rcases hkeeps with heq | ⟨-, heq⟩
    · rwa [heq] at hk
    · rw [heq] at hk
      cases hk
  · rcases mem_set_cases hm with rfl | ⟨k, -, hk⟩
    · rcases hkeeps with heq | ⟨-, heq⟩
      · exact hmidway
          ((hw.midway n (List.mem_of_getElem? hi) work (heq ▸ hmwork) htype).of_task hle.task)
      · rw [heq] at hmwork
        cases hmwork
    · exact hmidway (hw.midway m (List.mem_of_getElem? hk) work hmwork htype)
  · rw [hhandles, hlatest]
    split_ifs with hh
    · rw [hh, hpending]
      constructor <;> constructor <;> intro heq <;> cases heq
    · refine hw.agree h' htype fun hbusy => hnot ?_
      rcases busy_set n' hi hbusy with hb | hn
      · exact hb
      · refine ⟨n', List.mem_set (List.getElem?_eq_some_iff.1 hi).1 _, ?_⟩
        unfold HandleNotes.holds at hn ⊢
        rcases hkeeps with heq | ⟨heq, -⟩
        · rwa [heq]
        · rw [heq] at hn
          exact absurd (Option.some.inj hn).symm hh

/-- A transaction completes what its thread has begun. -/
theorem HandleNotes.Transacts.completes {q : JobQuery} {edit : Edit} {job : Job}
    (hmay : n.Transacts q edit) (hrun : HandleRun w ns) {work : HandleWork}
    (hwork : n.work = some work) (hmid : Midway w n work)
    (hok : firstError w.clock edit (q.select w.jobs.rows) = none)
    (hlatest : w.jobs.latest work.handle = some job) :
    Agree (w.handles.status work.handle)
      (some (writeRow w.clock edit (q.select w.jobs.rows) job)) := by
  obtain ⟨hjob, hobs⟩ := JobTable.mem_of_latest hlatest
  rcases hmay with ⟨hnone, -⟩ | ⟨j, extra, rfl, rfl, ⟨hnone, -⟩ | ⟨h, hdeliver, htask, -⟩⟩ |
    ⟨h, hexpire, rfl, rfl⟩
  · rw [hwork] at hnone
    cases hnone
  · rw [hwork] at hnone
    cases hnone
  · -- the task's own job, which is the latest one
    rw [hwork] at hdeliver
    obtain rfl := Option.some.inj hdeliver
    obtain ⟨hready, job', hlatest', -, htask'⟩ := hmid
    obtain rfl := Option.some.inj (hlatest.symm.trans hlatest')
    obtain rfl := Option.some.inj (htask.symm.trans htask')
    obtain ⟨job'', hok', heq⟩ := hrun.indexed.writeRow_getJob hjob hok
    obtain ⟨-, rfl⟩ := setState_eq_ok.1 (enterState_eq_ok hok')
    have hstate : (writeRow w.clock (enterState .ready extra)
        ((JobQuery.getJob job.jobId).select w.jobs.rows) job).state = .ready := by
      rw [heq, Job.stamp_state, Job.enter_state]
    show Agree (w.handles.status h) _
    rw [hready]
    unfold Agree
    rw [Option.map_some, hstate]
    decide
  · rw [hwork] at hexpire
    obtain rfl := Option.some.inj hexpire
    obtain ⟨hexpired, job', hlatest', hready⟩ := hmid
    obtain rfl := Option.some.inj (hlatest.symm.trans hlatest')
    have hselect : (JobQuery.getJobByObsHandle h).select w.jobs.rows = [job] := by
      rw [JobTable.latest_eq, hlatest']
      rfl
    obtain ⟨job'', hok', heq⟩ := JobTable.writeRow_of_select hselect hok
    unfold expireReady at hok'
    rw [if_pos hready] at hok'
    obtain ⟨-, rfl⟩ := setState_eq_ok.1 (enterState_eq_ok hok')
    have hstate : (writeRow w.clock expireReady
        ((JobQuery.getJobByObsHandle h).select w.jobs.rows) job).state = .expired := by
      rw [heq, Job.stamp_state, Job.enter_state]
    show Agree (w.handles.status h) _
    rw [hexpired]
    unfold Agree
    rw [Option.map_some, hstate]
    decide

/-- Jobs are written: those of held handles by the holder only. -/
theorem Coherent.transact (hw : Coherent w ns) (hrun : HandleRun w ns) (hi : ns[i]? = some n)
    {q : JobQuery} {edit : Edit} (hmay : n.Transacts q edit) (hhandles : w'.handles = w.handles)
    (hok : firstError w.clock edit (q.select w.jobs.rows) = none)
    (hjobs : w'.jobs =
      { w.jobs with rows := w.jobs.rows.map (writeRow w.clock edit (q.select w.jobs.rows)) })
    (hwork : n'.work = HandleNotes.completed n.work)
    (hdies : ∀ job ∈ w.jobs.rows, ∀ h, job.obsHandle = some h → ¬ job.state.Terminal →
      (writeRow w.clock edit (q.select w.jobs.rows) job).Dead → ¬ Delivering ns h job.jobId) :
    Coherent w' (ns.set i n') := by
  have hn := List.mem_of_getElem? hi
  have hkeeps := HandleNotes.keeps_of_mayTransact hmay
  have hmoves (job : Job) := (hkeeps.writeRow w.clock (q.select w.jobs.rows) job).moves
  have hlatest (h : HandleId) : w'.jobs.latest h =
      (w.jobs.latest h).map (writeRow w.clock edit (q.select w.jobs.rows)) := by
    rw [hjobs]
    exact JobTable.latest_map fun job => (hmoves job).obsHandle
  have hfill {work : HandleWork} (hw' : n'.work = some work) : ∃ h, n.work = some (.fill h) ∧
      work = .fill h := by
    rw [hwork] at hw'
    unfold HandleNotes.completed at hw'
    split at hw'
    · rename_i h heq
      exact ⟨h, heq, (Option.some.inj hw').symm⟩
    · cases hw'
  refine ⟨hw.exclusive.set hi fun k hk => Or.inl ?_, fun m hm work hmwork htype => ?_,
    fun h htype hnot => ?_⟩
  · obtain ⟨work, hw', rfl⟩ := Option.map_eq_some_iff.1 hk
    obtain ⟨h, heq, rfl⟩ := hfill hw'
    exact HandleNotes.holds_of_work heq
  · rcases mem_set_cases hm with rfl | ⟨k, hki, hk⟩
    · obtain ⟨h, heq, rfl⟩ := hfill hmwork
      show w'.handles.status h = _
      rw [hhandles]
      exact hw.midway n hn _ heq htype
    · have hm' := List.mem_of_getElem? hk
      have hother := hw.other hi hki hk (HandleNotes.holds_of_work hmwork)
      have hmid := hw.midway m hm' work hmwork htype
      cases work with
      | fill h =>
        show w'.handles.status h = _
        rw [hhandles]
        exact hmid
      | deliver h =>
        obtain ⟨hready, job, hlast, hstate, htask⟩ := hmid
        obtain ⟨hjob, hobs⟩ := JobTable.mem_of_latest hlast
        refine ⟨by rw [hhandles]; exact hready, _, by rw [hlatest, hlast]; rfl, ?_,
          htask.trans (congrArg some (hmoves job).jobId.symm)⟩
        cases hrun.written hn hmay hjob with
        | same heq => exact heq.trans hstate
        | moves _ hlive' =>
          have hfollows := (hmoves job).follows
          rw [hstate] at hfollows
          exact hfollows.of_materializing hlive'
        | dies hlive hdead =>
          exact absurd ⟨m, hm', hmwork, htask⟩ (hdies job hjob h hobs hlive hdead)
        | delivered _ _ hby =>
          exact absurd (HandleNotes.holds_of_work (hby h hobs).1) hother
        | expired _ hexp _ _ _ =>
          rw [hstate] at hexp
          cases hexp
      | expire h =>
        obtain ⟨hexpired, job, hlast, hstate⟩ := hmid
        obtain ⟨hjob, hobs⟩ := JobTable.mem_of_latest hlast
        refine ⟨by rw [hhandles]; exact hexpired, _, by rw [hlatest, hlast]; rfl, ?_⟩
        have hended : job.state.Terminal := hstate ▸ JobState.terminal_ready
        cases hrun.written hn hmay hjob with
        | same heq => exact heq.trans hstate
        | moves hlive _ => exact absurd hended hlive
        | dies hlive _ => exact absurd hended hlive
        | delivered hmat _ _ =>
          rw [hstate] at hmat
          cases hmat
        | expired h' _ _ hby hlast' =>
          obtain rfl := Option.some.inj (hobs.symm.trans (JobTable.mem_of_latest hlast').2)
          exact absurd (HandleNotes.holds_of_work hby) hother
  · rw [hhandles, hlatest]
    by_cases hholds : n.holds = some h
    · obtain ⟨work, hnwork, rfl⟩ := Option.map_eq_some_iff.1 hholds
      have hmid := hw.midway n hn work hnwork htype
      cases hlast : w.jobs.latest work.handle with
      | some job => exact hmay.completes hrun hnwork hmid hok hlast
      | none =>
        cases work with
        | fill h =>
          show Agree (w.handles.status h) _
          rw [show w.handles.status h = _ from hmid]
          exact agree_none _ rfl
        | deliver h =>
          obtain ⟨-, job, hlast', -⟩ := hmid
          cases hlast.symm.trans hlast'
        | expire h =>
          obtain ⟨-, job, hlast', -⟩ := hmid
          cases hlast.symm.trans hlast'
    · have hagree := hw.agree h htype fun hbusy => by
        rcases busy_set n' hi hbusy with hb | hb
        · exact hnot hb
        · exact hholds hb
      cases hlast : w.jobs.latest h with
      | none =>
        rw [hlast] at hagree
        exact hagree
      | some job =>
        obtain ⟨hjob, hobs⟩ := JobTable.mem_of_latest hlast
        rw [hlast] at hagree
        cases hrun.written hn hmay hjob with
        | same heq =>
          unfold Agree at hagree ⊢
          rw [Option.map_some, Option.map_some, heq]
          exact hagree
        | moves hlive hlive' =>
          exact agree_live hlive (fun heq => hlive' (heq ▸ JobState.terminal_ready))
            (fun heq => hlive' (heq ▸ JobState.terminal_expired)) hagree
        | dies hlive hdead =>
          refine agree_live hlive (fun heq => ?_) (fun heq => ?_) hagree <;>
            rcases hdead with hd | hd <;> cases heq.symm.trans hd
        | delivered _ _ hby =>
          exact absurd (HandleNotes.holds_of_work (hby h hobs).1) hholds
        | expired h' _ _ hby hlast' =>
          obtain rfl := Option.some.inj (hobs.symm.trans (JobTable.mem_of_latest hlast').2)
          exact absurd (HandleNotes.holds_of_work hby) hholds

end step

/-! ### Along every run -/

section runs

variable {cfg : Settings}

/-- Along every run whose writes take their turn, the copies are coherent. -/
theorem coherent_of_reach {s : (service cfg).State} (h : Reach InTurn initial s) :
    HandleRun s.world (handleNotes s) ∧ Coherent s.world (handleNotes s) := by
  refine reach_handles ⟨.nil, fun _ hm => (by cases hm), fun _ _ _ => agree_none _ rfl⟩ ?_ ?_ h
  · intro s s' i c n n' o hrun hw hi hop hchange hle hset ⟨hturn, hwhole⟩
    have hturn : TakesTurn s i o := hturn o hop
    rw [hset]
    cases hchange with
    | mark status hu hwrites hrow hstatus hjobs hwork =>
      obtain ⟨hnot, hready, hexpired⟩ := hturn
      refine hw.mark hi hwrites.idle (hnot (by rw [hu]; rfl)) (fun heq => ?_)
        (fun heq => hexpired (heq ▸ hu)) hstatus hjobs hwork
      obtain ⟨job, hlatest, hmat, m, hm, htask⟩ := hready (heq ▸ hu)
      obtain rfl := Option.some.inj (hi.symm.trans hm)
      exact ⟨job, hlatest, hmat, hle.task.trans htask⟩
    | mint h hrow hobs hstatus hjobs hwork =>
      exact hw.mint hrun hi hrow hobs hstatus hjobs hwork hle
    | create new hcreates hhandles hjobs hwork =>
      obtain ⟨h, hnew, -⟩ := hcreates
      exact hw.create hi hnew (hturn h hnew) hhandles hjobs hwork hle
    | transact q edit hmay hhandles hok hjobs hwork =>
      refine hw.transact hrun hi hmay hhandles hok hjobs hwork fun job hjob h hobs hlive hdead => ?_
      refine hwhole job hjob _ ?_ ?_ hlive hdead h hobs
      · rw [hjobs]
        exact List.mem_map_of_mem hjob
      · exact ((HandleNotes.keeps_of_mayTransact hmay).writeRow _ _ job).moves.jobId
    | still hstatus hjobs hwork => exact hw.still hi hstatus hjobs hwork hle
  · intro w w' ns gs hw hjobs hhandles
    have hfresh (u : HandleNotes) (hu : u ∈ gs.map HandleNotes.start) : u.work = none := by
      obtain ⟨g, -, rfl⟩ := List.mem_map.1 hu
      exact HandleNotes.start_work g
    refine ⟨hw.exclusive.append fun u hu => ?_, fun m hm work hmwork htype => ?_,
      fun h htype hnot => ?_⟩
    · unfold HandleNotes.holds
      rw [hfresh u hu]
      rfl
    · rcases List.mem_append.1 hm with hm | hm
      · exact (hw.midway m hm work hmwork htype).congr (by rw [hhandles]) (by rw [hjobs])
      · rw [hfresh m hm] at hmwork
        cases hmwork
    · rw [hhandles, hjobs]
      refine hw.agree h htype fun ⟨m, hm, hholds⟩ => hnot ⟨m, List.mem_append_left _ hm, hholds⟩

/-- An `obs_` handle agrees with its latest job, unless a thread stands between its two writes. -/
theorem agree_of_reach {s : (service cfg).State} (hreach : Reach InTurn initial s) {row : Handle}
    (hrow : row ∈ s.world.handles.rows) (hobs : row.handle.type = .obs)
    (hbusy : ¬ Busy (handleNotes s) row.handle) :
    Agree row.payload.status (s.world.jobs.latest row.handle) := by
  obtain ⟨hrun, hw⟩ := coherent_of_reach hreach
  have hstatus : s.world.handles.status row.handle = row.payload.status := by
    unfold HandleTable.status
    rw [hrun.numbered.row_eq hrow]
    rfl
  rw [← hstatus]
  exact hw.agree row.handle hobs hbusy

end runs

/-- A result that was delivered and evicted. -/
theorem agree_of_reach_evicted : ∃ (s : (service .oneKey).State) (row : Handle),
    row ∈ s.world.handles.rows ∧ row.payload.status = some .expired ∧
      Agree row.payload.status (s.world.jobs.latest row.handle) := by
  obtain ⟨s, hs, hp⟩ := exists_reach (P := InTurn) (s := initial)
    (p := fun s => (∃ row ∈ s.world.handles.rows, row.handle.type = .obs ∧
      row.payload.status = some .expired ∧ ¬ Busy (handleNotes s) row.handle : Bool))
    (requested ++ delivered 1 0 ++ evicted 4) (by decide +kernel)
  obtain ⟨row, hrow, hobs, hexpired, hbusy⟩ := of_decide_eq_true hp
  exact ⟨s, row, hrow, hexpired, agree_of_reach hs hrow hobs hbusy⟩

/-- A sweep evicts the result between the two writes of its materialization: the handle ends
expired, and its job ready. -/
theorem not_agree : ¬ ∀ (cfg : Settings) (s : (service cfg).State) (row : Handle),
    Reachable initial s → Quiescent s → row ∈ s.world.handles.rows → row.handle.type = .obs →
      Agree row.payload.status (s.world.jobs.latest row.handle) := by
  intro h
  obtain ⟨s, hs, hp⟩ := exists_reach (P := fun _ _ _ => True) (s := initial)
    (p := fun s => (Quiescent s ∧ ∃ row ∈ s.world.handles.rows, row.handle.type = .obs ∧
      ¬ Agree row.payload.status (s.world.jobs.latest row.handle) : Bool))
    (requested ++
      take (.fresh 0) ::
        acts 1 ([.ok, .capabilities {}, .submitted "a"] ++ List.replicate 4 .ok) ++
      take (.fresh 1) :: acts 2 ([.ok, .capabilities {}] ++ List.replicate 4 .ok) ++
      take (.fresh 2) ::
        acts 3 [.ok, .capabilities {}, .fetched (resultNamed "out"),
          .ok, .ok, .ok] ++
      call (sweepUnder 0) :: acts 4 (List.replicate 13 .ok) ++ acts 3 (List.replicate 6 .ok))
    (by decide +kernel)
  obtain ⟨hquiet, row, hrow, hobs, hnot⟩ := of_decide_eq_true hp
  exact hnot (h .oneKey s row hs hquiet hrow hobs)

end EarthdataMcp
