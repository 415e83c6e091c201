import EarthdataMcp.Jobs.ReadCommitted

/-!
# The committed states of a row

Under READ COMMITTED the guard of a change of state has seen the row as it was read.  The
states committed to a row still follow the table of transitions along every run in which no
commit is overtaken; one that is can bring a cancelled job back to life.

* `Overtaken`: a commit is about to move a row that is no longer in the state it was read in;
* `hops_of_step`: any other step moves the state of each row by one hop;
* `Job.CommittedBefore`: what the table of transitions says of two states of one row;
* `committedInOrder_of_reach`, and the run in which a poll revives a cancelled job.
-/

namespace EarthdataMcp

open Concurrency Concurrency.System

/-! ### Overtaken commits -/

/-- Some row the commit moves is no longer in the state in which it was read. -/
def Overtaken (now : Time) (t : JobTable) (rows : List Job) (edit : Edit) : Prop :=
  ∃ read ∈ rows, (edit.movesTo now read).isSome ∧
    ∃ job ∈ t.rows, job.jobId = read.jobId ∧ job.state ≠ read.state

instance (now : Time) (t : JobTable) (rows : List Job) (edit : Edit) :
    Decidable (Overtaken now t rows edit) :=
  inferInstanceAs (Decidable (∃ read ∈ rows, _ ∧ ∃ job ∈ t.rows, _))

/-- The operation is not an overtaken commit. -/
def World.Fresh (w : World) : Op → Prop
  | .jobs (.commit rows edit) => ¬ Overtaken w.clock w.jobs rows edit
  | _ => True

instance (w : World) : (o : Op) → Decidable (w.Fresh o)
  | .jobs (.commit _ _) => inferInstanceAs (Decidable (¬ _))
  | .now | .jobs (.read _) | .jobs (.transact _ _) | .jobs (.create _) | .handles _ | .storage _
  | .queue _ | .provider _ | .planning _ | .access _ | .provenance _ | .orphanSweepDue _ =>
    instDecidableTrue

/-! ### Rows move forward -/

/-- Every row of `t` is still there in `t'`, in a state that is related to the one it was in. -/
def JobTable.Moved (R : JobState → JobState → Prop) (t t' : JobTable) : Prop :=
  ∀ (i : ℕ) (job : Job), t.rows[i]? = some job →
    ∃ job', t'.rows[i]? = some job' ∧ job'.jobId = job.jobId ∧ R job.state job'.state

namespace JobTable.Moved

variable {R Q : JobState → JobState → Prop} {t u v : JobTable}

theorem refl (hR : ∀ s, R s s) (t : JobTable) : t.Moved R t :=
  fun _ job h => ⟨job, h, rfl, hR job.state⟩

theorem trans (hR : ∀ {s s' s''}, R s s' → R s' s'' → R s s'') (h : t.Moved R u)
    (h' : u.Moved R v) : t.Moved R v := by
  intro i job hi
  obtain ⟨job', hi', hid, hf⟩ := h i job hi
  obtain ⟨job'', hi'', hid', hf'⟩ := h' i job' hi'
  exact ⟨job'', hi'', hid'.trans hid, hR hf hf'⟩

theorem mono (hRQ : ∀ {s s'}, R s s' → Q s s') (h : t.Moved R u) : t.Moved Q u := by
  intro i job hi
  obtain ⟨job', hi', hid, hf⟩ := h i job hi
  exact ⟨job', hi', hid, hRQ hf⟩

end JobTable.Moved

/-- A commit that is not overtaken moves the state of a row by one hop. -/
theorem commitRow_hops {now : Time} {t : JobTable} {rows : List Job} {edit : Edit}
    (hedit : edit.Hops) (hfresh : ¬ Overtaken now t rows edit) {job : Job}
    (hjob : job ∈ t.rows) : job.state.Hops (commitRow now edit rows job).state := by
  rcases commitRow_cases now edit rows job with h | ⟨read, hread, new, hid, hnew, h⟩
  · rw [h]
    exact Or.inl rfl
  · rw [h, mergeRow_state, mergeColumn]
    split_ifs with hstate
    · exact Or.inl rfl
    · have hmoves : edit.movesTo now read = some new.state := edit.movesTo_eq hnew hstate
      have hsame : job.state = read.state := by
        by_contra hne
        exact hfresh ⟨read, hread, by rw [hmoves]; rfl, job, hjob, hid.symm, hne⟩
      rw [hsame]
      exact hedit now read new hnew

theorem JobTable.exec_hops {now : Time} {t : JobTable} {o : JobOp} (ho : Op.Hops (.jobs o))
    (hsplit : ∀ q edit, o ≠ .transact q edit)
    (hfresh : ∀ rows edit, o = .commit rows edit → ¬ Overtaken now t rows edit) :
    t.Moved JobState.Hops (t.exec now o).2 := by
  cases o with
  | read q => exact .refl (fun _ => Or.inl rfl) t
  | transact q edit => exact absurd rfl (hsplit q edit)
  | commit rows edit =>
    simp only [JobTable.exec]
    split
    · exact .refl (fun _ => Or.inl rfl) t
    · intro i job hi
      exact ⟨commitRow now edit rows job, by simp [hi], commitRow_jobId now edit rows job,
        commitRow_hops ho (hfresh rows edit rfl) (List.mem_of_getElem? hi)⟩
  | create new =>
    intro i job hi
    refine ⟨job, ?_, rfl, Or.inl rfl⟩
    show (t.rows ++ [new.row now t.next])[i]? = some job
    rw [List.getElem?_append_left (List.getElem?_eq_some_iff.1 hi).1]
    exact hi

/-! ### Runs -/

/-- No step of the run is an overtaken commit. -/
abbrev NeverOvertaken {cfg : Settings} :
    (readCommitted cfg).State → (readCommitted cfg).Label → (readCommitted cfg).State → Prop :=
  EachOp fun s _ o => World.Fresh s.world o

/-- Whatever the steps, the threads perform opened operations only. -/
theorem readCommitted_opened {cfg : Settings} {s : (readCommitted cfg).State}
    (hs : Reachable initial s) : AllOnly Op.Opened s :=
  Reach.allOnly (readCommitted_only cfg) hs fun _ h => absurd h List.not_mem_nil

/-- In a reachable state a step that is not an overtaken commit moves each row by one hop. -/
theorem hops_of_step {cfg : Settings} {s t : (readCommitted cfg).State}
    {l : (readCommitted cfg).Label} (hs : Reachable initial s) (hstep : step s l = some t)
    (hl : NeverOvertaken s l t) : s.world.jobs.Moved JobState.Hops t.world.jobs := by
  cases l with
  | act i c =>
    obtain ⟨th, o, k, a, w, hth, hr, he, rfl⟩ := step_act_eq_some.1 hstep
    show s.world.jobs.Moved JobState.Hops w.jobs
    have hopened : o.Opened := (readCommitted_opened hs).allowed hth hr
    have hfresh : s.world.Fresh o := hl o (nextOp_eq hth hr)
    by_cases hj : ∃ jo, o = .jobs jo
    · obtain ⟨jo, rfl⟩ := hj
      rcases World.exec_jobs he with ⟨-, -, rfl⟩ | ⟨e, -, rfl⟩
      · refine JobTable.exec_hops hopened.hops
          (fun q edit h => hopened.not_transact q edit (congrArg _ h)) ?_
        rintro rows edit rfl
        exact hfresh
      · exact .refl (fun _ => Or.inl rfl) _
    · rw [World.exec_jobs_eq_self he (not_exists.1 hj)]
      exact .refl (fun _ => Or.inl rfl) _
  | env e =>
    obtain ⟨w, gs, he, rfl⟩ := step_env_eq_some.1 hstep
    show s.world.jobs.Moved JobState.Hops w.jobs
    rw [show w.jobs = s.world.jobs from EnvStep.exec_jobs he]
    exact .refl (fun _ => Or.inl rfl) _

/-- From any reachable state on, as long as no commit is overtaken, rows move forward. -/
theorem follows_of_reach {cfg : Settings} {s t : (readCommitted cfg).State}
    (hs : Reachable initial s) (ht : Reach NeverOvertaken s t) :
    s.world.jobs.Moved JobState.Follows t.world.jobs := by
  induction ht with
  | refl => exact .refl .refl _
  | tail l hreach hstep hl ih =>
    have hhops := hops_of_step (hs.trans (hreach.mono fun _ _ _ _ => trivial)) hstep hl
    exact ih.trans .trans (hhops.mono JobState.Hops.follows)

/-! ### What is committed to a row -/

/-- What is committed later to a row follows the table of transitions: the same row, in a
state reached by legal edges; `cancelled`, `failed` and `expired` are kept, and `ready` is
followed by `expired` only. -/
structure Job.CommittedBefore (job job' : Job) : Prop where
  jobId : job'.jobId = job.jobId
  follows : job.state.Follows job'.state
  ended : job.state = .cancelled ∨ job.state = .failed ∨ job.state = .expired →
    job'.state = job.state
  ready : job.state = .ready → job'.state = .ready ∨ job'.state = .expired

theorem Job.CommittedBefore.of_follows {job job' : Job} (hid : job'.jobId = job.jobId)
    (h : job.state.Follows job'.state) : job.CommittedBefore job' where
  jobId := hid
  follows := h
  ended := by
    rintro (hs | hs | hs) <;>
    · rcases h.of_terminal (by rw [hs]; decide) with h' | ⟨h', -⟩
      · exact h'
      · rw [hs] at h'; cases h'
  ready hs := by
    rcases h.of_terminal (by rw [hs]; decide) with h' | ⟨-, h'⟩
    · exact Or.inl (h'.trans hs)
    · exact Or.inr h'

/-- Every row of `s` is committed before the same row of `t`. -/
def CommittedInOrder {cfg : Settings} (s t : (readCommitted cfg).State) : Prop :=
  ∀ (i : ℕ) (job : Job), s.world.jobs.rows[i]? = some job →
    ∃ job', t.world.jobs.rows[i]? = some job' ∧ job.CommittedBefore job'

/-- Along every run in which no commit is overtaken, the states committed to each row follow the
table of transitions, and every further step of such a run moves each row by one hop. -/
theorem committedInOrder_of_reach {cfg : Settings} {s t : (readCommitted cfg).State}
    (hs : Reachable initial s) (ht : Reach NeverOvertaken s t) :
    CommittedInOrder s t ∧ ∀ l u, step t l = some u → NeverOvertaken t l u →
      t.world.jobs.Moved JobState.Hops u.world.jobs := by
  constructor
  · intro i job hi
    obtain ⟨job', hi', hid, hf⟩ := follows_of_reach hs ht i job hi
    exact ⟨job', hi', .of_follows hid hf⟩
  · intro l u hstep hl
    exact hops_of_step (hs.trans (ht.mono fun _ _ _ _ => trivial)) hstep hl

/-! ### A poll and a cancel of one job -/

theorem committedInOrder_of_reach_cancel : ∃ s t : (readCommitted .oneKey).State,
    s.world.jobStates = [.running] ∧ t.world.jobStates = [.cancelled] ∧ CommittedInOrder s t := by
  let cancelled (s : (readCommitted .oneKey).State) : Bool :=
    (runIf NeverOvertaken s cancelCommits).any fun t => t.world.jobStates = [.cancelled]
  obtain ⟨s, hs, hp⟩ := exists_reach (P := fun _ _ _ => True) (s := initial)
    (p := fun s => s.world.jobStates = [.running] && cancelled s) secondPollHasRead
    (by decide +kernel)
  obtain ⟨hrun, hc⟩ := Bool.and_eq_true_iff.1 hp
  obtain ⟨t, ht, hstates⟩ := exists_reach cancelCommits hc
  exact ⟨s, t, of_decide_eq_true hrun, of_decide_eq_true hstates,
    (committedInOrder_of_reach hs ht).1⟩

/-- The poll commits `materializing` over a row that was cancelled since it was read. -/
theorem not_committedInOrder : ¬ ∀ (cfg : Settings) (s t : (readCommitted cfg).State),
    Reachable initial s → Reachable s t → CommittedInOrder s t := by
  intro h
  let revived (s : (readCommitted .oneKey).State) : Bool :=
    (runIf (fun _ _ _ => True) s (acts 3 [.ok])).any fun t =>
      t.world.jobStates = [.materializing]
  obtain ⟨s, hs, hp⟩ := exists_reach (P := fun _ _ _ => True) (s := initial)
    (p := fun s => s.world.jobStates = [.cancelled] && revived s)
    (secondPollHasRead ++ cancelCommits) (by decide +kernel)
  obtain ⟨hcancelled, hr⟩ := Bool.and_eq_true_iff.1 hp
  obtain ⟨t, ht, hrevived⟩ := exists_reach (acts 3 [.ok]) hr
  obtain ⟨job, hjob, hstate⟩ := List.map_eq_singleton_iff.1 (of_decide_eq_true hcancelled)
  obtain ⟨job', hjob', hstate'⟩ := List.map_eq_singleton_iff.1 (of_decide_eq_true hrevived)
  obtain ⟨j, hj, hbefore⟩ := h .oneKey s t hs ht 0 job (by rw [hjob]; rfl)
  rw [hjob'] at hj
  obtain rfl : job' = j := Option.some.inj hj
  have hended := hbefore.ended (Or.inl hstate)
  rw [hstate, hstate'] at hended
  cases hended

end EarthdataMcp
