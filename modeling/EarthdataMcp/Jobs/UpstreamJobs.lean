import EarthdataMcp.Jobs.HandleRuns
import EarthdataMcp.Jobs.JobNotes

/-!
# Every task has its row, every upstream URL its job

Rows are never deleted, and a task is enqueued for a job somebody has read or just created: a task
never meets a missing row.  The URL on a row is what the provider answered to the submit of this
very job, so that a poll, a download or a cancel is never aimed at the upstream job of another.

* `World.Created`, an upstream job that the record of calls shows to belong to a job;
* `Traced`, the invariant, over the notes of `Jobs.JobNotes`;
* `job_found`: a queued task, and every transaction by job id, finds its row;
* `upstream_own`: URLs on rows and in calls belong to the job they stand with.
-/

namespace EarthdataMcp

open Concurrency Concurrency.Prog Concurrency.System

/-! ### The table and the queue under one operation -/

theorem JobTable.next_le_exec (t : JobTable) (now : Time) (o : JobOp) :
    t.next ≤ (t.exec now o).2.next := by
  cases o with
  | read q => exact le_rfl
  | transact q edit => simp only [JobTable.exec]; split <;> exact le_rfl
  | commit rows edit => simp only [JobTable.exec]; split <;> exact le_rfl
  | create new =>
    show t.minted.length ≤ (t.minted ++ [new.credentialEncrypted]).length
    rw [List.length_append]
    omega

theorem JobTable.Indexed.exists_row {t : JobTable} (h : t.Indexed) {j : JobId} (hj : j < t.next) :
    ∃ row ∈ t.rows, row.jobId = j := by
  have hmem : j ∈ t.rows.map Job.jobId := by
    rw [h]
    exact List.mem_range.2 hj
  exact List.mem_map.1 hmem

/-- An entry of the queue was there before, or has just been enqueued. -/
theorem Queue.job_of_exec {q : Queue} {now : Time} {again : Bool} {o : QueueOp} {entry : QueueEntry}
    (h : entry ∈ (q.exec now again o).entries) :
    (∃ old ∈ q.entries, old.job = entry.job) ∨
      ∃ id deferBy, o = .enqueueJob entry.task entry.job id deferBy := by
  cases o with
  | enqueueJob task job id deferBy =>
    have happend {e : QueueEntry} (he : entry ∈ q.entries ++ [e]) :
        (∃ old ∈ q.entries, old.job = entry.job) ∨ entry = e :=
      (List.mem_append.1 he).imp (fun h => ⟨entry, h, rfl⟩) List.mem_singleton.1
    cases id with
    | none =>
      rcases happend h with hold | rfl
      · exact Or.inl hold
      · exact Or.inr ⟨none, deferBy, rfl⟩
    | some id =>
      simp only [Queue.exec, Queue.enqueueJob] at h
      split at h
      · exact Or.inl ⟨entry, h, rfl⟩
      · rcases happend h with hold | rfl
        · exact Or.inl hold
        · exact Or.inr ⟨some id, deferBy, rfl⟩
  | finish id raised =>
    left
    simp only [Queue.exec] at h
    split at h
    · obtain ⟨old, hold, heq⟩ := List.mem_map.1 h
      refine ⟨old, hold, ?_⟩
      rw [← heq]
      split <;> rfl
    · exact ⟨entry, List.mem_of_mem_filter h, rfl⟩

theorem Queue.job_of_start {q : Queue} {id : ArqId} {entry : QueueEntry}
    (h : entry ∈ (q.start id).entries) : ∃ old ∈ q.entries, old.job = entry.job := by
  obtain ⟨old, hold, heq⟩ := List.mem_map.1 h
  refine ⟨old, hold, ?_⟩
  rw [← heq]
  split <;> rfl

/-! ### Upstream jobs -/

/-- The provider has created this upstream job for the job. -/
def World.Created (w : World) (j : JobId) (url : String) : Prop :=
  ∃ provider, Call.created j provider url ∈ w.calls

/-- The job and the URL a provider call goes to. -/
def ProviderOp.target : ProviderOp → Option (JobId × String)
  | submit _ _ _ => none
  | poll j _ url _ => url.map (j, ·)
  | fetch j _ url _ => url.map (j, ·)
  | cancel j _ url _ => url.map (j, ·)

theorem World.calls_subset {w w' : World} {o : Op} {c : Choice} {a : Except Exn o.Ans}
    (he : w.exec o c = some (a, w')) : w.calls ⊆ w'.calls := by
  by_cases hs : ∃ po, o = .provider po
  · obtain ⟨po, rfl⟩ := hs
    obtain ⟨-, rfl⟩ := World.exec_provider he
    exact List.subset_append_left _ _
  · rw [World.exec_calls_eq_self he fun po hpo => hs ⟨po, hpo⟩]
    exact List.Subset.refl _

theorem World.Created.mono {w w' : World} {j : JobId} {url : String} (h : w.Created j url)
    (hcalls : w.calls ⊆ w'.calls) : w'.Created j url := by
  obtain ⟨provider, hmem⟩ := h
  exact ⟨provider, hcalls hmem⟩

/-- The answer of a submit is in the record. -/
theorem World.created_of_submit {w w' : World} {j : JobId} {spec : RequestSpec}
    {token : Option Token} {c : Choice} {url : String}
    (he : w.exec (.provider (.submit j spec token)) c = some (.ok (some url), w')) :
    w'.Created j url := by
  obtain ⟨hanswer, rfl⟩ := World.exec_provider he
  cases c with
  | submitted url' =>
    simp only [ProviderOp.answer] at hanswer
    split at hanswer
    · cases hanswer
    · obtain rfl := Option.some.inj (Except.ok.inj (Option.some.inj hanswer))
      exact ⟨spec.provider, List.mem_append_right _ (List.mem_cons_of_mem _ List.mem_cons_self)⟩
  | _ => simp [ProviderOp.answer] at hanswer

/-! ### The invariant -/

/-- The row's upstream job was created for it. -/
def Job.OwnsUpstream (w : World) (row : Job) : Prop :=
  ∀ url, row.providerJobUrl = some url → w.Created row.jobId url

/-- What a thread knows is so. -/
structure JobNotes.Holds (n : JobNotes) (w : World) : Prop where
  known : ∀ j, n.Knows j → j < w.jobs.next
  seen : ∀ row ∈ n.seen, row.OwnsUpstream w
  answered : ∀ j url, (j, some url) ∈ n.answered → w.Created j url

/-- Every job that is queued or known of has its row, and every URL its upstream job. -/
structure Traced {cfg : Settings} (s : (service cfg).State) : Prop where
  indexed : s.world.jobs.Indexed
  queued : ∀ entry ∈ s.world.queue.entries, entry.job < s.world.jobs.next
  urls : ∀ row ∈ s.world.jobs.rows, row.OwnsUpstream s.world
  holds : ∀ t ∈ s.threads, ((jobMonitor cfg).note t).Holds s.world

section exec

variable {n : JobNotes} {w w' : World} {o : Op} {c : Choice} {a : Except Exn o.Ans}

theorem World.next_le_exec (he : w.exec o c = some (a, w')) : w.jobs.next ≤ w'.jobs.next := by
  by_cases hs : ∃ x, o = .jobs x
  · obtain ⟨x, rfl⟩ := hs
    rcases World.exec_jobs he with ⟨-, -, rfl⟩ | ⟨e, -, rfl⟩
    · exact JobTable.next_le_exec _ _ _
    · exact le_rfl
  · rw [World.exec_jobs_eq_self he fun x hx => hs ⟨x, hx⟩]

theorem JobNotes.MayDo.indexed_exec (hmay : n.MayDo o) (he : w.exec o c = some (a, w'))
    (hw : w.jobs.Indexed) : w'.jobs.Indexed := by
  by_cases hs : ∃ x, o = .jobs x
  · obtain ⟨x, rfl⟩ := hs
    rcases World.exec_jobs he with ⟨-, -, rfl⟩ | ⟨e, -, rfl⟩
    · refine hw.exec ?_
      cases x with
      | transact q edit => exact hmay.1.disciplined
      | commit rows edit => exact hmay.elim
      | _ => trivial
    · exact hw
  · rw [World.exec_jobs_eq_self he fun x hx => hs ⟨x, hx⟩]
    exact hw

/-- Only a known job is enqueued. -/
theorem JobNotes.Holds.queued (hn : n.Holds w) (hmay : n.MayDo o)
    (he : w.exec o c = some (a, w')) (hw : ∀ entry ∈ w.queue.entries, entry.job < w.jobs.next) :
    ∀ entry ∈ w'.queue.entries, entry.job < w.jobs.next := by
  by_cases hs : ∃ x, o = .queue x
  · obtain ⟨x, rfl⟩ := hs
    intro entry hentry
    rcases World.exec_queue he with ⟨again, -, -, rfl⟩ | ⟨e, -, rfl⟩
    · rcases Queue.job_of_exec hentry with ⟨old, hold, hjob⟩ | ⟨id, deferBy, rfl⟩
      · rw [← hjob]
        exact hw old hold
      · exact hn.known entry.job hmay
    · exact hw entry hentry
  · rw [World.exec_queue_eq_self he fun x hx => hs ⟨x, hx⟩]
    exact hw

/-- A URL that comes onto a row is the one the row's own submit was answered. -/
theorem JobNotes.Holds.ownsUpstream_writeRow (hn : n.Holds w) {q : JobQuery} {edit : Edit}
    (hrecords : n.Records q edit) {row : Job} (hid : (writeRow w.clock edit (q.select w.jobs.rows)
      row).jobId = row.jobId) (hrow : row.OwnsUpstream w) :
    (writeRow w.clock edit (q.select w.jobs.rows) row).OwnsUpstream w := by
  intro url hurl
  rw [hid]
  rcases writeRow_cases w.clock edit (q.select w.jobs.rows) row with
    heq | ⟨row', hamong, hok, heq⟩
  · rw [heq] at hurl
    exact hrow url hurl
  rw [heq, Job.stamp_providerJobUrl] at hurl
  rcases hrecords with hkeeps | ⟨j, answer, rfl, hanswered, rfl⟩
  · rw [hkeeps _ _ _ hok] at hurl
    exact hrow url hurl
  · obtain ⟨-, rfl⟩ := setState_eq_ok.1 (enterState_eq_ok hok)
    rw [Job.enter_providerJobUrl] at hurl
    obtain rfl : answer = some url := hurl
    rw [eq_of_isAmong_getJob hamong]
    exact hn.answered j url hanswered

theorem JobNotes.Holds.urls (hn : n.Holds w) (hmay : n.MayDo o) (he : w.exec o c = some (a, w'))
    (hw : ∀ row ∈ w.jobs.rows, row.OwnsUpstream w) :
    ∀ row ∈ w'.jobs.rows, row.OwnsUpstream w' := by
  have hcalls := World.calls_subset he
  suffices h : ∀ row ∈ w'.jobs.rows, row.OwnsUpstream w from
    fun row hrow url hurl => (h row hrow url hurl).mono hcalls
  by_cases hs : ∃ x, o = .jobs x
  swap
  · rw [World.exec_jobs_eq_self he fun x hx => hs ⟨x, hx⟩]
    exact hw
  obtain ⟨x, rfl⟩ := hs
  rcases World.exec_jobs he with ⟨-, -, rfl⟩ | ⟨e, -, rfl⟩
  swap
  · exact hw
  cases x with
  | read q => exact hw
  | commit rows edit => exact hmay.elim
  | transact q edit =>
    simp only [JobTable.exec]
    split
    · exact hw
    · intro row' hrow'
      obtain ⟨row, hrow, rfl⟩ := List.mem_map.1 hrow'
      exact hn.ownsUpstream_writeRow hmay.2.2 (hmay.1.disciplined.writeRow _ _ _).jobId
        (hw row hrow)
  | create new =>
    intro row hrow
    rcases List.mem_append.1 hrow with hold | hnew
    · exact hw row hold
    · obtain rfl := List.mem_singleton.1 hnew
      intro url hurl
      cases hurl

/-- What a thread knows stays so, whatever is done next. -/
theorem JobNotes.Holds.mono (hn : n.Holds w) (he : w.exec o c = some (a, w')) : n.Holds w' :=
  ⟨fun j hj => (hn.known j hj).trans_le (World.next_le_exec he),
    fun row hrow url hurl => (hn.seen row hrow url hurl).mono (World.calls_subset he),
    fun j url hmem => (hn.answered j url hmem).mono (World.calls_subset he)⟩

/-- What a thread learns is so. -/
theorem JobNotes.Holds.observe (hn : n.Holds w) (hindexed : w.jobs.Indexed)
    (hurls : ∀ row ∈ w.jobs.rows, row.OwnsUpstream w) (he : w.exec o c = some (a, w')) :
    (n.observe o a).Holds w' := by
  have hmono := hn.mono he
  have hrows : ({ n with seen := o.rowsRead a ++ n.seen } : JobNotes).Holds w' := by
    refine ⟨fun j hj => ?_, fun row hrow => ?_, hmono.answered⟩
    · rcases hj with htask | hmade | ⟨row, hrow, rfl⟩
      · exact hmono.known j (Or.inl htask)
      · exact hmono.known j (Or.inr (Or.inl hmade))
      · rcases List.mem_append.1 hrow with hnew | hold
        · exact (hindexed.known (World.rowsRead_mem he hnew).1).trans_le (World.next_le_exec he)
        · exact hmono.known _ (Or.inr (Or.inr ⟨row, hold, rfl⟩))
    · rcases List.mem_append.1 hrow with hnew | hold
      · exact fun url hurl =>
          (hurls row (World.rowsRead_mem he hnew).1 url hurl).mono (World.calls_subset he)
      · exact hmono.seen row hold
  unfold JobNotes.observe
  split
  · rename_i new j
    refine ⟨fun k hk => ?_, hmono.seen, hmono.answered⟩
    rcases hk with htask | hmade | hseen
    · exact hmono.known k (Or.inl htask)
    · rcases List.mem_cons.1 hmade with rfl | hold
      · rcases World.exec_jobs he with ⟨-, ha, rfl⟩ | ⟨e, ha, -⟩
        · obtain rfl := Except.ok.inj ha
          simp [JobTable.exec, JobTable.next]
        · cases ha
      · exact hmono.known k (Or.inr (Or.inl hold))
    · exact hmono.known k (Or.inr (Or.inr hseen))
  · rename_i j spec token url
    refine ⟨hmono.known, hmono.seen, fun k url' hmem => ?_⟩
    rcases List.mem_cons.1 hmem with heq | hold
    · obtain ⟨rfl, rfl⟩ := Prod.mk.inj heq
      exact World.created_of_submit he
    · exact hmono.answered k url' hold
  · exact hrows

end exec

section runs

variable {cfg : Settings} {s : (service cfg).State}

theorem Traced.act (h : Traced s) {i : ℕ} {t : (service cfg).Thread} {o : Op}
    {k : Except Exn o.Ans → Program Outcome} {c : Choice} {a : Except Exn o.Ans} {w : World}
    (ht : s.threads[i]? = some t) (hmay : ((jobMonitor cfg).note t).MayDo o)
    (he : s.world.exec o c = some (a, w)) :
    o.Told a ∧ @Traced cfg ⟨w, s.threads.set i (t.advance o a k)⟩ := by
  have hn := h.holds t (List.mem_of_getElem? ht)
  refine ⟨World.told he, hmay.indexed_exec he h.indexed, fun entry hentry =>
    (hn.queued hmay he h.queued entry hentry).trans_le (World.next_le_exec he),
    hn.urls hmay he h.urls, fun u hu => ?_⟩
  rcases List.mem_or_eq_of_mem_set hu with hu | rfl
  · exact (h.holds u hu).mono he
  · rw [Monitor.note_advance]
    exact hn.observe h.indexed h.urls he

theorem Traced.env (h : Traced s) {e : EnvStep} {w : World} {gs : List Origin}
    (he : e.exec s.world = some (w, gs)) :
    @Traced cfg ⟨w, s.threads ++ gs.map (service cfg).spawn⟩ := by
  obtain ⟨-, hjobs, -, -, hcalls⟩ := EnvStep.exec_frame he
  have hcreated {j : JobId} {url : String} (hc : s.world.Created j url) : w.Created j url := by
    refine hc.mono ?_
    rw [hcalls]
    exact List.Subset.refl _
  have hqueue : ∀ entry ∈ w.queue.entries, entry.job < s.world.jobs.next := by
    intro entry hentry
    cases e with
    | tick d =>
      obtain ⟨rfl, -⟩ := Prod.mk.inj (Option.some.inj he)
      exact h.queued entry hentry
    | take id =>
      simp only [EnvStep.exec] at he
      split at he
      · cases he
      split_ifs at he
      obtain ⟨rfl, -⟩ := Prod.mk.inj (Option.some.inj he)
      obtain ⟨old, hold, hjob⟩ := Queue.job_of_start hentry
      rw [← hjob]
      exact h.queued old hold
    | call g =>
      simp only [EnvStep.exec] at he
      split_ifs at he
      obtain ⟨rfl, -⟩ := Prod.mk.inj (Option.some.inj he)
      exact h.queued entry hentry
  have hspawn : ∀ g ∈ gs, ∀ j, g.job = some j → j < s.world.jobs.next := by
    intro g hg j hj
    cases e with
    | tick d =>
      obtain ⟨-, rfl⟩ := Prod.mk.inj (Option.some.inj he)
      cases hg
    | take id =>
      simp only [EnvStep.exec] at he
      split at he
      · cases he
      · rename_i entry hfind
        split_ifs at he
        obtain ⟨-, rfl⟩ := Prod.mk.inj (Option.some.inj he)
        obtain rfl := List.mem_singleton.1 hg
        obtain rfl := Option.some.inj hj
        exact h.queued entry (List.mem_of_find?_eq_some hfind)
    | call g' =>
      simp only [EnvStep.exec] at he
      split_ifs at he with htask
      obtain ⟨-, rfl⟩ := Prod.mk.inj (Option.some.inj he)
      obtain rfl := List.mem_singleton.1 hg
      cases g <;> simp_all [Origin.job, Origin.isTask]
  refine ⟨by rw [hjobs]; exact h.indexed, by rw [hjobs]; exact hqueue, ?_, fun u hu => ?_⟩
  · rw [hjobs]
    exact fun row hrow url hurl => hcreated (h.urls row hrow url hurl)
  · rcases List.mem_append.1 hu with hold | hnew
    · have hn := h.holds u hold
      exact ⟨by rw [hjobs]; exact hn.known,
        fun row hrow url hurl => hcreated (hn.seen row hrow url hurl),
        fun j url hmem => hcreated (hn.answered j url hmem)⟩
    · obtain ⟨g, hg, rfl⟩ := List.mem_map.1 hnew
      refine ⟨fun j hj => ?_, fun row hrow => (by cases hrow), fun j url hmem => (by cases hmem)⟩
      rw [hjobs]
      rcases hj with htask | hmade | ⟨row, hrow, -⟩
      · exact hspawn g hg j htask
      · cases hmade
      · cases hrow

/-- In every state of every run the jobs and URLs are traced, and every thread acts as its notes
allow. -/
theorem traced_of_reachable (h : Reachable initial s) :
    (jobMonitor cfg).Conforms (jobProtocol cfg) (fun _ _ _ => True) s ∧ Traced s :=
  h.invariant (M := jobMonitor cfg) program_jobNotes
    (fun _ _ _ _ _ _ _ _ hinv ht _ hmay he _ => hinv.act ht hmay he)
    (fun _ _ _ _ hinv he _ => hinv.env he)
    ⟨rfl, fun _ h => (by cases h), fun _ h => (by cases h), fun _ h => by cases h⟩
    fun _ h => by cases h

/-- What the next operation of a thread is allowed by its notes. -/
theorem mayDo_of_nextOp (h : Reachable initial s) {i : ℕ} {o : Op} (ho : nextOp s i = some o) :
    ∃ t, s.threads[i]? = some t ∧ ((jobMonitor cfg).note t).MayDo o := by
  unfold nextOp at ho
  split at ho
  · rename_i g past o' k ht
    obtain rfl := Option.some.inj ho
    exact ⟨_, ht, (traced_of_reachable h).1.allowed ht rfl⟩
  · cases ho

/-- In every state of every run the row of every queued task is there, and every transaction that
is about to read a row by its id finds exactly one. -/
theorem job_found (h : Reachable initial s) :
    (∀ entry ∈ s.world.queue.entries, ∃ row ∈ s.world.jobs.rows, row.jobId = entry.job) ∧
      ∀ i j edit, nextOp s i = some (.jobs (.transact (.getJob j) edit)) →
        ∃ row, (JobQuery.getJob j).select s.world.jobs.rows = [row] := by
  have hinv := (traced_of_reachable h).2
  refine ⟨fun entry hentry => hinv.indexed.exists_row (hinv.queued entry hentry),
    fun i j edit ho => ?_⟩
  obtain ⟨t, ht, hmay⟩ := mayDo_of_nextOp h ho
  have hknown := (hinv.holds t (List.mem_of_getElem? ht)).known j (hmay.2.1 j rfl)
  obtain ⟨row, hrow, rfl⟩ := hinv.indexed.exists_row hknown
  exact ⟨row, hinv.indexed.select_getJob hrow⟩

/-- A request is persisted, and a worker takes its first task. -/
def takesSubmit : List (service .oneKey).Label :=
  call (.retrieveData 0 .plain none) ::
    acts 0 [.ok, .resolved "C1" none, .capabilities {}, .planned { path := .harmony },
      .ok, .ok, .ok, .ok, .ok, .ok] ++ [take (.fresh 0)]

/-- The operation reads the row of the job. -/
def Op.loads (j : JobId) : Op → Bool
  | .jobs (.transact (.getJob j') _) => j' = j
  | _ => false

theorem Op.of_loads {j : JobId} {o : Op} (h : o.loads j = true) :
    ∃ edit, o = .jobs (.transact (.getJob j) edit) := by
  unfold Op.loads at h
  split at h
  · rename_i j' edit
    obtain rfl := of_decide_eq_true h
    exact ⟨edit, rfl⟩
  · cases h

theorem job_found_loaded : ∃ s : (service .oneKey).State, Reachable initial s ∧
    (∃ entry ∈ s.world.queue.entries, ∃ row ∈ s.world.jobs.rows, row.jobId = entry.job) ∧
      ∃ edit row, nextOp s 1 = some (.jobs (.transact (.getJob 0) edit)) ∧
        (JobQuery.getJob 0).select s.world.jobs.rows = [row] := by
  let ready (s : (service .oneKey).State) : Bool :=
    s.world.queue.entries.length = 1 && (nextOp s 1).any (Op.loads 0)
  obtain ⟨s, hs, hready⟩ := exists_reach (P := fun _ _ _ => True) (s := initial) (p := ready)
    takesSubmit (by decide)
  obtain ⟨hlength, hnext⟩ := Bool.and_eq_true_iff.1 hready
  obtain ⟨entry, hentry⟩ := List.exists_mem_of_length_pos
    (Nat.lt_of_lt_of_eq Nat.zero_lt_one (of_decide_eq_true hlength).symm)
  obtain ⟨o, ho, hloads⟩ := (Option.any_eq_true _ _).1 hnext
  obtain ⟨hqueued, hfound⟩ := job_found hs
  refine ⟨s, hs, ⟨entry, hentry, hqueued entry hentry⟩, ?_⟩
  obtain ⟨edit, rfl⟩ := Op.of_loads hloads
  obtain ⟨row, hrow⟩ := hfound 1 0 edit ho
  exact ⟨edit, row, ho, hrow⟩

/-- In every state of every run the URL on a row, and the URL of every poll, download and cancel
that is about to be made for a job, is one a provider has answered to a submit of that job. -/
theorem upstream_own (h : Reachable initial s) :
    (∀ row ∈ s.world.jobs.rows, row.OwnsUpstream s.world) ∧
      ∀ i po j url, nextOp s i = some (.provider po) → po.target = some (j, url) →
        s.world.Created j url := by
  have hinv := (traced_of_reachable h).2
  refine ⟨hinv.urls, fun i po j url ho htarget => ?_⟩
  obtain ⟨t, ht, hmay⟩ := mayDo_of_nextOp h ho
  have hn := hinv.holds t (List.mem_of_getElem? ht)
  have hread {k : JobId} {url' : Option String} (hr : ((jobMonitor cfg).note t).HasRead k url')
      (heq : url'.map (k, ·) = some (j, url)) : s.world.Created j url := by
    obtain ⟨u, rfl, hpair⟩ := Option.map_eq_some_iff.1 heq
    obtain ⟨rfl, rfl⟩ := Prod.mk.inj hpair
    obtain ⟨row, hrow, rfl, hurl⟩ := hr
    exact hn.seen row hrow u hurl
  cases po with
  | submit => cases htarget
  | poll => exact hread hmay htarget
  | fetch => exact hread hmay htarget
  | cancel => exact hread hmay htarget

/-- The job is submitted, and its first poll is about to ask the provider. -/
def asksProvider : List (service .oneKey).Label :=
  takesSubmit ++ acts 1 [.ok, .capabilities {}, .submitted "https://harmony/jobs/7", .ok, .ok, .ok] ++
    take (.fresh 1) :: acts 2 [.ok, .capabilities {}]

/-- The operation is a call for the upstream job at the URL. -/
def Op.asksFor (j : JobId) (url : String) : Op → Bool
  | .provider po => po.target = some (j, url)
  | _ => false

theorem Op.of_asksFor {j : JobId} {url : String} {o : Op} (h : o.asksFor j url = true) :
    ∃ po, o = .provider po ∧ po.target = some (j, url) := by
  unfold Op.asksFor at h
  split at h
  · exact ⟨_, rfl, of_decide_eq_true h⟩
  · cases h

theorem upstream_own_polled : ∃ s : (service .oneKey).State, Reachable initial s ∧
    (∃ row ∈ s.world.jobs.rows, row.OwnsUpstream s.world) ∧
      (∃ po, nextOp s 2 = some (.provider po) ∧ po.target = some (0, "https://harmony/jobs/7")) ∧
        s.world.Created 0 "https://harmony/jobs/7" := by
  let ready (s : (service .oneKey).State) : Bool :=
    s.world.jobs.rows.length = 1 && (nextOp s 2).any (Op.asksFor 0 "https://harmony/jobs/7")
  obtain ⟨s, hs, hready⟩ := exists_reach (P := fun _ _ _ => True) (s := initial) (p := ready)
    asksProvider (by decide)
  obtain ⟨hlength, hnext⟩ := Bool.and_eq_true_iff.1 hready
  obtain ⟨row, hrow⟩ := List.exists_mem_of_length_pos
    (Nat.lt_of_lt_of_eq Nat.zero_lt_one (of_decide_eq_true hlength).symm)
  obtain ⟨o, ho, hasks⟩ := (Option.any_eq_true _ _).1 hnext
  obtain ⟨hrows, hcalls⟩ := upstream_own hs
  obtain ⟨po, rfl, htarget⟩ := Op.of_asksFor hasks
  exact ⟨s, hs, ⟨row, hrow, hrows row hrow⟩, ⟨po, ho, htarget⟩, hcalls 2 po 0 _ ho htarget⟩

end runs

end EarthdataMcp
