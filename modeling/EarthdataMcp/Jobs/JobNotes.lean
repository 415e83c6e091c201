import EarthdataMcp.Jobs.PrefetchBudget
import EarthdataMcp.Jobs.WorkPrograms

/-!
# What a thread knows of the jobs it works on

A thread learns of a job as a row it has read, as the job of the task it runs, or as one it has
just created.  What it writes afterwards (a storage key, an upstream URL, a task) it derives from
that.

* `SpecNames`, the three names in a specification, which no transaction changes;
* `JobNotes`, the rows a thread was handed, the jobs it has created and the URLs it was answered,
  with `jobMonitor`;
* `JobNotes.MayDo`: keys, URLs and tasks are those of jobs the thread knows;
* `program_jobNotes`, for every program.
-/

namespace EarthdataMcp

open Concurrency Concurrency.Prog Concurrency.System

/-! ### The names in a specification -/

/-- The workspace of a specification, the `job_` handle in its storage key, and the handle it
fills. -/
structure SpecNames where
  workspaceId : Option WorkspaceId
  jobHandle : Option HandleId
  obsHandle : Option HandleId
  deriving DecidableEq, Repr

/-- The names in a specification. -/
def RequestSpec.names (spec : RequestSpec) : SpecNames :=
  ⟨spec.workspaceId, spec.jobHandle, spec.obsHandle⟩

/-- The names in the row's specification. -/
def Job.names (job : Job) : SpecNames := job.requestSpec.spec.names

@[simp] theorem RequestSpec.names_loaded (spec : RequestSpec) : spec.loaded.names = spec.names :=
  rfl

theorem names_of_fromJsonb {job : Job} {spec : RequestSpec}
    (h : fromJsonb job.requestSpec = .ok spec) : spec.names = job.names := by
  rw [Job.names, fromJsonb_eq_ok h]

/-- No transaction changes the names, the fallback's included. -/
theorem LifecycleEdit.names {edit : Edit} (h : LifecycleEdit edit) {now : Time} {job job' : Job}
    (hok : edit now job = .ok job') : job'.names = job.names := by
  unfold Job.names
  cases h with
  | load wanted => rw [((failInvalidSpec_plain wanted).route _ _ _ hok).requestSpec]
  | enter new extra =>
    obtain ⟨-, rfl⟩ := setState_eq_ok.1 (enterState_eq_ok hok)
    rw [Job.enter_requestSpec]
  | reroute =>
    obtain rfl := Except.ok.inj hok
    rfl
  | apply status => rw [(applyStatus_keepsRoute status _ _ _ hok).requestSpec]
  | cancel => rw [(cancelRow_keepsRoute _ _ _ hok).requestSpec]
  | expire => rw [(expireReady_plain.route _ _ _ hok).requestSpec]
  | triage staleBefore => rw [((triage_plain staleBefore).route _ _ _ hok).requestSpec]

theorem LifecycleEdit.writeRow_names {edit : Edit} (h : LifecycleEdit edit) (now : Time)
    (rows : List Job) (job : Job) : (writeRow now edit rows job).names = job.names := by
  rcases writeRow_cases now edit rows job with heq | ⟨job', -, hok, heq⟩
  · rw [heq]
  · rw [heq, Job.names, Job.stamp_requestSpec]
    exact h.names hok

/-- The edit leaves the upstream URL of a row as it is. -/
def Edit.KeepsUrl (edit : Edit) : Prop :=
  ∀ now job job', edit now job = .ok job' → job'.providerJobUrl = job.providerJobUrl

theorem Edit.KeepsRoute.keepsUrl {edit : Edit} (h : edit.KeepsRoute) : edit.KeepsUrl :=
  fun now job job' hok => (h now job job' hok).providerJobUrl

theorem rerouteToOpendap_keepsUrl : rerouteToOpendap.KeepsUrl := by
  intro now job job' hok
  obtain rfl := Except.ok.inj hok
  rfl

/-! ### Notes -/

/-- What is known of a thread: the job of the task it runs, the rows it was handed, the jobs it
has created, and the URLs that submits have answered. -/
structure JobNotes where
  task : Option JobId := none
  seen : List Job := []
  made : List JobId := []
  answered : List (JobId × Option String) := []

/-- The job of a task. -/
def Origin.job : Origin → Option JobId
  | task _ _ j => some j
  | _ => none

/-- The specification of a new job names the job's own handles. -/
structure NewJob.NamesItself (new : NewJob) : Prop where
  jobHandle : new.requestSpec.spec.jobHandle = some new.jobHandle
  obsHandle : new.requestSpec.spec.obsHandle = new.obsHandle

namespace JobNotes

/-- The notes after an operation. -/
def observe (n : JobNotes) : (o : Op) → Except Exn o.Ans → JobNotes
  | .jobs (.create _), .ok j => { n with made := j :: n.made }
  | .provider (.submit j _ _), .ok url => { n with answered := (j, url) :: n.answered }
  | o, a => { n with seen := o.rowsRead a ++ n.seen }

/-- The thread knows of the job. -/
def Knows (n : JobNotes) (j : JobId) : Prop :=
  n.task = some j ∨ j ∈ n.made ∨ ∃ row ∈ n.seen, row.jobId = j

/-- The thread has read the URL on a row of the job. -/
def HasRead (n : JobNotes) (j : JobId) (url : Option String) : Prop :=
  ∃ row ∈ n.seen, row.jobId = j ∧ row.providerJobUrl = url

/-- The key is the one a row of the thread's own job gives its result. -/
structure Stores (n : JobNotes) (row : Job) (key : Key) : Prop where
  seen : row ∈ n.seen
  own : n.task = some row.jobId
  key : ∃ provider url name, key = materializedKey provider row.names.jobHandle url name

/-- The transaction leaves the upstream URLs alone, or records the one that was answered. -/
def Records (n : JobNotes) (q : JobQuery) (edit : Edit) : Prop :=
  edit.KeepsUrl ∨ ∃ j url, q = .getJob j ∧ (j, url) ∈ n.answered ∧
    edit = enterState .submitted { providerJobUrl := some url }

/-- What a thread may do. -/
def MayDo (n : JobNotes) : Op → Prop
  | .jobs (.transact q edit) =>
      LifecycleEdit edit ∧ (∀ j, q = .getJob j → n.Knows j) ∧ n.Records q edit
  | .jobs (.commit _ _) => False
  | .jobs (.create new) => new.NamesItself ∨
      ∃ row ∈ n.seen, new.requestSpec = row.requestSpec ∧ new.obsHandle = row.obsHandle
  | .handles (.putHandle _ type payload) => type = .obs → payload.storageKey = none
  | .handles (.insertUnique _ _ payload) => payload.storageKey = none
  | .handles (.updateHandle ws h u) => ∀ key, u.storageKey = some (some key) →
      ∃ row, n.Stores row key ∧ row.names.obsHandle = some h ∧
        row.names.workspaceId.getD defaultWorkspace = ws
  | .storage (.put key _) => (∃ cacheKey name, key = .transform cacheKey name) ∨
      ∃ row, n.Stores row key
  | .queue (.enqueueJob _ j _ _) => n.Knows j
  | .provider (.submit j _ _) => n.Knows j
  | .provider (.poll j _ url _) => n.HasRead j url
  | .provider (.fetch j _ url _) => n.HasRead j url
  | .provider (.cancel j _ url _) => n.HasRead j url
  | _ => True

/-- `n'` knows what `n` knows. -/
structure Le (n n' : JobNotes) : Prop where
  task : n'.task = n.task
  seen : n.seen ⊆ n'.seen
  made : n.made ⊆ n'.made
  answered : n.answered ⊆ n'.answered

variable {n n' n'' : JobNotes}

theorem Le.refl (n : JobNotes) : n.Le n :=
  ⟨rfl, List.Subset.refl _, List.Subset.refl _, List.Subset.refl _⟩

theorem Le.trans (h : n.Le n') (h' : n'.Le n'') : n.Le n'' :=
  ⟨h'.task.trans h.task, List.Subset.trans h.seen h'.seen, List.Subset.trans h.made h'.made,
    List.Subset.trans h.answered h'.answered⟩

theorem le_observe (n : JobNotes) (o : Op) (a : Except Exn o.Ans) : n.Le (n.observe o a) := by
  unfold observe
  split
  · exact ⟨rfl, List.Subset.refl _, List.subset_cons_self _ _, List.Subset.refl _⟩
  · exact ⟨rfl, List.Subset.refl _, List.Subset.refl _, List.subset_cons_self _ _⟩
  · exact ⟨rfl, List.subset_append_right _ _, List.Subset.refl _, List.Subset.refl _⟩

theorem seen_observe {q : JobQuery} {edit : Edit} {rows : List Job} {row : Job}
    (hrow : row ∈ rows) : row ∈ (n.observe (.jobs (.transact q edit)) (.ok rows)).seen :=
  List.mem_append_left _ hrow

/-- What a thread was handed it knew before, or it was handed just now. -/
theorem seen_of_observe {o : Op} {a : Except Exn o.Ans} {row : Job}
    (h : row ∈ (n.observe o a).seen) : row ∈ n.seen ∨ row ∈ o.rowsRead a := by
  unfold observe at h
  split at h
  · exact Or.inl h
  · exact Or.inl h
  · exact (List.mem_append.1 h).symm

theorem Knows.mono {j : JobId} (h : n.Knows j) (hle : n.Le n') : n'.Knows j := by
  rcases h with htask | hmade | ⟨row, hrow, hid⟩
  · exact Or.inl (hle.task.trans htask)
  · exact Or.inr (Or.inl (hle.made hmade))
  · exact Or.inr (Or.inr ⟨row, hle.seen hrow, hid⟩)

theorem HasRead.mono {j : JobId} {url : Option String} (h : n.HasRead j url) (hle : n.Le n') :
    n'.HasRead j url := by
  obtain ⟨row, hrow, hrest⟩ := h
  exact ⟨row, hle.seen hrow, hrest⟩

theorem Stores.mono {row : Job} {key : Key} (h : n.Stores row key) (hle : n.Le n') :
    n'.Stores row key :=
  ⟨hle.seen h.seen, hle.task.trans h.own, h.key⟩

theorem Records.mono {q : JobQuery} {edit : Edit} (h : n.Records q edit) (hle : n.Le n') :
    n'.Records q edit := by
  rcases h with h | ⟨j, url, hq, hmem, hedit⟩
  · exact Or.inl h
  · exact Or.inr ⟨j, url, hq, hle.answered hmem, hedit⟩

theorem MayDo.mono {o : Op} (h : n.MayDo o) (hle : n.Le n') : n'.MayDo o := by
  unfold MayDo at h ⊢
  split
  · exact ⟨h.1, fun j hq => (h.2.1 j hq).mono hle, h.2.2.mono hle⟩
  · exact h
  · rcases h with h | ⟨row, hrow, hrest⟩
    · exact Or.inl h
    · exact Or.inr ⟨row, hle.seen hrow, hrest⟩
  · exact h
  · exact h
  · intro key hkey
    obtain ⟨row, hstores, hrest⟩ := h key hkey
    exact ⟨row, hstores.mono hle, hrest⟩
  · exact h.imp_right fun ⟨row, hstores⟩ => ⟨row, hstores.mono hle⟩
  · exact h.mono hle
  · exact h.mono hle
  · exact h.mono hle
  · exact h.mono hle
  · exact h.mono hle
  · trivial

end JobNotes

/-- The monitor of jobs. -/
def jobMonitor (cfg : Settings) : Monitor (service cfg) JobNotes where
  start g := { task := g.job }
  observe n o a := n.observe o a

/-- Threads work on jobs they know; the rows they are handed are those they ask for. -/
abbrev jobProtocol (cfg : Settings) : Protocol Api JobNotes :=
  (jobMonitor cfg).protocol JobNotes.MayDo fun _ o a => o.Told a

/-- A thread runs the task its origin says. -/
theorem jobNote_task {cfg : Settings} (t : (service cfg).Thread) :
    ((jobMonitor cfg).note t).task = t.origin.job := by
  unfold Monitor.note Monitor.after
  induction t.past with
  | nil => rfl
  | cons e past ih => exact (JobNotes.le_observe _ e.op e.ans).task.trans ih

/-! ### Programs -/

section programs

variable {cfg : Settings} {α β : Type} {n : JobNotes}

/-- A step of a thread. -/
theorem job_step {o : Op} {post : Except Exn o.Ans → JobNotes → Prop} (ho : n.MayDo o)
    (hpost : ∀ a, o.Told a → post a (n.observe o a)) :
    (perform o).Obeys (jobProtocol cfg) n post :=
  Monitor.obeys_step (M := jobMonitor cfg) ho hpost

/-- A program that only does what its thread may do from the start. -/
theorem obeys_known {p : Program α} (hp : p.Only n.MayDo) :
    p.Obeys (jobProtocol cfg) n fun _ n' => n.Le n' := by
  refine hp.obeys (fun _ _ hle ho => JobNotes.MayDo.mono ho hle) (fun n' o a n'' hle _ hnext => ?_)
    (.refl n)
  obtain rfl := hnext.2
  exact hle.trans (n'.le_observe o a)

/-- Such a program, before one that goes on. -/
theorem known_bind {p : Program α} {f : α → Program β} (hp : p.Only n.MayDo)
    (hf : ∀ a n', n.Le n' → (f a).Obeys (jobProtocol cfg) n' fun _ n'' => n'.Le n'') :
    (p >>= f).Obeys (jobProtocol cfg) n fun _ n'' => n.Le n'' := by
  rw [obeys_bind]
  refine (obeys_known hp).mono ?_
  rintro (e | a) n' hle
  · exact hle
  · exact (hf a n' hle).mono fun _ _ h => hle.trans h

/-- A step, before a program that goes on with its answer. -/
theorem known_step {o : Op} {f : o.Ans → Program β} (ho : n.MayDo o)
    (hf : ∀ a, o.Told (.ok a) → (f a).Obeys (jobProtocol cfg) (n.observe o (.ok a))
      fun _ n' => (n.observe o (.ok a)).Le n') :
    (perform o >>= f).Obeys (jobProtocol cfg) n fun _ n' => n.Le n' := by
  rw [obeys_bind]
  refine job_step ho fun a htold => ?_
  cases a with
  | error e => exact n.le_observe o (.error e)
  | ok a => exact (hf a htold).mono fun _ _ h => (n.le_observe o (.ok a)).trans h

/-- A job is created, and what follows knows it. -/
theorem known_create {new : NewJob} {f : JobId → Program β} (hnew : n.MayDo (.jobs (.create new)))
    (hf : ∀ j (n' : JobNotes), n'.Knows j → (f j).Only n'.MayDo) :
    (perform (.jobs (.create new)) >>= f).Obeys (jobProtocol cfg) n fun _ n' => n.Le n' :=
  known_step hnew fun j _ => obeys_known (hf j _ (Or.inr (Or.inl List.mem_cons_self)))

/-! ### The sweep, the reclaim passes and the shared part of the tasks -/

theorem SweepOp.known {o : Op} (h : SweepOp o) : n.MayDo o := by
  cases h with
  | expire ws h => exact fun key hkey => by cases hkey
  | expireJob h => exact ⟨.expire, nofun, Or.inl expireReady_plain.route.keepsUrl⟩
  | _ => trivial

theorem TaskOp.known {j : JobId} {o : Op} (hj : n.Knows j) (h : TaskOp j o) : n.MayDo o := by
  cases h with
  | fail error =>
    refine ⟨.enter _ _, fun j' hq => ?_, Or.inl (enterState_keepsRoute rfl).keepsUrl⟩
    obtain rfl := JobQuery.getJob.inj hq
    exact hj
  | _ => trivial

theorem load_known {j : JobId} (hj : n.Knows j) (wanted : JobState → Bool) :
    n.MayDo (.jobs (.transact (.getJob j) (failInvalidSpec wanted))) := by
  refine ⟨.load wanted, fun j' hq => ?_, Or.inl (failInvalidSpec_plain wanted).route.keepsUrl⟩
  obtain rfl := JobQuery.getJob.inj hq
  exact hj

/-- The reclaim passes resume rows they have read. -/
theorem reclaim_known {q : JobQuery} (hq : ∀ j, q ≠ .getJob j) (t : Time) :
    (reclaim q t).Obeys (jobProtocol cfg) n fun _ n' => n.Le n' := by
  unfold reclaim
  refine known_step ⟨.triage t, fun j h => absurd h (hq j), Or.inl (triage_plain t).route.keepsUrl⟩
    fun rows _ => obeys_known (Only.forEach fun job hjob => ?_)
  unfold resumeOne
  split
  · trivial
  · refine only_perform.2 (Or.inr (Or.inr ⟨job, ?_, rfl⟩))
    exact JobNotes.seen_observe (List.mem_filter.1 hjob).1

theorem sweep_known (svc : EvictionService) (h : Option HandleId) :
    (swallow (svc.sweep h)).Only n.MayDo :=
  only_swallow ((sweep_only svc h).mono fun _ => SweepOp.known)

theorem startup_known :
    (startup cfg).Obeys (jobProtocol cfg) n fun _ n' => n.Le n' := by
  unfold startup
  refine known_bind (only_perform.2 trivial) fun now n₁ hle₁ => ?_
  rw [obeys_bind]
  refine Obeys.mono (reclaim_known ?_ _) ?_
  · exact fun j h => by cases h
  rintro (e | ⟨⟩) n₂ hle₂
  · exact hle₂
  · exact (obeys_known (sweep_known _ _)).mono fun _ _ h => hle₂.trans h

theorem sweepStalledJobs_known :
    (sweepStalledJobs cfg).Obeys (jobProtocol cfg) n fun _ n' => n.Le n' :=
  known_bind (only_perform.2 trivial) fun _ _ _ => reclaim_known (fun _ h => by cases h) _

/-! ### The prefetch -/

section gates

variable {S : Type} {P : Protocol Api S} {inv : S → Prop} {s : S}

/-- A gate of the prefetch, before a program that goes on. -/
theorem gate_obeys (hgate : ∀ s o, inv s → GateOp o → P.allows s o ∧ ∀ a s', P.next s o a s' → inv s')
    {o : Op} (ho : GateOp o) {f : o.Ans → Program β} (hs : inv s)
    (hf : ∀ a s', inv s' → (f a).Obeys P s' fun _ s'' => inv s'') :
    (perform o >>= f).Obeys P s fun _ s' => inv s' := by
  rw [obeys_bind, obeys_perform]
  refine ⟨(hgate s o hs ho).1, fun a s' hnext => ?_⟩
  have hs' := (hgate s o hs ho).2 a s' hnext
  cases a with
  | error e => exact hs'
  | ok a => exact hf a s' hs'

theorem prefetchWindow_obeys
    (hgate : ∀ s o, inv s → GateOp o → P.allows s o ∧ ∀ a s', P.next s o a s' → inv s')
    {spec : RequestSpec} {ws : WorkspaceId} {credential : Option Credential}
    (henqueue : ∀ s planned signature, inv s →
      (enqueuePrefetch planned signature spec.jobHandle ws credential).Obeys P s fun _ s' => inv s')
    (predicted : RequestSpec) (conceptId : String) (hs : inv s) :
    (prefetchWindow cfg spec predicted ws conceptId credential).Obeys P s fun _ s' => inv s' := by
  unfold prefetchWindow
  refine gate_obeys hgate (.planning _) hs fun plan s₁ h₁ => ?_
  split
  · exact h₁
  rw [obeys_bind]
  have hrestriction : (windowRestriction plan conceptId).Obeys P s₁ fun _ s' => inv s' := by
    unfold windowRestriction
    split
    · exact h₁
    · exact gate_obeys hgate (.restriction _) h₁ fun _ _ h => h
  refine hrestriction.mono ?_
  rintro (e | flagged) s₂ h₂
  · exact h₂
  rw [afterBind_ok]
  split
  · exact h₂
  refine gate_obeys hgate .now h₂ fun now s₃ h₃ => ?_
  split
  · exact h₃
  refine gate_obeys hgate (.find _ _) h₃ fun row s₄ h₄ => ?_
  split
  · exact h₄
  · exact henqueue _ _ _ h₄

/-- A prefetch asks the services and then, at most, mints its job. -/
theorem maybePrefetch_obeys
    (hgate : ∀ s o, inv s → GateOp o → P.allows s o ∧ ∀ a s', P.next s o a s' → inv s')
    {spec : RequestSpec} {credential : Option Credential}
    (henqueue : ∀ s planned signature ws, inv s →
      (enqueuePrefetch planned signature spec.jobHandle ws credential).Obeys P s fun _ s' => inv s')
    (speculative : Bool) (size : Option ℕ) (hs : inv s) :
    (maybePrefetch cfg spec speculative size credential).Obeys P s fun _ s' => inv s' := by
  unfold maybePrefetch
  split
  · exact hs
  split
  · exact hs
  split
  swap
  · exact hs
  refine gate_obeys hgate (.read _) hs fun busy s₁ h₁ => ?_
  split
  · exact h₁
  split
  · exact h₁
  split
  · exact h₁
  refine gate_obeys hgate .now h₁ fun now s₂ h₂ => gate_obeys hgate (.read _) h₂ fun issued s₃ h₃ => ?_
  split
  · exact h₃
  refine gate_obeys hgate .select h₃ fun rows s₄ h₄ => ?_
  split
  · exact h₄
  split
  · exact h₄
  · exact prefetchWindow_obeys hgate (fun s planned signature => henqueue s planned signature _) _ _ h₄

end gates

theorem putHandleUniqueSignature_known {ws : WorkspaceId} (signature : String) {payload : Payload}
    (hkey : payload.storageKey = none) :
    (putHandleUniqueSignature ws .obs signature payload).Only n.MayDo := by
  unfold putHandleUniqueSignature
  refine (only_perform.2 hkey).bind fun row => ?_
  split
  · trivial
  · refine (only_perform.2 trivial).bind fun row => ?_
    split <;> trivial

theorem enqueuePrefetch_known (predicted : RequestSpec) (signature : String)
    (origin : Option HandleId) (ws : WorkspaceId) (credential : Option Credential) :
    (enqueuePrefetch predicted signature origin ws credential).Obeys (jobProtocol cfg) n
      fun _ n' => n.Le n' := by
  unfold enqueuePrefetch
  refine known_bind (putHandleUniqueSignature_known signature rfl) fun (obs, created) n₁ _ => ?_
  dsimp only
  split
  · exact .refl n₁
  refine known_bind ?_ fun dataset n₂ _ => known_bind (only_perform.2 nofun) fun jobHandle n₃ _ =>
    known_create (Or.inl ⟨rfl, rfl⟩) fun j n₄ hj => ?_
  · unfold originDatasetHandle
    split
    · trivial
    · rename_i h
      have hget : (perform (.handles (.getHandle ws h))).Only n₁.MayDo := only_perform.2 trivial
      refine hget.attempt.bind fun r => ?_
      split <;> trivial
  · refine Only.bind ?_ fun _ => (only_perform.2 trivial).bind fun _ => only_map (only_perform.2 hj)
    unfold recordEdgeFrom
    split
    · trivial
    · exact only_perform.2 trivial

theorem maybePrefetch_known (spec : RequestSpec) (speculative : Bool) (size : Option ℕ)
    (credential : Option Credential) :
    (maybePrefetch cfg spec speculative size credential).Obeys (jobProtocol cfg) n
      fun _ n' => n.Le n' := by
  refine @maybePrefetch_obeys cfg _ _ n.Le n (fun n' o hle ho => ⟨?_, ?_⟩) spec credential
    (fun n' planned signature ws hle => ?_) speculative size (.refl n)
  · cases ho <;> trivial
  · rintro a n'' ⟨-, rfl⟩
    exact hle.trans (n'.le_observe o a)
  · exact (enqueuePrefetch_known _ _ _ _ _).mono fun _ _ h => hle.trans h

/-! ### The lifecycle tasks -/

theorem swallow_known {p : Program Unit}
    (hp : p.Obeys (jobProtocol cfg) n fun _ n' => n.Le n') :
    (swallow p).Obeys (jobProtocol cfg) n fun _ n' => n.Le n' := by
  unfold swallow
  rw [obeys_bind, obeys_attempt]
  refine hp.mono fun r n' hle => ?_
  rw [afterBind_ok]
  cases r with
  | ok _ => exact hle
  | error e =>
    dsimp only
    split
    · exact hle
    · exact hle

/-- A task loads its row and goes on with it. -/
theorem withRow_known {j : JobId} {wanted : JobState → Bool}
    {go : Job → RequestSpec → Program Unit} (hj : n.Knows j)
    (hgo : ∀ job spec (n' : JobNotes), n.Le n' → job ∈ n'.seen → job.jobId = j →
      spec.names = job.names → (go job spec).Obeys (jobProtocol cfg) n' fun _ n'' => n'.Le n'') :
    (do let rows ← perform (.jobs (.transact (.getJob j) (failInvalidSpec wanted)))
        withRow wanted rows go).Obeys (jobProtocol cfg) n fun _ n' => n.Le n' := by
  refine known_step (load_known hj wanted) fun rows htold => ?_
  unfold withRow
  split
  · exact .refl _
  rename_i job rest
  split
  swap
  · exact .refl _
  split
  · exact .refl _
  · rename_i spec hspec
    exact hgo job spec _ (n.le_observe _ _) (JobNotes.seen_observe List.mem_cons_self)
      (htold _ rfl job List.mem_cons_self) (names_of_fromJsonb hspec)

theorem SubmitFailedOp.known {j : JobId} {spec : RequestSpec} {o : Op} (hj : n.Knows j)
    (h : SubmitFailedOp j spec o) : n.MayDo o := by
  cases h with
  | task h => exact h.known hj
  | reroute _ =>
    refine ⟨.reroute, fun j' hq => ?_, Or.inl rerouteToOpendap_keepsUrl⟩
    obtain rfl := JobQuery.getJob.inj hq
    exact hj
  | enqueue => exact hj

theorem SubmitSucceededOp.known {j : JobId} {url : Option String} {o : Op} (hj : n.Knows j)
    (hurl : (j, url) ∈ n.answered) (h : SubmitSucceededOp j url o) : n.MayDo o := by
  cases h with
  | submitted =>
    refine ⟨.enter _ _, fun j' hq => ?_, Or.inr ⟨j, url, rfl, hurl, rfl⟩⟩
    obtain rfl := JobQuery.getJob.inj hq
    exact hj
  | provenance w => trivial
  | enqueue => exact hj

theorem submitRow_known {j : JobId} (spec : RequestSpec) (credential : Option Credential)
    (hj : n.Knows j) :
    (submitRow cfg j spec credential).Obeys (jobProtocol cfg) n fun _ n' => n.Le n' := by
  unfold submitRow
  refine known_bind ((loadJobIdentity_only _ _ _ _).mono fun _ => TaskOp.known hj)
    fun identity n₁ hle₁ => known_bind ((loadProvider_only _ _).mono fun _ =>
      TaskOp.known (hj.mono hle₁)) fun _ n₂ hle₂ => ?_
  have hj₂ := (hj.mono hle₁).mono hle₂
  rw [obeys_bind, obeys_attempt]
  refine job_step hj₂ fun a _ => ?_
  rw [afterBind_ok]
  cases a with
  | error e =>
    exact obeys_known (n := n₂) ((submitFailed_only _ _ _ _).mono fun _ => SubmitFailedOp.known hj₂)
  | ok url =>
    -- the answer is noted, so the row may record it
    have hle₃ := n₂.le_observe (.provider (.submit j spec identity)) (.ok url)
    exact (obeys_known ((submitSucceeded_only _ _ _).mono fun _ =>
      SubmitSucceededOp.known (hj₂.mono hle₃) List.mem_cons_self)).mono fun _ _ h => hle₃.trans h

theorem submitJob_known {j : JobId} (hj : n.Knows j) :
    (submitJob cfg j).Obeys (jobProtocol cfg) n fun _ n' => n.Le n' :=
  withRow_known hj fun _ _ _ hle _ _ _ => submitRow_known _ _ (hj.mono hle)

theorem apply_known {j : JobId} (hj : n.Knows j) (status : JobStatus) :
    n.MayDo (.jobs (.transact (.getJob j) (applyStatus status))) := by
  refine ⟨.apply status, fun j' hq => ?_, Or.inl (applyStatus_keepsRoute status).keepsUrl⟩
  obtain rfl := JobQuery.getJob.inj hq
  exact hj

theorem pollRow_known {j : JobId} (spec : RequestSpec) {job : Job} (hseen : job ∈ n.seen)
    (hid : job.jobId = j) :
    (pollRow cfg j spec job).Obeys (jobProtocol cfg) n fun _ n' => n.Le n' := by
  have hj {n' : JobNotes} (hle : n.Le n') : n'.Knows j := Or.inr (Or.inr ⟨job, hle.seen hseen, hid⟩)
  unfold pollRow pollProvider
  refine known_bind ((loadJobIdentity_only _ _ _ _).mono fun _ => TaskOp.known (hj (.refl n)))
    fun identity n₁ hle₁ => known_bind (Only.attempt ?_) fun r n₂ hle₂ => ?_
  · exact ((loadProvider_only _ _).mono fun _ => TaskOp.known (hj hle₁)).bind fun _ =>
      only_perform.2 ⟨job, hle₁.seen hseen, hid, rfl⟩
  · have hj₂ := hj (hle₁.trans hle₂)
    split
    · exact obeys_known ((pollFailed_only _ _ _ _).mono fun _ => TaskOp.known hj₂)
    · refine known_bind (only_perform.2 (apply_known hj₂ _)) fun rows n₃ hle₃ => ?_
      split
      · exact .refl n₃
      · exact obeys_known (enqueueNext_only (hj₂.mono hle₃) (hj₂.mono hle₃) _)

theorem pollJob_known {j : JobId} (hj : n.Knows j) :
    (pollJob cfg j).Obeys (jobProtocol cfg) n fun _ n' => n.Le n' := by
  unfold pollJob
  rw [obeys_bind, obeys_attempt]
  refine Obeys.mono (withRow_known hj fun _ _ _ _ hseen hid _ => pollRow_known _ hseen hid) ?_
  intro r n₁ hle₁
  rw [afterBind_ok]
  refine (obeys_known (n := n₁) ?_).mono fun _ _ h => hle₁.trans h
  split
  · trivial
  · split
    · refine (only_perform.2 (hj.mono hle₁)).bind fun _ => ?_
      unfold reraiseCancelled
      split <;> trivial
    · trivial

/-- The result of a row goes under the row's key and onto the row's handle. -/
theorem materializeDelivered_known {j : JobId} {spec : RequestSpec} {job : Job} {key : Key}
    {out : Fetched} (hj : n.Knows j) (hstores : n.Stores job key) (hnames : spec.names = job.names) :
    (materializeDelivered cfg j spec job key out).Obeys (jobProtocol cfg) n fun _ n' => n.Le n' := by
  unfold materializeDelivered
  refine known_bind ?_ fun _ n₁ hle₁ => known_bind ?_ fun _ n₂ hle₂ =>
    known_bind (recordEventSafe_only (fun _ => trivial) _ _ _) fun _ n₃ hle₃ =>
      known_bind (transitionState_only ?_) fun _ n₄ _ => ?_
  · unfold logMaterializationDrift
    split
    · trivial
    · exact only_swallow (only_map (only_perform.2 trivial))
  · unfold resolveHandle
    split
    · trivial
    · rename_i h hobs
      refine only_map (only_perform.2 fun key' hkey => ?_)
      obtain rfl := Option.some.inj (Option.some.inj hkey)
      exact ⟨job, hstores.mono hle₁, hnames ▸ hobs, by rw [← hnames]; rfl⟩
  · refine ⟨.enter _ _, fun j' hq => ?_, Or.inl (enterState_keepsRoute rfl).keepsUrl⟩
    obtain rfl := JobQuery.getJob.inj hq
    exact hj.mono ((hle₁.trans hle₂).trans hle₃)
  · unfold afterReady
    refine known_bind (sweep_known _ _) fun _ n₅ _ => swallow_known ?_
    rw [obeys_bind]
    refine (maybePrefetch_known _ _ _ _).mono ?_
    rintro (e | decision) n₆ hle₆ <;> exact hle₆

theorem materializeRow_known {j : JobId} {spec : RequestSpec} {job : Job} (htask : n.task = some j)
    (hseen : job ∈ n.seen) (hid : job.jobId = j) (hnames : spec.names = job.names) :
    (materializeRow cfg j spec job).Obeys (jobProtocol cfg) n fun _ n' => n.Le n' := by
  have hj {n' : JobNotes} (hle : n.Le n') : n'.Knows j := Or.inl (hle.task.trans htask)
  have hstores (url : Option String) (name : String) {n' : JobNotes} (hle : n.Le n') :
      n'.Stores job (materializedKey spec.provider spec.jobHandle url name) :=
    ⟨hle.seen hseen, by rw [hle.task, htask, hid], spec.provider, url, name, by rw [← hnames]; rfl⟩
  unfold materializeRow providerMaterialize
  refine known_bind ((loadJobIdentity_only _ _ _ _).mono fun _ => TaskOp.known (hj (.refl n)))
    fun identity n₁ hle₁ => known_bind ((loadProvider_only _ _).mono fun _ =>
      TaskOp.known (hj hle₁)) fun _ n₂ hle₂ => ?_
  have hle := hle₁.trans hle₂
  have hfail (e : Exn) {n' : JobNotes} (hle' : n.Le n') :
      (materializeFailed cfg j spec identity e).Obeys (jobProtocol cfg) n' fun _ n'' => n'.Le n'' :=
    obeys_known ((materializeFailed_only _ _ _ _).mono fun _ => TaskOp.known (hj hle'))
  rw [obeys_bind, obeys_attempt, obeys_bind]
  refine job_step ⟨job, hle.seen hseen, hid, rfl⟩ fun a _ => ?_
  cases a with
  | error e => exact hfail e hle
  | ok out =>
    have hle₃ := n₂.le_observe
      (.provider (.fetch j spec.provider job.providerJobUrl identity)) (.ok out)
    rw [afterBind_ok, obeys_bind]
    refine job_step (Or.inr ⟨job, hstores _ _ (hle.trans hle₃)⟩) fun a _ => ?_
    cases a with
    | error e => exact (hfail e (hle.trans hle₃)).mono fun _ _ h => hle₃.trans h
    | ok u =>
      have hle₄ := hle₃.trans (JobNotes.le_observe _ (.storage (.put (materializedKey spec.provider
        spec.jobHandle job.providerJobUrl out.name) (fetchedBlob spec identity out))) (.ok u))
      exact (materializeDelivered_known (hj (hle.trans hle₄)) (hstores _ _ (hle.trans hle₄))
        hnames).mono fun _ _ h => hle₄.trans h

theorem materializeJob_known {j : JobId} (htask : n.task = some j) :
    (materializeJob cfg j).Obeys (jobProtocol cfg) n fun _ n' => n.Le n' :=
  withRow_known (Or.inl htask) fun _ _ _ hle hseen hid hnames =>
    materializeRow_known (hle.task.trans htask) hseen hid hnames

/-! ### The retrieval tools -/

/-- A replay takes over the specification of a row it has read. -/
theorem reenqueueReplay_known {ws : WorkspaceId} {h : HandleId} {job : Job}
    {identity : Option Token} (hseen : job ∈ n.seen) (hobs : job.obsHandle = some h) :
    (reenqueueReplay cfg ws h job identity).Obeys (jobProtocol cfg) n fun _ n' => n.Le n' := by
  unfold reenqueueReplay
  refine known_bind (only_perform.2 nofun) fun jobHandle n₁ hle₁ =>
    known_bind (only_perform.2 nofun) fun row n₂ hle₂ => known_create ?_ fun j n₃ hj => ?_
  · exact Or.inr ⟨job, hle₂.seen (hle₁.seen hseen), rfl, hobs.symm⟩
  · exact (only_perform.2 trivial).bind fun _ => only_map (only_perform.2 hj)

theorem reuseResponseForMatch_known (ws : WorkspaceId) (row : Handle) (identity : Option Token) :
    (reuseResponseForMatch cfg ws row identity).Obeys (jobProtocol cfg) n
      fun _ n' => n.Le n' := by
  have hanswer (answer : RetrievalAnswer) (n' : JobNotes) :
      (reuseAnswer ws row answer).Only n'.MayDo := only_map (only_perform.2 trivial)
  unfold reuseResponseForMatch
  refine known_bind ?_ fun _ n₁ _ => known_step trivial fun jobs htold => ?_
  · unfold promoteIfSpeculative
    split
    · exact (only_perform.2 nofun).bind fun _ => only_perform.2 trivial
    · trivial
  · split
    · exact .refl _
    · rename_i _ job _ hjobs
      have hmem : job ∈ jobs := List.mem_of_head? hjobs
      rw [obeys_bind]
      refine (reenqueueReplay_known (List.mem_append_left _ hmem) (htold _ rfl job hmem)).mono ?_
      rintro (e | answer) n₂ hle₂
      · exact hle₂
      · exact (obeys_known (hanswer _ n₂)).mono fun _ _ h => hle₂.trans h
    · exact obeys_known (hanswer _ _)
    · exact .refl _
    · split
      · exact .refl _
      · exact obeys_known (hanswer _ _)

theorem checkReuse_known (ws : WorkspaceId) (signature : String) (identity : Option Token) :
    (checkReuse cfg ws signature identity).Obeys (jobProtocol cfg) n fun _ n' => n.Le n' := by
  unfold checkReuse
  refine known_bind (only_perform.2 trivial) fun row n₁ _ => ?_
  split
  · exact .refl n₁
  · exact reuseResponseForMatch_known _ _ _

theorem awaitReuse_known (ws : WorkspaceId) (row : Handle) (identity : Option Token) (k : ℕ) :
    (awaitReuse cfg ws row identity k).Obeys (jobProtocol cfg) n fun _ n' => n.Le n' := by
  induction k generalizing n with
  | zero => exact .refl n
  | succ k ih =>
    unfold awaitReuse
    rw [obeys_bind]
    refine (reuseResponseForMatch_known ws row identity).mono ?_
    rintro (e | answer) n₁ hle₁
    · exact hle₁
    · rw [afterBind_ok]
      cases answer with
      | some answer => exact hle₁
      | none => exact ih.mono fun _ _ h => hle₁.trans h

/-- A new request names its own handles. -/
theorem createRetrieval_known (ws : WorkspaceId) (r : ResolvedRequest) (plan : PlannedRetrieval)
    (h : HandleId) (identity : Option Token) :
    (createRetrieval cfg ws r plan h identity).Obeys (jobProtocol cfg) n fun _ n' => n.Le n' := by
  unfold createRetrieval
  refine known_bind (only_perform.2 trivial) fun _ n₁ _ => known_bind (only_perform.2 nofun)
    fun jobHandle n₂ _ => known_create (Or.inl ⟨rfl, rfl⟩) fun j n₃ hj => ?_
  exact (only_perform.2 trivial).bind fun _ => only_map (only_perform.2 hj)

theorem planAndCreate_known (ws : WorkspaceId) (r : ResolvedRequest) (signature : Option String)
    (identity : Option Token) :
    (planAndCreate cfg ws r signature identity).Obeys (jobProtocol cfg) n fun _ n' => n.Le n' := by
  unfold planAndCreate
  refine known_bind (only_perform.2 trivial) fun plan n₁ _ => ?_
  split
  · exact known_bind (only_perform.2 fun _ => rfl) fun h n₂ _ => createRetrieval_known _ _ _ _ _
  · rename_i signature
    refine known_bind (putHandleUniqueSignature_known signature rfl) fun (row, created) n₂ _ => ?_
    dsimp only
    split
    · exact createRetrieval_known _ _ _ _ _
    · rw [obeys_bind]
      refine (awaitReuse_known ws row identity raceRetryAttempts).mono ?_
      rintro (e | answer) n₃ hle₃
      · exact hle₃
      rw [afterBind_ok]
      cases answer with
      | some answer => exact hle₃
      | none =>
        refine Obeys.mono (known_bind (only_perform.2 nofun) fun _ n₄ _ => ?_)
          fun _ _ h => hle₃.trans h
        exact createRetrieval_known _ _ _ _ _

theorem submitNormalized_known (ws : WorkspaceId) (request : RetrievalRequest) (dedupe : Bool)
    (now : Time) (identity : Option Token) :
    (submitNormalized cfg ws request dedupe now identity).Obeys (jobProtocol cfg) n
      fun _ n' => n.Le n' := by
  unfold submitNormalized
  refine known_bind (only_perform.2 trivial) fun (conceptId, bbox) n₂ _ =>
    known_bind (only_perform.2 trivial) fun caps n₃ _ => ?_
  dsimp only
  split
  swap
  · exact planAndCreate_known _ _ _ _
  refine known_bind ?_ fun scope n₄ _ => ?_
  · unfold reuseIdentityScope
    split
    · trivial
    · refine (only_perform.2 trivial).bind fun flagged => ?_
      split <;> trivial
  · rw [obeys_bind]
    refine (checkReuse_known ws _ _).mono ?_
    rintro (e | answer) n₅ hle₅
    · exact hle₅
    rw [afterBind_ok]
    cases answer with
    | some answer => exact hle₅
    | none => exact (planAndCreate_known _ _ _ _).mono fun _ _ h => hle₅.trans h

theorem submitRetrieval_known (ws : WorkspaceId) (request : RetrievalRequest) (dedupe : Bool)
    (token : Option Token) :
    (submitRetrieval cfg ws request dedupe token).Obeys (jobProtocol cfg) n
      fun _ n' => n.Le n' := by
  unfold submitRetrieval
  refine known_bind (only_perform.2 trivial) fun now n₁ _ => ?_
  split
  · exact .refl n₁
  split
  · exact .refl n₁
  split
  · exact .refl n₁
  · exact submitNormalized_known _ _ _ _ _

theorem resolveCached_known (ws : WorkspaceId) (h : HandleId) : (resolveCached ws h).Only n.MayDo :=
  resolveCached_only trivial

theorem rematerialize_known (ws : WorkspaceId) (h : HandleId) (token : Option Token) :
    (rematerialize cfg ws h token).Obeys (jobProtocol cfg) n fun _ n' => n.Le n' := by
  unfold rematerialize
  refine known_bind (only_perform.2 trivial) fun now n₁ _ => ?_
  split
  · exact .refl n₁
  split
  · exact .refl n₁
  split
  · exact .refl n₁
  refine known_bind (resolveCached_known ws h) fun row n₂ _ => ?_
  split
  · exact .refl n₂
  refine known_step trivial fun jobs htold => ?_
  split
  · exact .refl _
  split
  · exact .refl _
  · rename_i job hjobs
    have hmem : job ∈ jobs := List.mem_of_head? hjobs
    rw [obeys_bind]
    refine (reenqueueReplay_known (List.mem_append_left _ hmem) (htold _ rfl job hmem)).mono ?_
    rintro (e | answer) n₃ hle₃ <;> exact hle₃

/-! ### The other tools -/

theorem attemptProviderCancel_known {row : Job} (hseen : row ∈ n.seen) (token : Option Token) :
    (attemptProviderCancel row token).Only n.MayDo := by
  unfold attemptProviderCancel
  split
  · trivial
  split
  · trivial
  · refine Only.bind (Only.attempt ?_) fun r => ?_
    · unfold cancelUpstream
      split
      · trivial
      · exact only_perform.2 ⟨row, hseen, rfl, rfl⟩
    · split
      · trivial
      · split <;> trivial

theorem cancelRetrieval_known (ws : WorkspaceId) (h : HandleId) (token : Option Token) :
    (cancelRetrieval cfg ws h token).Obeys (jobProtocol cfg) n fun _ n' => n.Le n' := by
  unfold cancelRetrieval
  refine known_bind (only_perform.2 trivial) fun now n₁ _ => ?_
  split
  · exact .refl n₁
  split
  · exact .refl n₁
  refine known_bind (Only.attempt (only_perform.2 trivial)) fun r n₂ _ => ?_
  split
  · exact .refl n₂
  · exact .refl n₂
  · exact .refl n₂
  refine known_step ⟨.cancel, nofun, Or.inl cancelRow_keepsRoute.keepsUrl⟩ fun rows _ => ?_
  split
  · exact .refl _
  split
  · exact .refl _
  split
  · exact .refl _
  · exact obeys_known (only_map (attemptProviderCancel_known
      (JobNotes.seen_observe List.mem_cons_self) _))

theorem ReadingOp.known {o : Op} (h : ReadingOp o) : n.MayDo o := by
  cases h with
  | pin ws h b => exact nofun
  | _ => trivial

theorem CubeOp.known {cube : CubeResult} {o : Op} (h : CubeOp cfg cube o) : n.MayDo o := by
  cases h with
  | put => exact Or.inl ⟨_, _, rfl⟩
  | mint ws => exact nofun
  | provenance w => trivial

/-! ### Every program -/

theorem runTask_known (id : ArqId) {p : Program Unit}
    (hp : p.Obeys (jobProtocol cfg) n fun _ n' => n.Le n') :
    (runTask id p).Obeys (jobProtocol cfg) n fun _ n' => n.Le n' := by
  unfold runTask
  rw [obeys_bind, obeys_attempt]
  refine hp.mono fun r n' hle => ?_
  rw [afterBind_ok]
  refine (obeys_known (n := n') ?_).mono fun _ _ h => hle.trans h
  split
  · exact only_map (only_perform.2 trivial)
  · exact (only_perform.2 trivial).bind fun _ => trivial

theorem taskProgram_known {t : Task} {j : JobId} (htask : n.task = some j) :
    (t.program cfg j).Obeys (jobProtocol cfg) n fun _ n' => n.Le n' := by
  cases t with
  | submitJob => exact submitJob_known (Or.inl htask)
  | pollJob => exact pollJob_known (Or.inl htask)
  | materializeJob => exact materializeJob_known htask

/-- Every program works on the jobs it knows. -/
theorem program_jobNotes (g : Origin) :
    (g.program cfg).Obeys (jobProtocol cfg) ((jobMonitor cfg).start g) fun _ _ => True := by
  have hmap {α : Type} {p : Program α} {f : α → Outcome} {n : JobNotes}
      (hp : p.Obeys (jobProtocol cfg) n fun _ n' => n.Le n') :
      (do let a ← p; pure (f a) : Program Outcome).Obeys (jobProtocol cfg) n fun _ _ => True := by
    rw [obeys_bind]
    refine hp.mono ?_
    rintro (e | a) n' - <;> trivial
  cases g with
  | task id t j => exact (runTask_known id (taskProgram_known rfl)).mono fun _ _ _ => trivial
  | startup => exact hmap startup_known
  | sweepStalledJobs => exact hmap sweepStalledJobs_known
  | evictionSweep svc p =>
    exact hmap (obeys_known ((sweep_only svc p).mono fun _ => SweepOp.known))
  | retrieveSubset ws request token => exact hmap (submitRetrieval_known _ _ _ _)
  | retrieveData ws request token => exact hmap (submitRetrieval_known _ _ _ _)
  | rematerialize ws h token => exact hmap (rematerialize_known _ _ _)
  | cancelRetrieval ws h token => exact hmap (cancelRetrieval_known _ _ _)
  | exportResult ws h token =>
    exact hmap (obeys_known ((exportResult_only ws h token).mono fun _ => ReadingOp.known))
  | pinResult ws h pinned token =>
    exact hmap (obeys_known ((pinResult_only cfg ws h pinned token).mono fun _ => ReadingOp.known))
  | emitCube ws cube =>
    exact hmap (obeys_known ((emitCube_only cfg ws cube).mono fun _ => CubeOp.known))

end programs

end EarthdataMcp
