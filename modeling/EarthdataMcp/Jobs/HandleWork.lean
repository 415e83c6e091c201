import EarthdataMcp.Jobs.Phases

/-!
# What a thread has begun on a handle

A handle and its jobs are written in separate transactions: a replay marks the handle pending
and then creates the job, a materialization marks it ready and then its job, an eviction marks
it expired and then walks its job there.

* `Job.SpecFor`, a row whose specification names the handle it fills; `Edit.Ordinary`, what the
  other transactions leave alone;
* `HandleWork`, what a thread has begun and has still to complete; `HandleNotes`, with
  `handleMonitor` and `HandleNotes.MayDo`;
* `Op.Still` and `Op.Ordinary`: operations that begin nothing.
-/

namespace EarthdataMcp

open Concurrency Concurrency.Prog Concurrency.System

/-! ### What most transactions leave alone -/

/-- The specification names the handle whose bytes it describes. -/
def StoredSpec.For (stored : StoredSpec) (h : Option HandleId) : Prop :=
  ∀ spec, fromJsonb stored = .ok spec → spec.obsHandle = h

/-- The row's specification names the row's handle. -/
def Job.SpecFor (job : Job) : Prop := job.requestSpec.For job.obsHandle

/-- The row's specification names the row's handle, and this is an `obs_` handle. -/
structure Job.Good (job : Job) : Prop where
  specFor : job.SpecFor
  obs : ∀ h, job.obsHandle = some h → h.type = .obs

/-- The row moves, and its specification still names its handle. -/
structure Job.Keeps (job job' : Job) : Prop where
  moves : job.Moves job'
  specFor : job.SpecFor → job'.SpecFor

theorem Job.Good.keeps {job job' : Job} (h : job.Good) (hkeeps : job.Keeps job') : job'.Good :=
  ⟨hkeeps.specFor h.specFor, fun handle hobs => h.obs handle (hkeeps.moves.obsHandle ▸ hobs)⟩

theorem Job.KeepsRoute.keeps {job job' : Job} (h : job.KeepsRoute job') : job.Keeps job' := by
  refine ⟨h.moves, fun hspec => ?_⟩
  unfold Job.SpecFor
  rw [h.requestSpec, h.moves.obsHandle]
  exact hspec

/-- Every row the edit accepts keeps what `Job.Keeps` says. -/
def Edit.Keeps (edit : Edit) : Prop := ∀ now job job', edit now job = .ok job' → job.Keeps job'

/-- The edit neither delivers a job nor expires it. -/
structure Edit.Ordinary (edit : Edit) : Prop where
  keeps : edit.Keeps
  final : ∀ now job job', edit now job = .ok job' → job'.state = .ready ∨ job'.state = .expired →
    job'.state = job.state

theorem Edit.KeepsRoute.keeps {edit : Edit} (h : edit.KeepsRoute) : edit.Keeps :=
  fun now job job' hok => (h now job job' hok).keeps

theorem enterState_ordinary {new : JobState} {extra : Extra} (hroute : (enterState new extra).Keeps)
    (hready : new ≠ .ready) (hexpired : new ≠ .expired) : (enterState new extra).Ordinary := by
  refine ⟨hroute, fun now job job' hok hfinal => ?_⟩
  obtain ⟨-, rfl⟩ := setState_eq_ok.1 (enterState_eq_ok hok)
  rw [Job.enter_state] at hfinal
  exact (hfinal.elim hready hexpired).elim

theorem enterState_keeps (new : JobState) (extra : Extra) : (enterState new extra).Keeps := by
  intro now job job' hok
  have hmoves := Job.Moves.setState (enterState_eq_ok hok)
  obtain ⟨-, rfl⟩ := setState_eq_ok.1 (enterState_eq_ok hok)
  refine ⟨hmoves, fun hspec => ?_⟩
  unfold Job.SpecFor
  rw [Job.enter_requestSpec, Job.enter_obsHandle]
  exact hspec

/-- An edit that leaves a row alone, or does what an ordinary edit does. -/
theorem Edit.ordinary_of_cases {edit : Edit} (hcases : ∀ now job, edit now job = .ok job ∨
    ∃ ordinary : Edit, ordinary.Ordinary ∧ edit now job = ordinary now job) : edit.Ordinary := by
  refine ⟨fun now job job' hok => ?_, fun now job job' hok hfinal => ?_⟩ <;>
    rcases hcases now job with heq | ⟨ordinary, hordinary, heq⟩
  · obtain rfl := Except.ok.inj (heq.symm.trans hok)
    exact ⟨.refl job, id⟩
  · exact hordinary.keeps now job job' (heq.symm.trans hok)
  · obtain rfl := Except.ok.inj (heq.symm.trans hok)
    rfl
  · exact hordinary.final now job job' (heq.symm.trans hok) hfinal

theorem failed_ordinary (extra : Extra) : (enterState .failed extra).Ordinary :=
  enterState_ordinary (enterState_keeps _ _) (by decide) (by decide)

theorem submitted_ordinary (extra : Extra) : (enterState .submitted extra).Ordinary :=
  enterState_ordinary (enterState_keeps _ _) (by decide) (by decide)

theorem failInvalidSpec_ordinary (wanted : JobState → Bool) : (failInvalidSpec wanted).Ordinary := by
  refine Edit.ordinary_of_cases fun now job => ?_
  unfold failInvalidSpec
  split_ifs
  · split
    · exact Or.inr ⟨_, failed_ordinary _, rfl⟩
    · exact Or.inl rfl
  · exact Or.inl rfl

theorem triage_ordinary (staleBefore : Time) : (triage staleBefore).Ordinary := by
  refine Edit.ordinary_of_cases fun now job => ?_
  unfold triage
  split
  · exact Or.inr ⟨_, failed_ordinary _, rfl⟩
  · split_ifs
    · exact Or.inr ⟨_, failed_ordinary _, rfl⟩
    · exact Or.inl rfl

theorem cancelRow_ordinary : cancelRow.Ordinary := by
  refine Edit.ordinary_of_cases fun now job => ?_
  unfold cancelRow
  split_ifs
  · exact Or.inr ⟨_, enterState_ordinary (enterState_keeps _ _) (by decide) (by decide), rfl⟩
  · exact Or.inl rfl

theorem rerouteToOpendap_ordinary : rerouteToOpendap.Ordinary := by
  refine ⟨fun now job job' hok => ?_, fun now job job' hok _ => ?_⟩
  · have hmoves := rerouteToOpendap_disciplined now job job' hok
    obtain rfl := Except.ok.inj hok
    refine ⟨hmoves, fun hspec spec hspec' => ?_⟩
    unfold fromJsonb StoredSpec.withProvider at hspec'
    dsimp only at hspec'
    split at hspec'
    · cases hspec'
    · rename_i hdefect
      obtain rfl := Except.ok.inj hspec'
      exact hspec job.requestSpec.spec (by simp only [fromJsonb, hdefect])
  · obtain rfl := Except.ok.inj hok
    rfl

/-- A poll neither delivers a job nor expires it. -/
theorem applyStatus_ordinary (status : JobStatus) : (applyStatus status).Ordinary := by
  refine ⟨(applyStatus_keepsRoute status).keeps, fun now job job' hok => ?_⟩
  unfold applyStatus at hok
  split_ifs at hok
  · obtain rfl := Except.ok.inj hok
    exact fun _ => rfl
  · split at hok
    · rename_i a ha
      obtain rfl := Except.ok.inj hok
      have hset (j j' : Job) (new : JobState) (extra : Extra) (hs : setState now j new extra = .ok j')
          (_ : extra.providerJobUrl = none) (hready : new ≠ .ready) (hexpired : new ≠ .expired)
          (hfinal : j'.state = .ready ∨ j'.state = .expired) : j'.state = j.state := by
        obtain ⟨-, rfl⟩ := setState_eq_ok.1 hs
        rw [Job.enter_state] at hfinal
        exact (hfinal.elim hready hexpired).elim
      have hrel := applyPoll_rel (R := fun j j' => j'.state = .ready ∨ j'.state = .expired →
        j'.state = j.state) ha hset (fun _ _ _ _ => rfl) fun i j k hij hjk hfinal =>
          (hjk hfinal).trans (hij (hjk hfinal ▸ hfinal))
      exact hrel
    · cases hok

theorem expireReady_keeps : expireReady.Keeps := by
  intro now job job' hok
  unfold expireReady at hok
  split_ifs at hok
  · exact enterState_keeps _ _ now job job' hok
  · obtain rfl := Except.ok.inj hok
    exact ⟨.refl job, id⟩

/-! ### Notes -/

/-- What a thread has begun on a handle and has still to complete. -/
inductive HandleWork
  /-- Marked pending; a job is to be created. -/
  | fill (h : HandleId)
  /-- Marked ready; its job is to be marked ready. -/
  | deliver (h : HandleId)
  /-- Marked expired; its job is to be walked there. -/
  | expire (h : HandleId)
  deriving DecidableEq, Repr

/-- What is known of a thread: the job it is a task of, the rows and the handles it has been
shown, those of them that were expired, the latest job it has looked up for a handle, and what
it has begun. -/
structure HandleNotes where
  task : Option JobId := none
  seen : List Job := []
  known : List HandleId := []
  expired : List HandleId := []
  looked : Option (HandleId × Option Job) := none
  work : Option HandleWork := none

namespace HandleNotes

/-- The notes of a thread that has done nothing yet. -/
def start : Origin → HandleNotes
  | .task _ .materializeJob j => { task := some j }
  | _ => {}

/-- A row of the `handles` table has been shown. -/
def shown (n : HandleNotes) (row : Handle) : HandleNotes :=
  { n with
    known := row.handle :: n.known
    expired := if row.payload.status = some .expired then row.handle :: n.expired else n.expired }

/-- The work begun by writing this status. -/
def begun (h : HandleId) : HandleStatus → HandleWork
  | .pending => .fill h
  | .ready => .deliver h
  | .expired => .expire h

/-- A transaction on the jobs table completes what is to be done to a job. -/
def completed : Option HandleWork → Option HandleWork
  | some (.fill h) => some (.fill h)
  | _ => none

/-- The creation of a job for the handle completes what was to be filled. -/
def filled (new : NewJob) : Option HandleWork → Option HandleWork
  | some (.fill h) => if new.obsHandle = some h then none else some (.fill h)
  | work => work

/-- The notes after an operation. -/
def observe (n : HandleNotes) : (o : Op) → Except Exn o.Ans → HandleNotes
  | .handles (.getHandle _ _), .ok row => n.shown row
  | .handles (.findBySignature _ _), .ok (some row) => n.shown row
  | .handles (.insertUnique _ _ _), .ok (some row) =>
      { n.shown row with looked := some (row.handle, none) }
  | .handles (.putHandle _ type _), .ok h =>
      { n with
        known := h :: n.known, looked := if type = .obs then some (h, none) else n.looked }
  | .handles (.updateHandle _ h u), .ok _ => { n with work := (u.status.map (begun h)).or n.work }
  | .jobs (.read (.getJobByObsHandle h)), .ok rows =>
      { n with seen := rows ++ n.seen, looked := some (h, rows.head?) }
  | .jobs (.read _), .ok rows => { n with seen := rows ++ n.seen }
  | .jobs (.transact _ _), .ok rows =>
      { n with seen := rows ++ n.seen, work := completed n.work }
  | .jobs (.create new), .ok _ => { n with work := filled new n.work }
  | _, _ => n

/-- No handle is marked pending without its job. -/
def NotFilling (n : HandleNotes) : Prop := ∀ h, n.work ≠ some (.fill h)

/-- The thread has been shown the row of its own job, which fills this handle. -/
def TaskFor (n : HandleNotes) (j : JobId) (h : Option HandleId) : Prop :=
  n.task = some j ∧ ∃ row ∈ n.seen, row.jobId = j ∧ row.obsHandle = h

/-- Delivering a job: its handle has been marked ready, if it has one. -/
def Delivers (n : HandleNotes) (q : JobQuery) (edit : Edit) : Prop :=
  ∃ j extra, q = .getJob j ∧ edit = enterState .ready extra ∧
    (n.work = none ∧ n.TaskFor j none ∨ ∃ h, n.work = some (.deliver h) ∧ n.TaskFor j (some h))

/-- Expiring the latest job of a handle that has been marked expired. -/
def Expires (n : HandleNotes) (q : JobQuery) (edit : Edit) : Prop :=
  ∃ h, n.work = some (.expire h) ∧ q = .getJobByObsHandle h ∧ edit = expireReady

/-- A transaction on jobs completes what the thread has begun, if it has begun anything. -/
def Transacts (n : HandleNotes) (q : JobQuery) (edit : Edit) : Prop :=
  n.work = none ∧ edit.Ordinary ∨ n.Delivers q edit ∨ n.Expires q edit

/-- The latest job of the handle was looked up: there was none, or it was dead, or the handle
had expired. -/
def LooksUp (n : HandleNotes) (h : HandleId) : Prop :=
  h ∈ n.known ∧ h.type = .obs ∧
    ∃ latest, n.looked = some (h, latest) ∧ (h ∈ n.expired ∨ ∀ job ∈ latest, job.Dead)

/-- A job is created for a handle whose latest job was looked up. -/
def Creates (n : HandleNotes) (new : NewJob) : Prop :=
  ∃ h, new.obsHandle = some h ∧ new.requestSpec.For (some h) ∧ n.LooksUp h

/-- A status is written to a handle, by a thread that has completed what it has begun: `ready` for
its own job only, `pending` after the latest job was looked up. -/
structure Writes (n : HandleNotes) (h : HandleId) (status : HandleStatus) : Prop where
  idle : n.work = none
  ready : status = .ready → ∃ j, n.TaskFor j (some h)
  pending : status = .pending → n.LooksUp h

/-- What a thread may do. -/
def MayDo (n : HandleNotes) : Op → Prop
  | .jobs (.transact q edit) => n.Transacts q edit
  | .jobs (.commit _ _) => False
  | .jobs (.create new) => n.Creates new
  | .handles (.updateHandle _ h u) => ∀ status, u.status = some status → n.Writes h status
  | .handles (.putHandle _ type payload) => type = .obs → payload.status = some .pending
  | .handles (.insertUnique _ type payload) => type = .obs → payload.status = some .pending
  | _ => True

end HandleNotes

/-- A handle that is answered is the one that was asked for, or of the type that was. -/
def Op.Names (o : Op) (a : Except Exn o.Ans) : Prop :=
  match o, a with
  | .handles (.getHandle _ h), .ok row => row.handle = h
  | .handles (.findBySignature _ _), .ok (some row) => row.handle.type = .obs
  | .handles (.insertUnique _ type _), .ok (some row) => row.handle.type = type
  | .handles (.putHandle _ type _), .ok h => h.type = type
  | _, _ => True

/-- What a thread can rely on: the rows it is shown are those it asks for, and their
specifications name their handles. -/
structure Op.Shows (o : Op) (a : Except Exn o.Ans) : Prop where
  told : o.Told a
  good : ∀ row ∈ o.rowsRead a, row.Good
  names : o.Names a

/-- The monitor of the work on handles. -/
def handleMonitor (cfg : Settings) : Monitor (service cfg) HandleNotes where
  start := HandleNotes.start
  observe n o a := n.observe o a

/-- Threads write handles and their jobs in order. -/
abbrev workProtocol (cfg : Settings) : Protocol Api HandleNotes :=
  (handleMonitor cfg).protocol HandleNotes.MayDo fun _ o a => o.Shows a

/-! ### What operations do to the notes -/

namespace HandleNotes

/-- `n'` knows what `n` knows. -/
structure Le (n n' : HandleNotes) : Prop where
  task : n'.task = n.task
  seen : n.seen ⊆ n'.seen
  known : n.known ⊆ n'.known
  expired : n.expired ⊆ n'.expired

theorem Le.refl (n : HandleNotes) : n.Le n := ⟨rfl, fun _ h => h, fun _ h => h, fun _ h => h⟩

theorem Le.trans {n n' n'' : HandleNotes} (h : n.Le n') (h' : n'.Le n'') : n.Le n'' :=
  ⟨h'.task.trans h.task, List.Subset.trans h.seen h'.seen, List.Subset.trans h.known h'.known,
    List.Subset.trans h.expired h'.expired⟩

theorem le_shown (n : HandleNotes) (row : Handle) : n.Le (n.shown row) := by
  refine ⟨rfl, fun _ h => h, List.subset_cons_self _ _, ?_⟩
  unfold shown
  dsimp only
  split_ifs
  · exact List.subset_cons_self _ _
  · exact fun _ h => h

theorem shown_expired {n : HandleNotes} {row : Handle} (h : row.payload.status = some .expired) :
    row.handle ∈ (n.shown row).expired := by
  unfold shown
  dsimp only
  rw [if_pos h]
  exact List.mem_cons_self

theorem le_observe (n : HandleNotes) (o : Op) (a : Except Exn o.Ans) : n.Le (n.observe o a) := by
  unfold observe
  split
  · exact le_shown n _
  · exact le_shown n _
  · exact ⟨rfl, fun _ h => h, (le_shown n _).known, (le_shown n _).expired⟩
  · exact ⟨rfl, fun _ h => h, List.subset_cons_self _ _, fun _ h => h⟩
  · exact ⟨rfl, fun _ h => h, fun _ h => h, fun _ h => h⟩
  · exact ⟨rfl, List.subset_append_right _ _, fun _ h => h, fun _ h => h⟩
  · exact ⟨rfl, List.subset_append_right _ _, fun _ h => h, fun _ h => h⟩
  · exact ⟨rfl, List.subset_append_right _ _, fun _ h => h, fun _ h => h⟩
  · exact ⟨rfl, fun _ h => h, fun _ h => h, fun _ h => h⟩
  · exact .refl n

theorem TaskFor.mono {n n' : HandleNotes} {j : JobId} {h : Option HandleId} (ht : n.TaskFor j h)
    (hle : n.Le n') : n'.TaskFor j h := by
  obtain ⟨htask, row, hrow, hrest⟩ := ht
  exact ⟨hle.task.trans htask, row, hle.seen hrow, hrest⟩

end HandleNotes

/-- The operation neither begins nor completes anything. -/
def Op.Still : Op → Prop
  | .jobs (.read _) => True
  | .jobs _ => False
  | .handles (.updateHandle _ _ u) => u.status = none
  | .handles (.putHandle _ type _) => type ≠ .obs
  | .handles (.insertUnique _ _ _) => False
  | _ => True

theorem Op.Still.mayDo {o : Op} (ho : o.Still) (n : HandleNotes) : n.MayDo o := by
  cases o with
  | jobs o => cases o <;> first | exact ho.elim | trivial
  | handles o =>
    cases o with
    | updateHandle ws h u =>
      intro status hstatus
      rw [show u.status = none from ho] at hstatus
      cases hstatus
    | putHandle ws type payload => exact fun htype => absurd htype ho
    | insertUnique ws type payload => exact ho.elim
    | _ => trivial
  | _ => trivial

theorem Op.Still.work {o : Op} (ho : o.Still) (n : HandleNotes) (a : Except Exn o.Ans) :
    (n.observe o a).work = n.work := by
  unfold HandleNotes.observe
  split
  case h_5 ws h u row =>
    dsimp only
    rw [show u.status = none from ho]
    rfl
  all_goals first | rfl | exact ho.elim

/-- The operation begins nothing, and completes at most what is not to be filled. -/
inductive Op.Ordinary : Op → Prop
  | still {o : Op} (h : o.Still) : Ordinary o
  | transact (q : JobQuery) {edit : Edit} (h : edit.Ordinary) : Ordinary (.jobs (.transact q edit))

theorem Op.Ordinary.mayDo {o : Op} (ho : o.Ordinary) {n : HandleNotes} (hn : n.work = none) :
    n.MayDo o := by
  cases ho with
  | still h => exact h.mayDo n
  | transact q h => exact Or.inl ⟨hn, h⟩

theorem Op.Ordinary.work {o : Op} (ho : o.Ordinary) {n : HandleNotes} (hn : n.work = none)
    (a : Except Exn o.Ans) : (n.observe o a).work = none := by
  cases ho with
  | still h => exact (h.work n a).trans hn
  | transact q h =>
    cases a with
    | error e => exact hn
    | ok rows =>
      show HandleNotes.completed n.work = none
      rw [hn]
      rfl

/-! ### Programs that keep to that -/

section programs

variable {cfg : Settings} {α : Type} {n : HandleNotes}

theorem obeys_still {p : Program α} (hp : p.Only Op.Still) :
    p.Obeys (workProtocol cfg) n fun _ n' => n.Le n' ∧ n'.work = n.work := by
  refine hp.obeys (fun n' _ _ ho => ho.mayDo n') (fun n' o a n'' hn ho hnext => ?_) ⟨.refl n, rfl⟩
  obtain rfl := hnext.2
  exact ⟨hn.1.trans (n'.le_observe o a), (ho.work n' a).trans hn.2⟩

theorem obeys_ordinary {p : Program α} (hp : p.Only Op.Ordinary) (hn : n.work = none) :
    p.Obeys (workProtocol cfg) n fun _ n' => n.Le n' ∧ n'.work = none := by
  refine hp.obeys ?_ ?_ ⟨.refl n, hn⟩
  · exact fun n' _ hn' ho => ho.mayDo hn'.2
  · intro n' o a n'' hn' ho hnext
    obtain rfl := hnext.2
    exact ⟨hn'.1.trans (n'.le_observe o a), ho.work hn'.2 a⟩

/-- A step of a thread. -/
theorem obeys_step {o : Op} {post : Except Exn o.Ans → HandleNotes → Prop} (ho : n.MayDo o)
    (hpost : ∀ a, o.Shows a → post a (n.observe o a)) :
    (perform o).Obeys (workProtocol cfg) n post := by
  rw [obeys_perform]
  refine ⟨ho, ?_⟩
  rintro a n' ⟨hshows, rfl⟩
  exact hpost a hshows

end programs

end EarthdataMcp
