import EarthdataMcp.Jobs.UpstreamJobs
import EarthdataMcp.Tools.WorkspaceScope

/-!
# Whose bytes a storage key names

A retrieval is stored under the `job_` handle of its specification, which a replay takes over from
the job it repeats.  So the key of an `obs_` handle names a `job_` handle of the same workspace that
fills this very handle, and keys of different handles differ.

* `Job.KeyedBy`, `Handle.KeyedBy`: the `job_` handle behind a specification, and behind a key;
* `Keyed`, the invariant, over the notes of `Jobs.JobNotes` and the registry;
* `results_apart`: two `obs_` handles never share a storage key;
* `result_handle_found`: a task that resolves a handle to its key finds it;
* `bytes_of_own_job`: the bytes of an `obs_` handle are only ever written by a task of a job that
  fills it.
-/

namespace EarthdataMcp

open Concurrency Concurrency.Prog Concurrency.System

/-! ### The `job_` handle behind a key -/

/-- The job's specification names its workspace, the handle it fills, and a `job_` handle of that
workspace which was minted for this handle. -/
structure Job.KeyedBy (t : HandleTable) (job : Job) (ws : WorkspaceId) (h : HandleId) : Prop where
  workspaceId : job.names.workspaceId = some ws
  jobHandle : job.names.jobHandle = some h
  obsHandle : job.names.obsHandle = job.obsHandle
  named : ∃ row, t.row h = some row ∧ row.Names ws job.obsHandle

/-- The job's bytes go under a key of its own handle. -/
def Job.Keyed (t : HandleTable) (job : Job) : Prop := ∃ ws jobHandle, job.KeyedBy t ws jobHandle

/-- The key is one of the retrieval that fills the handle. -/
def Handle.KeyedBy (t : HandleTable) (row : Handle) (key : Key) : Prop :=
  ∃ provider jobHandle name, key = .retrieval provider (.jobHandle jobHandle) name ∧
    ∃ minted, t.row jobHandle = some minted ∧ minted.Names row.workspaceId (some row.handle)

/-- The handle's storage key, where it has one, is one of its own retrieval. -/
def Handle.Keyed (t : HandleTable) (row : Handle) : Prop :=
  row.handle.type = .obs → ∀ key, row.payload.storageKey = some key → row.KeyedBy t key

theorem Job.Keyed.grows {t t' : HandleTable} {job : Job} (h : job.Keyed t) (hgrows : t.Grows t') :
    job.Keyed t' := by
  obtain ⟨ws, jobHandle, hws, hjob, hobs, hnamed⟩ := h
  exact ⟨ws, jobHandle, hws, hjob, hobs, hgrows.names hnamed⟩

theorem Job.Keyed.same {t : HandleTable} {job job' : Job} (h : job.Keyed t)
    (hnames : job'.names = job.names) (hobs : job'.obsHandle = job.obsHandle) : job'.Keyed t := by
  obtain ⟨ws, jobHandle, hws, hjob, hobs', hnamed⟩ := h
  refine ⟨ws, jobHandle, hnames ▸ hws, hnames ▸ hjob, ?_, ?_⟩
  · rw [hnames, hobs, hobs']
  · rw [hobs]
    exact hnamed

theorem Handle.KeyedBy.grows {t t' : HandleTable} {row row' : Handle} {key : Key}
    (h : row.KeyedBy t key) (hgrows : t.Grows t') (hlasts : row.Lasts row') :
    row'.KeyedBy t' key := by
  obtain ⟨provider, jobHandle, name, rfl, hnamed⟩ := h
  refine ⟨provider, jobHandle, name, rfl, ?_⟩
  rw [hlasts.workspaceId, hlasts.handle]
  exact hgrows.names hnamed

theorem materializedKey_jobHandle (provider : Provider) (h : HandleId) (url : Option String)
    (name : String) : ∃ p n, materializedKey provider (some h) url name =
      .retrieval p (.jobHandle h) n := by
  cases provider <;> exact ⟨_, _, rfl⟩

/-- A key that a thread may store under is one of its own job. -/
theorem JobNotes.Stores.exists_key {n : JobNotes} {t : HandleTable} {job : Job} {key : Key}
    (h : n.Stores job key) {ws : WorkspaceId} {jobHandle : HandleId}
    (hkeyed : job.KeyedBy t ws jobHandle) :
    ∃ provider name, key = .retrieval provider (.jobHandle jobHandle) name := by
  obtain ⟨provider, url, name, rfl⟩ := h.key
  rw [hkeyed.jobHandle]
  exact materializedKey_jobHandle provider jobHandle url name

/-! ### One operation on the handles -/

section exec

variable {n : JobNotes} {w w' : World} {o : Op} {c : Choice} {a : Except Exn o.Ans}

/-- A key that comes onto a handle is one of the handle's own retrieval. -/
theorem Handle.Keyed.updated {t : HandleTable} {row : Handle} (h : row.Keyed t) (now : Time)
    {u : PayloadUpdate} (hu : ∀ key, u.storageKey = some (some key) → row.KeyedBy t key) :
    (row.updated now u).Keyed t := by
  intro htype key hkey
  rw [Handle.updated_payload, Payload.merge_storageKey] at hkey
  rw [Handle.updated_handle] at htype
  have hby : row.KeyedBy t key := by
    cases hstored : u.storageKey with
    | none =>
      rw [hstored] at hkey
      exact h htype key hkey
    | some stored =>
      rw [hstored] at hkey
      obtain rfl : stored = some key := hkey
      exact hu key hstored
  exact hby.grows (.refl t) (row.lasts_updated now u)

/-- Whatever a thread does, the handles keep to keys of their own. -/
theorem JobNotes.MayDo.keyed_exec (hmay : n.MayDo o)
    (hseen : ∀ job ∈ n.seen, job.Keyed w.handles) (he : w.exec o c = some (a, w'))
    (hnumbered : w.handles.Numbered) (hw : ∀ row ∈ w.handles.rows, row.Keyed w.handles) :
    ∀ row ∈ w'.handles.rows, row.Keyed w'.handles := by
  have hgrows := World.grows_exec he
  suffices h : ∀ row ∈ w'.handles.rows, row.Keyed w.handles from
    fun row hrow htype key hkey => (h row hrow htype key hkey).grows hgrows (.refl row)
  by_cases hs : ∃ x, o = .handles x
  swap
  · rw [World.exec_handles_eq_self he fun x hx => hs ⟨x, hx⟩]
    exact hw
  obtain ⟨x, rfl⟩ := hs
  rcases World.exec_handles he with ⟨-, -, rfl⟩ | ⟨e, -, rfl⟩
  swap
  · exact hw
  rcases HandleTable.exec_cases (t := w.handles) w.clock x with
    heq | ⟨ws, h, u, row, rfl, hl, heq⟩ | ⟨ws, h, rfl, heq⟩ | ⟨ws, type, payload, hx, heq⟩ <;>
    dsimp only <;> rw [heq]
  · exact hw
  · intro row' hrow'
    obtain ⟨old, hold, rfl⟩ := List.mem_map.1 hrow'
    split
    swap
    · exact hw old hold
    rename_i hhandle
    refine (hw old hold).updated w.clock fun key hkey => ?_
    -- the update is a materialization's, of a job that fills this handle
    obtain ⟨job, hstores, hobs, hws⟩ := hmay key hkey
    obtain ⟨ws', jobHandle, hkeyed⟩ := hseen job hstores.seen
    obtain ⟨provider, name, rfl⟩ := hstores.exists_key hkeyed
    obtain ⟨minted, hminted, hnames⟩ := hkeyed.named
    obtain ⟨hrow, rowHandle, rowWorkspace⟩ := HandleTable.lookup_eq_ok hl
    obtain rfl : old = row := by
      refine Option.some.inj ((hnumbered.row_eq hold).symm.trans ?_)
      rw [hhandle, ← rowHandle]
      exact hnumbered.row_eq hrow
    refine ⟨provider, jobHandle, name, rfl, minted, hminted, ?_, ?_⟩
    · rw [hnames.workspaceId, rowWorkspace, ← hws, hkeyed.workspaceId]
      rfl
    · rw [hnames.obsHandle, ← hkeyed.obsHandle, hobs, hhandle]
  · intro row' hrow'
    obtain ⟨old, hold, rfl⟩ := List.mem_map.1 hrow'
    split
    · exact hw old hold
    · exact hw old hold
  · intro row hrow
    rcases List.mem_append.1 hrow with hold | hnew
    · exact hw row hold
    · obtain rfl := List.mem_singleton.1 hnew
      intro htype key hkey
      rcases hx with rfl | rfl
      · rw [show payload.storageKey = none from hmay htype] at hkey
        cases hkey
      · rw [show payload.storageKey = none from hmay] at hkey
        cases hkey

/-- A job that is created goes by the `job_` handle minted for it, or by that of the job it
repeats. -/
theorem JobNotes.MayDo.keyed_create {new : NewJob} {m : OwnerNotes}
    (hmay : n.MayDo (.jobs (.create new)))
    (hregister : m.MayDo (.jobs (.create new))) (hm : m.Holds w)
    (hseen : ∀ job ∈ n.seen, job.Keyed w.handles) (now : Time) (j : JobId) :
    (new.row now j).Keyed w.handles := by
  rcases hmay with hself | ⟨row, hrow, hspec, hobs⟩
  · obtain ⟨ws, hcreates⟩ := hregister
    obtain ⟨-, hnamed, -⟩ := hm.minted _ hcreates.minted
    exact ⟨ws, new.jobHandle, hcreates.workspace, hself.jobHandle, hself.obsHandle, hnamed⟩
  · refine (hseen row hrow).same ?_ hobs
    show new.requestSpec.spec.names = row.requestSpec.spec.names
    rw [hspec]

/-- Whatever a thread does, the jobs keep to keys of their own. -/
theorem JobNotes.MayDo.keyed_jobs {m : OwnerNotes} (hmay : n.MayDo o) (hregister : m.MayDo o)
    (hm : m.Holds w) (hseen : ∀ job ∈ n.seen, job.Keyed w.handles)
    (he : w.exec o c = some (a, w')) (hw : ∀ job ∈ w.jobs.rows, job.Keyed w.handles) :
    ∀ job ∈ w'.jobs.rows, job.Keyed w'.handles := by
  have hgrows := World.grows_exec he
  suffices h : ∀ job ∈ w'.jobs.rows, job.Keyed w.handles from fun job hjob => (h job hjob).grows hgrows
  by_cases hs : ∃ x, o = .jobs x
  swap
  · rw [World.exec_jobs_eq_self he fun x hx => hs ⟨x, hx⟩]
    exact hw
  obtain ⟨x, rfl⟩ := hs
  rcases World.exec_jobs he with ⟨-, -, rfl⟩ | ⟨e, -, rfl⟩
  swap
  · exact hw
  cases x with
  | read q => exact hw
  | commit rows edit => exact hmay.elim
  | transact q edit =>
    simp only [JobTable.exec]
    split
    · exact hw
    · intro job' hjob'
      obtain ⟨job, hjob, rfl⟩ := List.mem_map.1 hjob'
      exact (hw job hjob).same (hmay.1.writeRow_names _ _ _)
        (hmay.1.disciplined.writeRow _ _ _).obsHandle
  | create new =>
    intro job hjob
    rcases List.mem_append.1 hjob with hold | hnew
    · exact hw job hold
    · obtain rfl := List.mem_singleton.1 hnew
      exact hmay.keyed_create hregister hm hseen _ _

theorem JobTable.Evolves.exists_job {now : Time} {t t' : JobTable} (h : t.Evolves now t') {job : Job}
    (hjob : job ∈ t.rows) :
    ∃ job' ∈ t'.rows, job'.jobId = job.jobId ∧ job'.obsHandle = job.obsHandle := by
  cases h with
  | rows f hf => exact ⟨f job, List.mem_map_of_mem hjob, (hf job hjob).jobId, (hf job hjob).obsHandle⟩
  | create new => exact ⟨job, List.mem_append_left _ hjob, rfl, rfl⟩

/-- A job stays in the table, under its id and with the handle it fills. -/
theorem JobNotes.MayDo.exists_job (hmay : n.MayDo o) (he : w.exec o c = some (a, w')) {job : Job}
    (hjob : job ∈ w.jobs.rows) :
    ∃ job' ∈ w'.jobs.rows, job'.jobId = job.jobId ∧ job'.obsHandle = job.obsHandle := by
  by_cases hs : ∃ x, o = .jobs x
  swap
  · rw [World.exec_jobs_eq_self he fun x hx => hs ⟨x, hx⟩]
    exact ⟨job, hjob, rfl, rfl⟩
  obtain ⟨x, rfl⟩ := hs
  rcases World.exec_jobs he with ⟨-, -, rfl⟩ | ⟨e, -, rfl⟩
  swap
  · exact ⟨job, hjob, rfl, rfl⟩
  have hevolves : w.jobs.Evolves w.clock (w.jobs.exec w.clock x).2 := by
    cases x with
    | read q => exact .refl _ _
    | transact q edit => exact JobTable.exec_evolves hmay.1.disciplined trivial
    | commit rows edit => exact hmay.elim
    | create new => exact .create new
  exact hevolves.exists_job hjob

/-- Bytes that come under a key are put there. -/
theorem World.put_of_find (he : w.exec o c = some (a, w')) {key : Key} {blob : Blob}
    (hnew : w'.storage.find key = some blob) (hold : w.storage.find key ≠ some blob) :
    o = .storage (.put key blob) := by
  by_cases hs : ∃ x, o = .storage x
  swap
  · rw [World.exec_storage_eq_self he fun x hx => hs ⟨x, hx⟩] at hnew
    exact absurd hnew hold
  obtain ⟨x, rfl⟩ := hs
  rcases World.exec_storage he with ⟨-, -, rfl⟩ | ⟨e, -, rfl⟩
  swap
  · exact absurd hnew hold
  by_cases hput : ∃ k b, x = .put k b
  · obtain ⟨k, b, rfl⟩ := hput
    have hnew : (w.storage.exec (.put k b)).2.find key = some blob := hnew
    rw [BlobStore.find_put] at hnew
    split at hnew
    · rename_i hkey
      obtain rfl := Option.some.inj hnew
      rw [hkey]
    · exact absurd hnew hold
  by_cases hdelete : ∃ k, x = .delete k
  · obtain ⟨k, rfl⟩ := hdelete
    have hnew : (w.storage.exec (.delete k)).2.find key = some blob := hnew
    rw [BlobStore.find_delete_cases] at hnew
    split at hnew
    · cases hnew
    · exact absurd hnew hold
  · have hsame : (w.storage.exec x).2 = w.storage :=
      BlobStore.exec_eq_self (fun k b hx => hput ⟨k, b, hx⟩) fun k hx => hdelete ⟨k, hx⟩
    have hnew : (w.storage.exec x).2.find key = some blob := hnew
    rw [hsame] at hnew
    exact absurd hnew hold

end exec

/-! ### The invariant -/

/-- Every job, every row a thread has been handed and every `obs_` handle keeps to keys of its
own. -/
structure Keyed {cfg : Settings} (s : (service cfg).State) : Prop where
  jobs : ∀ job ∈ s.world.jobs.rows, job.Keyed s.world.handles
  handles : ∀ row ∈ s.world.handles.rows, row.Keyed s.world.handles
  seen : ∀ t ∈ s.threads, ∀ job ∈ ((jobMonitor cfg).note t).seen, job.Keyed s.world.handles
  stays : ∀ t ∈ s.threads, ∀ job ∈ ((jobMonitor cfg).note t).seen,
    ∃ job' ∈ s.world.jobs.rows, job'.jobId = job.jobId ∧ job'.obsHandle = job.obsHandle
  registered : ∀ t ∈ s.threads, ∀ job ∈ ((jobMonitor cfg).note t).seen,
    job.Registered s.world.handles

section runs

variable {cfg : Settings} {s s' : (service cfg).State}

theorem Keyed.act (h : Keyed s) (hs : Reachable initial s) {i : ℕ} {t : (service cfg).Thread}
    {o : Op} {k : Except Exn o.Ans → Program Outcome} {c : Choice} {a : Except Exn o.Ans} {w : World}
    (ht : s.threads[i]? = some t) (hr : t.rest = .act o k)
    (hmay : ((jobMonitor cfg).note t).MayDo o) (he : s.world.exec o c = some (a, w)) :
    @Keyed cfg ⟨w, s.threads.set i (t.advance o a k)⟩ := by
  obtain ⟨hconf, hreg⟩ := registry_of_reachable hs
  have hmem := List.mem_of_getElem? ht
  have hgrows := World.grows_exec he
  refine ⟨hmay.keyed_jobs (hconf.allowed ht hr) (hreg.holds t hmem) (h.seen t hmem) he h.jobs,
    hmay.keyed_exec (h.seen t hmem) he hreg.numbered h.handles, fun u hu job hjob => ?_,
    fun u hu job hjob => ?_, fun u hu job hjob => ?_⟩
  · -- the rows that threads have seen are keyed: those seen before, and those just read
    rcases List.mem_or_eq_of_mem_set hu with hu | rfl
    · exact (h.seen u hu job hjob).grows hgrows
    · rw [Monitor.note_advance] at hjob
      rcases JobNotes.seen_of_observe hjob with hold | hnew
      · exact (h.seen t hmem job hold).grows hgrows
      · exact (h.jobs job (World.rowsRead_mem he hnew).1).grows hgrows
  · -- a row that was seen stays, and goes on filling the same handle
    have hold {u : (service cfg).Thread} (hu : u ∈ s.threads)
        (hjob : job ∈ ((jobMonitor cfg).note u).seen) :
        ∃ job' ∈ w.jobs.rows, job'.jobId = job.jobId ∧ job'.obsHandle = job.obsHandle := by
      obtain ⟨now, hnow, hid, hobs⟩ := h.stays u hu job hjob
      obtain ⟨next, hnext, hid', hobs'⟩ := hmay.exists_job he hnow
      exact ⟨next, hnext, hid'.trans hid, hobs'.trans hobs⟩
    rcases List.mem_or_eq_of_mem_set hu with hu | rfl
    · exact hold hu hjob
    · rw [Monitor.note_advance] at hjob
      rcases JobNotes.seen_of_observe hjob with hbefore | hnew
      · exact hold hmem hbefore
      · exact hmay.exists_job he (World.rowsRead_mem he hnew).1
  · rcases List.mem_or_eq_of_mem_set hu with hu | rfl
    · exact hgrows.registered (h.registered u hu job hjob)
    · rw [Monitor.note_advance] at hjob
      rcases JobNotes.seen_of_observe hjob with hold | hnew
      · exact hgrows.registered (h.registered t hmem job hold)
      · exact hgrows.registered (hreg.registered job (World.rowsRead_mem he hnew).1)

theorem Keyed.env (h : Keyed s) {e : EnvStep} {w : World} {gs : List Origin}
    (he : e.exec s.world = some (w, gs)) :
    @Keyed cfg ⟨w, s.threads ++ gs.map (service cfg).spawn⟩ := by
  obtain ⟨-, hjobs, hhandles, -, -⟩ := EnvStep.exec_frame he
  have hold {u : (service cfg).Thread} {job : Job} (hu : u ∈ s.threads ++ gs.map (service cfg).spawn)
      (hjob : job ∈ ((jobMonitor cfg).note u).seen) : u ∈ s.threads := by
    rcases List.mem_append.1 hu with hold | hnew
    · exact hold
    · obtain ⟨g, -, rfl⟩ := List.mem_map.1 hnew
      cases hjob
  refine ⟨by rw [hjobs, hhandles]; exact h.jobs, by rw [hhandles]; exact h.handles,
    fun u hu job hjob => ?_, fun u hu job hjob => ?_, fun u hu job hjob => ?_⟩
  · rw [hhandles]
    exact h.seen u (hold hu hjob) job hjob
  · rw [hjobs]
    exact h.stays u (hold hu hjob) job hjob
  · rw [hhandles]
    exact h.registered u (hold hu hjob) job hjob

/-- In every state of every run. -/
theorem keyed_of_reachable (h : Reachable initial s) : Keyed s := by
  have hwith := h.with (K := Reachable initial) fun u hu => hu
  exact (Reach.invariant (M := jobMonitor cfg) program_jobNotes
    (fun _ _ _ _ _ _ _ _ hinv ht hr hmay he hP =>
      ⟨World.told he, hinv.act hP.2 ht hr hmay he⟩)
    (fun _ _ _ _ hinv he _ => hinv.env he) hwith
    ⟨fun _ h => (by cases h), fun _ h => (by cases h), fun _ h => (by cases h),
      fun _ h => (by cases h), fun _ h => by cases h⟩
    fun _ h => by cases h).2

/-- The `job_` handle in a key names one handle and its workspace. -/
theorem Handle.KeyedBy.eq {t : HandleTable} {row row' : Handle} {key : Key} (h : row.KeyedBy t key)
    (h' : row'.KeyedBy t key) : row.handle = row'.handle ∧ row.workspaceId = row'.workspaceId := by
  obtain ⟨provider, jobHandle, name, rfl, minted, hminted, hws, hobs⟩ := h
  obtain ⟨provider', jobHandle', name', hkey, minted', hminted', hws', hobs'⟩ := h'
  cases hkey
  obtain rfl := Option.some.inj (hminted.symm.trans hminted')
  exact ⟨Option.some.inj (hobs.symm.trans hobs'), hws.symm.trans hws'⟩

/-- In every state of every run the storage key of an `obs_` handle goes by a `job_` handle of the
handle's own workspace, and no other `obs_` handle, of any workspace, has that key. -/
theorem results_apart (h : Reachable initial s) {row : Handle} (hrow : row ∈ s.world.handles.rows)
    (hobs : row.handle.type = .obs) {key : Key} (hkey : row.payload.storageKey = some key) :
    (∃ provider jobHandle name, key = .retrieval provider (.jobHandle jobHandle) name ∧
      s.world.handles.owner jobHandle = some row.workspaceId) ∧
    ∀ row' ∈ s.world.handles.rows, row'.handle.type = .obs →
      row'.payload.storageKey = some key → row' = row := by
  have hkeyed := keyed_of_reachable h
  have hby := hkeyed.handles row hrow hobs key hkey
  constructor
  · obtain ⟨provider, jobHandle, name, rfl, minted, hminted, hws, -⟩ := hby
    refine ⟨provider, jobHandle, name, rfl, ?_⟩
    unfold HandleTable.owner
    rw [hminted, Option.map_some, hws]
  · intro row' hrow' hobs' hkey'
    have hnumbered := (registry_of_reachable h).2.numbered
    have heq := ((hkeyed.handles row' hrow' hobs' key hkey').eq hby).1
    refine Option.some.inj ((hnumbered.row_eq hrow').symm.trans ?_)
    rw [heq]
    exact hnumbered.row_eq hrow

/-- A request of the workspace, by thread `i`, and its delivery by the three threads after it, of
which the last has yet to mark the job. -/
def deliveredTo (ws : WorkspaceId) (i task : ℕ) : List (service .oneKey).Label :=
  call (.retrieveData ws .plain none) ::
    acts i ([.ok, .resolved "C1" none, .capabilities {}, .planned { path := .opendap }] ++
      List.replicate 6 .ok) ++
  take (.fresh task) ::
    acts (i + 1) ([.ok, .capabilities {}, .submitted "a"] ++ List.replicate 4 .ok) ++
  take (.fresh (task + 1)) :: acts (i + 2) ([.ok, .capabilities {}] ++ List.replicate 4 .ok) ++
  take (.fresh (task + 2)) ::
    acts (i + 3) ([.ok, .capabilities {}, .fetched (resultNamed "out")] ++ List.replicate 3 .ok)

/-- A result is delivered, evicted and replayed, under the key of the job that was first asked for
it; another workspace is delivered one. -/
theorem results_apart_replayed : ∃ s : (service .oneKey).State, Reachable initial s ∧
    ∃ row ∈ s.world.handles.rows, ∃ row' ∈ s.world.handles.rows,
      row.workspaceId = 0 ∧ row'.workspaceId = 1 ∧
      (∃ job ∈ s.world.jobs.rows, ∃ replay ∈ s.world.jobs.rows,
        job.obsHandle = some row.handle ∧ replay.obsHandle = some row.handle ∧
          replay.state = .ready ∧ job.jobHandle ≠ replay.jobHandle ∧
          row.payload.storageKey =
            some (.retrieval .opendap (.jobHandle job.jobHandle) "subset.nc.zip")) ∧
      ∃ key key', row.payload.storageKey = some key ∧ row'.payload.storageKey = some key' ∧
        key ≠ key' := by
  obtain ⟨s, hs, hp⟩ := exists_reach (P := fun _ _ _ => True) (s := initial)
    (p := fun s => (∃ row ∈ s.world.handles.rows, ∃ row' ∈ s.world.handles.rows,
      row.workspaceId = 0 ∧ row'.workspaceId = 1 ∧ row.handle.type = .obs ∧
      row'.handle.type = .obs ∧ row'.payload.storageKey.isSome = true ∧
      ∃ job ∈ s.world.jobs.rows, ∃ replay ∈ s.world.jobs.rows,
        job.obsHandle = some row.handle ∧ replay.obsHandle = some row.handle ∧
          replay.state = .ready ∧ job.jobHandle ≠ replay.jobHandle ∧
          row.payload.storageKey =
            some (.retrieval .opendap (.jobHandle job.jobHandle) "subset.nc.zip") : Bool))
    (requested ++ delivered 1 0 ++ evicted 4 ++
      call (.rematerialize 0 ⟨.obs, 0⟩ none) :: acts 5 (List.replicate 8 .ok) ++
      delivered 6 3 ++ deliveredTo 1 9 6) (by decide +kernel)
  obtain ⟨row, hrow, row', hrow', hws, hws', hobs, hobs', hsome, job, hjob, replay, hreplay,
    hfills, hagain, hready, hjobs, hkey⟩ := of_decide_eq_true hp
  obtain ⟨key', hkey'⟩ := Option.isSome_iff_exists.1 hsome
  refine ⟨s, hs, row, hrow, row', hrow', hws, hws',
    ⟨job, hjob, replay, hreplay, hfills, hagain, hready, hjobs, hkey⟩, _, key', hkey, hkey',
    fun heq => ?_⟩
  have hsame := (results_apart hs hrow hobs hkey).2 row' hrow' hobs' (heq ▸ hkey')
  rw [hsame, hws] at hws'
  cases hws'

/-- In every state of every run, a handle that is about to be resolved to a storage key is there, in
the workspace it is looked up in, and is the `obs_` handle that the key's `job_` handle fills. -/
theorem result_handle_found (h : Reachable initial s) {i : ℕ} {ws : WorkspaceId} {obs : HandleId}
    {u : PayloadUpdate} (ho : nextOp s i = some (.handles (.updateHandle ws obs u))) {key : Key}
    (hkey : u.storageKey = some (some key)) :
    ∃ row, s.world.handles.lookup ws obs = .ok row ∧ row.handle.type = .obs ∧
      row.KeyedBy s.world.handles key := by
  have hkeyed := keyed_of_reachable h
  obtain ⟨t, ht, hmay⟩ := mayDo_of_nextOp h ho
  have hmem := List.mem_of_getElem? ht
  obtain ⟨job, hstores, hobs, hws⟩ := hmay key hkey
  obtain ⟨ws', hjobWs, -, -, obs', hobs', htype, howner⟩ :=
    hkeyed.registered t hmem job hstores.seen
  obtain ⟨named, jobHandle, hby⟩ := hkeyed.seen t hmem job hstores.seen
  obtain ⟨provider, name, rfl⟩ := hstores.exists_key hby
  -- the specification names the handle and the workspace of the job's row
  have hnames : job.names.workspaceId = some ws' := hjobWs
  obtain rfl := Option.some.inj (hby.workspaceId.symm.trans hnames)
  rw [hby.workspaceId, Option.getD_some] at hws
  subst hws
  rw [hby.obsHandle, hobs'] at hobs
  obtain rfl := Option.some.inj hobs
  unfold HandleTable.owner at howner
  obtain ⟨row, hrow, hrowWs⟩ := Option.map_eq_some_iff.1 howner
  have hhandle : row.handle = obs' := by
    unfold HandleTable.row at hrow
    have hfound := List.find?_some hrow
    exact of_decide_eq_true hfound
  refine ⟨row, HandleTable.lookup_eq_ok_iff.2 ⟨hrow, hrowWs⟩, by rw [hhandle, htype],
    provider, jobHandle, name, rfl, ?_⟩
  rw [hrowWs, hhandle, ← hobs']
  exact hby.named

/-- The operation resolves a handle to a storage key. -/
def Op.resolves : Op → Bool
  | .handles (.updateHandle _ _ u) => (u.storageKey.getD none).isSome
  | _ => false

theorem Op.of_resolves {o : Op} (h : o.resolves = true) :
    ∃ ws obs u key, o = .handles (.updateHandle ws obs u) ∧ u.storageKey = some (some key) := by
  unfold Op.resolves at h
  split at h
  · rename_i ws obs u
    cases hkey : u.storageKey with
    | none =>
      rw [hkey] at h
      cases h
    | some stored =>
      rw [hkey] at h
      obtain ⟨key, rfl⟩ := Option.isSome_iff_exists.1 h
      exact ⟨ws, obs, u, key, rfl, hkey⟩
  · cases h

theorem result_handle_found_delivered : ∃ s : (service .oneKey).State, Reachable initial s ∧
    ∃ ws obs u key, nextOp s 3 = some (.handles (.updateHandle ws obs u)) ∧
      u.storageKey = some (some key) ∧
      ∃ row, s.world.handles.lookup ws obs = .ok row ∧ row.handle.type = .obs := by
  let ready (s : (service .oneKey).State) : Bool := (nextOp s 3).any Op.resolves
  obtain ⟨s, hs, hready⟩ := exists_reach (P := fun _ _ _ => True) (s := initial) (p := ready)
    ((deliveredTo 0 0 0).take 32) (by decide +kernel)
  obtain ⟨o, ho, hresolves⟩ := (Option.any_eq_true _ _).1 hready
  obtain ⟨ws, obs, u, key, rfl, hkey⟩ := Op.of_resolves hresolves
  obtain ⟨row, hrow, htype, -⟩ := result_handle_found hs ho hkey
  exact ⟨s, hs, ws, obs, u, key, ho, hkey, row, hrow, htype⟩

/-- In every state of every run, a step that brings bytes under the storage key of an `obs_` handle
is one of a task, and the task's job fills this handle, in the handle's workspace. -/
theorem bytes_of_own_job (hs : Reachable initial s) {l : (service cfg).Label}
    (hstep : step s l = some s') {row : Handle} (hrow : row ∈ s.world.handles.rows)
    (hobs : row.handle.type = .obs) {key : Key} (hkey : row.payload.storageKey = some key)
    {blob : Blob} (hnew : s'.world.storage.find key = some blob)
    (hold : s.world.storage.find key ≠ some blob) :
    ∃ i c t job, l = .act i c ∧ s.threads[i]? = some t ∧ t.origin.job = some job.jobId ∧
      job ∈ s.world.jobs.rows ∧ job.obsHandle = some row.handle ∧
        job.workspace = some row.workspaceId := by
  cases l with
  | env e =>
    obtain ⟨w, gs, he, rfl⟩ := step_env_eq_some.1 hstep
    obtain ⟨-, -, -, hstorage, -⟩ := EnvStep.exec_frame he
    have hnew : w.storage.find key = some blob := hnew
    rw [hstorage] at hnew
    exact absurd hnew hold
  | act i c =>
    obtain ⟨t, o, k, a, w, ht, hr, he, rfl⟩ := step_act_eq_some.1 hstep
    obtain rfl := World.put_of_find he hnew hold
    have hkeyed := keyed_of_reachable hs
    have hmem := List.mem_of_getElem? ht
    obtain ⟨provider, jobHandle, name, rfl, minted, hminted, hws, hnamed⟩ :=
      hkeyed.handles row hrow hobs key hkey
    rcases (traced_of_reachable hs).1.allowed ht hr with ⟨cacheKey, name', htransform⟩ |
      ⟨read, hstores⟩
    · cases htransform
    obtain ⟨ws, jobHandle', hby⟩ := hkeyed.seen t hmem read hstores.seen
    obtain ⟨provider', name', hsame⟩ := hstores.exists_key hby
    cases hsame
    -- both go by one `job_` handle, so they fill one handle
    obtain ⟨minted', hminted', hnames'⟩ := hby.named
    obtain rfl := Option.some.inj (hminted.symm.trans hminted')
    obtain ⟨job, hjob, hid, hfills⟩ := hkeyed.stays t hmem read hstores.seen
    have hobsHandle : job.obsHandle = some row.handle := by
      rw [hfills, ← hnames'.obsHandle, hnamed]
    refine ⟨i, c, t, job, rfl, ht, ?_, hjob, hobsHandle, ?_⟩
    · rw [← jobNote_task, hstores.own, hid]
    · have hreg := (registry_of_reachable hs).2
      obtain ⟨ws', hregistered⟩ := hreg.registered job hjob
      obtain ⟨obs, hobs', -, howner⟩ := hregistered.obsHandle
      obtain rfl := Option.some.inj (hobs'.symm.trans hobsHandle)
      rw [hreg.numbered.owner_of_mem hrow] at howner
      rw [hregistered.workspace, ← howner]

/-- The worker starts again before the job is marked, and the job is materialized once more. -/
def deliveredAgain : List (service .oneKey).Label :=
  deliveredTo 0 0 0 ++ call .startup :: acts 4 [.ok, .ok, .ok] ++
    take (.resume .materializeJob 0) ::
      acts 5 [.ok, .capabilities {}, .fetched { resultNamed "out" with sizeBytes := 6 }]

theorem bytes_of_own_job_again : ∃ s s' : (service .oneKey).State, Reachable initial s ∧
    step s (.act 5 .ok) = some s' ∧
    ∃ row ∈ s.world.handles.rows, ∃ key blob, row.payload.storageKey = some key ∧
      s'.world.storage.find key = some blob ∧ s.world.storage.find key ≠ some blob ∧
      ∃ t job, s.threads[5]? = some t ∧ t.origin.job = some job.jobId ∧
        job ∈ s.world.jobs.rows ∧ job.obsHandle = some row.handle := by
  let changed (s s' : (service .oneKey).State) (row : Handle) : Bool :=
    row.handle.type = .obs && row.payload.storageKey.any fun key =>
      (s'.world.storage.find key).any fun blob => s.world.storage.find key ≠ some blob
  let ready (s : (service .oneKey).State) : Bool :=
    (step s (.act 5 .ok)).any fun s' => s.world.handles.rows.any (changed s s')
  obtain ⟨s, hs, hready⟩ := exists_reach (P := fun _ _ _ => True) (s := initial) (p := ready)
    deliveredAgain (by decide +kernel)
  obtain ⟨s', hstep, hrows⟩ := (Option.any_eq_true _ _).1 hready
  obtain ⟨row, hrow, hchanged⟩ := List.any_eq_true.1 hrows
  obtain ⟨hobs, hkeys⟩ := Bool.and_eq_true_iff.1 hchanged
  obtain ⟨key, hkey, hblobs⟩ := (Option.any_eq_true _ _).1 hkeys
  obtain ⟨blob, hnew, hold⟩ := (Option.any_eq_true _ _).1 hblobs
  have hold := of_decide_eq_true hold
  obtain ⟨i, c, t, job, hlabel, ht, hjob, hrest⟩ :=
    bytes_of_own_job hs hstep hrow (of_decide_eq_true hobs) hkey hnew hold
  cases hlabel
  exact ⟨s, s', hs, hstep, row, hrow, key, blob, hkey, hnew, hold, t, job, ht, hjob, hrest.1,
    hrest.2.1⟩

end runs

end EarthdataMcp
