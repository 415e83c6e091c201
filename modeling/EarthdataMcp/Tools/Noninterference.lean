import EarthdataMcp.Tools.WorkspaceScope
import EarthdataMcp.Workspace.SameView

/-!
# A workspace learns nothing of the others

The tools that resolve a handle, called one after another by one workspace with any handles: the
answers depend on the rows and blobs of this workspace only, and the rows of every other workspace
stay as they are.

* `OwnCall`, the five tools; `OwnCall.program_lockstep`, one call in two worlds that look the same;
* `noninterference`: any sequence of calls.
-/

namespace EarthdataMcp

open Concurrency Concurrency.Prog Concurrency.System

/-! ### Calls -/

/-- A call of a tool that resolves a handle. -/
inductive OwnCall
  | getRetrievalStatus (h : HandleId) (token : Option Token)
  | cancelRetrieval (h : HandleId) (token : Option Token)
  | exportResult (h : HandleId) (token : Option Token)
  | rematerialize (h : HandleId) (token : Option Token)
  | pinResult (h : HandleId) (pinned : Bool) (token : Option Token)

/-- What such a call answers. -/
inductive OwnAnswer
  | status (answer : StatusAnswer)
  | cancel (answer : CancelAnswer)
  | exported (answer : ExportAnswer)
  | rematerialized (answer : RematerializeAnswer)
  | pin (answer : PinAnswer)
  deriving DecidableEq, Repr

/-- The program of a call made by a workspace. -/
def OwnCall.program (cfg : Settings) (ws : WorkspaceId) : OwnCall → Program OwnAnswer
  | getRetrievalStatus h token => do
      let a ← EarthdataMcp.getRetrievalStatus ws h token
      pure (.status a)
  | cancelRetrieval h token => do
      let a ← EarthdataMcp.cancelRetrieval cfg ws h token
      pure (.cancel a)
  | exportResult h token => do
      let a ← EarthdataMcp.exportResult ws h token
      pure (.exported a)
  | rematerialize h token => do
      let a ← EarthdataMcp.rematerialize cfg ws h token
      pure (.rematerialized a)
  | pinResult h pinned token => do
      let a ← EarthdataMcp.pinResult cfg ws h pinned token
      pure (.pin a)

/-- A workspace makes calls one after another; the choices of each are what the world leaves
open. -/
def session (cfg : Settings) (ws : WorkspaceId) (calls : List (OwnCall × List Choice)) (w : World) :
    Option (List (Except Exn OwnAnswer) × World) :=
  runCalls World.exec (calls.map fun call => (call.1.program cfg ws, call.2)) w

/-! ### One call -/

section programs

variable {cfg : Settings} {ws : WorkspaceId} {v w : World}

/-- Two worlds after which a program ends alike, where it has changed nothing so far. -/
theorem Lockstep.bind_still {α β : Type} {good : α → World → World → Prop} {p : Program α}
    {f : α → Program β} (h : SameView ws v w)
    (hp : Lockstep World.exec (Alike (Still v w) good) p v p w)
    (hf : ∀ a, good a v w → Lockstep World.exec (Ends ws v w) (f a) v (f a) w) :
    Lockstep World.exec (Ends ws v w) (p >>= f) v (p >>= f) w := by
  refine hp.bind_alike ?_ ?_
  · rintro a _ _ ⟨rfl, rfl⟩ hgood
    exact hf a hgood
  · rintro e _ _ ⟨rfl, rfl⟩
    exact (After.refl h).ends

/-- A program that ends alike, and then another. -/
theorem Lockstep.bind_ends {α β : Type} {good : α → World → World → Prop} {p : Program α}
    {f : α → Program β} (hp : Lockstep World.exec (Alike (After ws v w) good) p v p w)
    (hf : ∀ a v' w', After ws v w v' w' → good a v' w' →
      Lockstep World.exec (Ends ws v' w') (f a) v' (f a) w') :
    Lockstep World.exec (Ends ws v w) (p >>= f) v (p >>= f) w :=
  hp.bind_alike (fun a v' w' hafter hgood => hafter.lockstep (hf a v' w' hafter hgood))
    fun _ _ _ hafter => hafter.ends

theorem lockstep_done {α : Type} (h : SameView ws v w) (r : Except Exn α) :
    Lockstep World.exec (Ends ws v w) (.ret r : Program α) v (.ret r) w :=
  .ret (After.refl h).ends

/-- A handle is looked up, and what follows does not tell a handle of another workspace from one
that does not exist. -/
theorem lockstep_lookup {α : Type} {post : Both Api World α α} (h : SameView ws v w) (k : HandleId)
    {f : Except Exn Handle → Program α} {missing : Program α}
    (hmissing : ∀ e, HandleTable.Missing k e → f (.error e) = missing)
    (hsame : Lockstep World.exec post missing v missing w)
    (herror : ∀ e, Lockstep World.exec post (f (.error e)) v (f (.error e)) w)
    (hok : ∀ row ∈ v.handles.ofWorkspace ws, row.handle = k →
      Lockstep World.exec post (f (.ok row)) v (f (.ok row)) w) :
    Lockstep World.exec post (attempt (perform (.handles (.getHandle ws k))) >>= f) v
      (attempt (perform (.handles (.getHandle ws k))) >>= f) w := by
  refine Lockstep.bind (Lockstep.attempt ((lockstep_getHandle h k).mono ?_))
  rintro r v' r' w' ⟨⟨rfl, rfl⟩, ⟨rfl, hrow⟩ | ⟨e, e', rfl, rfl, he, he'⟩⟩
  · cases r with
    | ok row => exact hok row (hrow row rfl).1 (hrow row rfl).2
    | error e => exact herror e
  · show Lockstep World.exec post (f (.error e)) v' (f (.error e')) w'
    rw [hmissing e he, hmissing e' he']
    exact hsame

/-- A handle is resolved to the same row of the workspace, or is not found in either world. -/
theorem resolveCached_lockstep (h : SameView ws v w) (k : HandleId) :
    Lockstep World.exec
      (Alike (Still v w) fun r _ _ => ∀ row ∈ r, row ∈ v.handles.ofWorkspace ws ∧ row.handle = k)
      (resolveCached ws k) v (resolveCached ws k) w := by
  have hnone : Lockstep World.exec
      (Alike (Still v w) fun r _ _ => ∀ row ∈ r, row ∈ v.handles.ofWorkspace ws ∧ row.handle = k)
      (pure none : Program (Option Handle)) v (pure none) w :=
    lockstep_pure (alike_ok ⟨rfl, rfl⟩ fun row hrow => by cases hrow)
  refine lockstep_lookup h k ?_ hnone (fun e => ?_) fun row hrow hk => ?_
  · rintro e (rfl | rfl) <;> rfl
  · cases e with
    | handleNotFound h => exact hnone
    | crossWorkspace h => exact hnone
    | _ => exact lockstep_raise (alike_error ⟨rfl, rfl⟩)
  · refine lockstep_pure (alike_ok ⟨rfl, rfl⟩ ?_)
    rintro _ ⟨⟩
    exact ⟨hrow, hk⟩

/-- A handle of a row of the workspace is the workspace's. -/
theorem SameView.owner_of_row (h : SameView ws v w) {row : Handle}
    (hrow : row ∈ v.handles.ofWorkspace ws) : v.handles.owner row.handle = some ws :=
  h.keptLeft.handles.owner_eq_some_iff.2 ⟨row, hrow, rfl⟩

/-! ### Export -/

theorem exportSize_lockstep (h : SameView ws v w) {row : Handle} {key : Key}
    (hrow : row ∈ v.handles.ofWorkspace ws) (hkey : row.payload.storageKey = some key) :
    Lockstep World.exec (Alike (Still v w) fun _ _ _ => True) (exportSize row.payload key) v
      (exportSize row.payload key) w := by
  unfold exportSize
  split
  · exact lockstep_pure (alike_ok ⟨rfl, rfl⟩ trivial)
  · exact lockstep_storage h hrow hkey (Or.inl rfl)

theorem exportResult_lockstep (h : SameView ws v w) (k : HandleId) (token : Option Token) :
    Lockstep World.exec (Ends ws v w) (exportResult ws k token) v (exportResult ws k token) w := by
  unfold exportResult
  refine Lockstep.bind_still h (lockstep_now h) fun now _ => ?_
  split
  · exact lockstep_done h _
  split
  · exact lockstep_done h _
  refine Lockstep.bind_still h (resolveCached_lockstep h k) fun found hfound => ?_
  cases found with
  | none => exact lockstep_done h _
  | some row =>
    obtain ⟨hrow, rfl⟩ := hfound row rfl
    dsimp only
    split
    · exact lockstep_done h _
    split
    swap
    · exact lockstep_done h _
    rename_i key mediaType hkey hmedia
    split
    swap
    · exact lockstep_done h _
    refine Lockstep.bind_still h (exportSize_lockstep h hrow hkey) fun size _ => ?_
    refine Lockstep.bind_still h (lockstep_storage h hrow hkey (Or.inr rfl)) fun uri _ => ?_
    exact Lockstep.bind_ends (lockstep_touchHandle h (h.owner_of_row hrow)) fun _ _ _ hafter _ =>
      lockstep_done hafter.same _

/-! ### Status and cancellation -/

theorem getRetrievalStatus_lockstep (h : SameView ws v w) (k : HandleId) (token : Option Token) :
    Lockstep World.exec (Ends ws v w) (getRetrievalStatus ws k token) v
      (getRetrievalStatus ws k token) w := by
  unfold getRetrievalStatus
  refine Lockstep.bind_still h (lockstep_now h) fun now _ => ?_
  split
  · exact lockstep_done h _
  split
  · exact lockstep_done h _
  refine lockstep_lookup h k ?_ (lockstep_done h (.ok StatusAnswer.notFound)) (fun e => ?_)
    fun row hrow hk => ?_
  · rintro e (rfl | rfl) <;> rfl
  · cases e <;> exact lockstep_done h _
  · obtain rfl := hk
    have hread := lockstep_read (h.select_getJobByHandle (h.owner_of_row hrow))
    refine Lockstep.bind_still h hread fun rows _ => ?_
    split <;> exact lockstep_done h _

theorem attemptProviderCancel_lockstep (h : SameView ws v w) (row : Job) (token : Option Token) :
    Lockstep World.exec (Ends ws v w) (attemptProviderCancel row token) v
      (attemptProviderCancel row token) w := by
  unfold attemptProviderCancel
  split
  · exact lockstep_done h _
  split
  · exact lockstep_done h _
  rename_i spec _
  have hcancel : Lockstep World.exec (Ends ws v w) (cancelUpstream row spec token) v
      (cancelUpstream row spec token) w := by
    unfold cancelUpstream
    split
    · exact lockstep_done h _
    · exact lockstep_provider h (.cancel row.jobId spec.provider row.providerJobUrl token)
  refine Lockstep.bind (Lockstep.attempt (hcancel.mono ?_))
  rintro r v' _ w' ⟨rfl, hafter, -⟩
  show Lockstep (I := Api) World.exec _ _ v' _ w'
  cases r with
  | ok a => exact hafter.lockstep (lockstep_done hafter.same _)
  | error e =>
    dsimp only
    split <;> exact hafter.lockstep (lockstep_done hafter.same _)

theorem cancelRetrieval_lockstep (h : SameView ws v w) (k : HandleId) (token : Option Token) :
    Lockstep World.exec (Ends ws v w) (cancelRetrieval cfg ws k token) v
      (cancelRetrieval cfg ws k token) w := by
  unfold cancelRetrieval
  refine Lockstep.bind_still h (lockstep_now h) fun now _ => ?_
  split
  · exact lockstep_done h _
  split
  · exact lockstep_done h _
  refine lockstep_lookup h k ?_ (lockstep_done h (.ok CancelAnswer.notFound)) (fun e => ?_)
    fun row hrow hk => ?_
  · rintro e (rfl | rfl) <;> rfl
  · cases e <;> exact lockstep_done h _
  · obtain rfl := hk
    refine Lockstep.bind_ends (lockstep_transact h (h.owner_of_row hrow) .cancel)
      fun rows v' w' hafter _ => ?_
    split
    · exact lockstep_done hafter.same _
    split
    · exact lockstep_done hafter.same _
    split
    · exact lockstep_done hafter.same _
    exact Lockstep.bind_ends (attemptProviderCancel_lockstep hafter.same _ _)
      fun _ _ _ hafter' _ => lockstep_done hafter'.same _

/-! ### Pinning -/

theorem pinnedSizeOf_lockstep (h : SameView ws v w) {row : Handle}
    (hrow : row ∈ v.handles.ofWorkspace ws) :
    Lockstep World.exec (Alike (Still v w) fun _ _ _ => True) (pinnedSizeOf row.payload) v
      (pinnedSizeOf row.payload) w := by
  unfold pinnedSizeOf
  split
  · exact lockstep_pure (alike_ok ⟨rfl, rfl⟩ trivial)
  · exact lockstep_pure (alike_ok ⟨rfl, rfl⟩ trivial)
  · rename_i key _ hkey
    refine Lockstep.bind (Lockstep.attempt ((lockstep_storage h hrow hkey (Or.inl rfl)).mono ?_))
    rintro r v' _ w' ⟨rfl, ⟨rfl, rfl⟩, -⟩
    show Lockstep (I := Api) World.exec _ _ v' _ w'
    cases r with
    | ok size => exact lockstep_pure (alike_ok ⟨rfl, rfl⟩ trivial)
    | error e =>
      cases e with
      | missingKey => exact lockstep_pure (alike_ok ⟨rfl, rfl⟩ trivial)
      | _ => exact lockstep_raise (alike_error ⟨rfl, rfl⟩)

theorem pinnedBytes_lockstep (h : SameView ws v w) (k : HandleId) :
    Lockstep World.exec (Alike (Still v w) fun _ _ _ => True) (pinnedBytes ws k) v
      (pinnedBytes ws k) w := by
  have hof (rows : List Handle) (hrows : ∀ row ∈ rows, row ∈ v.handles.ofWorkspace ws) :
      Lockstep World.exec (Alike (Still v w) fun _ _ _ => True) (collect (pinnedBytesOf k) rows) v
        (collect (pinnedBytesOf k) rows) w := by
    refine lockstep_collect (fun row hrow v' w' hstill => ?_) ⟨rfl, rfl⟩
    obtain ⟨rfl, rfl⟩ := hstill
    unfold pinnedBytesOf
    split
    · exact lockstep_pure (alike_ok ⟨rfl, rfl⟩ trivial)
    · exact pinnedSizeOf_lockstep h (hrows row hrow)
  have hbind {α β : Type} {good : α → World → World → Prop} {p : Program α} {f : α → Program β}
      (hp : Lockstep World.exec (Alike (Still v w) good) p v p w)
      (hf : ∀ a, good a v w → Lockstep World.exec (Alike (Still v w) fun _ _ _ => True) (f a) v
        (f a) w) :
      Lockstep World.exec (Alike (Still v w) fun _ _ _ => True) (p >>= f) v (p >>= f) w := by
    refine hp.bind_alike ?_ fun _ _ _ => alike_error
    rintro a _ _ ⟨rfl, rfl⟩ hgood
    exact hf a hgood
  refine hbind (lockstep_listHandles h .obs) fun obs hobs => ?_
  refine hbind (hof obs hobs) fun _ _ => ?_
  refine hbind (lockstep_listHandles h .cube) fun cubes hcubes => ?_
  refine hbind (hof cubes hcubes) fun _ _ => ?_
  exact lockstep_pure (alike_ok ⟨rfl, rfl⟩ trivial)

theorem pinResult_lockstep (h : SameView ws v w) (k : HandleId) (pinned : Bool)
    (token : Option Token) :
    Lockstep World.exec (Ends ws v w) (pinResult cfg ws k pinned token) v
      (pinResult cfg ws k pinned token) w := by
  have hupdate (k : HandleId) (b : Bool) (hk : v.handles.owner k = some ws) :=
    lockstep_updateHandle h hk (u := { pinned := some b }) rfl
  unfold pinResult
  refine Lockstep.bind_still h (lockstep_now h) fun now _ => ?_
  split
  · exact lockstep_done h _
  split
  · exact lockstep_done h _
  refine Lockstep.bind_still h (resolveCached_lockstep h k) fun found hfound => ?_
  cases found with
  | none => exact lockstep_done h _
  | some row =>
    obtain ⟨hrow, rfl⟩ := hfound row rfl
    dsimp only
    split
    · refine Lockstep.bind_ends (hupdate _ false (h.owner_of_row hrow)) fun _ v' w' hafter _ => ?_
      exact Lockstep.bind_still hafter.same (pinnedBytes_lockstep hafter.same _) fun _ _ =>
        lockstep_done hafter.same _
    split
    · exact lockstep_done h _
    split
    · exact lockstep_done h _
    unfold pinReady
    refine Lockstep.bind_still h (pinnedBytes_lockstep h _) fun others _ => ?_
    refine Lockstep.bind_still h (pinnedSizeOf_lockstep h hrow) fun size _ => ?_
    split
    · exact lockstep_done h _
    · exact Lockstep.bind_ends (hupdate _ true (h.owner_of_row hrow)) fun _ _ _ hafter _ =>
        lockstep_done hafter.same _

/-! ### Rematerialization -/

theorem reenqueueReplay_lockstep (h : SameView ws v w) {k : HandleId}
    (hk : v.handles.owner k = some ws) (htype : k.type = .obs) {job : Job}
    (hjob : job.workspace = some ws) (identity : Option Token) :
    Lockstep World.exec (Ends ws v w) (reenqueueReplay cfg ws k job identity) v
      (reenqueueReplay cfg ws k job identity) w := by
  unfold reenqueueReplay
  refine Lockstep.bind_ends (lockstep_putHandle h .job rfl) fun jobHandle v₁ w₁ h₁ hminted => ?_
  obtain ⟨hjobType, hnames⟩ := hminted
  have hk₁ := h₁.left.grows.owner hk
  refine Lockstep.bind_ends (lockstep_updateHandle h₁.same hk₁ rfl) fun _ v₂ w₂ h₂ _ => ?_
  have hnew : NewJob.RegisteredIn
      { jobHandle, obsHandle := some k, provider := job.provider, requestSpec := job.requestSpec
        credentialEncrypted := storedCredential cfg identity } v₂.handles ws :=
    ⟨hjob, hjobType, h₂.left.grows.names hnames, k, rfl, htype, h₂.left.grows.owner hk₁⟩
  refine Lockstep.bind_ends (lockstep_create h₂.same hnew) fun jobId v₃ w₃ h₃ _ => ?_
  refine Lockstep.bind_ends (lockstep_provenance h₃.same _) fun _ v₄ w₄ h₄ _ => ?_
  refine Lockstep.bind_ends (lockstep_queue h₄.same _ _ _ _) fun _ v₅ w₅ h₅ _ => ?_
  exact lockstep_done h₅.same _

theorem rematerialize_lockstep (h : SameView ws v w) (k : HandleId) (token : Option Token) :
    Lockstep World.exec (Ends ws v w) (rematerialize cfg ws k token) v
      (rematerialize cfg ws k token) w := by
  unfold rematerialize
  refine Lockstep.bind_still h (lockstep_now h) fun now _ => ?_
  split
  · exact lockstep_done h _
  split
  · exact lockstep_done h _
  split
  · exact lockstep_done h _
  refine Lockstep.bind_still h (resolveCached_lockstep h k) fun found hfound => ?_
  cases found with
  | none => exact lockstep_done h _
  | some row =>
    obtain ⟨hrow, rfl⟩ := hfound row rfl
    have howner := h.owner_of_row hrow
    refine Lockstep.bind_still h (lockstep_read (h.select_getJobByObsHandle howner))
      fun jobs hjobs => ?_
    split
    · exact lockstep_done h _
    split
    · exact lockstep_done h _
    rename_i job hhead
    obtain ⟨hjob, hobs⟩ := hjobs job (List.mem_of_head? hhead)
    have hregistered := h.keptLeft.registered job hjob
    have hws := hregistered.workspace_of_obsHandle howner hobs
    have htype : row.handle.type = .obs := by
      obtain ⟨_, hin⟩ := hregistered
      obtain ⟨obs, hobs', htype, -⟩ := hin.obsHandle
      rw [show job.obsHandle = some row.handle from hobs] at hobs'
      rw [Option.some.inj hobs', htype]
    exact Lockstep.bind_ends (reenqueueReplay_lockstep h howner htype hws _) fun _ _ _ hafter _ =>
      lockstep_done hafter.same _

/-! ### Any call -/

/-- A call gives the same answer in two worlds that look the same, and leaves them looking the
same. -/
theorem OwnCall.program_lockstep (h : SameView ws v w) (call : OwnCall) :
    Lockstep World.exec (Ends ws v w) (call.program cfg ws) v (call.program cfg ws) w := by
  have hmap {α : Type} {p : Program α} {f : α → OwnAnswer}
      (hp : Lockstep World.exec (Ends ws v w) p v p w) :
      Lockstep World.exec (Ends ws v w) (do let a ← p; pure (f a)) v (do let a ← p; pure (f a)) w :=
    Lockstep.bind_ends hp fun _ _ _ hafter _ => lockstep_done hafter.same _
  cases call with
  | getRetrievalStatus k token => exact hmap (getRetrievalStatus_lockstep h k token)
  | cancelRetrieval k token => exact hmap (cancelRetrieval_lockstep h k token)
  | exportResult k token => exact hmap (exportResult_lockstep h k token)
  | rematerialize k token => exact hmap (rematerialize_lockstep h k token)
  | pinResult k pinned token => exact hmap (pinResult_lockstep h k pinned token)

/-- In two worlds that look the same to a workspace, any calls it makes, with any handles, give the
same answers, and no handle and no job of another workspace has changed in either. -/
theorem noninterference (h : SameView ws v w) (calls : List (OwnCall × List Choice)) :
    Option.Rel (fun x y => x.1 = y.1 ∧ After ws v w x.2 y.2) (session cfg ws calls v)
      (session cfg ws calls w) := by
  refine @lockstep_runCalls Api World Choice OwnAnswer World.exec v w (After ws v w) _
    (fun call hcall v' w' hafter => ?_) (After.refl h)
  obtain ⟨c, -, rfl⟩ := List.mem_map.1 hcall
  exact hafter.lockstep (c.1.program_lockstep hafter.same)

end programs

/-- Calls of the first workspace, about a job of the second and about none at all. -/
def probes : List (OwnCall × List Choice) :=
  [(.getRetrievalStatus ⟨.job, 1⟩ none, [.ok, .ok]), (.cancelRetrieval ⟨.job, 1⟩ none, [.ok, .ok]),
    (.cancelRetrieval ⟨.job, 9⟩ none, [.ok, .ok]), (.rematerialize ⟨.obs, 0⟩ none, [.ok, .ok])]

theorem noninterference_beside_a_job : ∃ s : (service .oneKey).State, Reachable initial s ∧
    (s.world.jobs.ofWorkspace 1).length = 1 ∧ (session .oneKey 0 probes s.world).isSome ∧
      Option.Rel (fun x y => x.1 = y.1 ∧ After 0 s.world (s.world.only 0) x.2 y.2)
        (session .oneKey 0 probes s.world) (session .oneKey 0 probes (s.world.only 0)) := by
  let ready (s : (service .oneKey).State) : Bool :=
    (s.world.jobs.ofWorkspace 1).length = 1 && (session .oneKey 0 probes s.world).isSome
  obtain ⟨s, hs, hready⟩ := exists_reach (P := fun _ _ _ => True) (s := initial) (p := ready)
    besideAJob (by decide)
  obtain ⟨hjobs, hsome⟩ := Bool.and_eq_true_iff.1 hready
  exact ⟨s, hs, of_decide_eq_true hjobs, hsome,
    noninterference (sameView_only (registry_of_reachable hs).2.kept 0) probes⟩

end EarthdataMcp
