import EarthdataMcp.Jobs.EvictionTurn
import EarthdataMcp.Service

/-!
# What speculation costs

A sweep that runs alone, from any store.  It takes a workspace's speculative results before its
requested ones, except for those that are out of its reach: pinned, protected, or without bytes.

* `World.candidates`, the candidates that a sweep finds, and `Swept`, a store in which some
  results have expired;
* `SpeculationCosts`: a requested result has gone while a speculative one of its workspace stays;
* `not_speculationCosts_iff`: when a sweep never does that.
-/

namespace EarthdataMcp

open Concurrency Concurrency.Prog FairShare

/-- The storage answers `KeyError` only for a key that is missing. -/
def keyErrorsTrue (_ : World) (_ : Op) : Choice → Bool
  | .fault .missingKey => false
  | _ => true

/-- The operation does not fail. -/
def takesEffect (_ : World) (_ : Op) : Choice → Bool
  | .ok => true
  | _ => false

/-- What is known of a program that runs alone: the world, and whether no operation has failed
so far. -/
abbrev alone : Protocol Api (World × Bool) := tracked World.exec keyErrorsTrue takesEffect

/-! ### The candidates -/

/-- A result's size: from the payload, or that of its blob. -/
def World.sizeOf (w : World) (payload : Payload) (key : Key) : Option ℕ :=
  payload.sizeBytes.or ((w.storage.find key).map Blob.size)

/-- The candidate of a row. -/
def World.candidateOf (svc : EvictionService) (costs : List Job) (w : World) (row : Handle) :
    Option Candidate :=
  match row.payload.storageKey with
  | none => none
  | some key =>
      if row.Ready then (w.sizeOf row.payload key).map (row.candidate svc costs key) else none

/-- The rows of the results. -/
def World.results (w : World) : List Handle := w.handles.rows.filter fun row => row.handle.evictable

/-- The jobs that recorded a build cost of a result. -/
def World.costs (w : World) : List Job :=
  (JobQuery.rebuildCosts (w.results.map Handle.handle)).select w.jobs.rows

/-- The candidates that a sweep finds. -/
def World.candidates (svc : EvictionService) (w : World) : List Candidate :=
  w.results.filterMap (w.candidateOf svc w.costs)

/-- A program that changes nothing and can only answer this, unless an operation fails. -/
def Reads {α : Type} (s : World × Bool) (p : Program α) (answer : α) : Prop :=
  p.Obeys alone s fun r s' => s'.1 = s.1 ∧ (∀ a, r = .ok a → a = answer) ∧
    ∀ e, r = .error e → s'.2 = false

section reads

variable {α β : Type} {s : World × Bool} {w : World}

theorem Reads.bind {p : Program α} {answer : α} {f : α → Program β} {answer' : β}
    (hp : Reads s p answer) (hf : ∀ s', s'.1 = s.1 → Reads s' (f answer) answer') :
    Reads s (p >>= f) answer' := by
  unfold Reads at hp ⊢
  rw [obeys_bind]
  refine hp.mono ?_
  rintro (e | a) s' ⟨hworld, hok, herr⟩
  · exact ⟨hworld, fun _ h => (by cases h), fun _ _ => herr e rfl⟩
  · obtain rfl := hok a rfl
    refine (hf s' hworld).mono ?_
    rintro r s'' ⟨hworld', hrest⟩
    exact ⟨hworld'.trans hworld, hrest⟩

/-- What follows a read, unless an operation fails. -/
theorem Reads.andThen {p : Program α} {answer : α} {f : α → Program β}
    {post : Except Exn β → World × Bool → Prop} (hp : Reads s p answer)
    (hf : ∀ s', s'.1 = s.1 → (f answer).Obeys alone s' post)
    (hpost : ∀ e s', s'.1 = s.1 → s'.2 = false → post (.error e) s') :
    (p >>= f).Obeys alone s post := by
  rw [obeys_bind]
  refine Obeys.mono hp ?_
  rintro (e | a) s' ⟨hworld, hok, herr⟩
  · exact hpost e s' hworld (herr e rfl)
  · obtain rfl := hok a rfl
    exact hf s' hworld

theorem reads_pure (a : α) : Reads s (pure a : Program α) a :=
  ⟨rfl, fun _ h => (Except.ok.inj h).symm, fun _ h => by cases h⟩

theorem reads_collect {f : α → Program β} {answer : α → β} {xs : List α}
    (h : ∀ x ∈ xs, ∀ s', s'.1 = s.1 → Reads s' (f x) (answer x)) :
    Reads s (collect f xs) (xs.map answer) := by
  induction xs generalizing s with
  | nil => exact reads_pure []
  | cons x xs ih =>
    unfold collect
    refine (h x List.mem_cons_self s rfl).bind fun s' hs' => ?_
    refine (ih fun y hy s'' hs'' => ?_).bind fun s'' _ => reads_pure _
    exact h y (List.mem_cons_of_mem _ hy) s'' (hs''.trans hs')

/-- A read takes effect or fails. -/
theorem reads_perform {o : Op} {answer : o.Ans}
    (h : ∀ w' c a, World.exec s.1 o c = some (a, w') →
      w' = s.1 ∧ (c = .ok ∧ a = .ok answer ∨ ∃ e, c = .fault e ∧ a = .error e)) :
    Reads s (perform o) answer := by
  refine ⟨trivial, ?_⟩
  rintro a s' ⟨c, -, he, hflag⟩
  obtain ⟨hworld, ⟨rfl, rfl⟩ | ⟨e, rfl, rfl⟩⟩ := h _ _ _ he
  · exact ⟨hworld, fun _ ha => (Except.ok.inj ha).symm, fun _ ha => by cases ha⟩
  · exact ⟨hworld, fun _ ha => (by cases ha), fun _ _ => by rw [hflag]; simp [takesEffect]⟩

theorem reads_now : Reads s (perform .now) s.1.clock := by
  refine reads_perform fun w' c a he => ?_
  cases c <;> simp [World.exec] at he
  obtain ⟨rfl, rfl⟩ := he
  exact ⟨rfl, Or.inl ⟨rfl, rfl⟩⟩

theorem reads_select : Reads s (perform (.handles .selectEvictable)) s.1.results := by
  refine reads_perform fun w' c a he => ?_
  cases c <;> simp [World.exec] at he
  · obtain ⟨rfl, rfl⟩ := he
    exact ⟨rfl, Or.inl ⟨rfl, rfl⟩⟩
  · obtain ⟨rfl, rfl⟩ := he
    exact ⟨rfl, Or.inr ⟨_, rfl, rfl⟩⟩

theorem reads_jobs (q : JobQuery) :
    Reads s (perform (.jobs (.read q))) (q.select s.1.jobs.rows) := by
  refine reads_perform fun w' c a he => ?_
  cases c <;> simp [World.exec] at he
  · obtain ⟨rfl, rfl⟩ := he
    exact ⟨rfl, Or.inl ⟨rfl, rfl⟩⟩
  · obtain ⟨rfl, rfl⟩ := he
    exact ⟨rfl, Or.inr ⟨_, rfl, rfl⟩⟩

theorem reads_sizeOf (payload : Payload) (key : Key) :
    Reads s (sizeOf payload key) (s.1.sizeOf payload key) := by
  unfold sizeOf World.sizeOf
  cases hsize : payload.sizeBytes with
  | some size => exact reads_pure _
  | none =>
    unfold Reads
    rw [Option.none_or, obeys_bind, obeys_attempt, obeys_perform]
    refine ⟨trivial, ?_⟩
    rintro a s' ⟨c, htrue, he, hflag⟩
    cases c <;> simp [World.exec] at he
    · obtain ⟨rfl, hworld⟩ := he
      simp only [BlobStore.exec] at hworld ⊢
      cases hfind : s.1.storage.find key with
      | some blob =>
        rw [hfind] at hworld
        exact ⟨hworld.symm, fun _ ha => (Except.ok.inj ha).symm, fun _ ha => by cases ha⟩
      | none =>
        rw [hfind] at hworld
        exact ⟨hworld.symm, fun _ ha => (Except.ok.inj ha).symm, fun _ ha => by cases ha⟩
    · obtain ⟨rfl, hworld⟩ := he
      rename_i e
      have hfailed : s'.2 = false := by rw [hflag]; simp [takesEffect]
      cases e with
      | missingKey => cases htrue
      | _ => exact ⟨hworld.symm, fun _ ha => (by cases ha), fun _ _ => hfailed⟩

theorem reads_candidateOf (svc : EvictionService) (costs : List Job) (row : Handle) :
    Reads s (candidateOf svc costs row) (s.1.candidateOf svc costs row) := by
  unfold candidateOf World.candidateOf
  cases row.payload.storageKey with
  | none => exact reads_pure none
  | some key =>
    by_cases hready : row.Ready
    · simp only [if_pos hready]
      exact (reads_sizeOf row.payload key).bind fun _ _ => reads_pure _
    · simp only [if_neg hready]
      exact reads_pure none

theorem reads_candidates (svc : EvictionService) :
    Reads s (candidates svc) (s.1.candidates svc) := by
  unfold candidates
  refine reads_select.bind fun s₁ hs₁ => ?_
  have hcosts := reads_jobs (s := s₁) (.rebuildCosts (s.1.results.map Handle.handle))
  rw [hs₁] at hcosts
  refine hcosts.bind fun s₂ hs₂ => ?_
  have hfound : Reads s₂ (collect (candidateOf svc s.1.costs) s.1.results)
      (s.1.results.map (s.1.candidateOf svc s.1.costs)) := by
    refine reads_collect fun row _ s₃ hs₃ => ?_
    have hrow := reads_candidateOf (s := s₃) svc s.1.costs row
    rwa [hs₃, hs₂, hs₁] at hrow
  refine hfound.bind fun s₃ _ => ?_
  have hsame : (s.1.results.map (s.1.candidateOf svc s.1.costs)).filterMap id =
      s.1.candidates svc := by
    rw [List.filterMap_map]
    rfl
  rw [hsame]
  exact reads_pure _

end reads

/-! ### The orphan pass -/

/-- What a sweep looks at is as it was. -/
structure Unswept (w v : World) : Prop where
  clock : v.clock = w.clock
  jobs : v.jobs = w.jobs
  handles : v.handles = w.handles
  blobs : ∀ row ∈ w.results, ∀ key ∈ row.payload.storageKey,
    v.storage.find key = w.storage.find key

theorem Unswept.refl (w : World) : Unswept w w := ⟨rfl, rfl, rfl, fun _ _ _ _ => rfl⟩

theorem Unswept.candidates {w v : World} (h : Unswept w v) (svc : EvictionService) :
    v.candidates svc = w.candidates svc := by
  have hresults : v.results = w.results := by
    unfold World.results
    rw [h.handles]
  have hcosts : v.costs = w.costs := by
    unfold World.costs
    rw [hresults, h.jobs]
  unfold World.candidates
  rw [hresults, hcosts]
  apply List.filterMap_congr
  intro row hrow
  unfold World.candidateOf World.sizeOf
  cases hkey : row.payload.storageKey with
  | none => rfl
  | some key => simp only [h.blobs row hrow key hkey]

theorem reads_list {s : World × Bool} (pfx : Prefix) :
    Reads s (perform (.storage (.list pfx)))
      ((s.1.storage.blobs.map Prod.fst).filter fun key => key.startsWith pfx) := by
  refine reads_perform fun w' c a he => ?_
  cases c <;> simp [World.exec] at he
  · obtain ⟨rfl, rfl⟩ := he
    exact ⟨rfl, Or.inl ⟨rfl, rfl⟩⟩
  · obtain ⟨rfl, rfl⟩ := he
    exact ⟨rfl, Or.inr ⟨_, rfl, rfl⟩⟩

/-- The keys of the results. -/
def World.referenced (w : World) : List Key := w.results.filterMap fun row => row.payload.storageKey

theorem reads_referenced {s : World × Bool} :
    Reads s referencedStorageKeys s.1.referenced :=
  reads_select.bind fun _ _ => reads_pure _

/-- The sweep has not begun to evict; an exception comes from an operation that failed. -/
def NotBegun {α : Type} (w : World) (r : Except Exn α) (s : World × Bool) : Prop :=
  Unswept w s.1 ∧ ∀ e, r = .error e → s.2 = false

theorem notBegun_of_failed {α : Type} {w : World} {s s' : World × Bool} (h : Unswept w s.1)
    (e : Exn) (hworld : s'.1 = s.1) (hfailed : s'.2 = false) :
    NotBegun w (.error e : Except Exn α) s' :=
  ⟨hworld.symm ▸ h, fun _ _ => hfailed⟩

theorem deleteUnreferenced_notBegun {w : World} {s : World × Bool} (h : Unswept w s.1) (key : Key) :
    (deleteUnreferenced w.referenced key).Obeys alone s (NotBegun w) := by
  unfold deleteUnreferenced
  split_ifs with hmem
  · exact ⟨h, fun _ he => by cases he⟩
  rw [obeys_perform]
  refine ⟨trivial, ?_⟩
  rintro a s' ⟨c, -, he, hflag⟩
  rcases World.exec_storage he with ⟨-, rfl, hw⟩ | ⟨e, rfl, hw⟩
  · refine ⟨⟨?_, ?_, ?_, fun row hrow k hk => ?_⟩, fun _ he => by cases he⟩
    · rw [hw, h.clock]
    · rw [hw, h.jobs]
    · rw [hw, h.handles]
    · rw [hw]
      refine (BlobStore.find_delete ?_).trans (h.blobs row hrow k hk)
      rintro rfl
      exact hmem (List.mem_filterMap.2 ⟨row, hrow, hk⟩)
  · refine notBegun_of_failed h e hw ?_
    cases c <;> simp [World.exec] at he
    · cases he.1
    · rw [hflag]
      simp [takesEffect]

/-- The pass only deletes what no result names. -/
theorem reclaimOrphansIfDue_notBegun {w : World} {s : World × Bool} (svc : EvictionService)
    (h : Unswept w s.1) : (reclaimOrphansIfDue svc).Obeys alone s (NotBegun w) := by
  have hloop {α : Type} (f : α → Program Unit) (xs : List α)
      (hf : ∀ x s, Unswept w s.1 → (f x).Obeys alone s (NotBegun w)) {s : World × Bool}
      (hs : Unswept w s.1) : (forEach f xs).Obeys alone s (NotBegun w) := by
    refine obeys_forEach (fun s => Unswept w s.1) (fun x _ s hs => ?_) hs fun s hs =>
      ⟨hs, fun _ he => by cases he⟩
    exact (hf x s hs).mono fun r s' hs' => ⟨hs'.1, fun e he => ⟨hs'.1, fun _ _ => hs'.2 e he⟩⟩
  unfold reclaimOrphansIfDue
  rw [obeys_bind, obeys_perform]
  refine ⟨trivial, ?_⟩
  rintro a s' ⟨c, -, he, hflag⟩
  obtain ⟨last, hw⟩ := World.exec_orphanSweepDue he
  have hs' : Unswept w s'.1 := by
    rw [hw]
    exact ⟨h.clock, h.jobs, h.handles, h.blobs⟩
  obtain ⟨due, rfl⟩ : ∃ due, a = .ok due := by
    cases c <;> simp [World.exec] at he
    split at he
    · split_ifs at he <;> exact ⟨_, (Prod.mk.inj (Option.some.inj he)).1.symm⟩
    · exact ⟨_, (Prod.mk.inj (Option.some.inj he)).1.symm⟩
  rw [afterBind_ok]
  split_ifs
  · unfold reclaimOrphans
    have hreferenced : s'.1.referenced = w.referenced := by
      unfold World.referenced World.results
      rw [hs'.handles]
    refine reads_referenced.andThen (fun s₁ hs₁ => ?_) fun e s'' => notBegun_of_failed hs' e
    rw [hreferenced]
    refine hloop _ _ (fun pfx s₂ hs₂ => ?_) (hs₁.symm ▸ hs')
    unfold reclaimPrefix
    refine (reads_list pfx).andThen (fun s₃ hs₃ => ?_) fun e s'' => notBegun_of_failed hs₂ e
    exact hloop _ _ (fun key s₄ hs₄ => deleteUnreferenced_notBegun hs₄ key) (hs₃.symm ▸ hs₂)
  · exact ⟨hs', fun _ he => by cases he⟩

/-! ### Evictions -/

/-- The store with these results expired. -/
def Swept (w : World) (gone : List HandleId) (v : World) : Prop :=
  ∃ f : Handle → Handle, v.handles.rows = w.handles.rows.map f ∧ ∀ row,
    (f row).handle = row.handle ∧ (f row).workspaceId = row.workspaceId ∧
      (f row).payload.speculative = row.payload.speculative ∧
        ((f row).Ready ↔ row.Ready ∧ row.handle ∉ gone)

/-- No two rows have one handle: it is the primary key. -/
def HandleTable.Keyed (t : HandleTable) : Prop := (t.rows.map Handle.handle).Nodup

instance (t : HandleTable) : Decidable t.Keyed := inferInstanceAs (Decidable (List.Nodup _))

theorem HandleTable.Keyed.row_eq {t : HandleTable} (h : t.Keyed) {row : Handle}
    (hrow : row ∈ t.rows) : t.row row.handle = some row := by
  cases hfind : t.row row.handle with
  | none => exact absurd (List.find?_eq_none.1 hfind row hrow) (by simp)
  | some row' =>
    have hmem := List.mem_of_find?_eq_some hfind
    rw [List.inj_on_of_nodup_map h hmem hrow (HandleTable.row_handle hfind)]

section swept

variable {w v : World} {gone : List HandleId} {s : World × Bool}

theorem Unswept.swept (h : Unswept w v) : Swept w [] v := by
  refine ⟨id, by rw [h.handles, List.map_id], fun row => ⟨rfl, rfl, rfl, ?_⟩⟩
  simp

theorem Swept.of_handles (h : Swept w gone v) {v' : World} (hv : v'.handles = v.handles) :
    Swept w gone v' := by
  obtain ⟨f, hrows, hf⟩ := h
  exact ⟨f, by rw [hv, hrows], hf⟩

theorem Swept.lookup (h : Swept w gone v) (hw : w.handles.Keyed) {row : Handle}
    (hrow : row ∈ w.handles.rows) :
    ∃ row', v.handles.lookup row.workspaceId row.handle = .ok row' := by
  obtain ⟨f, hrows, hf⟩ := h
  refine ⟨f row, HandleTable.lookup_eq_ok_iff.2 ⟨?_, (hf row).2.1⟩⟩
  unfold HandleTable.row
  rw [hrows, List.find?_map]
  have hsame : (fun row' => decide (row'.handle = row.handle)) ∘ f =
      fun row' => decide (row'.handle = row.handle) := by
    funext row'
    simp [(hf row').1]
  rw [hsame]
  exact congrArg (Option.map f) (hw.row_eq hrow)

/-- A result expires. -/
theorem Swept.expire (h : Swept w gone v) {now : Time} {handle : HandleId} {v' : World}
    (hv : v'.handles = v.handles.modify handle
      (Handle.updated now { status := some .expired, storageKey := some none })) :
    Swept w (gone ++ [handle]) v' := by
  obtain ⟨f, hrows, hf⟩ := h
  refine ⟨_, by rw [hv, HandleTable.modify, hrows, List.map_map], fun row => ?_⟩
  obtain ⟨hhandle, hws, hspec, hready⟩ := hf row
  simp only [Function.comp]
  by_cases heq : (f row).handle = handle
  · rw [if_pos heq]
    refine ⟨by simpa using hhandle, by simpa using hws, ?_, ?_⟩
    · rw [Handle.updated_payload]
      exact hspec
    · refine iff_of_false ?_ fun hnot => hnot.2 ?_
      · unfold Handle.Ready
        rw [Handle.updated_payload]
        simp [Payload.merge]
      · rw [← hhandle, heq]
        exact List.mem_append_right _ List.mem_cons_self
  · rw [if_neg heq]
    refine ⟨hhandle, hws, hspec, hready.trans ?_⟩
    have hne : row.handle ≠ handle := hhandle ▸ heq
    simp [hne]

theorem expireReady_ok (now : Time) (rows : List Job) : firstError now expireReady rows = none := by
  induction rows with
  | nil => rfl
  | cons job rows ih =>
    have hok : ∃ job', expireReady now job = .ok job' := by
      unfold expireReady
      split_ifs with hready
      · refine ⟨job.enter now .expired {}, ?_⟩
        unfold enterState
        rw [setState_of_legal (by rw [hready]; decide)]
      · exact ⟨job, rfl⟩
    obtain ⟨job', hok⟩ := hok
    rw [firstError, hok]
    exact ih

/-- How far an eviction has come: it has failed before the result expired, or the result has
expired and an exception comes from an operation that failed. -/
def Evicted (w : World) (gone : List HandleId) (handle : HandleId) (r : Except Exn Unit)
    (s : World × Bool) : Prop :=
  (∃ e, r = .error e) ∧ s.2 = false ∧ Swept w gone s.1 ∨
    Swept w (gone ++ [handle]) s.1 ∧ ∀ e, r = .error e → s.2 = false

theorem failed_of_fault {o : Op} {e : Exn} {s s' : World × Bool} {a : Except Exn o.Ans} {c : Choice}
    (he : s.1.exec o c = some (a, s'.1)) (ha : a = .error e)
    (hok : ∀ a', s.1.exec o .ok = some (a', s'.1) → ∃ b, a' = .ok b)
    (hflag : s'.2 = (s.2 && takesEffect s.1 o c)) : s'.2 = false := by
  cases c with
  | ok =>
    obtain ⟨b, hb⟩ := hok a he
    rw [hb] at ha
    cases ha
  | _ => rw [hflag]; simp [takesEffect]

/-- The rest of an eviction, which changes no handle. -/
theorem evicted_tail {handle : HandleId} (c : Candidate) (hs : Swept w (gone ++ [handle]) s.1) :
    (do
      perform (.provenance (.event c.workspaceId c.handle .expired))
      let _ ← perform (.jobs (.transact (.getJobByObsHandle c.handle) expireReady))
      pure () : Program Unit).Obeys alone s (Evicted w gone handle) := by
  rw [obeys_bind, obeys_perform]
  refine ⟨trivial, ?_⟩
  rintro a s' ⟨ch, -, he, hflag⟩
  have hs' : Swept w (gone ++ [handle]) s'.1 :=
    hs.of_handles (World.exec_handles_eq_self he (by simp))
  cases a with
  | error e =>
    refine Or.inr ⟨hs', fun _ _ => failed_of_fault he rfl (fun a' ha' => ?_) hflag⟩
    simp only [World.exec, Option.some.injEq, Prod.mk.injEq] at ha'
    exact ⟨_, ha'.1.symm⟩
  | ok =>
    rw [afterBind_ok, obeys_bind, obeys_perform]
    refine ⟨trivial, ?_⟩
    rintro a s'' ⟨ch, -, he, hflag⟩
    have hs'' : Swept w (gone ++ [handle]) s''.1 :=
      hs'.of_handles (World.exec_handles_eq_self he (by simp))
    cases a with
    | error e =>
      refine Or.inr ⟨hs'', fun _ _ => failed_of_fault he rfl (fun a' ha' => ?_) hflag⟩
      simp only [World.exec, JobTable.exec, expireReady_ok, Option.some.injEq,
        Prod.mk.injEq] at ha'
      exact ⟨_, ha'.1.symm⟩
    | ok => exact Or.inr ⟨hs'', fun _ he => by cases he⟩

theorem evictOne_evicted (hw : w.handles.Keyed) {c : Candidate} {row : Handle}
    (hrow : row ∈ w.handles.rows) (hhandle : row.handle = c.handle)
    (hws : row.workspaceId = c.workspaceId) (hs : Swept w gone s.1) :
    (evictOne c).Obeys alone s (Evicted w gone c.handle) := by
  unfold evictOne
  rw [obeys_bind, obeys_perform]
  refine ⟨trivial, ?_⟩
  rintro a s' ⟨ch, -, he, hflag⟩
  have hs' : Swept w gone s'.1 := hs.of_handles (World.exec_handles_eq_self he (by simp))
  cases a with
  | error e =>
    refine Or.inl ⟨⟨e, rfl⟩, failed_of_fault he rfl (fun a' ha' => ?_) hflag, hs'⟩
    simp only [World.exec, Option.some.injEq, Prod.mk.injEq] at ha'
    exact ⟨_, ha'.1.symm⟩
  | ok =>
    rw [afterBind_ok, obeys_bind, obeys_perform]
    refine ⟨trivial, ?_⟩
    rintro a s'' ⟨ch, -, he, hflag⟩
    obtain ⟨row', hlookup⟩ := hs'.lookup hw hrow
    rw [hhandle, hws] at hlookup
    rcases World.exec_handles he with ⟨-, rfl, hw'⟩ | ⟨e, rfl, hw'⟩
    · simp only [HandleTable.exec, hlookup] at hw' ⊢
      rw [afterBind_ok]
      exact evicted_tail c (hs'.expire (by rw [hw']))
    · refine Or.inl ⟨⟨e, rfl⟩, failed_of_fault he rfl (fun a' ha' => ?_) hflag, hw'.symm ▸ hs'⟩
      simp only [World.exec, HandleTable.exec, hlookup, Option.some.injEq, Prod.mk.injEq] at ha'
      exact ⟨_, ha'.1.symm⟩

/-- How far a sweep that evicts these results has come: if no operation failed, it has evicted
them all, otherwise the first of them. -/
def SweptInTurn (w : World) (gone : List HandleId) (evicted : List Candidate)
    (s : World × Bool) : Prop :=
  ∃ n, Swept w (gone ++ (evicted.take n).map Candidate.handle) s.1 ∧
    (s.2 = true → evicted.length ≤ n)

theorem forEach_evictOne (hw : w.handles.Keyed) {evicted : List Candidate}
    (hrows : ∀ c ∈ evicted, ∃ row ∈ w.handles.rows,
      row.handle = c.handle ∧ row.workspaceId = c.workspaceId) (hs : Swept w gone s.1) :
    (forEach evictOne evicted).Obeys alone s fun _ s' => SweptInTurn w gone evicted s' := by
  induction evicted generalizing gone s with
  | nil => exact ⟨0, by simpa using hs, fun _ => le_rfl⟩
  | cons c evicted ih =>
    obtain ⟨⟨row, hrow, hhandle, hws⟩, hrest⟩ := List.forall_mem_cons.1 hrows
    rw [forEach, obeys_bind]
    refine (evictOne_evicted hw hrow hhandle hws hs).mono ?_
    rintro r s' (⟨⟨e, rfl⟩, hfailed, hs'⟩ | ⟨hs', hfailed⟩)
    · exact ⟨0, by simpa using hs', fun htrue => by rw [hfailed] at htrue; cases htrue⟩
    · cases r with
      | error e =>
        exact ⟨1, by simpa using hs', fun htrue => by rw [hfailed e rfl] at htrue; cases htrue⟩
      | ok =>
        rw [afterBind_ok]
        refine (ih hrest hs').mono ?_
        rintro r s'' ⟨n, hswept, hall⟩
        refine ⟨n + 1, by simpa using hswept, fun htrue => ?_⟩
        have hlength := hall htrue
        rw [List.length_cons]
        omega

theorem World.exists_row_of_mem {svc : EvictionService} {c : Candidate}
    (h : c ∈ w.candidates svc) : ∃ row ∈ w.handles.rows, row.handle.evictable ∧ row.Ready ∧
      row.handle = c.handle ∧ row.workspaceId = c.workspaceId ∧
        row.payload.pinned = c.pinned ∧ row.payload.speculative = c.speculative := by
  obtain ⟨row, hrow, hc⟩ := List.mem_filterMap.1 h
  obtain ⟨hmem, hevictable⟩ := List.mem_filter.1 hrow
  unfold World.candidateOf at hc
  cases hkey : row.payload.storageKey with
  | none => rw [hkey] at hc; cases hc
  | some key =>
    rw [hkey] at hc
    dsimp only at hc
    split_ifs at hc with hready
    obtain ⟨size, -, rfl⟩ := Option.map_eq_some_iff.1 hc
    exact ⟨row, hmem, by simpa using hevictable, hready, rfl, rfl, rfl, rfl⟩

theorem evictByValue_swept (hw : w.handles.Keyed) (svc : EvictionService)
    (protectedHandle : Option HandleId) (hs : Unswept w s.1) :
    (evictByValue svc protectedHandle (w.candidates svc)).Obeys alone s fun _ s' =>
      SweptInTurn w [] (evictedByValue svc protectedHandle (w.candidates svc) w.clock) s' := by
  have hnothing (h : ¬ (Evicting svc (w.candidates svc) ∧
      Scored protectedHandle (w.candidates svc))) {s' : World × Bool} (hs' : Unswept w s'.1) :
      SweptInTurn w [] (evictedByValue svc protectedHandle (w.candidates svc) w.clock) s' := by
    rw [evictedByValue, if_neg h]
    exact ⟨0, hs'.swept, fun _ => le_rfl⟩
  unfold evictByValue
  -- the three ways to evict nothing: it all fits, the pinned alone do not fit, a cost is zero
  by_cases hfits : totalBytes (w.candidates svc) ≤ svc.maxBytes
  · rw [if_pos hfits]
    exact hnothing (fun h => h.1.1.not_ge hfits) hs
  by_cases hpinned : svc.maxBytes < totalBytes ((w.candidates svc).filter Candidate.pinned)
  · rw [if_neg hfits, if_pos hpinned]
    exact hnothing (fun h => h.1.2.not_gt hpinned) hs
  rw [if_neg hfits, if_neg hpinned]
  refine reads_now.andThen (fun s' hs' => ?_) fun e s' hs' hfailed => ?_
  · rw [← hs'] at hs
    have hclock : s.1.clock = w.clock := by rw [← hs', hs.clock]
    split_ifs with hzero
    · obtain ⟨c, hc, hopen, hcost⟩ := hzero
      exact hnothing (fun h => h.2 c hc hopen hcost) hs
    · -- the loop evicts what was computed in advance
      have hscored : Scored protectedHandle (w.candidates svc) :=
        fun c hc hopen hcost => hzero ⟨c, hc, hopen, hcost⟩
      have hevicted : evictions svc.maxBytes (w.candidates svc).length
          (totalBytes (w.candidates svc)) (heldBy (w.candidates svc))
            (evictionQueues w.clock protectedHandle (w.candidates svc)) =
          evictedByValue svc protectedHandle (w.candidates svc) w.clock :=
        (if_pos ⟨⟨not_le.1 hfits, not_lt.1 hpinned⟩, hscored⟩).symm
      rw [evictLoop_eq, hclock, hevicted]
      refine forEach_evictOne hw (fun c hc => ?_) hs.swept
      rcases evictedByValue_cases svc protectedHandle (w.candidates svc) w.clock with
        ⟨-, hnone⟩ | ⟨-, -, left, hreclaims⟩
      · rw [hnone] at hc
        cases hc
      · obtain ⟨row, hrow, -, -, hhandle, hws, -⟩ := World.exists_row_of_mem
          (hreclaims.perm.mem_iff.2 (List.mem_append_left left hc))
        exact ⟨row, hrow, hhandle, hws⟩
  · refine ⟨0, ?_, fun htrue => by rw [hfailed] at htrue; cases htrue⟩
    rw [← hs'] at hs
    simpa using hs.swept

theorem sweep_swept (hw : w.handles.Keyed) (svc : EvictionService)
    (protectedHandle : Option HandleId) (flag : Bool) :
    (svc.sweep protectedHandle).Obeys alone (w, flag) fun _ s' =>
      SweptInTurn w [] (evictedByValue svc protectedHandle (w.candidates svc) w.clock) s' := by
  have hfailed {s' : World × Bool} (hs' : Unswept w s'.1) (hflag : s'.2 = false) :
      SweptInTurn w [] (evictedByValue svc protectedHandle (w.candidates svc) w.clock) s' :=
    ⟨0, by simpa using hs'.swept, fun htrue => by rw [hflag] at htrue; cases htrue⟩
  unfold EvictionService.sweep evictOverCap
  rw [obeys_bind]
  refine (reclaimOrphansIfDue_notBegun svc (Unswept.refl w)).mono ?_
  rintro (e | ⟨⟩) s ⟨hs, herr⟩
  · exact hfailed hs (herr e rfl)
  rw [afterBind_ok]
  refine (reads_candidates svc).andThen (fun s' hs' => ?_) fun e s' hs' hflag => ?_
  · rw [hs.candidates]
    exact evictByValue_swept hw svc protectedHandle (hs'.symm ▸ hs)
  · exact hfailed (hs'.symm ▸ hs) hflag

end swept

/-! ### What a sweep costs -/

/-- A requested, unpinned result of a workspace has gone from `w` to `v`, while a speculative
one of that workspace is still ready. -/
def SpeculationCosts (w v : World) : Prop :=
  ∃ lost ∈ w.results, (lost.Ready ∧ lost.payload.pinned = false ∧
      lost.payload.speculative = false) ∧
    (∃ row ∈ v.handles.rows, row.handle = lost.handle ∧ ¬ row.Ready) ∧
      ∃ kept ∈ v.results, kept.workspaceId = lost.workspaceId ∧ kept.Ready ∧
        kept.payload.speculative = true

instance (w v : World) : Decidable (SpeculationCosts w v) :=
  inferInstanceAs (Decidable (∃ lost ∈ w.results, _ ∧ (∃ row ∈ v.handles.rows, _) ∧
    ∃ kept ∈ v.results, _))

/-- The store holds a speculative result of the workspace that a sweep cannot take: none of its
candidates that may go is made from it. -/
def KeepsSpeculative (svc : EvictionService) (protectedHandle : Option HandleId) (w : World)
    (ws : WorkspaceId) : Prop :=
  ∃ kept ∈ w.results, kept.workspaceId = ws ∧ kept.Ready ∧ kept.payload.speculative = true ∧
    ∀ c ∈ w.candidates svc, c.handle = kept.handle → ¬ c.Open protectedHandle

/-- In a workspace with a speculative result that the sweep cannot take, what goes before each
requested result brings the cache under its cap. -/
def SparesRequested (svc : EvictionService) (protectedHandle : Option HandleId) (w : World) :
    Prop :=
  Evicting svc (w.candidates svc) → Scored protectedHandle (w.candidates svc) →
    ∀ before ws front c back after,
      evictionQueues w.clock protectedHandle (w.candidates svc) =
          queuesAt before ws front c back after →
        c.speculative = false → KeepsSpeculative svc protectedHandle w ws →
          totalBytes (w.candidates svc) ≤
            svc.maxBytes + sooner (heldBy (w.candidates svc)) before ws back after

section costs

variable {svc : EvictionService} {protectedHandle : Option HandleId} {w v : World}
  {before after : List (WorkspaceId × List Candidate)} {ws : WorkspaceId}
  {front back : List Candidate} {c : Candidate}

theorem World.candidates_nodup (hw : w.handles.Keyed) (svc : EvictionService) :
    (w.candidates svc).Nodup := by
  have hsub (rows : List Handle) :
      ((rows.filterMap (w.candidateOf svc w.costs)).map Candidate.handle).Sublist
        (rows.map Handle.handle) := by
    induction rows with
    | nil => exact .slnil
    | cons row rows ih =>
      cases hc : w.candidateOf svc w.costs row with
      | none =>
        rw [List.filterMap_cons_none hc]
        exact ih.cons _
      | some c =>
        have hhandle : c.handle = row.handle := by
          unfold World.candidateOf at hc
          cases hkey : row.payload.storageKey with
          | none => rw [hkey] at hc; cases hc
          | some key =>
            rw [hkey] at hc
            dsimp only at hc
            split_ifs at hc
            obtain ⟨size, -, rfl⟩ := Option.map_eq_some_iff.1 hc
            rfl
        rw [List.filterMap_cons_some hc, List.map_cons, List.map_cons, hhandle]
        exact ih.cons_cons _
  refine List.Nodup.of_map Candidate.handle (List.Nodup.sublist (hsub w.results) ?_)
  exact List.Nodup.sublist (List.filter_sublist.map _) hw

/-- Every candidate that may go has its place. -/
theorem exists_queuesAt (now : Time) {cs : List Candidate} (hc : c ∈ cs)
    (hopen : c.Open protectedHandle) : ∃ before front back after,
      evictionQueues now protectedHandle cs =
        queuesAt before c.workspaceId front c back after := by
  have hmem := (waiting_evictionQueues now protectedHandle cs).mem_iff.2
    (List.mem_filter.2 ⟨hc, decide_eq_true hopen⟩)
  obtain ⟨⟨ws, queue⟩, hqueue, hcqueue⟩ := List.mem_flatMap.1 hmem
  obtain rfl : c.workspaceId = ws :=
    (queued_evictionQueues now protectedHandle cs _ hqueue).2 c hcqueue
  obtain ⟨before, after, hsplit⟩ := List.append_of_mem hqueue
  obtain ⟨front, back, rfl⟩ := List.append_of_mem (show c ∈ queue from hcqueue)
  exact ⟨before, front, back, after, hsplit⟩

section place

variable {cs : List Candidate} {now : Time}

theorem mem_of_queuesAt
    (h : evictionQueues now protectedHandle cs = queuesAt before ws front c back after)
    {c' : Candidate} (hc' : c' ∈ front ++ c :: back) :
    c' ∈ cs ∧ c'.Open protectedHandle ∧ c'.workspaceId = ws := by
  have hqueue : (ws, front ++ c :: back) ∈ evictionQueues now protectedHandle cs := by
    rw [h]
    exact List.mem_append_right _ List.mem_cons_self
  obtain ⟨hmem, hopen⟩ := List.mem_filter.1
    ((waiting_evictionQueues now protectedHandle cs).mem_iff.1
      (List.mem_flatMap.2 ⟨_, hqueue, hc'⟩))
  exact ⟨hmem, of_decide_eq_true hopen,
    (queued_evictionQueues now protectedHandle cs _ hqueue).2 c' hc'⟩

theorem nodup_of_queuesAt (hcs : cs.Nodup)
    (h : evictionQueues now protectedHandle cs = queuesAt before ws front c back after) :
    (front ++ c :: back).Nodup := by
  have hwaiting : (waiting (evictionQueues now protectedHandle cs)).Nodup :=
    (waiting_evictionQueues now protectedHandle cs).nodup_iff.2 (hcs.filter _)
  rw [h] at hwaiting
  refine hwaiting.sublist ?_
  simp [queuesAt, waiting]

/-- A speculative candidate that may go comes later in the queue than a requested one. -/
theorem mem_back_of_speculative
    (h : evictionQueues now protectedHandle cs = queuesAt before ws front c back after)
    (hc : c.speculative = false) {k : Candidate} (hk : k ∈ cs) (hopen : k.Open protectedHandle)
    (hws : k.workspaceId = ws) (hspec : k.speculative = true) : k ∈ back := by
  have hqueue : (ws, front ++ c :: back) ∈ evictionQueues now protectedHandle cs := by
    rw [h]
    exact List.mem_append_right _ List.mem_cons_self
  obtain ⟨queue, hqueue', hkqueue⟩ := List.mem_flatMap.1
    ((waiting_evictionQueues now protectedHandle cs).mem_iff.2
      (List.mem_filter.2 ⟨hk, decide_eq_true hopen⟩))
  have hkey := (queued_evictionQueues now protectedHandle cs _ hqueue').2 k hkqueue
  have hsame := List.inj_on_of_nodup_map (keys_evictionQueues now protectedHandle cs) hqueue'
    hqueue (hkey.symm.trans hws)
  rw [hsame] at hkqueue
  obtain ⟨-, hrest, hfront⟩ := List.pairwise_append.1 (speculative_sorted hqueue)
  rcases List.mem_append.1 hkqueue with hmem | hmem
  · have hcspec := hfront k hmem c List.mem_cons_self hspec
    rw [hc] at hcspec
    cases hcspec
  · rcases List.mem_cons.1 hmem with rfl | hmem
    · rw [hc] at hspec
      cases hspec
    · exact hmem

/-- What a pass that evicts does with the candidate at a place. -/
theorem evictedByValue_at (hcs : cs.Nodup) (hevicting : Evicting svc cs)
    (hscored : Scored protectedHandle cs)
    (h : evictionQueues now protectedHandle cs = queuesAt before ws front c back after) :
    (c ∈ evictedByValue svc protectedHandle cs now ↔
      svc.maxBytes + sooner (heldBy cs) before ws back after < totalBytes cs) ∧
    ∀ pre post, evictedByValue svc protectedHandle cs now = pre ++ c :: post → back ⊆ pre := by
  have hqueued := queued_evictionQueues now protectedHandle cs
  have hkeys := keys_evictionQueues now protectedHandle cs
  have hlength := (waiting_evictionQueues now protectedHandle cs).length_eq
  have hfilter := List.length_filter_le (fun c => decide (c.Open protectedHandle)) cs
  have hnodup := nodup_of_queuesAt hcs h
  rw [evictedByValue, if_pos ⟨hevicting, hscored⟩]
  rw [h] at hqueued hkeys hlength ⊢
  exact ⟨mem_evictions_iff svc.maxBytes hqueued hkeys hnodup (by omega),
    fun pre post => back_subset_of_evictions hqueued hkeys hnodup⟩

end place

theorem HandleTable.Keyed.inj {t : HandleTable} (h : t.Keyed) {row row' : Handle}
    (hrow : row ∈ t.rows) (hrow' : row' ∈ t.rows) (heq : row.handle = row'.handle) : row = row' :=
  List.inj_on_of_nodup_map h hrow hrow' heq

theorem mem_of_evictedByValue {now : Time} {cs : List Candidate}
    (hc : c ∈ evictedByValue svc protectedHandle cs now) :
    Evicting svc cs ∧ Scored protectedHandle cs ∧ c ∈ cs ∧ c.Open protectedHandle := by
  rcases evictedByValue_cases svc protectedHandle cs now with
    ⟨-, hnone⟩ | ⟨hevicting, hscored, left, hreclaims⟩
  · rw [hnone] at hc
    cases hc
  · exact ⟨hevicting, hscored, hreclaims.perm.mem_iff.2 (List.mem_append_left left hc),
      not_not.1 (hreclaims.not_exempt hc)⟩

/-- A requested result goes although a speculative one stays only if the sweep cannot take the
latter. -/
theorem not_costs_of_spares (hw : w.handles.Keyed) (h : SparesRequested svc protectedHandle w)
    {s : World × Bool} (hs : SweptInTurn w []
      (evictedByValue svc protectedHandle (w.candidates svc) w.clock) s) :
    ¬ SpeculationCosts w s.1 := by
  obtain ⟨n, ⟨f, hrows, hf⟩, -⟩ := hs
  rintro ⟨lost, hlost, ⟨hready, -, hrequested⟩, ⟨row, hrow, hhandle, hgone⟩,
    kept, hkept, hws, hkeptReady, hkeptSpec⟩
  obtain ⟨hlostMem, -⟩ := List.mem_filter.1 hlost
  -- the result was evicted, with its turn
  rw [hrows] at hrow
  obtain ⟨r, hr, rfl⟩ := List.mem_map.1 hrow
  obtain rfl := hw.inj hr hlostMem ((hf r).1.symm.trans hhandle)
  have hmem : r.handle ∈
      ((evictedByValue svc protectedHandle (w.candidates svc) w.clock).take n).map
        Candidate.handle := by
    by_contra hnot
    exact hgone ((hf r).2.2.2.2 ⟨hready, by simpa using hnot⟩)
  obtain ⟨c, hc, hchandle⟩ := List.mem_map.1 hmem
  obtain ⟨pre, post, hsplit⟩ := List.append_of_mem hc
  obtain ⟨hevicting, hscored, hcmem, hopen⟩ := mem_of_evictedByValue (List.mem_of_mem_take hc)
  obtain ⟨r', hr', -, -, hr'handle, hr'ws, -, hr'spec⟩ := World.exists_row_of_mem hcmem
  obtain rfl := hw.inj hr' hr (hr'handle.trans hchandle)
  obtain ⟨before, front, back, after, hqueues⟩ :=
    exists_queuesAt w.clock hcmem hopen
  have hcspec : c.speculative = false := hr'spec.symm.trans hrequested
  obtain ⟨hturn, hback⟩ :=
    evictedByValue_at (World.candidates_nodup hw svc) hevicting hscored hqueues
  have hover := hturn.1 (List.mem_of_mem_take hc)
  -- the speculative one is taken before it, or out of reach
  obtain ⟨hkeptMem, hkeptEvictable⟩ := List.mem_filter.1 hkept
  rw [hrows] at hkeptMem
  obtain ⟨k, hk, rfl⟩ := List.mem_map.1 hkeptMem
  obtain ⟨hkhandle, hkws, hkspec, hkready⟩ := hf k
  obtain ⟨hkready, hknot⟩ := hkready.1 hkeptReady
  by_cases hreach : ∃ c' ∈ w.candidates svc, c'.handle = k.handle ∧ c'.Open protectedHandle
  · obtain ⟨c', hc', hc'handle, hc'open⟩ := hreach
    obtain ⟨k', hk', -, -, hk'handle, hk'ws, -, hk'spec⟩ := World.exists_row_of_mem hc'
    obtain rfl := hw.inj hk' hk (hk'handle.trans hc'handle)
    have hc'ws : c'.workspaceId = c.workspaceId := by
      rw [← hk'ws, ← hr'ws, ← hkws, hws]
    have hc'spec : c'.speculative = true := by rw [← hk'spec, ← hkspec, hkeptSpec]
    have hplan := List.take_append_drop n
      (evictedByValue svc protectedHandle (w.candidates svc) w.clock)
    rw [hsplit, List.append_assoc, List.cons_append] at hplan
    have hpre := hback pre _ hplan.symm
      (mem_back_of_speculative hqueues hcspec hc' hc'open hc'ws hc'spec)
    refine hknot ?_
    rw [List.nil_append, hsplit, ← hc'handle]
    exact List.mem_map_of_mem (List.mem_append_left _ hpre)
  · have hkeeps : KeepsSpeculative svc protectedHandle w c.workspaceId := by
      refine ⟨k, List.mem_filter.2 ⟨hk, by rwa [← hkhandle]⟩, ?_, hkready, ?_, ?_⟩
      · rw [← hkws, hws, hr'ws]
      · rw [← hkspec, hkeptSpec]
      · exact fun c' hc' hc'handle hc'open => hreach ⟨c', hc', hc'handle, hc'open⟩
    have hle := h hevicting hscored before _ front c back after hqueues hcspec hkeeps
    omega

/-- A sweep in which nothing fails evicts whatever it is its turn to evict. -/
theorem costs_of_not_spares (hw : w.handles.Keyed) (h : ¬ SparesRequested svc protectedHandle w)
    {s : World × Bool} (hs : SweptInTurn w []
      (evictedByValue svc protectedHandle (w.candidates svc) w.clock) s) (hflag : s.2 = true) :
    SpeculationCosts w s.1 := by
  obtain ⟨n, ⟨f, hrows, hf⟩, hall⟩ := hs
  rw [List.take_of_length_le (hall hflag), List.nil_append] at hf
  unfold SparesRequested at h
  push Not at h
  obtain ⟨hevicting, hscored, before, ws, front, c, back, after, hqueues, hcspec,
    ⟨k, hk, hkws, hkready, hkspec, hreach⟩, hover⟩ := h
  obtain ⟨hturn, -⟩ := evictedByValue_at (World.candidates_nodup hw svc) hevicting hscored hqueues
  have hc := hturn.2 hover
  -- `c` is evicted although `k`, a guess that could have gone, is not
  obtain ⟨-, -, hcmem, hopen⟩ := mem_of_evictedByValue hc
  obtain ⟨-, -, hcws⟩ := mem_of_queuesAt hqueues (List.mem_append_right front List.mem_cons_self)
  obtain ⟨r, hr, hrevictable, hrready, hrhandle, hrws, hrpinned, hrspec⟩ :=
    World.exists_row_of_mem hcmem
  obtain ⟨hkmem, hkevictable⟩ := List.mem_filter.1 hk
  refine ⟨r, List.mem_filter.2 ⟨hr, by simpa using hrevictable⟩, ⟨hrready, ?_, ?_⟩,
    ⟨f r, ?_, (hf r).1, ?_⟩, f k, ?_, ?_, ?_, ?_⟩
  · rw [hrpinned]
    exact Bool.eq_false_of_not_eq_true hopen.1
  · rw [hrspec, hcspec]
  · rw [hrows]
    exact List.mem_map_of_mem hr
  · intro hstill
    exact ((hf r).2.2.2.1 hstill).2 (hrhandle ▸ List.mem_map_of_mem hc)
  · refine List.mem_filter.2 ⟨?_, by rwa [(hf k).1]⟩
    rw [hrows]
    exact List.mem_map_of_mem hkmem
  · rw [(hf k).2.1, hkws, hrws, hcws]
  · refine (hf k).2.2.2.2 ⟨hkready, fun hgone => ?_⟩
    obtain ⟨c', hc', hc'handle⟩ := List.mem_map.1 hgone
    obtain ⟨-, -, hc'mem, hc'open⟩ := mem_of_evictedByValue hc'
    exact hreach c' hc'mem hc'handle hc'open
  · rw [(hf k).2.2.1, hkspec]

end costs

/-- No operation of a sweep has to fail. -/
theorem SweepOp.exec_ok {o : Op} (ho : SweepOp o) (w : World) :
    ∃ a w', w.exec o .ok = some (a, w') := by
  cases ho with
  | due n =>
    unfold World.exec
    cases w.orphanSweptAt with
    | none => exact ⟨_, _, rfl⟩
    | some last =>
      dsimp only
      split_ifs <;> exact ⟨_, _, rfl⟩
  | _ => exact ⟨_, _, rfl⟩

/-- The sweep starts from any store whose handles are keyed, is given any protected handle, and
any of its operations may fail: it never costs a requested result while it keeps a speculative
one exactly if it spares the requested ones. -/
theorem not_speculationCosts_iff (svc : EvictionService) (protectedHandle : Option HandleId)
    (w : World) (hw : w.handles.Keyed) :
    (∀ choices r v, (svc.sweep protectedHandle).Along World.exec keyErrorsTrue w choices = true →
      (svc.sweep protectedHandle).runAlone World.exec w choices = some (r, v) →
        ¬ SpeculationCosts w v) ↔ SparesRequested svc protectedHandle w := by
  have hobeys := sweep_swept hw svc protectedHandle true
  constructor
  · intro h
    by_contra hnot
    obtain ⟨n, r, v, hrun⟩ :=
      (sweep_only svc protectedHandle).exists_runAlone (fun _ ho v => ho.exec_ok v) w
    have htrue : (svc.sweep protectedHandle).Along World.exec keyErrorsTrue w
        (List.replicate n .ok) = true :=
      along_replicate _ n w fun _ _ => rfl
    have hall : (svc.sweep protectedHandle).Along World.exec takesEffect w
        (List.replicate n .ok) = true :=
      along_replicate _ n w fun _ _ => rfl
    exact h _ r v htrue hrun
      (costs_of_not_spares hw hnot (hobeys.runAlone hrun htrue) (by rw [hall]; rfl))
  · intro h choices r v htrue hrun
    exact not_costs_of_spares hw h (hobeys.runAlone hrun htrue)

/-- A requested result and one that was prefetched, both of one workspace and of five bytes. -/
def oneGuess : World :=
  let key (n : ℕ) : Key := .retrieval .opendap (.jobHandle ⟨.job, n⟩) "subset.nc.zip"
  let guess : Payload :=
    { status := some .ready, storageKey := some (key 1), sizeBytes := some 5, speculative := true }
  { twoResults with
    handles := {
      rows := [readyResult 0 (key 0), { handle := ⟨.obs, 1⟩, workspaceId := 0, payload := guess }]
      next := 2 } }

/-- Beside a requested result and one that has just been prefetched, an older guess; another
workspace has three requested results. -/
def twoGuesses : World :=
  let key (n : ℕ) : Key := .retrieval .opendap (.jobHandle ⟨.job, n⟩) "subset.nc.zip"
  let guess (n : ℕ) : Handle :=
    { readyResult n (key n) with
      payload := { (readyResult n (key n)).payload with speculative := true } }
  let other (n : ℕ) : Handle := { readyResult n (key n) with workspaceId := 1 }
  { twoResults with
    handles := {
      rows := [readyResult 0 (key 0), guess 1, guess 2, other 3, other 4, other 5]
      next := 6 } }

/-- A sweep that protects the newer guess takes the older one and one result of the workspace
that holds more, and spares the requested one. -/
theorem not_speculationCosts_twoGuesses : twoGuesses.handles.Keyed ∧
    KeepsSpeculative ⟨20, 60, seconds 3600⟩ (some ⟨.obs, 1⟩) twoGuesses 0 ∧
    ∀ choices r v,
      (EvictionService.sweep ⟨20, 60, seconds 3600⟩ (some ⟨.obs, 1⟩)).Along World.exec
          keyErrorsTrue twoGuesses choices = true →
        (EvictionService.sweep ⟨20, 60, seconds 3600⟩ (some ⟨.obs, 1⟩)).runAlone World.exec
            twoGuesses choices = some (r, v) → ¬ SpeculationCosts twoGuesses v := by
  have hw : twoGuesses.handles.Keyed := by decide
  refine ⟨hw, ⟨twoGuesses.handles.rows[1], by decide, rfl, by decide, rfl, by decide⟩,
    (not_speculationCosts_iff ⟨20, 60, seconds 3600⟩ (some ⟨.obs, 1⟩) twoGuesses hw).2 ?_⟩
  have hevicted : ∃ requested older others,
      evictionQueues twoGuesses.clock (some ⟨.obs, 1⟩)
          (twoGuesses.candidates ⟨20, 60, seconds 3600⟩) =
        [(0, [requested, older]), (1, others)] ∧ older.speculative = true ∧
      totalBytes (twoGuesses.candidates ⟨20, 60, seconds 3600⟩) ≤
        20 + sooner (heldBy (twoGuesses.candidates ⟨20, 60, seconds 3600⟩)) [] 0 [older]
          [(1, others)] :=
    ⟨_, _, _, by rfl, by decide +kernel⟩
  obtain ⟨requested, older, others, hqueues, holder, hunder⟩ := hevicted
  rintro - - before ws front c back after hat hspec ⟨kept, hkept, hws, -, hkeptSpec, -⟩
  rw [hqueues] at hat
  have hfirst : ∀ kept ∈ twoGuesses.results, kept.payload.speculative = true →
      kept.workspaceId = 0 := by decide
  obtain rfl : ws = 0 := hws.symm.trans (hfirst kept hkept hkeptSpec)
  -- the requested one is the only candidate of its workspace that is not a guess
  rcases before with _ | ⟨queue, before⟩
  · obtain ⟨hqueue, rfl⟩ := List.cons.inj hat
    rcases front with _ | ⟨c', front⟩
    · obtain ⟨-, rfl⟩ := List.cons.inj (Prod.mk.inj hqueue).2
      exact hunder
    · have hlast : [older] = front ++ c :: back := (List.cons.inj (Prod.mk.inj hqueue).2).2
      obtain rfl : c = older := by
        have hmem : c ∈ front ++ c :: back := List.mem_append_right front List.mem_cons_self
        rwa [← hlast, List.mem_singleton] at hmem
      rw [holder] at hspec
      cases hspec
  · have hsecond : [(1, others)] = before ++ (0, front ++ c :: back) :: after :=
      (List.cons.inj hat).2
    have hmem : (0, front ++ c :: back) ∈ before ++ (0, front ++ c :: back) :: after :=
      List.mem_append_right before List.mem_cons_self
    rw [← hsecond, List.mem_singleton] at hmem
    cases hmem

/-- The sweep after the prefetched result's own materialization evicts the requested one. -/
theorem speculationCosts_protected :
    ¬ ∀ (svc : EvictionService) (protectedHandle : Option HandleId) (w : World),
      w.handles.Keyed → ∀ choices r v,
        (svc.sweep protectedHandle).Along World.exec keyErrorsTrue w choices = true →
          (svc.sweep protectedHandle).runAlone World.exec w choices = some (r, v) →
            ¬ SpeculationCosts w v := by
  intro h
  have hrun : ((EvictionService.sweep ⟨5, 60, seconds 3600⟩ (some ⟨.obs, 1⟩)).runAlone World.exec
      oneGuess (List.replicate 8 .ok)).any fun rv => SpeculationCosts oneGuess rv.2 := by decide
  obtain ⟨⟨r, v⟩, hrun, hcosts⟩ := (Option.any_eq_true _ _).1 hrun
  exact h ⟨5, 60, seconds 3600⟩ (some ⟨.obs, 1⟩) oneGuess (by decide) _ r v rfl hrun
    (of_decide_eq_true hcosts)

end EarthdataMcp
