import EarthdataMcp.Footprint

/-!
# Rules for the sweep

A sweep decides from two snapshots of the handles: the orphan pass deletes keys that its
snapshot does not name, and every candidate it evicts is a ready, unpinned row of its snapshot.

* `Candidate.Of`, a candidate and the row of the snapshot it was made from;
* `waiting`, what the queues hold, and what is taken from them;
* `sweep_obeys`: what a sweep obeys, from what it obeys at each of its writes.
-/

namespace EarthdataMcp

open Concurrency Concurrency.Prog

/-- The candidate was made from a ready row of the snapshot. -/
structure Candidate.Of (rows : List Handle) (c : Candidate) (row : Handle) : Prop where
  mem : row ∈ rows
  ready : row.Ready
  handle : row.handle = c.handle
  workspaceId : row.workspaceId = c.workspaceId
  storageKey : row.payload.storageKey = some c.storageKey
  pinned : row.payload.pinned = c.pinned

/-- The candidates were made from rows of the snapshot, at most one from each. -/
structure MadeFrom (rows : List Handle) (cs : List Candidate) : Prop where
  handles : (cs.map Candidate.handle).Sublist (rows.map Handle.handle)
  of : ∀ c ∈ cs, ∃ row, c.Of rows row

/-- What is collected row by row is made from the rows. -/
theorem madeFrom_filterMap {rows : List Handle} {found : List (Option Candidate)}
    (h : List.Forall₂ (fun row found => ∀ c, found = some c → c.Of [row] row) rows found) :
    MadeFrom rows (found.filterMap id) := by
  induction h with
  | nil => exact ⟨.slnil, fun c hc => by cases hc⟩
  | @cons row c? rows found hc _ ih =>
    cases c? with
    | none =>
      refine ⟨ih.handles.cons _, fun c hmem => ?_⟩
      obtain ⟨row', hof⟩ := ih.of c hmem
      exact ⟨row', { hof with mem := List.mem_cons_of_mem _ hof.mem }⟩
    | some c =>
      have hof := hc c rfl
      refine ⟨?_, fun c' hmem => ?_⟩
      · show (c.handle :: _).Sublist (row.handle :: _)
        rw [← hof.handle]
        exact ih.handles.cons_cons _
      · rcases List.mem_cons.1 hmem with rfl | hmem
        · exact ⟨row, { hof with mem := List.mem_cons_self }⟩
        · obtain ⟨row', hof'⟩ := ih.of c' hmem
          exact ⟨row', { hof' with mem := List.mem_cons_of_mem _ hof'.mem }⟩

/-! ### The queues -/

/-- All candidates that wait in the queues. -/
def waiting (queues : List (WorkspaceId × List Candidate)) : List Candidate :=
  queues.flatMap Prod.snd

@[simp] theorem waiting_cons (queue : WorkspaceId × List Candidate)
    (queues : List (WorkspaceId × List Candidate)) :
    waiting (queue :: queues) = queue.2 ++ waiting queues := List.flatMap_cons

theorem waiting_enqueueCandidate (c : Candidate) (queues : List (WorkspaceId × List Candidate)) :
    (waiting (enqueueCandidate c queues)).Perm (c :: waiting queues) := by
  induction queues with
  | nil => exact .refl _
  | cons queue queues ih =>
    obtain ⟨ws, cs⟩ := queue
    unfold enqueueCandidate
    split_ifs
    · rw [waiting_cons, waiting_cons, List.append_assoc]
      exact List.perm_middle
    · rw [waiting_cons, waiting_cons]
      exact (ih.append_left cs).trans List.perm_middle

theorem waiting_foldl (cs : List Candidate) (queues : List (WorkspaceId × List Candidate)) :
    (waiting (cs.foldl (fun queues c => enqueueCandidate c queues) queues)).Perm
      (cs ++ waiting queues) := by
  induction cs generalizing queues with
  | nil => exact .refl _
  | cons c cs ih =>
    refine (ih (enqueueCandidate c queues)).trans ?_
    exact ((waiting_enqueueCandidate c queues).append_left cs).trans List.perm_middle

/-- Every unpinned candidate but the protected one waits, and no other. -/
theorem waiting_evictionQueues (now : Time) (protectedHandle : Option HandleId)
    (cs : List Candidate) :
    (waiting (evictionQueues now protectedHandle cs)).Perm
      (cs.filter fun c => c.Open protectedHandle) := by
  have hsort (queues : List (WorkspaceId × List Candidate)) :
      (waiting (queues.map fun queue =>
        (queue.1, queue.2.insertionSort fun c c' => c.before now c'))).Perm (waiting queues) := by
    induction queues with
    | nil => exact .refl _
    | cons queue queues ih =>
      rw [List.map_cons, waiting_cons, waiting_cons]
      exact (List.perm_insertionSort _ queue.2).append ih
  refine (hsort _).trans ?_
  simpa only [waiting, List.flatMap_nil, List.append_nil] using waiting_foldl _ []

/-- What is taken waits no longer; the others do. -/
theorem popCandidate_perm {ws : WorkspaceId} {queues queues' : List (WorkspaceId × List Candidate)}
    {c : Candidate} (h : popCandidate ws queues = some (c, queues')) :
    (waiting queues).Perm (c :: waiting queues') := by
  induction queues generalizing queues' with
  | nil => cases h
  | cons queue queues ih =>
    obtain ⟨ws', cs⟩ := queue
    unfold popCandidate at h
    by_cases hws : ws' = ws
    · rw [if_pos hws] at h
      obtain ⟨last, hlast, heq⟩ := Option.map_eq_some_iff.1 h
      obtain ⟨rfl, rfl⟩ := Prod.mk.inj heq
      have hcs : cs = cs.dropLast ++ [last] := (List.dropLast_append_getLast? last hlast).symm
      have hrest : waiting (if cs.dropLast = [] then queues else (ws', cs.dropLast) :: queues) =
          cs.dropLast ++ waiting queues := by
        split_ifs with hempty
        · rw [hempty]
          rfl
        · rw [waiting_cons]
      rw [hrest, waiting_cons]
      show (cs ++ waiting queues).Perm _
      nth_rewrite 1 [hcs]
      rw [List.append_assoc]
      exact List.perm_middle
    · rw [if_neg hws] at h
      obtain ⟨⟨c', queues''⟩, hpop, heq⟩ := Option.map_eq_some_iff.1 h
      obtain ⟨rfl, rfl⟩ := Prod.mk.inj heq
      rw [waiting_cons, waiting_cons]
      exact ((ih hpop).append_left cs).trans List.perm_middle

/-! ### What a sweep obeys -/

/-- The operations of a sweep that write nothing and take no snapshot. -/
inductive SweepOp.Quiet : Op → Prop
  | now : Quiet .now
  | due (n) : Quiet (.orphanSweepDue n)
  | list (p) : Quiet (.storage (.list p))
  | stat (k) : Quiet (.storage (.stat k))
  | costs (hs) : Quiet (.jobs (.read (.rebuildCosts hs)))

/-- What a protocol says about the steps of a sweep: `inv` before a snapshot, `fresh rows` once
`rows` has been read, `left queue` while the candidates of `queue` may still be evicted, and `ended`
at the end, which an eviction that raises brings about. -/
structure SweepRules {S : Type} (P : Protocol Api S) (inv : S → Prop)
    (fresh : List Handle → S → Prop) (left : List Candidate → S → Prop) (ended : S → Prop) :
    Prop where
  ended_of_inv : ∀ s, inv s → ended s
  inv_of_fresh : ∀ rows s, fresh rows s → inv s
  inv_of_left : ∀ queue s, left queue s → inv s
  quiet : ∀ s o, inv s → SweepOp.Quiet o → P.allows s o
  quiet_inv : ∀ s o a s', inv s → SweepOp.Quiet o → P.next s o a s' → inv s'
  quiet_fresh : ∀ rows s o a s', fresh rows s → SweepOp.Quiet o → P.next s o a s' → fresh rows s'
  select : ∀ s, inv s → P.allows s (.handles .selectEvictable)
  select_ok : ∀ s rows s', inv s → P.next s (.handles .selectEvictable) (.ok rows) s' →
    fresh rows s'
  select_error : ∀ s e s', inv s → P.next s (.handles .selectEvictable) (.error e) s' → inv s'
  orphan : ∀ rows s key, fresh rows s → (∀ row ∈ rows, row.payload.storageKey ≠ some key) →
    (perform (.storage (.delete key))).Obeys P s fun _ s' => fresh rows s'
  start : ∀ rows s cs queue, fresh rows s → MadeFrom rows cs → queue.Subperm cs →
    (∀ c ∈ queue, c.pinned = false) → left queue s
  perm : ∀ queue queue' s, left queue s → queue.Perm queue' → left queue' s
  evict : ∀ c queue s, left (c :: queue) s →
    (evictOne c).Obeys P s fun r s' => ended s' ∧ (r = .ok () → left queue s')

section rules

variable {S : Type} {P : Protocol Api S} {inv : S → Prop} {fresh : List Handle → S → Prop}
  {left : List Candidate → S → Prop} {ended : S → Prop} {s : S}

/-- A step that writes nothing and takes no snapshot. -/
theorem SweepRules.obeys_quiet (hP : SweepRules P inv fresh left ended) {rows : List Handle} {o : Op}
    (ho : SweepOp.Quiet o) (hs : fresh rows s) :
    (perform o).Obeys P s fun _ s' => fresh rows s' := by
  rw [obeys_perform]
  exact ⟨hP.quiet s o (hP.inv_of_fresh rows s hs) ho, fun a s' hn =>
    hP.quiet_fresh rows s o a s' hs ho hn⟩

theorem reclaimOrphans_obeys (hP : SweepRules P inv fresh left ended) (hs : inv s) :
    reclaimOrphans.Obeys P s fun _ s' => inv s' := by
  unfold reclaimOrphans referencedStorageKeys
  rw [obeys_bind, obeys_bind, obeys_perform]
  refine ⟨hP.select s hs, ?_⟩
  rintro (e | rows) s' hnext
  · exact hP.select_error s e s' hs hnext
  have hs' := hP.select_ok s rows s' hs hnext
  show (forEach (reclaimPrefix _) materializationPrefixes).Obeys P s' _
  refine obeys_forEach (fresh rows) (fun pfx _ t ht => ?_) hs' fun t ht => hP.inv_of_fresh rows t ht
  unfold reclaimPrefix
  rw [obeys_bind]
  refine (hP.obeys_quiet (.list pfx) ht).mono ?_
  rintro (e | keys) t' ht'
  · exact ⟨ht', fun _ _ => hP.inv_of_fresh rows t' ht'⟩
  rw [afterBind_ok]
  suffices hloop : (forEach (deleteUnreferenced (rows.filterMap fun row => row.payload.storageKey))
      keys).Obeys P t' fun _ u => fresh rows u from
    hloop.mono fun _ u hu => ⟨hu, fun _ _ => hP.inv_of_fresh rows u hu⟩
  refine obeys_forEach (fresh rows) (fun key _ u hu => ?_) ht' fun u hu => hu
  unfold deleteUnreferenced
  split_ifs with hmem
  · exact ⟨hu, fun e he => by cases he⟩
  · refine (hP.orphan rows u key hu fun row hrow hkey => hmem ?_).mono fun _ v hv => ⟨hv, fun _ _ => hv⟩
    exact List.mem_filterMap.2 ⟨row, hrow, hkey⟩

/-- The candidates are made from the snapshot. -/
theorem candidates_obeys (hP : SweepRules P inv fresh left ended) (svc : EvictionService) (hs : inv s) :
    (candidates svc).Obeys P s fun r s' => inv s' ∧
      ∀ cs, r = .ok cs → ∃ rows, fresh rows s' ∧ MadeFrom rows cs := by
  unfold candidates
  rw [obeys_bind, obeys_perform]
  refine ⟨hP.select s hs, ?_⟩
  rintro (e | rows) s' hnext
  · exact ⟨hP.select_error s e s' hs hnext, fun _ h => by cases h⟩
  rw [afterBind_ok, obeys_bind]
  refine (hP.obeys_quiet (.costs _) (hP.select_ok s rows s' hs hnext)).mono ?_
  rintro (e | costs) t ht
  · exact ⟨hP.inv_of_fresh rows t ht, fun _ h => by cases h⟩
  rw [afterBind_ok, obeys_bind]
  refine (obeys_collect_forall (fresh rows)
    (fun row found => ∀ c, found = some c → c.Of [row] row) (fun row _ u hu => ?_) ht).mono ?_
  · unfold candidateOf
    split
    · exact ⟨hu, fun _ h c hc => by cases h; cases hc⟩
    rename_i key hkey
    split_ifs with hready
    · rw [obeys_bind]
      have hsize : (sizeOf row.payload key).Obeys P u fun _ u' => fresh rows u' := by
        unfold sizeOf
        split
        · exact hu
        · rw [obeys_bind, obeys_attempt]
          refine (hP.obeys_quiet (.stat key) hu).mono ?_
          rintro r u' hu'
          rw [afterBind_ok]
          split <;> exact hu'
      refine hsize.mono ?_
      rintro (e | size) u' hu'
      · exact ⟨hu', fun _ h => by cases h⟩
      · refine ⟨hu', ?_⟩
        rintro _ ⟨⟩ c hc
        obtain ⟨size, -, rfl⟩ := Option.map_eq_some_iff.1 hc
        exact ⟨List.mem_singleton_self row, hready, rfl, rfl, hkey, rfl⟩
    · exact ⟨hu, fun _ h c hc => by cases h; cases hc⟩
  · rintro (e | found) u ⟨hu, hfound⟩
    · exact ⟨hP.inv_of_fresh rows u hu, fun _ h => by cases h⟩
    · refine ⟨hP.inv_of_fresh rows u hu, ?_⟩
      rintro _ ⟨⟩
      exact ⟨rows, hu, madeFrom_filterMap (hfound found rfl)⟩

theorem evictLoop_obeys (hP : SweepRules P inv fresh left ended) (svc : EvictionService)
    (rounds total : ℕ) (held : WorkspaceId → ℕ) {queues : List (WorkspaceId × List Candidate)}
    (hs : left (waiting queues) s) :
    (evictLoop svc rounds total held queues).Obeys P s fun _ s' => ended s' := by
  have hended : ended s := hP.ended_of_inv s (hP.inv_of_left _ _ hs)
  induction rounds generalizing total held queues s with
  | zero => exact hended
  | succ rounds ih =>
    unfold evictLoop
    split_ifs
    · exact hended
    split
    · exact hended
    split
    · exact hended
    rename_i c queues' hpop
    rw [obeys_bind]
    refine (hP.evict c _ s (hP.perm _ _ s hs (popCandidate_perm hpop))).mono ?_
    rintro (e | ⟨⟩) s' ⟨hended', hs'⟩
    · exact hended'
    · exact ih _ _ (hs' rfl) hended'

/-- A sweep obeys a protocol that its writes obey. -/
theorem sweep_obeys (hP : SweepRules P inv fresh left ended) (svc : EvictionService)
    (protectedHandle : Option HandleId) (hs : inv s) :
    (svc.sweep protectedHandle).Obeys P s fun _ s' => ended s' := by
  have hquiet {t : S} {o : Op} (ho : SweepOp.Quiet o) (ht : inv t) :
      (perform o).Obeys P t fun _ t' => inv t' := by
    rw [obeys_perform]
    exact ⟨hP.quiet t o ht ho, fun a t' hn => hP.quiet_inv t o a t' ht ho hn⟩
  unfold EvictionService.sweep reclaimOrphansIfDue
  rw [obeys_bind, obeys_bind]
  refine (hquiet (.due _) hs).mono ?_
  rintro (e | due) t ht
  · exact hP.ended_of_inv t ht
  rw [afterBind_ok]
  have hpass : (if due then reclaimOrphans else pure ()).Obeys P t fun _ t' => inv t' := by
    split_ifs
    · exact reclaimOrphans_obeys hP ht
    · exact ht
  refine hpass.mono ?_
  rintro (e | ⟨⟩) u hu
  · exact hP.ended_of_inv u hu
  rw [afterBind_ok]
  unfold evictOverCap
  rw [obeys_bind]
  refine (candidates_obeys hP svc hu).mono ?_
  rintro (e | cs) v ⟨hv, hcs⟩
  · exact hP.ended_of_inv v hv
  rw [afterBind_ok]
  unfold evictByValue
  obtain ⟨rows, hrows, hmade⟩ := hcs cs rfl
  by_cases hfits : totalBytes cs ≤ svc.maxBytes
  · rw [if_pos hfits]
    exact hP.ended_of_inv v hv
  by_cases hpinned : svc.maxBytes < totalBytes (cs.filter Candidate.pinned)
  · rw [if_neg hfits, if_pos hpinned]
    exact hP.ended_of_inv v hv
  rw [if_neg hfits, if_neg hpinned]
  rw [obeys_bind]
  refine (hP.obeys_quiet .now hrows).mono ?_
  rintro (e | now) x hx
  · exact hP.ended_of_inv x (hP.inv_of_fresh rows x hx)
  rw [afterBind_ok]
  split_ifs
  · exact hP.ended_of_inv x (hP.inv_of_fresh rows x hx)
  have hperm := waiting_evictionQueues now protectedHandle cs
  refine evictLoop_obeys hP svc _ _ _ (hP.start rows x cs _ hx hmade ?_ fun c hc => ?_)
  · exact hperm.subperm.trans List.filter_sublist.subperm
  · obtain ⟨-, hopen⟩ := List.mem_filter.1 (hperm.mem_iff.1 hc)
    exact Bool.eq_false_of_not_eq_true (of_decide_eq_true hopen).1

end rules

end EarthdataMcp
