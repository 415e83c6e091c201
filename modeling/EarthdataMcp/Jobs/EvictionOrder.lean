import EarthdataMcp.Cache.FairShare
import EarthdataMcp.Jobs.EvictionRules
import EarthdataMcp.Concurrency.Sequential

/-!
# What a sweep evicts

From its candidates and the time alone a sweep settles what it evicts, and in which order.

* `evictions`, the results that the loop evicts, and `evictLoop_eq`: the loop evicts them in turn;
* `Tally`, what the loop keeps: the total, the holdings and the queues are those of the
  candidates that are left, and `evictions_reclaims`: the loop reclaims by fair share;
* `SweepPost` and `FairPost`, what holds when a sweep ends.
-/

namespace EarthdataMcp

open Concurrency Concurrency.Prog FairShare

/-- The results that the loop evicts, in order. -/
def evictions (cap : ℕ) : ℕ → ℕ → (WorkspaceId → ℕ) → List (WorkspaceId × List Candidate) →
    List Candidate
  | 0, _, _, _ => []
  | rounds + 1, total, held, queues =>
      if total ≤ cap then []
      else
        match furthestOver held queues with
        | none => []
        | some ws =>
            match popCandidate ws queues with
            | none => []
            | some (c, queues) =>
                c :: evictions cap rounds (total - c.sizeBytes)
                  (Function.update held ws (held ws - c.sizeBytes)) queues

/-- The loop evicts them in turn. -/
theorem evictLoop_eq (svc : EvictionService) (rounds total : ℕ) (held : WorkspaceId → ℕ)
    (queues : List (WorkspaceId × List Candidate)) :
    evictLoop svc rounds total held queues =
      forEach evictOne (evictions svc.maxBytes rounds total held queues) := by
  induction rounds generalizing total held queues with
  | zero => rfl
  | succ rounds ih =>
    unfold evictLoop evictions
    by_cases hfits : total ≤ svc.maxBytes
    · rw [if_pos hfits, if_pos hfits]
      rfl
    rw [if_neg hfits, if_neg hfits]
    cases furthestOver held queues with
    | none => rfl
    | some ws =>
      simp only
      cases popCandidate ws queues with
      | none => rfl
      | some popped =>
        simp only [ih]
        rfl

/-! ### The queues -/

/-- Each queue holds candidates of its workspace, and at least one. -/
def Queued (queues : List (WorkspaceId × List Candidate)) : Prop :=
  ∀ queue ∈ queues, queue.2 ≠ [] ∧ ∀ c ∈ queue.2, c.workspaceId = queue.1

theorem Queued.enqueueCandidate {queues : List (WorkspaceId × List Candidate)} (h : Queued queues)
    (c : Candidate) : Queued (enqueueCandidate c queues) := by
  induction queues with
  | nil =>
    intro queue hqueue
    obtain rfl := List.mem_singleton.1 hqueue
    simp
  | cons queue queues ih =>
    obtain ⟨ws, cs⟩ := queue
    obtain ⟨⟨hcs, hws⟩, hrest⟩ := List.forall_mem_cons.1 h
    unfold EarthdataMcp.enqueueCandidate
    split_ifs with heq
    · refine List.forall_mem_cons.2 ⟨⟨by simp, fun c' hc' => ?_⟩, hrest⟩
      rcases List.mem_append.1 hc' with hc' | hc'
      · exact hws c' hc'
      · rw [List.mem_singleton.1 hc']
        exact heq.symm
    · exact List.forall_mem_cons.2 ⟨⟨hcs, hws⟩, ih hrest⟩

theorem queued_evictionQueues (now : Time) (protectedHandle : Option HandleId)
    (cs : List Candidate) : Queued (evictionQueues now protectedHandle cs) := by
  have hfold (cs : List Candidate) {queues : List (WorkspaceId × List Candidate)}
      (h : Queued queues) :
      Queued (cs.foldl (fun queues c => enqueueCandidate c queues) queues) := by
    induction cs generalizing queues with
    | nil => exact h
    | cons c cs ih => exact ih (h.enqueueCandidate c)
  intro queue hqueue
  obtain ⟨⟨ws, cs'⟩, hmem, rfl⟩ := List.mem_map.1 hqueue
  obtain ⟨hne, hws⟩ := hfold _ (fun queue hq => by cases hq) _ hmem
  refine ⟨fun hnil => hne ?_, fun c hc => hws c ((List.mem_insertionSort _).1 hc)⟩
  have hperm : (cs'.insertionSort fun c c' => c.before now c').Perm cs' :=
    List.perm_insertionSort _ _
  rw [show (cs'.insertionSort fun c c' => c.before now c') = [] from hnil] at hperm
  exact List.nil_perm.1 hperm

/-- The workspace furthest over its share holds more than those queued before it and no less
than those queued after it. -/
theorem furthestOver_eq_some {held : WorkspaceId → ℕ} {queues : List (WorkspaceId × List Candidate)}
    {ws : WorkspaceId} (h : furthestOver held queues = some ws) :
    ∃ before queue after, queues = before ++ (ws, queue) :: after ∧
      (∀ q ∈ before, held q.1 < held ws) ∧ ∀ q ∈ after, held q.1 ≤ held ws := by
  induction queues generalizing ws with
  | nil => cases h
  | cons q queues ih =>
    obtain ⟨ws', cs⟩ := q
    unfold furthestOver at h
    cases hrest : furthestOver held queues with
    | none =>
      rw [hrest] at h
      obtain rfl := Option.some.inj h
      refine ⟨[], cs, queues, rfl, fun q hq => (by cases hq), fun q hq => ?_⟩
      -- only of no queues at all is none the furthest
      cases queues with
      | nil => cases hq
      | cons q' queues =>
        unfold furthestOver at hrest
        cases hmost : furthestOver held queues <;> simp only [hmost] at hrest
        · cases hrest
        · split_ifs at hrest
    | some most =>
      obtain ⟨before, queue, after, rfl, hbefore, hafter⟩ := ih hrest
      rw [hrest] at h
      by_cases hlt : held ws' < held most
      · simp only [if_pos hlt, Option.some.injEq] at h
        subst h
        exact ⟨(ws', cs) :: before, queue, after, rfl,
          List.forall_mem_cons.2 ⟨hlt, hbefore⟩, hafter⟩
      · -- of equals the first is taken
        simp only [if_neg hlt, Option.some.injEq] at h
        subst h
        refine ⟨[], cs, _, rfl, fun q hq => (by cases hq), fun q hq => ?_⟩
        rcases List.mem_append.1 hq with hq | hq
        · exact ((hbefore q hq).le).trans (not_lt.1 hlt)
        · rcases List.mem_cons.1 hq with rfl | hq
          · exact not_lt.1 hlt
          · exact (hafter q hq).trans (not_lt.1 hlt)

theorem furthestOver_isSome {held : WorkspaceId → ℕ}
    {queues : List (WorkspaceId × List Candidate)} (h : queues ≠ []) :
    ∃ ws, furthestOver held queues = some ws := by
  cases queues with
  | nil => exact absurd rfl h
  | cons q queues =>
    unfold furthestOver
    split
    · exact ⟨_, rfl⟩
    · split_ifs <;> exact ⟨_, rfl⟩

/-- The queues without the last candidate of one of them. -/
def dropLastOf (before : List (WorkspaceId × List Candidate)) (ws : WorkspaceId)
    (front : List Candidate) (after : List (WorkspaceId × List Candidate)) :
    List (WorkspaceId × List Candidate) :=
  before ++ if front = [] then after else (ws, front) :: after

theorem popCandidate_append {before after : List (WorkspaceId × List Candidate)}
    {ws : WorkspaceId} {front : List Candidate} {c : Candidate} (h : ∀ q ∈ before, q.1 ≠ ws) :
    popCandidate ws (before ++ (ws, front ++ [c]) :: after) =
      some (c, dropLastOf before ws front after) := by
  induction before with
  | nil => simp [popCandidate, dropLastOf]
  | cons q before ih =>
    obtain ⟨hq, hbefore⟩ := List.forall_mem_cons.1 h
    simp [popCandidate, if_neg hq, ih hbefore, dropLastOf]

/-- What is taken waits no longer; the others do. -/
theorem waiting_dropLastOf {before : List (WorkspaceId × List Candidate)} {ws : WorkspaceId}
    (h : ∀ q ∈ before, q.1 ≠ ws) (front : List Candidate) (c : Candidate)
    (after : List (WorkspaceId × List Candidate)) :
    (waiting (before ++ (ws, front ++ [c]) :: after)).Perm
      (c :: waiting (dropLastOf before ws front after)) :=
  popCandidate_perm (popCandidate_append h)

theorem Queued.dropLastOf {before after : List (WorkspaceId × List Candidate)} {ws : WorkspaceId}
    {front : List Candidate} {c : Candidate} (h : Queued (before ++ (ws, front ++ [c]) :: after)) :
    Queued (dropLastOf before ws front after) := by
  intro queue hqueue
  rcases List.mem_append.1 hqueue with hmem | hmem
  · exact h queue (List.mem_append_left _ hmem)
  · split_ifs at hmem with hempty
    · exact h queue (List.mem_append_right _ (List.mem_cons_of_mem _ hmem))
    · rcases List.mem_cons.1 hmem with rfl | hmem
      · obtain ⟨-, hws⟩ := h _ (List.mem_append_right _ List.mem_cons_self)
        exact ⟨hempty, fun c hc => hws c (List.mem_append_left _ hc)⟩
      · exact h queue (List.mem_append_right _ (List.mem_cons_of_mem _ hmem))

/-- What the loop does next while it is over the cap: it takes the last candidate of a workspace
that holds most. -/
theorem evictions_cases (cap rounds : ℕ) {total : ℕ} (held : WorkspaceId → ℕ)
    {queues : List (WorkspaceId × List Candidate)} (hover : cap < total) (hne : queues ≠ [])
    (hqueued : Queued queues) :
    ∃ before ws front c after, queues = before ++ (ws, front ++ [c]) :: after ∧
      (∀ q ∈ before, held q.1 < held ws) ∧ (∀ q ∈ after, held q.1 ≤ held ws) ∧
      evictions cap (rounds + 1) total held queues =
        c :: evictions cap rounds (total - c.sizeBytes)
          (Function.update held ws (held ws - c.sizeBytes)) (dropLastOf before ws front after) := by
  obtain ⟨ws, hws⟩ : ∃ ws, furthestOver held queues = some ws := furthestOver_isSome hne
  obtain ⟨before, queue, after, rfl, hbefore, hafter⟩ := furthestOver_eq_some hws
  obtain ⟨hqueue, -⟩ := hqueued _ (List.mem_append_right _ List.mem_cons_self)
  obtain ⟨front, c, rfl⟩ : ∃ front c, queue = front ++ [c] :=
    ⟨queue.dropLast, queue.getLast hqueue, (List.dropLast_append_getLast hqueue).symm⟩
  refine ⟨before, ws, front, c, after, rfl, hbefore, hafter, ?_⟩
  have hpop : popCandidate ws (before ++ (ws, front ++ [c]) :: after) =
      some (c, dropLastOf before ws front after) :=
    popCandidate_append fun q hq heq => (hbefore q hq).ne (congrArg held heq)
  rw [evictions, if_neg hover.not_ge]
  simp only [hws, hpop]

/-! ### The loop reclaims by fair share -/

/-- The result must stay: it is pinned or protected. -/
def Candidate.Exempt (protectedHandle : Option HandleId) (c : Candidate) : Prop :=
  ¬ c.Open protectedHandle

/-- The loop's variables are those of the candidates that are left. -/
structure Tally (protectedHandle : Option HandleId) (left : List Candidate) (total : ℕ)
    (held : WorkspaceId → ℕ) (queues : List (WorkspaceId × List Candidate)) : Prop where
  total : total = totalBytes left
  held : ∀ ws, held ws = heldBy left ws
  waiting : (waiting queues).Perm (left.filter fun c => c.Open protectedHandle)
  queued : Queued queues

namespace Tally

variable {protectedHandle : Option HandleId} {left : List Candidate} {total : ℕ}
  {held : WorkspaceId → ℕ} {queues before after : List (WorkspaceId × List Candidate)}
  {ws : WorkspaceId} {front : List Candidate} {c : Candidate}

theorem start (now : Time) (protectedHandle : Option HandleId) (cs : List Candidate) :
    Tally protectedHandle cs (totalBytes cs) (heldBy cs) (evictionQueues now protectedHandle cs) :=
  ⟨rfl, fun _ => rfl, waiting_evictionQueues now protectedHandle cs,
    queued_evictionQueues now protectedHandle cs⟩

/-- A candidate that may go waits in its workspace's queue. -/
theorem exists_queue (h : Tally protectedHandle left total held queues) (hc : c ∈ left)
    (hopen : c.Open protectedHandle) : ∃ queue ∈ queues, queue.1 = c.workspaceId := by
  have hmem := h.waiting.mem_iff.2 (List.mem_filter.2 ⟨hc, decide_eq_true hopen⟩)
  obtain ⟨queue, hqueue, hcqueue⟩ := List.mem_flatMap.1 hmem
  exact ⟨queue, hqueue, ((h.queued queue hqueue).2 c hcqueue).symm⟩

/-- When nobody waits, what is left must stay. -/
theorem exempt (h : Tally protectedHandle left total held queues)
    (hempty : EarthdataMcp.waiting queues = []) : ∀ c ∈ left, c.Exempt protectedHandle := by
  intro c hc hopen
  have hmem := h.waiting.mem_iff.2 (List.mem_filter.2 ⟨hc, decide_eq_true hopen⟩)
  simp [hempty] at hmem

/-- What is taken is left no longer, and may go. -/
theorem exists_left (h : Tally protectedHandle left total held queues)
    (hsplit : queues = before ++ (ws, front ++ [c]) :: after) :
    ∃ left', left.Perm (c :: left') ∧ c.Open protectedHandle ∧ c.workspaceId = ws := by
  subst hsplit
  obtain ⟨-, hws⟩ := h.queued _ (List.mem_append_right _ List.mem_cons_self)
  have hwaiting : c ∈ EarthdataMcp.waiting (before ++ (ws, front ++ [c]) :: after) := by
    apply List.mem_flatMap.2
    exact ⟨_, List.mem_append_right _ List.mem_cons_self, by simp⟩
  obtain ⟨hmem, hopen⟩ := List.mem_filter.1 (h.waiting.mem_iff.1 hwaiting)
  obtain ⟨l, r, rfl⟩ := List.append_of_mem hmem
  exact ⟨l ++ r, List.perm_middle, of_decide_eq_true hopen, hws c (by simp)⟩

/-- The variables after a candidate is taken. -/
theorem next (h : Tally protectedHandle left total held queues)
    (hsplit : queues = before ++ (ws, front ++ [c]) :: after) {left' : List Candidate}
    (hleft : left.Perm (c :: left')) (hopen : c.Open protectedHandle)
    (hws : c.workspaceId = ws) (hbefore : ∀ q ∈ before, q.1 ≠ ws) :
    Tally protectedHandle left' (total - c.sizeBytes)
      (Function.update held ws (held ws - c.sizeBytes)) (dropLastOf before ws front after) := by
  subst hsplit
  have hheld (ws' : WorkspaceId) : heldBy left ws' =
      (if c.workspaceId = ws' then c.sizeBytes else 0) + heldBy left' ws' :=
    (holding_perm Candidate.sizeBytes Candidate.workspaceId hleft ws').trans
      (holding_cons Candidate.sizeBytes Candidate.workspaceId c left' ws')
  refine ⟨?_, fun ws' => ?_, ?_, h.queued.dropLastOf⟩
  · have htotal : totalBytes left = c.sizeBytes + totalBytes left' :=
      (bytes_perm Candidate.sizeBytes hleft).trans (bytes_cons Candidate.sizeBytes c left')
    rw [h.total, htotal]
    omega
  · by_cases heq : ws' = ws
    · subst heq
      rw [Function.update_self, h.held, hheld, if_pos hws]
      omega
    · rw [Function.update_of_ne heq, h.held, hheld, if_neg fun hcws => heq (hcws.symm.trans hws),
        zero_add]
  · have hpop := waiting_dropLastOf hbefore front c after
    have hfilter : (left.filter fun c => c.Open protectedHandle).Perm
        (c :: left'.filter fun c => c.Open protectedHandle) := by
      simpa [hopen] using hleft.filter fun c => decide (c.Open protectedHandle)
    exact (List.perm_cons c).1 (hpop.symm.trans (h.waiting.trans hfilter))

end Tally

/-- The loop reclaims by fair share, in as many rounds as there are candidates waiting. -/
theorem evictions_reclaims (cap : ℕ) {protectedHandle : Option HandleId} {left : List Candidate}
    {total : ℕ} {held : WorkspaceId → ℕ} {queues : List (WorkspaceId × List Candidate)}
    {rounds : ℕ} (h : Tally protectedHandle left total held queues)
    (hrounds : (waiting queues).length ≤ rounds) :
    ∃ rest, Reclaims Candidate.sizeBytes Candidate.workspaceId
      (Candidate.Exempt protectedHandle) cap left
      (evictions cap rounds total held queues) rest := by
  induction rounds generalizing left total held queues with
  | zero =>
    exact ⟨left, .stop (Or.inr (h.exempt (List.length_eq_zero_iff.1 (Nat.le_zero.1 hrounds))))⟩
  | succ rounds ih =>
    have htotal : total = bytes Candidate.sizeBytes left := h.total
    by_cases hfits : total ≤ cap
    · refine ⟨left, ?_⟩
      rw [evictions, if_pos hfits]
      exact .stop (Or.inl (htotal ▸ hfits))
    by_cases hne : queues = []
    · subst hne
      refine ⟨left, ?_⟩
      rw [evictions, if_neg hfits]
      exact .stop (Or.inr (h.exempt rfl))
    obtain ⟨before, ws, front, c, after, hsplit, hbefore, hafter, heq⟩ :=
      evictions_cases cap rounds held (not_le.1 hfits) hne h.queued
    obtain ⟨left', hleft, hopen, hws⟩ := h.exists_left hsplit
    have hapart (q : WorkspaceId × List Candidate) (hq : q ∈ before) : q.1 ≠ ws :=
      fun hsame => (hbefore q hq).ne (congrArg held hsame)
    have hnext := h.next hsplit hleft hopen hws hapart
    -- every round takes one candidate out of the queues
    have hlength : (waiting (dropLastOf before ws front after)).length ≤ rounds := by
      have hpop := (waiting_dropLastOf hapart front c after).length_eq
      rw [← hsplit, List.length_cons] at hpop
      omega
    obtain ⟨rest, hrest⟩ := ih hnext hlength
    rw [heq]
    refine ⟨rest, .take (htotal ▸ not_le.1 hfits) hleft (not_not.2 hopen) ?_ hrest⟩
    intro c' hc' hexempt'
    -- it waits in some queue, whose workspace holds no more than the one that was picked
    obtain ⟨queue, hqueue, hqueuews⟩ := h.exists_queue hc' (not_not.1 hexempt')
    show heldBy left c'.workspaceId ≤ heldBy left c.workspaceId
    rw [← h.held, ← h.held, ← hqueuews, hws]
    rw [hsplit] at hqueue
    rcases List.mem_append.1 hqueue with hqueue | hqueue
    · exact (hbefore queue hqueue).le
    · rcases List.mem_cons.1 hqueue with rfl | hqueue
      · exact le_rfl
      · exact hafter queue hqueue

/-! ### What holds when the sweep ends -/

/-- At this time, the pass over these candidates evicts these results in turn, as far as it can,
and then ends with the outcome. -/
def EvictsInTurn (svc : EvictionService) (protectedHandle : Option HandleId) (cs : List Candidate)
    (now : Time) (evicted : List Candidate) (outcome : Except Exn Unit) : Prop :=
  ∀ (W C : Type) (exec : Exec Api W C) (pick : Op → C) (w : W),
    exec w .now (pick .now) = some (.ok now, w) →
      (evictByValue svc protectedHandle cs).runWith exec pick w =
        (do forEach evictOne evicted; .ret outcome : Program Unit).runWith exec pick w

/-- The pass is over the cap, and the pins fit. -/
def Evicting (svc : EvictionService) (cs : List Candidate) : Prop :=
  svc.maxBytes < totalBytes cs ∧ totalBytes (cs.filter Candidate.pinned) ≤ svc.maxBytes

instance (svc : EvictionService) (cs : List Candidate) : Decidable (Evicting svc cs) :=
  inferInstanceAs (Decidable (_ ∧ _))

/-- Every candidate that may go has a score. -/
def Scored (protectedHandle : Option HandleId) (cs : List Candidate) : Prop :=
  ∀ c ∈ cs, c.Open protectedHandle → c.rebuildCostSeconds ≠ 0

instance (protectedHandle : Option HandleId) (cs : List Candidate) :
    Decidable (Scored protectedHandle cs) :=
  inferInstanceAs (Decidable (∀ c ∈ cs, _))

/-- What the pass evicts, in order. -/
def evictedByValue (svc : EvictionService) (protectedHandle : Option HandleId)
    (cs : List Candidate) (now : Time) : List Candidate :=
  if Evicting svc cs ∧ Scored protectedHandle cs then
    evictions svc.maxBytes cs.length (totalBytes cs) (heldBy cs)
      (evictionQueues now protectedHandle cs)
  else []

/-- How the pass ends if every eviction succeeds. -/
def evictionOutcome (svc : EvictionService) (protectedHandle : Option HandleId)
    (cs : List Candidate) : Except Exn Unit :=
  if Evicting svc cs ∧ ¬ Scored protectedHandle cs then
    .error (.other "float division by zero")
  else .ok ()

section post

variable (svc : EvictionService) (protectedHandle : Option HandleId) (cs : List Candidate)
  (now : Time)

theorem bind_ret_ok (p : Program Unit) : (do p; .ret (.ok ()) : Program Unit) = p := by
  change p.bind (fun _ => .ret (.ok ())) = p
  induction p with
  | ret r => cases r <;> rfl
  | act o k ih =>
    unfold Prog.bind
    congr
    funext a
    exact ih a

/-- The pass evicts just that, in turn. -/
theorem evictsInTurn : EvictsInTurn svc protectedHandle cs now
    (evictedByValue svc protectedHandle cs now) (evictionOutcome svc protectedHandle cs) := by
  intro W C exec pick w hnow
  unfold evictByValue evictedByValue evictionOutcome Evicting
  by_cases hfits : totalBytes cs ≤ svc.maxBytes
  · rw [if_pos hfits, if_neg fun h => h.1.1.not_ge hfits, if_neg fun h => h.1.1.not_ge hfits]
    rfl
  by_cases hpinned : svc.maxBytes < totalBytes (cs.filter Candidate.pinned)
  · rw [if_neg hfits, if_pos hpinned, if_neg fun h => h.1.2.not_gt hpinned,
      if_neg fun h => h.1.2.not_gt hpinned]
    rfl
  have hevicting := And.intro (not_le.1 hfits) (not_lt.1 hpinned)
  have hread : (perform .now).runWith exec pick w = some (.ok now, w) := runWith_perform hnow
  rw [if_neg hfits, if_neg hpinned, runWith_bind hread]
  by_cases hscored : Scored protectedHandle cs
  · have hnone : ¬ ∃ c ∈ cs, c.Open protectedHandle ∧ c.rebuildCostSeconds = 0 := by
      rintro ⟨c, hc, hopen, hzero⟩
      exact hscored c hc hopen hzero
    rw [if_neg hnone, if_pos ⟨hevicting, hscored⟩, if_neg fun h => h.2 hscored, evictLoop_eq,
      bind_ret_ok]
  · have hsome : ∃ c ∈ cs, c.Open protectedHandle ∧ c.rebuildCostSeconds = 0 := by
      unfold Scored at hscored
      push Not at hscored
      exact hscored
    rw [if_pos hsome, if_neg fun h => hscored h.2, if_pos ⟨hevicting, hscored⟩]
    rfl

/-- The pass reclaims by fair share, if it evicts anything. -/
theorem evictedByValue_cases :
    ¬ (Evicting svc cs ∧ Scored protectedHandle cs) ∧
      evictedByValue svc protectedHandle cs now = [] ∨
    Evicting svc cs ∧ Scored protectedHandle cs ∧
      ∃ left, Reclaims Candidate.sizeBytes Candidate.workspaceId
        (Candidate.Exempt protectedHandle) svc.maxBytes cs
        (evictedByValue svc protectedHandle cs now) left := by
  unfold evictedByValue
  split_ifs with h
  · have hwaiting := (waiting_evictionQueues now protectedHandle cs).length_eq
    have hlength := List.length_filter_le (fun c => decide (c.Open protectedHandle)) cs
    exact Or.inr ⟨h.1, h.2, evictions_reclaims svc.maxBytes (.start now protectedHandle cs)
      (by omega)⟩
  · exact Or.inl ⟨h, rfl⟩

end post

/-- What holds of the candidates when a sweep ends, by what it evicted in order and what is
left. -/
structure SweepPost (cap : ℕ) (protectedHandle : Option HandleId)
    (cs evicted left : List Candidate) : Prop where
  /-- No candidate is evicted twice. -/
  once : cs.Perm (evicted ++ left)
  /-- No pinned and no protected candidate is evicted. -/
  spared : ∀ c ∈ evicted, ¬ c.pinned ∧ protectedHandle ≠ some c.handle
  /-- If the pinned ones alone exceed the cap, nothing is evicted. -/
  pins : cap < totalBytes (cs.filter Candidate.pinned) → evicted = []
  /-- Otherwise what is left fits, or is pinned or protected. -/
  reclaimed : totalBytes (cs.filter Candidate.pinned) ≤ cap →
    totalBytes left ≤ cap ∨ ∀ c ∈ left, c.pinned ∨ protectedHandle = some c.handle
  /-- Nothing is evicted needlessly. -/
  needed : ∀ before c after, evicted = before ++ c :: after →
    cap < totalBytes cs - totalBytes before

section sweepPost

variable {svc : EvictionService} {protectedHandle : Option HandleId}
  {cs evicted left : List Candidate}

theorem Candidate.not_open_iff {c : Candidate} :
    ¬ c.Open protectedHandle ↔ c.pinned ∨ protectedHandle = some c.handle := by
  unfold Candidate.Open
  rw [not_and_or, not_not, not_not, eq_comm (b := protectedHandle)]

theorem sweepPost_nil (h : ¬ Evicting svc cs) :
    SweepPost svc.maxBytes protectedHandle cs [] cs where
  once := .refl _
  spared c hc := by cases hc
  pins _ := rfl
  reclaimed hpins := Or.inl (by_contra fun hover => h ⟨not_le.1 hover, hpins⟩)
  needed before c after heq := by simp at heq

theorem sweepPost_of_reclaims (hevicting : Evicting svc cs)
    (h : Reclaims Candidate.sizeBytes Candidate.workspaceId (Candidate.Exempt protectedHandle)
      svc.maxBytes cs evicted left) :
    SweepPost svc.maxBytes protectedHandle cs evicted left where
  once := h.perm
  spared c hc := by
    obtain ⟨hpinned, hprotected⟩ := not_not.1 (h.not_exempt hc)
    exact ⟨hpinned, hprotected.symm⟩
  pins hpins := absurd hevicting.2 hpins.not_ge
  reclaimed _ := h.stopped.imp id fun hleft c hc => Candidate.not_open_iff.1 (hleft c hc)
  needed before c after heq := by
    subst heq
    exact Nat.lt_sub_of_add_lt h.needed

/-- A pass that evicts ends with an exception if some candidate that may go has no score. -/
theorem scored_of_evictsInTurn {now : Time}
    (h : EvictsInTurn svc protectedHandle cs now evicted (.ok ())) (hevicting : Evicting svc cs) :
    Scored protectedHandle cs := by
  by_contra hscored
  -- a world in which every other operation fails tells the two ends apart
  let exec : Exec Api Unit Unit := fun _ o _ =>
    match o with
    | .now => some (.ok now, ())
    | _ => some (.error .cancelled, ())
  have hraises := (h _ _ exec (fun _ => ()) () rfl).symm.trans
    (evictsInTurn svc protectedHandle cs now _ _ exec (fun _ => ()) () rfl)
  rw [evictedByValue, if_neg fun h => hscored h.2, evictionOutcome,
    if_pos ⟨hevicting, hscored⟩] at hraises
  cases evicted <;> cases hraises

end sweepPost

/-- The pass ends, with each result evicted in turn, as it should, if and only if it evicts
nothing or each candidate that may go has a score. -/
theorem evictByValue_post_iff (svc : EvictionService) (protectedHandle : Option HandleId)
    (cs : List Candidate) (now : Time) :
    (∃ evicted left, EvictsInTurn svc protectedHandle cs now evicted (.ok ()) ∧
      SweepPost svc.maxBytes protectedHandle cs evicted left) ↔
        (Evicting svc cs → Scored protectedHandle cs) := by
  have hturn := evictsInTurn svc protectedHandle cs now
  constructor
  · rintro ⟨evicted, left, hends, -⟩ hevicting
    exact scored_of_evictsInTurn hends hevicting
  · intro h
    have hok : evictionOutcome svc protectedHandle cs = .ok () :=
      if_neg fun hraises => hraises.2 (h hraises.1)
    rw [hok] at hturn
    rcases evictedByValue_cases svc protectedHandle cs now with
      ⟨hnot, hnone⟩ | ⟨hevicting, -, left, hreclaims⟩
    · rw [hnone] at hturn
      exact ⟨[], cs, hturn, sweepPost_nil fun hevicting => hnot ⟨hevicting, h hevicting⟩⟩
    · exact ⟨_, left, hturn, sweepPost_of_reclaims hevicting hreclaims⟩

/-- The result of a transform, of five bytes; no job has recorded what it cost. -/
def unmeasured : World where
  handles := {
    rows := [{
      handle := ⟨.cube, 0⟩, workspaceId := 0,
      payload := { status := some .ready, storageKey := some (.transform "a" "a.nc") } }]
    next := 1 }
  storage := { blobs := [(.transform "a" "a.nc", { size := 5 })] }

/-- With a default build cost of zero, an over-cap pass ends with an exception. -/
theorem evictByValue_post_zeroCost :
    ∃ svc cs, (candidates svc).runWith World.exec (fun _ => .ok) unmeasured =
        some (.ok cs, unmeasured) ∧
      ¬ ∃ evicted left, EvictsInTurn svc none cs 0 evicted (.ok ()) ∧
        SweepPost svc.maxBytes none cs evicted left := by
  refine ⟨⟨4, 0, 0⟩, _, rfl, ?_⟩
  rintro ⟨evicted, left, hends, -⟩
  exact absurd (scored_of_evictsInTurn hends (by decide)) (by decide)

/-! ### Fairness -/

/-- The cap, shared by the workspaces that hold something. -/
def fairShare (cap : ℕ) (cs : List Candidate) : ℚ :=
  cap / (cs.map Candidate.workspaceId).toFinset.card

/-- Whom a sweep takes from, by what it evicted in order. -/
structure FairPost (cap : ℕ) (protectedHandle : Option HandleId) (cs evicted : List Candidate) :
    Prop where
  /-- When a result goes of a workspace within its share, none above its share has a result
  left that may go. -/
  fair : ∀ before c after now, evicted = before ++ c :: after → cs.Perm (before ++ now) →
    heldBy now c.workspaceId ≤ fairShare cap cs → ∀ ws, fairShare cap cs < heldBy now ws →
      ∀ c' ∈ now, c'.workspaceId = ws → c'.pinned ∨ protectedHandle = some c'.handle
  /-- If every result may go, a workspace within its share loses nothing. -/
  spares : (∀ c ∈ cs, ¬ c.pinned ∧ protectedHandle ≠ some c.handle) → ∀ ws,
    heldBy cs ws ≤ fairShare cap cs → ∀ c ∈ evicted, c.workspaceId ≠ ws

theorem fairPost_of_reclaims {cap : ℕ} {protectedHandle : Option HandleId}
    {cs evicted left : List Candidate}
    (h : Reclaims Candidate.sizeBytes Candidate.workspaceId (Candidate.Exempt protectedHandle)
      cap cs evicted left) :
    FairPost cap protectedHandle cs evicted where
  fair := by
    rintro before c after now rfl hnow hwithin ws habove c' hc' rfl
    by_contra hopen
    rw [← Candidate.not_open_iff] at hopen
    have hle : heldBy now c'.workspaceId ≤ heldBy now c.workspaceId := h.fair hnow hc' hopen
    have hcast : (heldBy now c'.workspaceId : ℚ) ≤ heldBy now c.workspaceId := by
      exact_mod_cast hle
    linarith
  spares hopen ws hwithin c hc := by
    have howners (a : Candidate) (ha : a ∈ cs) :
        a.workspaceId ∈ (cs.map Candidate.workspaceId).toFinset :=
      List.mem_toFinset.2 (List.mem_map_of_mem ha)
    refine h.spares howners (fun a ha => ?_) ?_ hc
    · obtain ⟨hpinned, hprotected⟩ := hopen a ha
      exact not_not.2 ⟨hpinned, hprotected.symm⟩
    · have hcard : 0 < (cs.map Candidate.workspaceId).toFinset.card := by
        apply Finset.card_pos.2
        have hmem := h.perm.mem_iff.2 (List.mem_append_left left hc)
        exact ⟨_, List.mem_toFinset.2 (List.mem_map_of_mem hmem)⟩
      have hcast : (0 : ℚ) < (cs.map Candidate.workspaceId).toFinset.card := by
        exact_mod_cast hcard
      have hmul := (le_div_iff₀ hcast).1 hwithin
      exact_mod_cast hmul

/-- Every pass takes its results fairly. -/
theorem evictByValue_fair (svc : EvictionService) (protectedHandle : Option HandleId)
    (cs : List Candidate) (now : Time) :
    ∃ evicted outcome, EvictsInTurn svc protectedHandle cs now evicted outcome ∧
      FairPost svc.maxBytes protectedHandle cs evicted := by
  refine ⟨_, _, evictsInTurn svc protectedHandle cs now, ?_⟩
  rcases evictedByValue_cases svc protectedHandle cs now with
    ⟨-, hnone⟩ | ⟨-, -, left, hreclaims⟩
  · rw [hnone]
    exact ⟨fun before c after now heq => by simp at heq, fun _ _ _ c hc => by cases hc⟩
  · exact fairPost_of_reclaims hreclaims

/-- A ready result of forty bytes. -/
def fortyBytes (n : ℕ) (ws : WorkspaceId) (lastUsed : Time) : Candidate where
  handle := ⟨.obs, n⟩
  workspaceId := ws
  storageKey := .retrieval .opendap (.jobHandle ⟨.job, n⟩) "subset.nc.zip"
  sizeBytes := 40
  lastUsed := lastUsed
  rebuildCostSeconds := 60
  pinned := false
  speculative := false

/-- The heavy workspace loses its oldest result, not the older one of the light workspace. -/
example : (evictedByValue ⟨120, 60, seconds 3600⟩ none
    [fortyBytes 0 0 (seconds 30000), fortyBytes 1 0 (seconds 20000),
      fortyBytes 2 0 (seconds 30000), fortyBytes 3 1 0]
    (seconds 36000)).map Candidate.handle = [⟨.obs, 1⟩] := by decide +kernel

end EarthdataMcp
