import EarthdataMcp.Jobs.EvictionOrder

/-!
# Whose turn it is

The loop reaches a candidate once every workspace that held more has given up what brings it
down to the level at which the candidate is next.

* `givenUp`, what the end of a queue amounts to down to a level, and `sooner`, what goes before
  a candidate;
* `mem_evictions_iff`: a candidate is evicted exactly if what goes before it does not suffice;
* `speculative_sorted`: in its queue a speculative candidate goes before every requested one.
-/

namespace EarthdataMcp

/-- The workspaces that have a queue. -/
abbrev keys (queues : List (WorkspaceId × List Candidate)) : List WorkspaceId :=
  queues.map Prod.fst

/-- What goes from a queue, last one first, while its workspace holds at least `level`. -/
def givenUp (level : ℕ) : ℕ → List Candidate → ℕ
  | _, [] => 0
  | held, c :: cs => if level ≤ held then c.sizeBytes + givenUp level (held - c.sizeBytes) cs else 0

/-- What goes from all these queues. -/
def givenUpBy (level : ℕ) (held : WorkspaceId → ℕ)
    (queues : List (WorkspaceId × List Candidate)) : ℕ :=
  (queues.map fun queue => givenUp level (held queue.1) queue.2.reverse).sum

section givenUp

variable {level : ℕ} {held : WorkspaceId → ℕ}
  {queues before after : List (WorkspaceId × List Candidate)} {ws : WorkspaceId}
  {front : List Candidate} {c : Candidate}

theorem givenUpBy_append : givenUpBy level held (before ++ after) =
    givenUpBy level held before + givenUpBy level held after := by
  simp [givenUpBy]

theorem givenUpBy_cons (queue : WorkspaceId × List Candidate) :
    givenUpBy level held (queue :: queues) =
      givenUp level (held queue.1) queue.2.reverse + givenUpBy level held queues := by
  simp [givenUpBy]

/-- Nothing goes of workspaces below the level. -/
theorem givenUpBy_eq_zero (h : ∀ queue ∈ queues, held queue.1 < level) :
    givenUpBy level held queues = 0 := by
  induction queues with
  | nil => rfl
  | cons queue queues ih =>
    obtain ⟨hqueue, hrest⟩ := List.forall_mem_cons.1 h
    rw [givenUpBy_cons, ih hrest]
    cases queue.2.reverse with
    | nil => rfl
    | cons c cs =>
      rw [givenUp, if_neg hqueue.not_ge]

/-- The other workspaces do not depend on what one of them holds. -/
theorem givenUpBy_update (h : ws ∉ keys queues) (n : ℕ) :
    givenUpBy level (Function.update held ws n) queues = givenUpBy level held queues := by
  induction queues with
  | nil => rfl
  | cons queue queues ih =>
    rw [keys, List.map_cons, List.mem_cons, not_or] at h
    rw [givenUpBy_cons, givenUpBy_cons, ih h.2, Function.update_of_ne (Ne.symm h.1)]

/-- What goes next is what goes from a workspace at the level or above. -/
theorem givenUpBy_dropLastOf (hkeys : (keys (before ++ (ws, front ++ [c]) :: after)).Nodup)
    (hlevel : level ≤ held ws) :
    givenUpBy level held (before ++ (ws, front ++ [c]) :: after) =
      c.sizeBytes + givenUpBy level (Function.update held ws (held ws - c.sizeBytes))
        (dropLastOf before ws front after) := by
  have hapart : ws ∉ keys before ∧ ws ∉ keys after := by
    simp only [keys, List.map_append, List.map_cons, List.nodup_append, List.nodup_cons] at hkeys
    exact ⟨fun hmem => hkeys.2.2 ws hmem ws List.mem_cons_self rfl, hkeys.2.1.1⟩
  have hdrop : givenUpBy level (Function.update held ws (held ws - c.sizeBytes))
      (if front = [] then after else (ws, front) :: after) =
        givenUp level (held ws - c.sizeBytes) front.reverse + givenUpBy level held after := by
    by_cases hempty : front = []
    · rw [if_pos hempty, hempty, givenUpBy_update hapart.2]
      exact (zero_add _).symm
    · rw [if_neg hempty, givenUpBy_cons, givenUpBy_update hapart.2, Function.update_self]
  have hlast : givenUp level (held ws) (front ++ [c]).reverse =
      c.sizeBytes + givenUp level (held ws - c.sizeBytes) front.reverse := by
    rw [List.reverse_append, List.reverse_singleton, List.singleton_append, givenUp, if_pos hlevel]
  rw [givenUpBy_append, givenUpBy_cons, dropLastOf, givenUpBy_append, hdrop,
    givenUpBy_update hapart.1, hlast]
  omega

end givenUp

/-! ### What goes before a candidate -/

/-- Queues, at the place of one of their candidates. -/
def queuesAt (before : List (WorkspaceId × List Candidate)) (ws : WorkspaceId)
    (front : List Candidate) (c : Candidate) (back : List Candidate)
    (after : List (WorkspaceId × List Candidate)) : List (WorkspaceId × List Candidate) :=
  before ++ (ws, front ++ c :: back) :: after

/-- What goes before the candidate at that place: what comes later in its queue, and what other
workspaces give up down to what its own one holds then; of those that hold just that, only the
ones queued before it. -/
def sooner (held : WorkspaceId → ℕ) (before : List (WorkspaceId × List Candidate))
    (ws : WorkspaceId) (back : List Candidate)
    (after : List (WorkspaceId × List Candidate)) : ℕ :=
  givenUpBy (held ws - totalBytes back) held before + totalBytes back +
    givenUpBy (held ws - totalBytes back + 1) held after

/-- Two places in one list: the same, or one behind the other. -/
theorem append_cons_cases {α : Type} {l l' r r' : List α} {a a' : α}
    (h : l ++ a :: r = l' ++ a' :: r') :
    (l = l' ∧ a = a' ∧ r = r') ∨ (∃ m, l = l' ++ a' :: m ∧ r' = m ++ a :: r) ∨
      ∃ m, l' = l ++ a :: m ∧ r = m ++ a' :: r' := by
  rcases List.append_eq_append_iff.1 h with ⟨m, hl, hr⟩ | ⟨m, hl, hr⟩
  · cases m with
    | nil =>
      simp only [List.append_nil, List.nil_append, List.cons.injEq] at hl hr
      exact Or.inl ⟨hl.symm, hr.1, hr.2⟩
    | cons b m =>
      simp only [List.cons_append, List.cons.injEq] at hr
      exact Or.inr (Or.inr ⟨m, by rw [hl, hr.1], hr.2⟩)
  · cases m with
    | nil =>
      simp only [List.append_nil, List.nil_append, List.cons.injEq] at hl hr
      exact Or.inl ⟨hl, hr.1.symm, hr.2.symm⟩
    | cons b m =>
      simp only [List.cons_append, List.cons.injEq] at hr
      exact Or.inr (Or.inl ⟨m, by rw [hl, hr.1], hr.2⟩)

theorem mem_keys_middle {before after : List (WorkspaceId × List Candidate)}
    {queue : WorkspaceId × List Candidate} (h : (keys (before ++ queue :: after)).Nodup) :
    queue.1 ∉ keys before ∧ queue.1 ∉ keys after := by
  simp only [keys, List.map_append, List.map_cons, List.nodup_append, List.nodup_cons] at h
  exact ⟨fun hmem => h.2.2 _ hmem _ List.mem_cons_self rfl, h.2.1.1⟩

theorem keys_dropLastOf {before after : List (WorkspaceId × List Candidate)} {ws : WorkspaceId}
    {front : List Candidate} {c : Candidate}
    (h : (keys (before ++ (ws, front ++ [c]) :: after)).Nodup) :
    (keys (dropLastOf before ws front after)).Nodup := by
  refine h.sublist ?_
  unfold dropLastOf keys
  rw [List.map_append, List.map_append]
  apply List.Sublist.append_left
  split_ifs
  · exact List.sublist_cons_self _ _
  · exact .refl _

section sooner

variable {held : WorkspaceId → ℕ} {before after m : List (WorkspaceId × List Candidate)}
  {w ws : WorkspaceId} {front back : List Candidate} {c : Candidate}

theorem totalBytes_concat : totalBytes (back ++ [c]) = totalBytes back + c.sizeBytes := by
  simp [totalBytes]

/-- Nothing goes before a candidate that is taken. -/
theorem sooner_eq_zero (hbefore : ∀ q ∈ before, held q.1 < held ws)
    (hafter : ∀ q ∈ after, held q.1 ≤ held ws) : sooner held before ws [] after = 0 := by
  have hlevel : held ws - totalBytes [] = held ws := Nat.sub_zero _
  rw [sooner, hlevel, givenUpBy_eq_zero hbefore,
    givenUpBy_eq_zero fun q hq => Nat.lt_succ_of_le (hafter q hq)]
  rfl

/-- What is taken comes later in the candidate's own queue. -/
theorem sooner_concat (hbefore : ws ∉ keys before) (hafter : ws ∉ keys after) :
    sooner held before ws (back ++ [c]) after = c.sizeBytes +
      sooner (Function.update held ws (held ws - c.sizeBytes)) before ws back after := by
  have hlevel : held ws - totalBytes (back ++ [c]) =
      held ws - c.sizeBytes - totalBytes back := by
    rw [totalBytes_concat]
    omega
  unfold sooner
  rw [Function.update_self, givenUpBy_update hbefore, givenUpBy_update hafter, hlevel,
    totalBytes_concat]
  omega

/-- What is taken is in a queue before the candidate's. -/
theorem sooner_before (hkeys : (keys (before ++ (ws, front ++ [c]) :: m)).Nodup) (hne : w ≠ ws)
    (hafter : ws ∉ keys after) (hlevel : held w ≤ held ws) :
    sooner held (before ++ (ws, front ++ [c]) :: m) w back after = c.sizeBytes +
      sooner (Function.update held ws (held ws - c.sizeBytes)) (dropLastOf before ws front m) w
        back after := by
  unfold sooner
  rw [Function.update_of_ne hne, givenUpBy_update hafter,
    givenUpBy_dropLastOf hkeys ((Nat.sub_le _ _).trans hlevel)]
  omega

/-- What is taken is in a queue after the candidate's. -/
theorem sooner_after (hkeys : (keys (m ++ (ws, front ++ [c]) :: after)).Nodup) (hne : w ≠ ws)
    (hbefore : ws ∉ keys before) (hlevel : held w < held ws) :
    sooner held before w back (m ++ (ws, front ++ [c]) :: after) = c.sizeBytes +
      sooner (Function.update held ws (held ws - c.sizeBytes)) before w back
        (dropLastOf m ws front after) := by
  have hlevel' : held w - totalBytes back + 1 ≤ held ws := by omega
  unfold sooner
  rw [Function.update_of_ne hne, givenUpBy_update hbefore, givenUpBy_dropLastOf hkeys hlevel']
  omega

theorem dropLastOf_append_cons {q : WorkspaceId × List Candidate} :
    dropLastOf before ws front (m ++ q :: after) = dropLastOf before ws front m ++ q :: after := by
  unfold dropLastOf
  split_ifs <;> simp

theorem dropLastOf_cons_append {q : WorkspaceId × List Candidate} :
    dropLastOf (before ++ q :: m) ws front after = before ++ q :: dropLastOf m ws front after := by
  simp [dropLastOf]

end sooner

/-- The place of a candidate once another one has been taken. -/
theorem queuesAt_next {held : WorkspaceId → ℕ}
    {before after b a : List (WorkspaceId × List Candidate)} {w ws : WorkspaceId}
    {front back fr : List Candidate} {c taken : Candidate}
    (hqueued : Queued (queuesAt before w front c back after))
    (hkeys : (keys (queuesAt before w front c back after)).Nodup)
    (hnodup : (front ++ c :: back).Nodup)
    (hsplit : queuesAt before w front c back after = b ++ (ws, fr ++ [taken]) :: a)
    (hb : ∀ q ∈ b, held q.1 < held ws) (ha : ∀ q ∈ a, held q.1 ≤ held ws) :
    (c = taken ∧ back = [] ∧ sooner held before w back after = 0) ∨
      c ≠ taken ∧ ∃ before' back' after',
        dropLastOf b ws fr a = queuesAt before' w front c back' after' ∧
        (front ++ c :: back').Nodup ∧ back ⊆ taken :: back' ∧
        sooner held before w back after = taken.sizeBytes +
          sooner (Function.update held ws (held ws - taken.sizeBytes)) before' w back' after' := by
  unfold queuesAt at hqueued hkeys hsplit
  have hcw : c.workspaceId = w :=
    (hqueued (w, _) (List.mem_append_right _ List.mem_cons_self)).2 _ (by simp)
  have htaken : taken.workspaceId = ws := by
    rw [hsplit] at hqueued
    exact (hqueued (ws, _) (List.mem_append_right _ List.mem_cons_self)).2 _ (by simp)
  obtain ⟨hnot, hnot'⟩ := mem_keys_middle hkeys
  rcases append_cons_cases hsplit with ⟨rfl, hsame, rfl⟩ | ⟨m, rfl, rfl⟩ | ⟨m, rfl, rfl⟩
  · -- its own queue: it is the last one there, or another one is
    obtain ⟨rfl, hqueue⟩ := Prod.mk.inj hsame
    rcases List.eq_nil_or_concat' back with rfl | ⟨back, last, rfl⟩
    · obtain ⟨rfl, rfl⟩ := List.append_singleton_inj.1 hqueue
      exact Or.inl ⟨rfl, rfl, sooner_eq_zero hb ha⟩
    · have hfront : (front ++ c :: back) ++ [last] = fr ++ [taken] := by simpa using hqueue
      obtain ⟨rfl, rfl⟩ := List.append_singleton_inj.1 hfront
      refine Or.inr ⟨?_, before, back, after, ?_, ?_, ?_, sooner_concat hnot hnot'⟩
      · rintro rfl
        simp [List.nodup_append] at hnodup
      · simp [queuesAt, dropLastOf]
      · exact hnodup.sublist (by simp)
      · exact (List.perm_append_singleton last back).subset
  · have hne : w ≠ ws := by
      rintro rfl
      exact hnot (by simp [keys])
    have hlevel : held w ≤ held ws := ha (w, _) (List.mem_append_right _ List.mem_cons_self)
    refine Or.inr ⟨?_, dropLastOf b ws fr m, back, after, dropLastOf_append_cons, hnodup,
      List.subset_cons_self taken back, ?_⟩
    · rintro rfl
      exact hne (hcw.symm.trans htaken)
    · have hkeys' : (keys (b ++ (ws, fr ++ [taken]) :: m)).Nodup := by
        refine hkeys.sublist ?_
        simp [keys]
      refine sooner_before hkeys' hne (fun hmem => ?_) hlevel
      simp only [keys, List.map_append, List.map_cons, List.nodup_append] at hkeys
      exact hkeys.2.2 ws (by simp) ws (List.mem_cons_of_mem _ hmem) rfl
  · have hne : w ≠ ws := by
      rintro rfl
      exact hnot' (by simp [keys])
    have hlevel : held w < held ws := hb (w, _) (List.mem_append_right _ List.mem_cons_self)
    refine Or.inr ⟨?_, before, back, dropLastOf m ws fr a, dropLastOf_cons_append, hnodup,
      List.subset_cons_self taken back, ?_⟩
    · rintro rfl
      exact hne (hcw.symm.trans htaken)
    · have hkeys' : (keys (m ++ (ws, fr ++ [taken]) :: a)).Nodup := by
        refine hkeys.sublist ?_
        simp [keys]
      refine sooner_after hkeys' hne (fun hmem => ?_) hlevel
      simp only [keys, List.map_append, List.map_cons, List.nodup_append] at hkeys
      exact hkeys.2.2 ws hmem ws (by simp) rfl

/-- A candidate is evicted exactly if the loop is still over the cap when its turn comes. -/
theorem mem_evictions_iff (cap : ℕ) {rounds total : ℕ} {held : WorkspaceId → ℕ}
    {before after : List (WorkspaceId × List Candidate)} {w : WorkspaceId}
    {front back : List Candidate} {c : Candidate}
    (hqueued : Queued (queuesAt before w front c back after))
    (hkeys : (keys (queuesAt before w front c back after)).Nodup)
    (hnodup : (front ++ c :: back).Nodup)
    (hrounds : (waiting (queuesAt before w front c back after)).length ≤ rounds) :
    c ∈ evictions cap rounds total held (queuesAt before w front c back after) ↔
      cap + sooner held before w back after < total := by
  induction rounds generalizing total held before back after with
  | zero =>
    simp only [queuesAt, waiting, List.flatMap_append, List.flatMap_cons, List.length_append,
      List.length_cons] at hrounds
    omega
  | succ rounds ih =>
    by_cases hfits : total ≤ cap
    · rw [evictions, if_pos hfits]
      constructor
      · intro h
        cases h
      · intro h
        omega
    have hne : queuesAt before w front c back after ≠ [] := by simp [queuesAt]
    obtain ⟨b, ws, fr, taken, a, hsplit, hb, ha, heq⟩ :=
      evictions_cases cap rounds held (not_le.1 hfits) hne hqueued
    rw [heq]
    rcases queuesAt_next hqueued hkeys hnodup hsplit hb ha with
      ⟨rfl, -, hzero⟩ | ⟨hother, before', back', after', hqueues, hnodup', -, hsooner⟩
    · rw [hzero]
      exact iff_of_true List.mem_cons_self (not_le.1 hfits)
    · have hpop := waiting_dropLastOf
        (fun q hq hsame => (hb q hq).ne (congrArg held hsame)) fr taken a
      rw [← hsplit] at hpop
      rw [hsplit] at hqueued hkeys
      rw [List.mem_cons, or_iff_right hother, hqueues, ih, hsooner]
      · omega
      · exact hqueues ▸ hqueued.dropLastOf
      · exact hqueues ▸ keys_dropLastOf hkeys
      · exact hnodup'
      · rw [← hqueues]
        have hlength := hpop.length_eq
        rw [List.length_cons] at hlength
        omega

/-- What comes later in a candidate's queue is evicted before it. -/
theorem back_subset_of_evictions {cap rounds total : ℕ} {held : WorkspaceId → ℕ}
    {before after : List (WorkspaceId × List Candidate)} {w : WorkspaceId}
    {front back pre post : List Candidate} {c : Candidate}
    (hqueued : Queued (queuesAt before w front c back after))
    (hkeys : (keys (queuesAt before w front c back after)).Nodup)
    (hnodup : (front ++ c :: back).Nodup)
    (h : evictions cap rounds total held (queuesAt before w front c back after) =
      pre ++ c :: post) : back ⊆ pre := by
  induction rounds generalizing total held before back after pre with
  | zero => simp [evictions] at h
  | succ rounds ih =>
    by_cases hfits : total ≤ cap
    · rw [evictions, if_pos hfits] at h
      simp at h
    have hne : queuesAt before w front c back after ≠ [] := by simp [queuesAt]
    obtain ⟨b, ws, fr, taken, a, hsplit, hb, ha, heq⟩ :=
      evictions_cases cap rounds held (not_le.1 hfits) hne hqueued
    rw [heq] at h
    rcases queuesAt_next hqueued hkeys hnodup hsplit hb ha with
      ⟨-, rfl, -⟩ | ⟨hother, before', back', after', hqueues, hnodup', hback, -⟩
    · exact List.nil_subset _
    cases pre with
    | nil => exact absurd (List.cons.inj h).1.symm hother
    | cons first pre =>
      obtain ⟨rfl, hrest⟩ := List.cons.inj h
      rw [hsplit] at hqueued hkeys
      rw [hqueues] at hrest
      have hsub := ih (hqueues ▸ hqueued.dropLastOf) (hqueues ▸ keys_dropLastOf hkeys) hnodup' hrest
      exact List.Subset.trans hback (List.cons_subset_cons _ hsub)

/-! ### The queues of a sweep -/

theorem keys_enqueueCandidate (c : Candidate) (queues : List (WorkspaceId × List Candidate)) :
    keys (enqueueCandidate c queues) =
      if c.workspaceId ∈ keys queues then keys queues else keys queues ++ [c.workspaceId] := by
  induction queues with
  | nil => rfl
  | cons queue queues ih =>
    obtain ⟨ws, cs⟩ := queue
    unfold enqueueCandidate
    by_cases hws : ws = c.workspaceId
    · simp [hws, keys]
    · have hne : c.workspaceId ≠ ws := fun h => hws h.symm
      simp only [keys] at ih
      simp only [if_neg hws, keys, List.map_cons, ih, List.mem_cons, hne, false_or]
      split_ifs <;> simp

theorem keys_evictionQueues (now : Time) (protectedHandle : Option HandleId)
    (cs : List Candidate) : (keys (evictionQueues now protectedHandle cs)).Nodup := by
  have hfold (cs : List Candidate) {queues : List (WorkspaceId × List Candidate)}
      (h : (keys queues).Nodup) :
      (keys (cs.foldl (fun queues c => enqueueCandidate c queues) queues)).Nodup := by
    induction cs generalizing queues with
    | nil => exact h
    | cons c cs ih =>
      apply ih
      rw [keys_enqueueCandidate]
      split_ifs with hmem
      · exact h
      · exact List.nodup_append.2 ⟨h, List.nodup_singleton _, fun ws hws ws' hws' heq =>
          hmem (List.mem_singleton.1 hws' ▸ heq ▸ hws)⟩
  have hsame : keys (evictionQueues now protectedHandle cs) =
      keys ((cs.filter fun c => c.Open protectedHandle).foldl
        (fun queues c => enqueueCandidate c queues) []) := by
    simp [evictionQueues, keys]
  rw [hsame]
  exact hfold _ List.nodup_nil

/-- A sort that respects a coarser order leaves the list in that order. -/
theorem pairwise_insertionSort_of {α : Type} {r s : α → α → Prop} [DecidableRel r]
    (htrans : ∀ {a b c}, s a b → s b c → s a c) (hof : ∀ {a b}, r a b → s a b)
    (hnot : ∀ {a b}, ¬ r a b → s b a) (l : List α) : (l.insertionSort r).Pairwise s := by
  have hinsert (a : α) (l : List α) (h : l.Pairwise s) : (l.orderedInsert r a).Pairwise s := by
    induction l with
    | nil => exact List.pairwise_singleton s a
    | cons b l ih =>
      obtain ⟨hb, hl⟩ := List.pairwise_cons.1 h
      by_cases hab : r a b
      · rw [List.orderedInsert_cons_of_le r l hab]
        refine List.pairwise_cons.2 ⟨fun c hc => ?_, h⟩
        rcases List.mem_cons.1 hc with rfl | hc
        · exact hof hab
        · exact htrans (hof hab) (hb c hc)
      · rw [List.orderedInsert_of_not_le r l hab]
        refine List.pairwise_cons.2 ⟨fun c hc => ?_, ih hl⟩
        rcases (List.mem_orderedInsert r).1 hc with rfl | hc
        · exact hnot hab
        · exact hb c hc
  induction l with
  | nil => exact .nil
  | cons a l ih => exact hinsert a _ ih

/-- In its queue a requested candidate comes before all speculative ones, so that it is taken
after them. -/
theorem speculative_sorted {now : Time} {protectedHandle : Option HandleId} {cs : List Candidate}
    {queue : WorkspaceId × List Candidate} (h : queue ∈ evictionQueues now protectedHandle cs) :
    queue.2.Pairwise fun c c' => c.speculative → c'.speculative := by
  obtain ⟨⟨ws, waiting⟩, -, rfl⟩ := List.mem_map.1 h
  refine pairwise_insertionSort_of (fun h h' hc => h' (h hc)) ?_ ?_ waiting
  · intro c c' hle hspec
    unfold Candidate.before at hle
    split_ifs at hle with hsame
    · exact hsame ▸ hspec
    · exact hle
  · intro c c' hle hspec
    unfold Candidate.before at hle
    split_ifs at hle with hsame
    · exact hsame ▸ hspec
    · exact absurd hspec hle

end EarthdataMcp
