import EarthdataMcp.Lists.Rounds
import Mathlib.Data.List.Sort

/-!
# Ancestry

The ancestry query over the edges of the provenance graph, under the iterative meaning of a
recursive query: every round follows one more edge, and the rows of a handle collapse to the
least depth.

* `ancestry`, the query;
* `Walk`, a chain of edges of one workspace, and `Distance`, the length of a shortest one;
* `mem_rounds`: a round has the handles at the ends of the walks of one length;
* `ancestry_eq`: the query answers with the shortest distances.
-/

namespace EarthdataMcp

variable {W H : Type} [DecidableEq W] [LinearOrder H]

/-- An edge: the target was derived from the source. -/
structure ProvenanceEdge (W H : Type) where
  workspaceId : W
  targetHandle : H
  sourceHandle : H
  deriving DecidableEq

section query

variable (edges : List (ProvenanceEdge W H)) (ws : W) (start : H) (maxDepth : ℕ)

/-- The sources of the edges into the handle. -/
def ancestryAnchor : List (H × ℕ) :=
  (edges.filter fun e => e.targetHandle = start ∧ e.workspaceId = ws).map fun e =>
    (e.sourceHandle, 1)

/-- The recursive term: one more edge from each row whose depth is below the bound. -/
def ancestryStep (working : List (H × ℕ)) : List (H × ℕ) :=
  edges.flatMap fun e =>
    (working.filter fun a => e.targetHandle = a.1 ∧ e.workspaceId = ws ∧ a.2 < maxDepth).map
      fun a => (e.sourceHandle, a.2 + 1)

/-- `MIN(depth)` of the rows of a handle. -/
def minDepth (rows : List (H × ℕ)) (handle : H) : ℕ :=
  ((rows.filter fun a => a.1 = handle).map Prod.snd).min?.getD 0

/-- `ORDER BY depth, handle`. -/
def RanksBefore (a b : H × ℕ) : Prop := a.2 < b.2 ∨ a.2 = b.2 ∧ a.1 ≤ b.1

instance : DecidableRel (RanksBefore : H × ℕ → H × ℕ → Prop) := fun _ _ =>
  inferInstanceAs (Decidable (_ ∨ _))

/-- One row for each handle, with its least depth, in order. -/
def groupByHandle (rows : List (H × ℕ)) : List (H × ℕ) :=
  (((rows.map Prod.fst).dedup).map fun handle => (handle, minDepth rows handle)).insertionSort
    RanksBefore

/-- `ancestry`, with a bound on the number of rounds. -/
def ancestry (fuel : ℕ) : Option (List (H × ℕ)) :=
  (Lists.unionAll (ancestryStep edges ws maxDepth) fuel (ancestryAnchor edges ws start)).map
    groupByHandle

/-- A chain of so many edges of the workspace, from the handle to one it was derived from. -/
inductive Walk : ℕ → H → Prop
  | edge {e : ProvenanceEdge W H} (he : e ∈ edges) (htarget : e.targetHandle = start)
      (hws : e.workspaceId = ws) : Walk 1 e.sourceHandle
  | step {n : ℕ} {e : ProvenanceEdge W H} (he : e ∈ edges) (hwalk : Walk n e.targetHandle)
      (hws : e.workspaceId = ws) : Walk (n + 1) e.sourceHandle

/-- The length of a shortest chain of at least one edge. -/
def Distance (handle : H) (n : ℕ) : Prop :=
  Walk edges ws start n handle ∧ ∀ m, Walk edges ws start m handle → n ≤ m

end query

/-! ### The rounds -/

section rounds

variable {edges : List (ProvenanceEdge W H)} {ws : W} {start : H} {maxDepth : ℕ}

omit [DecidableEq W] [LinearOrder H] in
theorem Walk.pos {n : ℕ} {handle : H} (h : Walk edges ws start n handle) : 1 ≤ n := by
  cases h with
  | edge => exact le_rfl
  | step => omega

theorem mem_ancestryAnchor {handle : H} {depth : ℕ} :
    (handle, depth) ∈ ancestryAnchor edges ws start ↔
      depth = 1 ∧ Walk edges ws start 1 handle := by
  unfold ancestryAnchor
  simp only [List.mem_map, List.mem_filter, decide_eq_true_eq, Prod.mk.injEq]
  constructor
  · rintro ⟨e, ⟨he, htarget, hws⟩, rfl, rfl⟩
    exact ⟨rfl, Walk.edge he htarget hws⟩
  · rintro ⟨rfl, hwalk⟩
    cases hwalk with
    | edge he htarget hws => exact ⟨_, ⟨he, htarget, hws⟩, rfl, rfl⟩
    | step _ hwalk _ => exact absurd hwalk.pos (by decide)

theorem mem_ancestryStep {working : List (H × ℕ)} {handle : H} {depth : ℕ} :
    (handle, depth) ∈ ancestryStep edges ws maxDepth working ↔
      ∃ e ∈ edges, ∃ n, (e.targetHandle, n) ∈ working ∧ e.workspaceId = ws ∧ n < maxDepth ∧
        handle = e.sourceHandle ∧ depth = n + 1 := by
  unfold ancestryStep
  simp only [List.mem_flatMap, List.mem_map, List.mem_filter, decide_eq_true_eq, Prod.mk.injEq]
  constructor
  · rintro ⟨e, he, ⟨target, n⟩, ⟨hmem, rfl, hws, hlt⟩, rfl, rfl⟩
    exact ⟨e, he, n, hmem, hws, hlt, rfl, rfl⟩
  · rintro ⟨e, he, n, hmem, hws, hlt, rfl, rfl⟩
    exact ⟨e, he, (e.targetHandle, n), ⟨hmem, rfl, hws, hlt⟩, rfl, rfl⟩

/-- A round has the ends of the walks of one length, as long as the bound allows it. -/
theorem mem_rounds (hdepth : 1 ≤ maxDepth) (k : ℕ) {handle : H} {depth : ℕ} :
    (handle, depth) ∈ (ancestryStep edges ws maxDepth)^[k] (ancestryAnchor edges ws start) ↔
      depth = k + 1 ∧ depth ≤ maxDepth ∧ Walk edges ws start depth handle := by
  induction k generalizing handle depth with
  | zero =>
    rw [Function.iterate_zero_apply, mem_ancestryAnchor]
    constructor
    · rintro ⟨rfl, hwalk⟩
      exact ⟨rfl, hdepth, hwalk⟩
    · rintro ⟨rfl, -, hwalk⟩
      exact ⟨rfl, hwalk⟩
  | succ k ih =>
    rw [Function.iterate_succ_apply', mem_ancestryStep]
    constructor
    · rintro ⟨e, he, n, hmem, hws, hlt, rfl, rfl⟩
      obtain ⟨rfl, -, hwalk⟩ := ih.1 hmem
      exact ⟨rfl, hlt, Walk.step he hwalk hws⟩
    · rintro ⟨rfl, hle, hwalk⟩
      cases hwalk with
      | step he hwalk hws =>
        exact ⟨_, he, k + 1, ih.2 ⟨rfl, by omega, hwalk⟩, hws, by omega, rfl, rfl⟩

/-- No round is left when the bound is reached. -/
theorem rounds_eq_nil (hdepth : 1 ≤ maxDepth) :
    (ancestryStep edges ws maxDepth)^[maxDepth] (ancestryAnchor edges ws start) = [] := by
  apply List.eq_nil_iff_forall_not_mem.2
  rintro ⟨handle, depth⟩ hmem
  obtain ⟨rfl, hle, -⟩ := (mem_rounds hdepth maxDepth).1 hmem
  omega

end rounds

/-! ### Grouping -/

section grouping

variable {rows : List (H × ℕ)} {handle : H} {depth : ℕ}

theorem minDepth_eq_iff (h : ∃ n, (handle, n) ∈ rows) :
    minDepth rows handle = depth ↔
      (handle, depth) ∈ rows ∧ ∀ n, (handle, n) ∈ rows → depth ≤ n := by
  have hmem : ∀ n, n ∈ (rows.filter fun a => a.1 = handle).map Prod.snd ↔ (handle, n) ∈ rows := by
    intro n
    simp only [List.mem_map, List.mem_filter, decide_eq_true_eq]
    constructor
    · rintro ⟨⟨_, _⟩, ⟨ha, rfl⟩, rfl⟩
      exact ha
    · intro ha
      exact ⟨_, ⟨ha, rfl⟩, rfl⟩
  obtain ⟨n, hn⟩ := h
  unfold minDepth
  cases hmin : ((rows.filter fun a => a.1 = handle).map Prod.snd).min? with
  | none =>
    have hnil := List.min?_eq_none_iff.1 hmin
    have := (hmem n).2 hn
    rw [hnil] at this
    cases this
  | some least =>
    obtain ⟨hleast, hle⟩ := List.min?_eq_some_iff.1 hmin
    rw [Option.getD_some]
    constructor
    · rintro rfl
      exact ⟨(hmem _).1 hleast, fun m hm => hle m ((hmem m).2 hm)⟩
    · rintro ⟨hdepth, hmin'⟩
      exact le_antisymm (hle depth ((hmem depth).2 hdepth)) (hmin' least ((hmem least).1 hleast))

theorem mem_groupByHandle :
    (handle, depth) ∈ groupByHandle rows ↔
      (handle, depth) ∈ rows ∧ ∀ n, (handle, n) ∈ rows → depth ≤ n := by
  unfold groupByHandle
  rw [List.mem_insertionSort]
  simp only [List.mem_map, List.mem_dedup, Prod.mk.injEq]
  constructor
  · rintro ⟨_, ⟨⟨_, n⟩, hn, rfl⟩, rfl, hdepth⟩
    exact (minDepth_eq_iff ⟨n, hn⟩).1 hdepth
  · rintro ⟨hdepth, hle⟩
    exact ⟨handle, ⟨_, hdepth, rfl⟩, rfl, (minDepth_eq_iff ⟨depth, hdepth⟩).2 ⟨hdepth, hle⟩⟩

/-- The handles of the answer are different. -/
theorem nodup_groupByHandle : ((groupByHandle rows).map Prod.fst).Nodup := by
  unfold groupByHandle
  apply List.Perm.nodup
  · exact ((List.perm_insertionSort _ _).map Prod.fst).symm
  · rw [List.map_map]
    change ((rows.map Prod.fst).dedup.map id).Nodup
    rw [List.map_id]
    exact List.nodup_dedup _

instance : Std.Total (RanksBefore : H × ℕ → H × ℕ → Prop) := ⟨fun a b => by
  unfold RanksBefore
  rcases lt_trichotomy a.2 b.2 with h | h | h
  · exact Or.inl (Or.inl h)
  · rcases le_total a.1 b.1 with h' | h'
    · exact Or.inl (Or.inr ⟨h, h'⟩)
    · exact Or.inr (Or.inr ⟨h.symm, h'⟩)
  · exact Or.inr (Or.inl h)⟩

instance : IsTrans (H × ℕ) RanksBefore := ⟨fun a b c => by
  unfold RanksBefore
  rintro (hab | ⟨hab, hab'⟩) (hbc | ⟨hbc, hbc'⟩)
  · exact Or.inl (hab.trans hbc)
  · exact Or.inl (hbc ▸ hab)
  · exact Or.inl (hab ▸ hbc)
  · exact Or.inr ⟨hab.trans hbc, hab'.trans hbc'⟩⟩

theorem sorted_groupByHandle : (groupByHandle rows).Pairwise RanksBefore :=
  List.pairwise_insertionSort RanksBefore _

end grouping

/-! ### The answer -/

/-- The rows of a handle have the lengths of its walks, so the least one is the distance. -/
theorem ancestry_eq (edges : List (ProvenanceEdge W H)) (ws : W) (start : H) {maxDepth : ℕ}
    (hdepth : 1 ≤ maxDepth) :
    ∃ result, (∀ fuel, maxDepth ≤ fuel → ancestry edges ws start maxDepth fuel = some result) ∧
      (∀ handle depth, (handle, depth) ∈ result ↔
        Distance edges ws start handle depth ∧ depth ≤ maxDepth) ∧
      (result.map Prod.fst).Nodup ∧ result.Pairwise RanksBefore := by
  have hstep : ancestryStep edges ws maxDepth [] = [] := by simp [ancestryStep]
  have hempty : (ancestryStep edges ws maxDepth)^[maxDepth] (ancestryAnchor edges ws start) = [] :=
    rounds_eq_nil hdepth
  obtain ⟨rows, hrows, hmem⟩ := Lists.unionAll_eq_some hstep le_rfl hempty
  -- every walk within the bound is found in the round of its length
  have hwalk : ∀ handle n, (handle, n) ∈ rows ↔ n ≤ maxDepth ∧ Walk edges ws start n handle := by
    intro handle n
    rw [hmem]
    constructor
    · rintro ⟨k, hk⟩
      exact ((mem_rounds hdepth k).1 hk).2
    · rintro ⟨hle, hn⟩
      have hpos := hn.pos
      exact ⟨n - 1, (mem_rounds hdepth (n - 1)).2 ⟨by omega, hle, hn⟩⟩
  refine ⟨groupByHandle rows, ?_, ?_, nodup_groupByHandle, sorted_groupByHandle⟩
  · intro fuel hfuel
    rw [ancestry, Lists.unionAll_mono hfuel hrows]
    rfl
  · intro handle depth
    rw [mem_groupByHandle, hwalk]
    constructor
    · rintro ⟨⟨hle, hn⟩, hleast⟩
      refine ⟨⟨hn, fun m hm => ?_⟩, hle⟩
      rcases le_total m maxDepth with hm' | hm'
      · exact hleast m ((hwalk handle m).2 ⟨hm', hm⟩)
      · exact hle.trans hm'
    · rintro ⟨⟨hn, hleast⟩, hle⟩
      exact ⟨⟨hle, hn⟩, fun m hm => hleast m ((hwalk handle m).1 hm).2⟩

/-- A diamond below a cycle, and an edge of another workspace. -/
theorem ancestry_eq_diamond :
    let edges : List (ProvenanceEdge ℕ ℕ) :=
      [⟨0, 1, 2⟩, ⟨0, 1, 3⟩, ⟨0, 2, 4⟩, ⟨0, 3, 4⟩, ⟨0, 4, 1⟩, ⟨7, 1, 9⟩]
    ∃ result, (∀ fuel, 3 ≤ fuel → ancestry edges 0 1 3 fuel = some result) ∧
      (∀ handle depth, (handle, depth) ∈ result ↔
        Distance edges 0 1 handle depth ∧ depth ≤ 3) ∧
      (result.map Prod.fst).Nodup ∧ result.Pairwise RanksBefore :=
  ancestry_eq _ 0 1 (by decide)

example : ancestry (W := ℕ) (H := ℕ)
    [⟨0, 1, 2⟩, ⟨0, 1, 3⟩, ⟨0, 2, 4⟩, ⟨0, 3, 4⟩, ⟨0, 4, 1⟩, ⟨7, 1, 9⟩] 0 1 3 3 =
      some [(2, 1), (3, 1), (4, 2), (1, 3)] := by decide

end EarthdataMcp
