import Mathlib.Logic.Relation
import Mathlib.Tactic

/-!
# The job state machine

The states of a durable retrieval job and the table of legal transitions, the single
place where the state machine is encoded.

* `JobState`, `terminalStates`, `legalTransitions`, `assertLegal`;
* `Legal s t` for one edge of the table, `Follows s t` for a chain of edges;
* `Hops s t`, what one transaction commits: an edge, or the two that a poll chains;
* the facts about the table that every writer relies on: a terminal state other than
  `ready` has no edge out, `ready` leads to `expired` only, and nothing leads back to
  `pending`.
-/

namespace EarthdataMcp

/-- The states of a durable job. -/
inductive JobState
  | pending
  | submitted
  | running
  | materializing
  | ready
  | failed
  | expired
  | cancelled
  deriving DecidableEq, Repr

namespace JobState

/-- The states in which a job has ended. -/
def terminalStates : List JobState := [ready, failed, expired, cancelled]

/-- The legal edges out of each state. -/
def legalTransitions : JobState → List JobState
  | pending => [submitted, failed, cancelled]
  | submitted => [running, failed, cancelled]
  | running => [materializing, failed, cancelled]
  | materializing => [ready, failed]
  | ready => [expired]
  | failed => []
  | expired => []
  | cancelled => []

/-- The job has ended. -/
def Terminal (s : JobState) : Prop := s ∈ terminalStates

instance (s : JobState) : Decidable s.Terminal := inferInstanceAs (Decidable (s ∈ terminalStates))

/-- `s → t` is an edge of the table. -/
def Legal (s t : JobState) : Prop := t ∈ s.legalTransitions

instance (s t : JobState) : Decidable (s.Legal t) :=
  inferInstanceAs (Decidable (t ∈ s.legalTransitions))

/-- `t` is reached from `s` by a (possibly empty) chain of legal edges. -/
def Follows (s t : JobState) : Prop := Relation.ReflTransGen Legal s t

theorem Follows.refl (s : JobState) : s.Follows s := Relation.ReflTransGen.refl

theorem Legal.follows {s t : JobState} (h : s.Legal t) : s.Follows t :=
  Relation.ReflTransGen.single h

theorem Follows.trans {s t u : JobState} (h : s.Follows t) (h' : t.Follows u) : s.Follows u :=
  Relation.ReflTransGen.trans h h'

theorem Follows.tail {s t u : JobState} (h : s.Follows t) (h' : t.Legal u) : s.Follows u :=
  Relation.ReflTransGen.tail h h'

/-- What one transaction commits: the state it read, a legal edge out of it, or
`submitted → running → materializing`, the chain of two edges that `set_state` allows for. -/
def Hops (s t : JobState) : Prop := t = s ∨ s.Legal t ∨ s = submitted ∧ t = materializing

theorem Hops.follows {s t : JobState} (h : s.Hops t) : s.Follows t := by
  rcases h with rfl | hl | ⟨rfl, rfl⟩
  · exact .refl _
  · exact hl.follows
  · have hrun : submitted.Legal running := by decide
    exact hrun.follows.tail (by decide)

/-! ### What the table says -/

@[simp] theorem terminal_ready : ready.Terminal := by decide
@[simp] theorem terminal_failed : failed.Terminal := by decide
@[simp] theorem terminal_expired : expired.Terminal := by decide
@[simp] theorem terminal_cancelled : cancelled.Terminal := by decide
@[simp] theorem not_terminal_pending : ¬ pending.Terminal := by decide
@[simp] theorem not_terminal_submitted : ¬ submitted.Terminal := by decide
@[simp] theorem not_terminal_running : ¬ running.Terminal := by decide
@[simp] theorem not_terminal_materializing : ¬ materializing.Terminal := by decide

/-- A legal edge changes the state. -/
theorem Legal.ne {s t : JobState} (h : s.Legal t) : s ≠ t := by
  revert h; cases s <;> cases t <;> decide

/-- Nothing leads back to `pending`. -/
theorem not_legal_pending (s : JobState) : ¬ s.Legal pending := by
  cases s <;> decide

/-- Every state in which a job has not ended leads to `failed`. -/
theorem legal_failed {s : JobState} (h : ¬ s.Terminal) : s.Legal failed := by
  revert h
  cases s <;> decide

/-- The only edge out of a terminal state is `ready → expired`. -/
theorem Legal.of_terminal {s t : JobState} (h : s.Legal t) (hs : s.Terminal) :
    s = ready ∧ t = expired := by
  revert h hs; cases s <;> cases t <;> decide

/-- An edge out of a terminal state leads to a terminal state. -/
theorem Legal.terminal {s t : JobState} (h : s.Legal t) (hs : s.Terminal) : t.Terminal := by
  obtain ⟨rfl, rfl⟩ := h.of_terminal hs
  exact terminal_expired

theorem Follows.terminal {s t : JobState} (h : s.Follows t) (hs : s.Terminal) : t.Terminal := by
  induction h with
  | refl => exact hs
  | tail _ hl ih => exact hl.terminal ih

/-- A job that has ended stays as it is, or goes from `ready` to `expired`. -/
theorem Follows.of_terminal {s t : JobState} (h : s.Follows t) (hs : s.Terminal) :
    t = s ∨ s = ready ∧ t = expired := by
  induction h with
  | refl => exact Or.inl rfl
  | tail _ hl ih =>
    rcases ih with rfl | ⟨rfl, rfl⟩
    · exact Or.inr (hl.of_terminal hs)
    · exact absurd (hl.of_terminal terminal_expired).1 (by decide)

/-- Once `pending` is left it is never reached again. -/
theorem Follows.eq_pending {s t : JobState} (h : s.Follows t) (ht : t = pending) : s = pending := by
  induction h with
  | refl => exact ht
  | tail _ hl _ => exact absurd (ht ▸ hl) (not_legal_pending _)

/-! ### The guard -/

/-- `IllegalTransition`: the edge that was refused. -/
structure IllegalTransition where
  current : JobState
  new : JobState
  deriving DecidableEq, Repr

/-- Refuse an edge that is not in the table. -/
def assertLegal (current new : JobState) : Except IllegalTransition Unit :=
  if current.Legal new then .ok () else .error ⟨current, new⟩

@[simp] theorem assertLegal_eq_ok {s t : JobState} {u : Unit} :
    assertLegal s t = .ok u ↔ s.Legal t := by
  unfold assertLegal
  split_ifs with h <;> simp [h]

end JobState

end EarthdataMcp
