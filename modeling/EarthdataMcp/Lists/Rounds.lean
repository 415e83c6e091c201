import Mathlib.Data.List.Basic
import Mathlib.Logic.Function.Iterate
import Mathlib.Tactic

/-!
# Recursive queries

The iterative meaning of `WITH RECURSIVE … UNION ALL`: a working table, which a round replaces by
what the recursive term makes of it, until there is nothing left; the result is all working
tables together.

* `unionAll`, with a bound on the number of rounds;
* `unionAll_eq_some`: what the result has, if the working table gets empty.
-/

namespace Lists

variable {α : Type} {step : List α → List α} {working : List α}

/-- All rows of the rounds from a working table on; nothing if it is not empty in time. -/
def unionAll (step : List α → List α) : ℕ → List α → Option (List α)
  | _, [] => some []
  | 0, _ :: _ => none
  | fuel + 1, row :: rows => (unionAll step fuel (step (row :: rows))).map (row :: rows ++ ·)

/-- If the working table is empty after some round, the result has the rows of all rounds. -/
theorem unionAll_eq_some (hstep : step [] = []) {rounds fuel : ℕ} (hle : rounds ≤ fuel)
    (h : step^[rounds] working = []) :
    ∃ rows, unionAll step fuel working = some rows ∧
      ∀ row, row ∈ rows ↔ ∃ k, row ∈ step^[k] working := by
  induction fuel generalizing rounds working with
  | zero =>
    obtain rfl := Nat.le_zero.1 hle
    obtain rfl : working = [] := h
    have hempty : ∀ k, step^[k] [] = [] := Function.iterate_fixed hstep
    exact ⟨[], rfl, fun row => by simp [hempty]⟩
  | succ fuel ih =>
    cases working with
    | nil =>
      have hempty : ∀ k, step^[k] [] = [] := Function.iterate_fixed hstep
      exact ⟨[], rfl, fun row => by simp [hempty]⟩
    | cons first rest =>
      cases rounds with
      | zero => cases h
      | succ rounds =>
        rw [Function.iterate_succ_apply] at h
        obtain ⟨rows, hrows, hmem⟩ := ih (Nat.le_of_succ_le_succ hle) h
        refine ⟨first :: rest ++ rows, ?_, ?_⟩
        · rw [unionAll, hrows]
          rfl
        · intro row
          rw [List.mem_append, hmem]
          constructor
          · rintro (hfirst | ⟨k, hk⟩)
            · exact ⟨0, hfirst⟩
            · exact ⟨k + 1, hk⟩
          · rintro ⟨k, hk⟩
            cases k with
            | zero => exact Or.inl hk
            | succ k => exact Or.inr ⟨k, hk⟩

/-- More rounds than needed change nothing. -/
theorem unionAll_mono {fuel fuel' : ℕ} {rows : List α} (hle : fuel ≤ fuel')
    (h : unionAll step fuel working = some rows) : unionAll step fuel' working = some rows := by
  induction fuel generalizing working fuel' rows with
  | zero =>
    cases working with
    | nil => cases fuel' <;> exact h
    | cons first rest => cases h
  | succ fuel ih =>
    obtain ⟨fuel', rfl⟩ := Nat.exists_eq_add_of_le' (Nat.one_le_of_lt hle)
    cases working with
    | nil => exact h
    | cons first rest =>
      rw [unionAll] at h ⊢
      obtain ⟨rows', hrows', rfl⟩ := Option.map_eq_some_iff.1 h
      rw [ih (Nat.le_of_succ_le_succ hle) hrows']
      rfl

end Lists
