import Mathlib.Data.List.Basic
import Mathlib.Tactic

/-!
# Merging under names

Named entries of several origins put into one table, where the first of equal names is kept.

* `keepFirst`, and `lookup_keepFirst`: nothing is looked up differently;
* `lookup_of_only`: an entry whose name no other one has is found.
-/

namespace Lists

variable {K α : Type} [DecidableEq K]

/-- The first entry of each name. -/
def keepFirst : List (K × α) → List (K × α)
  | [] => []
  | e :: es => e :: (keepFirst es).filter fun e' => e'.1 ≠ e.1

variable {es : List (K × α)} {name : K} {x : α}

theorem mem_of_lookup (h : es.lookup name = some x) : (name, x) ∈ es := by
  induction es with
  | nil => cases h
  | cons e es ih =>
    rw [List.lookup_cons] at h
    by_cases hname : name = e.1
    · subst hname
      rw [beq_self_eq_true] at h
      exact List.mem_cons.2 (Or.inl (Prod.ext rfl (Option.some.inj h).symm))
    · rw [beq_eq_false_iff_ne.2 hname] at h
      exact List.mem_cons_of_mem _ (ih h)

/-- An entry is found if no other one has its name. -/
theorem lookup_of_only {e : K × α} (h : e ∈ es) (honly : ∀ e' ∈ es, e'.1 = e.1 → e' = e) :
    es.lookup e.1 = some e.2 := by
  cases hlookup : es.lookup e.1 with
  | none =>
    exact absurd (beq_self_eq_true e.1) (by simpa using List.lookup_eq_none_iff.1 hlookup e h)
  | some y =>
    have heq := honly _ (mem_of_lookup hlookup) rfl
    rw [← heq]

/-- A name that is dropped from a table does not matter to another one. -/
theorem lookup_filter_ne {name' : K} (h : name ≠ name') :
    (es.filter fun e => e.1 ≠ name').lookup name = es.lookup name := by
  induction es with
  | nil => rfl
  | cons e es ih =>
    by_cases hdrop : e.1 = name'
    · rw [List.filter_cons_of_neg (by simpa using hdrop), ih, List.lookup_cons,
        beq_eq_false_iff_ne.2 fun heq => h (heq.trans hdrop)]
    · rw [List.filter_cons_of_pos (by simpa using hdrop), List.lookup_cons, List.lookup_cons, ih]

@[simp] theorem lookup_keepFirst (es : List (K × α)) (name : K) :
    (keepFirst es).lookup name = es.lookup name := by
  induction es with
  | nil => rfl
  | cons e es ih =>
    rw [keepFirst, List.lookup_cons, List.lookup_cons]
    by_cases hname : name = e.1
    · rw [beq_iff_eq.2 hname]
    · rw [beq_eq_false_iff_ne.2 hname, lookup_filter_ne hname, ih]

end Lists
