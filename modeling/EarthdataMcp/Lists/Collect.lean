import Mathlib.Tactic
import Mathlib.Data.List.ReduceOption

/-!
# Collecting in lists

* the results of a list of fallible computations, of which one failure fails all;
* `collect key`, the first element of a list with each key;
* `findSome?_countdown`, the first value that is found in counting down;
* a list of entries, each under a key of its own, in another order;
* lists of optional values, of which a missing one leaves no place.
-/

namespace Lists

/-! ### Results -/

theorem bind_eq_ok {ε α β : Type} {x : Except ε α} {f : α → Except ε β} {b : β} :
    (x >>= f) = .ok b ↔ ∃ a, x = .ok a ∧ f a = .ok b := by
  cases x with
  | error e => simp [bind, Except.bind]
  | ok a => simp [bind, Except.bind]

section results

variable {ε α β : Type} {f : α → Except ε β} {xs : List α} {ys : List β}

/-- There is one result for each element. -/
theorem forall₂_of_mapM (h : xs.mapM f = .ok ys) :
    List.Forall₂ (fun x y => f x = .ok y) xs ys := by
  induction xs generalizing ys with
  | nil =>
    obtain rfl := Except.ok.inj h
    exact List.Forall₂.nil
  | cons x xs ih =>
    rw [List.mapM_cons] at h
    cases hx : f x with
    | error e =>
      rw [hx] at h
      cases h
    | ok y =>
      cases hxs : xs.mapM f with
      | error e =>
        rw [hx, hxs] at h
        cases h
      | ok ys' =>
        rw [hx, hxs] at h
        obtain rfl := Except.ok.inj h
        exact List.Forall₂.cons hx (ih hxs)

/-- What holds of every single result holds of all. -/
theorem forall_of_mapM {P : β → Prop} (h : xs.mapM f = .ok ys)
    (hf : ∀ x y, f x = .ok y → P y) : ∀ y ∈ ys, P y := by
  have hall := forall₂_of_mapM h
  clear h
  induction hall with
  | nil => simp
  | cons hx _ ih => exact List.forall_mem_cons.2 ⟨hf _ _ hx, ih⟩

theorem mapM_of_forall {g : α → β} (h : ∀ x ∈ xs, f x = .ok (g x)) :
    xs.mapM f = .ok (xs.map g) := by
  induction xs with
  | nil => rfl
  | cons x xs ih =>
    rw [List.mapM_cons, h x List.mem_cons_self, ih fun x hx => h x (List.mem_cons_of_mem _ hx)]
    rfl

end results

/-! ### First elements -/

section collect

variable {α κ : Type} [DecidableEq κ] (key : α → κ)

/-- Add an element unless there is one with its key. -/
def addNew (found : List α) (a : α) : List α :=
  if key a ∈ found.map key then found else found ++ [a]

/-- The first element with each key, in their order. -/
def collect (xs : List α) : List α := xs.foldl (addNew key) []

variable {key} {found xs : List α} {a x : α}

theorem map_addNew : (addNew key found x).map key =
    if key x ∈ found.map key then found.map key else found.map key ++ [key x] := by
  unfold addNew
  split_ifs <;> simp

theorem nodup_addNew (h : (found.map key).Nodup) : ((addNew key found x).map key).Nodup := by
  rw [map_addNew]
  split_ifs with hmem
  · exact h
  · exact List.nodup_append_comm.1 (List.nodup_cons.2 ⟨hmem, h⟩)

theorem nodup_foldl (h : (found.map key).Nodup) :
    ((xs.foldl (addNew key) found).map key).Nodup := by
  induction xs generalizing found with
  | nil => exact h
  | cons x xs ih => exact ih (nodup_addNew h)

theorem nodup_collect (xs : List α) : ((collect key xs).map key).Nodup := nodup_foldl (by simp)

/-- An element is found if it was, or if it is the first one with a key that was not. -/
theorem mem_foldl : a ∈ xs.foldl (addNew key) found ↔
    a ∈ found ∨ key a ∉ found.map key ∧ xs.find? (fun x => key x = key a) = some a := by
  induction xs generalizing found with
  | nil => simp
  | cons x xs ih =>
    rw [List.foldl_cons, ih, map_addNew, List.find?_cons]
    unfold addNew
    by_cases hkey : key x = key a
    · rw [hkey, decide_eq_true rfl]
      by_cases hmem : key a ∈ found.map key
      · rw [if_pos hmem, if_pos hmem]
        simp only [hmem, not_true_eq_false, false_and]
      · rw [if_neg hmem, if_neg hmem]
        simp only [hmem, not_false_eq_true, true_and, List.mem_append, List.mem_singleton, or_true,
          not_true_eq_false, false_and, or_false, Option.some.injEq]
        exact or_congr_right eq_comm
    · rw [decide_eq_false hkey]
      have hne : a ≠ x := fun heq => hkey (congrArg key heq.symm)
      have hkey' : key a ≠ key x := fun heq => hkey heq.symm
      by_cases hmem : key x ∈ found.map key
      · rw [if_pos hmem, if_pos hmem]
      · rw [if_neg hmem, if_neg hmem]
        simp only [List.mem_append, List.mem_singleton, hne, hkey', or_false]

theorem mem_collect : a ∈ collect key xs ↔ xs.find? (fun x => key x = key a) = some a := by
  unfold collect
  rw [mem_foldl]
  simp

theorem mem_of_mem_collect (h : a ∈ collect key xs) : a ∈ xs :=
  List.mem_of_find?_eq_some (mem_collect.1 h)

/-- No key is lost. -/
theorem mem_map_collect {k : κ} : k ∈ (collect key xs).map key ↔ k ∈ xs.map key := by
  constructor
  · intro h
    obtain ⟨a, ha, rfl⟩ := List.mem_map.1 h
    exact List.mem_map_of_mem (mem_of_mem_collect ha)
  · intro h
    obtain ⟨x, hx, rfl⟩ := List.mem_map.1 h
    have hsome : (xs.find? fun y => key y = key x).isSome :=
      List.find?_isSome.2 ⟨x, hx, decide_eq_true rfl⟩
    obtain ⟨a, ha⟩ := Option.isSome_iff_exists.1 hsome
    have hfound := List.find?_some ha
    have hkey : key a = key x := of_decide_eq_true hfound
    rw [← hkey] at ha ⊢
    exact List.mem_map_of_mem (mem_collect.2 ha)

end collect

/-! ### Optional values -/

section optional

variable {α β : Type} {f : α → Option β} {R : β → α → Prop} {xs : List α} {ys : List β}

theorem exists_of_forall₂ (h : List.Forall₂ R ys xs) : ∀ a ∈ xs, ∃ b, R b a := by
  induction h with
  | nil => simp
  | cons hab _ ih => exact List.forall_mem_cons.2 ⟨⟨_, hab⟩, ih⟩

theorem reduceOption_map_eq_nil_iff : (xs.map f).reduceOption = [] ↔ ∀ a ∈ xs, f a = none := by
  unfold List.reduceOption
  rw [List.filterMap_map, List.filterMap_eq_nil_iff]
  exact Iff.rfl

/-- The values that are there match the list place by place if and only if each one is there. -/
theorem forall₂_reduceOption_iff (hf : ∀ b a, R b a → f a = some b) :
    List.Forall₂ R (xs.map f).reduceOption xs ↔ ∀ a ∈ xs, ∃ b, R b a := by
  constructor
  · exact exists_of_forall₂
  · intro h
    induction xs with
    | nil => exact List.Forall₂.nil
    | cons a xs ih =>
      obtain ⟨⟨b, hb⟩, hrest⟩ := List.forall_mem_cons.1 h
      rw [List.map_cons, hf b a hb, List.reduceOption_cons_of_some]
      exact List.Forall₂.cons hb (ih hrest)

end optional

/-! ### The first value -/

/-- Counting down, what is found first is found at the greatest number. -/
theorem findSome?_countdown {β : Type} {f : ℕ → Option β} {n : ℕ} {b : β} :
    (List.range (n + 1)).reverse.findSome? f = some b ↔
      ∃ d ≤ n, f d = some b ∧ ∀ d', d < d' → d' ≤ n → f d' = none := by
  induction n with
  | zero =>
    constructor
    · intro h
      refine ⟨0, le_refl 0, by simpa using h, ?_⟩
      intro d' hlt hle
      omega
    · rintro ⟨d, hd, hf, -⟩
      obtain rfl := Nat.le_zero.1 hd
      simpa using hf
  | succ n ih =>
    rw [List.range_succ, List.reverse_append, List.reverse_singleton, List.singleton_append,
      List.findSome?_cons]
    cases hfirst : f (n + 1) with
    | some b' =>
      constructor
      · intro h
        refine ⟨n + 1, le_refl _, hfirst.trans h, ?_⟩
        intro d' hlt hle
        omega
      · rintro ⟨d, hd, hf, hmax⟩
        rcases Nat.lt_or_ge d (n + 1) with hlt | hge
        · rw [hmax (n + 1) hlt (le_refl _)] at hfirst
          cases hfirst
        · obtain rfl : d = n + 1 := by omega
          exact hfirst.symm.trans hf
    | none =>
      rw [ih]
      constructor
      · rintro ⟨d, hd, hf, hmax⟩
        refine ⟨d, by omega, hf, ?_⟩
        intro d' hlt hle
        rcases Nat.lt_or_ge d' (n + 1) with hlt' | hge
        · exact hmax d' hlt (by omega)
        · obtain rfl : d' = n + 1 := by omega
          exact hfirst
      · rintro ⟨d, hd, hf, hmax⟩
        have hne : d ≠ n + 1 := by
          rintro rfl
          rw [hf] at hfirst
          cases hfirst
        exact ⟨d, by omega, hf, fun d' hlt hle => hmax d' hlt (by omega)⟩

/-! ### Entries -/

/-- Where no key stands twice, the order of the entries does not matter. -/
theorem lookup_eq_of_perm {κ β : Type} [BEq κ] [LawfulBEq κ] {entries entries' : List (κ × β)}
    (hkeys : (entries.map Prod.fst).Nodup) (h : entries.Perm entries') (key : κ) :
    entries'.lookup key = entries.lookup key := by
  induction h with
  | nil => rfl
  | cons e h ih =>
    rw [List.map_cons, List.nodup_cons] at hkeys
    rw [List.lookup_cons, List.lookup_cons, ih hkeys.2]
  | swap e e' entries =>
    have hne : e.1 ≠ e'.1 := by
      intro heq
      simp [heq] at hkeys
    rw [List.lookup_cons, List.lookup_cons, List.lookup_cons, List.lookup_cons]
    by_cases he : key == e.1
    · have he' : (key == e'.1) = false := by
        rw [beq_eq_false_iff_ne, eq_of_beq he]
        exact hne
      simp only [he, he']
    · simp only [he]
  | trans h h' ih ih' =>
    rw [ih' ((h.map Prod.fst).nodup_iff.1 hkeys), ih hkeys]

end Lists
