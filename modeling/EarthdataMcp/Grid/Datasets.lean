import EarthdataMcp.Lists.KeepFirst
import Mathlib.Data.Option.Basic

/-!
# Datasets that are merged

A dataset has dimensions of certain sizes, and arrays under names: coordinates and data variables.
Several of them are merged into one, in which the first of equal names is kept.

* `Dataset`, with `Ambiguous`, `Conflicting` and `Separate`: which datasets can not be merged, and
  which can;
* `KeepsFirst`: what is relied on of a merge, whatever else it does;
* `mergeFirst`, one such merge.
-/

namespace Grid

open Lists

variable {K V : Type} [DecidableEq K]

/-- A dataset: the sizes of its dimensions, its coordinates, and its data variables. -/
structure Dataset (K V : Type) where
  sizes : List (K × ℕ) := []
  coords : List (K × V) := []
  dataVars : List (K × V)

namespace Dataset

variable (ds : Dataset K V)

/-- The arrays of a dataset. -/
def arrays : List (K × V) := ds.dataVars ++ ds.coords

def names : List K := ds.arrays.map Prod.fst

def coordNames : List K := ds.coords.map Prod.fst

/-- The name is that of a dimension. -/
def isDim (name : K) : Bool := ds.sizes.any (·.1 = name)

end Dataset

/-- A name stands for a coordinate in one dataset and for a data variable in another. -/
def Ambiguous (parts : List (Dataset K V)) : Prop :=
  ∃ e ∈ parts.flatMap Dataset.coords, ∃ e' ∈ parts.flatMap Dataset.dataVars, e.1 = e'.1

/-- A dimension has two sizes, and no two datasets have a coordinate of its name to align it by. -/
def Conflicting (parts : List (Dataset K V)) : Prop :=
  ∃ e ∈ parts.flatMap Dataset.sizes, ∃ e' ∈ parts.flatMap Dataset.sizes, e.1 = e'.1 ∧ e.2 ≠ e'.2 ∧
    (parts.filter fun part => e.1 ∈ part.coordNames).length ≤ 1

instance (parts : List (Dataset K V)) : Decidable (Ambiguous parts) :=
  inferInstanceAs (Decidable (∃ e ∈ _, ∃ e' ∈ _, _))

instance (parts : List (Dataset K V)) : Decidable (Conflicting parts) :=
  inferInstanceAs (Decidable (∃ e ∈ _, ∃ e' ∈ _, _ ∧ _ ∧ _))

/-- Nothing is to be reconciled: all names are different, every dimension has one size, and an array
that is named as a dimension is the coordinate of that dimension in its dataset. -/
structure Separate (parts : List (Dataset K V)) : Prop where
  names : (parts.flatMap Dataset.names).Nodup
  sizes : ∀ e ∈ parts.flatMap Dataset.sizes, ∀ e' ∈ parts.flatMap Dataset.sizes, e.1 = e'.1 →
    e.2 = e'.2
  dims : ∀ part ∈ parts, ∀ name ∈ part.names, ∀ part' ∈ parts, part'.isDim name →
    name ∈ part.coordNames ∧ part.isDim name

/-- What is relied on of a merge of datasets that keeps the first of equal names; `Carries` says
that an array of the result has the values of one that was merged, on its own axes or on longer
ones. -/
structure KeepsFirst (Carries : V → V → Prop)
    (merge : List (Dataset K V) → Option (Dataset K V)) : Prop where
  dataVars : ∀ parts merged, merge parts = some merged → ∀ name,
    Option.Rel Carries (merged.dataVars.lookup name) ((parts.flatMap Dataset.dataVars).lookup name)
  coords : ∀ parts merged, merge parts = some merged → ∀ name,
    Option.Rel Carries (merged.coords.lookup name) ((parts.flatMap Dataset.coords).lookup name)
  ambiguous : ∀ parts, Ambiguous parts → merge parts = none
  conflicting : ∀ parts, Conflicting parts → merge parts = none
  returns : ∀ parts, Separate parts → (merge parts).isSome

/-! ### What is merged -/

section merged

variable {Carries : V → V → Prop} {merge : List (Dataset K V) → Option (Dataset K V)}
  {parts : List (Dataset K V)} {merged : Dataset K V} {name : K}

theorem mem_map_fst_iff {es : List (K × V)} : name ∈ es.map Prod.fst ↔ (es.lookup name).isSome := by
  rw [List.lookup_isSome_iff, List.mem_map]
  constructor
  · rintro ⟨e, he, rfl⟩
    exact ⟨e, he, beq_self_eq_true _⟩
  · rintro ⟨e, he, heq⟩
    exact ⟨e, he, (beq_iff_eq.1 heq).symm⟩

theorem isSome_eq_of_rel {x y : Option V} (h : Option.Rel Carries x y) : x.isSome = y.isSome := by
  cases h <;> rfl

theorem eq_none_of_rel {x : Option V} (h : Option.Rel Carries x none) : x = none := by
  cases h
  rfl

theorem exists_of_rel_left {x y : Option V} {a : V} (h : Option.Rel Carries x y)
    (hx : x = some a) : ∃ b, y = some b ∧ Carries a b := by
  subst hx
  cases h with
  | some hab => exact ⟨_, rfl, hab⟩

theorem exists_of_rel_right {x y : Option V} {b : V} (h : Option.Rel Carries x y)
    (hy : y = some b) : ∃ a, x = some a ∧ Carries a b := by
  subst hy
  cases h with
  | some hab => exact ⟨_, rfl, hab⟩

/-- The merged dataset has the names of its parts, and no others. -/
theorem KeepsFirst.mem_names (h : KeepsFirst Carries merge) (hmerged : merge parts = some merged) :
    name ∈ merged.names ↔ ∃ part ∈ parts, name ∈ part.names := by
  have hdata : name ∈ merged.dataVars.map Prod.fst ↔
      name ∈ (parts.flatMap Dataset.dataVars).map Prod.fst := by
    rw [mem_map_fst_iff, mem_map_fst_iff, isSome_eq_of_rel (h.dataVars parts merged hmerged name)]
  have hcoords : name ∈ merged.coords.map Prod.fst ↔
      name ∈ (parts.flatMap Dataset.coords).map Prod.fst := by
    rw [mem_map_fst_iff, mem_map_fst_iff, isSome_eq_of_rel (h.coords parts merged hmerged name)]
  unfold Dataset.names Dataset.arrays
  rw [List.map_append, List.mem_append, hdata, hcoords]
  simp only [List.mem_map, List.mem_flatMap, List.mem_append]
  constructor
  · rintro (⟨e, ⟨part, hpart, he⟩, rfl⟩ | ⟨e, ⟨part, hpart, he⟩, rfl⟩)
    · exact ⟨part, hpart, e, Or.inl he, rfl⟩
    · exact ⟨part, hpart, e, Or.inr he, rfl⟩
  · rintro ⟨part, hpart, e, he | he, rfl⟩
    · exact Or.inl ⟨e, ⟨part, hpart, he⟩, rfl⟩
    · exact Or.inr ⟨e, ⟨part, hpart, he⟩, rfl⟩

/-- An array whose name no other one has is carried over. -/
theorem KeepsFirst.carried (h : KeepsFirst Carries merge) (hmerged : merge parts = some merged)
    {part : Dataset K V} (hpart : part ∈ parts) {e : K × V} (he : e ∈ part.arrays)
    (honly : ∀ part' ∈ parts, ∀ e' ∈ part'.arrays, e'.1 = e.1 → e' = e) :
    ∃ x, (e.1, x) ∈ merged.arrays ∧ Carries x e.2 := by
  rcases List.mem_append.1 he with he | he
  · have hlookup : (parts.flatMap Dataset.dataVars).lookup e.1 = some e.2 := by
      refine lookup_of_only (List.mem_flatMap.2 ⟨part, hpart, he⟩) fun e' he' => ?_
      obtain ⟨part', hpart', he'⟩ := List.mem_flatMap.1 he'
      exact honly part' hpart' e' (List.mem_append_left _ he')
    obtain ⟨x, hx, hcarries⟩ := exists_of_rel_right (h.dataVars parts merged hmerged e.1) hlookup
    exact ⟨x, List.mem_append_left _ (mem_of_lookup hx), hcarries⟩
  · have hlookup : (parts.flatMap Dataset.coords).lookup e.1 = some e.2 := by
      refine lookup_of_only (List.mem_flatMap.2 ⟨part, hpart, he⟩) fun e' he' => ?_
      obtain ⟨part', hpart', he'⟩ := List.mem_flatMap.1 he'
      exact honly part' hpart' e' (List.mem_append_right _ he')
    obtain ⟨x, hx, hcarries⟩ := exists_of_rel_right (h.coords parts merged hmerged e.1) hlookup
    exact ⟨x, List.mem_append_right _ (mem_of_lookup hx), hcarries⟩

/-- If all names are different, at most one dataset has a coordinate of a name. -/
theorem length_filter_coordNames_le (h : (parts.flatMap Dataset.names).Nodup) (name : K) :
    (parts.filter fun part => name ∈ part.coordNames).length ≤ 1 := by
  have hnames {part : Dataset K V} (hmem : name ∈ part.coordNames) : name ∈ part.names := by
    unfold Dataset.names Dataset.arrays
    rw [List.map_append]
    exact List.mem_append_right _ hmem
  induction parts with
  | nil => exact Nat.zero_le 1
  | cons part parts ih =>
    rw [List.flatMap_cons, List.nodup_append] at h
    by_cases hmem : name ∈ part.coordNames
    · have hrest : parts.filter (fun part => name ∈ part.coordNames) = [] := by
        rw [List.filter_eq_nil_iff]
        intro part' hpart' hmem'
        have hname' := List.mem_flatMap.2 ⟨part', hpart', hnames (of_decide_eq_true hmem')⟩
        exact h.2.2 name (hnames hmem) name hname' rfl
      rw [List.filter_cons_of_pos (by simpa using hmem), hrest]
      exact le_rfl
    · rw [List.filter_cons_of_neg (by simpa using hmem)]
      exact ih h.2.1

end merged

/-! ### A merge -/

/-- The first array of each name is kept as it is; nothing where a name is ambiguous or the sizes of
a dimension are in conflict. -/
def mergeFirst (parts : List (Dataset K V)) : Option (Dataset K V) :=
  if Ambiguous parts ∨ Conflicting parts then none
  else some {
    sizes := keepFirst (parts.flatMap Dataset.sizes)
    coords := keepFirst (parts.flatMap Dataset.coords)
    dataVars := keepFirst (parts.flatMap Dataset.dataVars) }

theorem Separate.not_ambiguous {parts : List (Dataset K V)} (h : Separate parts) :
    ¬ Ambiguous parts := by
  rintro ⟨e, he, e', he', hname⟩
  have hperm : (parts.flatMap Dataset.dataVars ++ parts.flatMap Dataset.coords).Perm
      (parts.flatMap Dataset.arrays) := List.flatMap_append_perm parts _ _
  have hnodup := h.names
  rw [show parts.flatMap Dataset.names = (parts.flatMap Dataset.arrays).map Prod.fst from
    (List.map_flatMap ..).symm, ← (hperm.map Prod.fst).nodup_iff, List.map_append,
    List.nodup_append] at hnodup
  exact hnodup.2.2 e'.1 (List.mem_map_of_mem he') e.1 (List.mem_map_of_mem he) hname.symm

theorem Separate.not_conflicting {parts : List (Dataset K V)} (h : Separate parts) :
    ¬ Conflicting parts := by
  rintro ⟨e, he, e', he', hname, hsize, -⟩
  exact hsize (h.sizes e he e' he' hname)

theorem rel_refl {Carries : V → V → Prop} (hrefl : ∀ x, Carries x x) (x : Option V) :
    Option.Rel Carries x x := by
  cases x with
  | none => exact .none
  | some x => exact .some (hrefl x)

theorem keepsFirst_mergeFirst {Carries : V → V → Prop} (hrefl : ∀ x, Carries x x) :
    KeepsFirst Carries (mergeFirst : List (Dataset K V) → _) where
  dataVars parts merged hmerged name := by
    unfold mergeFirst at hmerged
    split_ifs at hmerged
    obtain rfl := Option.some.inj hmerged
    rw [lookup_keepFirst]
    exact rel_refl hrefl _
  coords parts merged hmerged name := by
    unfold mergeFirst at hmerged
    split_ifs at hmerged
    obtain rfl := Option.some.inj hmerged
    rw [lookup_keepFirst]
    exact rel_refl hrefl _
  ambiguous parts h := if_pos (Or.inl h)
  conflicting parts h := if_pos (Or.inr h)
  returns parts h := by
    unfold mergeFirst
    rw [if_neg (not_or.2 ⟨h.not_ambiguous, h.not_conflicting⟩)]
    rfl

end Grid
