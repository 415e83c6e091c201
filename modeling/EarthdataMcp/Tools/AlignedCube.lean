import EarthdataMcp.Grid.Datasets
import Mathlib.Data.Finset.Card
import Mathlib.Data.Finset.Prod
import Mathlib.Data.List.Sort
import Mathlib.Tactic

/-!
# Combining datasets of one grid

Datasets that are aligned to a common grid become one cube: a variable that all of them have is
stacked along a new dimension, the others are merged, where the first of equal names is kept.

* `Xarray`, what is called to build a dataset and to merge some, and `Xarray.Lawful`, what is relied
  on of it;
* `combineAligned`, on datasets of coordinates and data variables;
* `Recoverable`: every variable of every input has a slot of the cube of its own;
* `recoverable_combineAligned_iff`: when no input is lost.
-/

namespace EarthdataMcp

open Grid Lists

variable {V H : Type} {Carries : V → V → Prop}

/-- A dataset on the grid, with data variables under distinct names. -/
structure GridDataset (V : Type) extends Dataset String V where
  nodup : (dataVars.map Prod.fst).Nodup

namespace GridDataset

def varNames (ds : GridDataset V) : List String := ds.dataVars.map Prod.fst

/-- `ds[name]`, of a data variable. -/
def get? (ds : GridDataset V) (name : String) : Option V := ds.dataVars.lookup name

end GridDataset

/-- What stands under a name of the cube. -/
inductive CubeVar (V H : Type)
  /-- the labels of the new dimension -/
  | labels (handles : List H)
  | plain (values : V)
  /-- `xr.concat`: one side for each input, in order -/
  | stacked (sides : List V)

/-- The values of an array of the cube are those of another one, where `Carries` says that of
values. -/
inductive CubeVar.Holds (Carries : V → V → Prop) : CubeVar V H → CubeVar V H → Prop
  | labels (handles : List H) : Holds Carries (.labels handles) (.labels handles)
  | plain {values values' : V} (h : Carries values values') :
    Holds Carries (.plain values) (.plain values')
  | stacked {sides sides' : List V} (h : List.Forall₂ Carries sides sides') :
    Holds Carries (.stacked sides) (.stacked sides')

/-- What is called of xarray; nothing where it raises. -/
structure Xarray (V H : Type) where
  /-- `xr.Dataset`, of arrays that are stacked along a dimension with these labels -/
  dataset : List H → List (String × CubeVar V H) → Option (Dataset String (CubeVar V H))
  /-- `xr.merge`, with `compat="override"` -/
  merge : List (Dataset String (CubeVar V H)) → Option (Dataset String (CubeVar V H))

/-- The name of the new dimension. -/
def sourceDim : String := "source"

/-- What is relied on: the data variables of a dataset are the arrays it is made of, but that an
array which is named as the dimension it is stacked along need not be among them; otherwise the
labels are a coordinate; and merging keeps the first of equal names. -/
structure Xarray.Lawful (Carries : V → V → Prop) (xr : Xarray V H) : Prop where
  dataVars : ∀ labels arrays ds, xr.dataset labels arrays = some ds → ∀ name,
    ds.dataVars.lookup name = arrays.lookup name ∨
      name = sourceDim ∧ ds.dataVars.lookup name = none
  labels : ∀ labels arrays ds, sourceDim ∉ arrays.map Prod.fst → arrays ≠ [] →
    xr.dataset labels arrays = some ds → (sourceDim, CubeVar.labels labels) ∈ ds.coords
  merge : KeepsFirst (CubeVar.Holds Carries) xr.merge

/-- The names that every input has. -/
def sharedNames : List (GridDataset V) → List String
  | [] => []
  | first :: rest => first.varNames.filter fun name => ∀ ds ∈ rest, name ∈ ds.varNames

/-- The data variables that are left when these names are dropped. -/
def plainVars (dropped : List String) (ds : GridDataset V) : List (String × CubeVar V H) :=
  (ds.dataVars.filter fun v => v.1 ∉ dropped).map fun v => (v.1, .plain v.2)

/-- `ds.drop_vars(names, errors="ignore")`; no coordinate has the name of a data variable. -/
def GridDataset.dropVars (dropped : List String) (ds : GridDataset V) :
    Dataset String (CubeVar V H) where
  sizes := ds.sizes
  coords := ds.coords.map fun v => (v.1, .plain v.2)
  dataVars := plainVars dropped ds

/-- The stacked variables. -/
def stackedVars (aligned : List (GridDataset V)) (stackedNames : List String) :
    List (String × CubeVar V H) :=
  stackedNames.map fun name => (name, .stacked (aligned.filterMap (·.get? name)))

/-- `_combine_aligned`: the cube, and the names of the stacked variables. -/
def combineAligned (xr : Xarray V H) (aligned : List (GridDataset V)) (sourceHandles : List H) :
    Option (Dataset String (CubeVar V H) × List String) :=
  let shared := sharedNames aligned
  if shared = [] then (xr.merge (aligned.map (·.dropVars []))).map fun cube => (cube, [])
  else
    let stackedNames := shared.insertionSort (· ≤ ·)
    (xr.dataset sourceHandles (stackedVars aligned stackedNames)).bind fun stacked =>
      (xr.merge (stacked :: aligned.map (·.dropVars stackedNames))).map fun combined =>
        (combined, stackedNames)

/-! ### What the cube is to satisfy -/

/-- The values of a data variable at a position along the new dimension. -/
def CubeVar.at : CubeVar V H → ℕ → Option V
  | .plain values, 0 => some values
  | .stacked sides, i => sides[i]?
  | _, _ => none

/-- A slot of the cube, a variable and a position along the new dimension, carries these values. -/
def Slot (Carries : V → V → Prop) (cube : Dataset String (CubeVar V H)) (slot : String × ℕ)
    (values : V) : Prop :=
  ∃ x, cube.dataVars.lookup slot.1 = some x ∧ ∃ side, x.at slot.2 = some side ∧ Carries side values

/-- The input at this position has a variable of this name. -/
def Provides (aligned : List (GridDataset V)) (p : ℕ × String) : Prop :=
  ∃ ds, aligned[p.1]? = some ds ∧ p.2 ∈ ds.varNames

/-- Each variable of each input has a slot of its own with its values. -/
def Recoverable (Carries : V → V → Prop) (aligned : List (GridDataset V))
    (cube : Dataset String (CubeVar V H)) : Prop :=
  ∃ slot : ℕ × String → String × ℕ,
    (∀ i ds name values, aligned[i]? = some ds → (name, values) ∈ ds.dataVars →
      Slot Carries cube (slot (i, name)) values) ∧
    Set.InjOn slot {p | Provides aligned p}

/-- The name is in more than one input, but not in all of them. -/
def PartlyShared (aligned : List (GridDataset V)) (name : String) : Prop :=
  (∃ i j, i ≠ j ∧ Provides aligned (i, name) ∧ Provides aligned (j, name)) ∧
    ∃ ds ∈ aligned, name ∉ ds.varNames

/-! ### The cube -/

section cube

variable {xr : Xarray V H} {aligned : List (GridDataset V)} {handles : List H}
  {cube : Dataset String (CubeVar V H)} {stackedNames : List String} {ds : GridDataset V}
  {name : String} {values : V}

theorem GridDataset.mem_varNames : name ∈ ds.varNames ↔ ∃ values, (name, values) ∈ ds.dataVars := by
  unfold varNames
  simp

theorem GridDataset.get?_eq_some : ds.get? name = some values ↔ (name, values) ∈ ds.dataVars := by
  unfold get?
  have hnodup := ds.nodup
  generalize ds.dataVars = vars at hnodup
  induction vars with
  | nil => simp
  | cons v vars ih =>
    obtain ⟨name', values'⟩ := v
    rw [List.map_cons, List.nodup_cons] at hnodup
    rw [List.lookup_cons, List.mem_cons, Prod.mk.injEq]
    by_cases hname : name = name'
    · subst hname
      have hnot : (name, values) ∉ vars := fun h => hnodup.1 (List.mem_map.2 ⟨_, h, rfl⟩)
      simp [hnot, eq_comm]
    · have hrest := ih hnodup.2
      simp [beq_eq_false_iff_ne.2 hname, hname, hrest]

theorem GridDataset.values_unique {values' : V} (h : (name, values) ∈ ds.dataVars)
    (h' : (name, values') ∈ ds.dataVars) : values = values' := by
  rw [← ds.get?_eq_some] at h h'
  exact Option.some.inj (h.symm.trans h')

theorem mem_sharedNames (h : aligned ≠ []) :
    name ∈ sharedNames aligned ↔ ∀ ds ∈ aligned, name ∈ ds.varNames := by
  cases aligned with
  | nil => exact absurd rfl h
  | cons first rest => simp [sharedNames]

theorem mem_names_of_shared (h : name ∈ sharedNames aligned) (hds : ds ∈ aligned) :
    name ∈ ds.varNames :=
  (mem_sharedNames (List.ne_nil_of_mem hds)).1 h ds hds

/-- If a name is in all inputs, its sides are the values of the inputs, in order. -/
theorem sides_getElem? (h : ∀ ds ∈ aligned, name ∈ ds.varNames) (i : ℕ) :
    (aligned.filterMap (·.get? name))[i]? = aligned[i]?.bind (·.get? name) := by
  induction aligned generalizing i with
  | nil => rfl
  | cons ds rest ih =>
    obtain ⟨values, hvalues⟩ := GridDataset.mem_varNames.1 (h ds List.mem_cons_self)
    have hget := ds.get?_eq_some.2 hvalues
    rw [List.filterMap_cons, hget]
    cases i with
    | zero => simp [hget]
    | succ i =>
      rw [List.getElem?_cons_succ, List.getElem?_cons_succ]
      exact ih (fun ds hds => h ds (List.mem_cons_of_mem _ hds)) i

theorem mem_plainVars {dropped : List String} {e : String × CubeVar V H} :
    e ∈ aligned.flatMap (plainVars dropped) ↔
      e.1 ∉ dropped ∧ ∃ ds ∈ aligned, ∃ values, (e.1, values) ∈ ds.dataVars ∧
        e.2 = .plain values := by
  simp only [plainVars, List.mem_flatMap, List.mem_map, List.mem_filter, decide_eq_true_eq]
  constructor
  · rintro ⟨ds, hds, ⟨name, values⟩, ⟨hmem, hnot⟩, rfl⟩
    exact ⟨hnot, ds, hds, values, hmem, rfl⟩
  · rintro ⟨hnot, ds, hds, values, hmem, heq⟩
    exact ⟨ds, hds, _, ⟨hmem, hnot⟩, Prod.ext rfl heq.symm⟩

/-- What is stacked has no variable with the name of the new dimension, if not all inputs do. -/
theorem notMem_stackedVars (h : sourceDim ∉ sharedNames aligned) : sourceDim ∉
    (stackedVars aligned ((sharedNames aligned).insertionSort (· ≤ ·)) :
      List (String × CubeVar V H)).map Prod.fst := by
  unfold stackedVars
  rw [List.map_map, List.mem_map]
  rintro ⟨name, hname, heq : name = sourceDim⟩
  exact h (heq ▸ (List.mem_insertionSort _).1 hname)

/-- The data variables that are merged, the first of each name to be kept. -/
def gathered (aligned : List (GridDataset V)) : List (String × CubeVar V H) :=
  stackedVars aligned ((sharedNames aligned).insertionSort (· ≤ ·)) ++
    aligned.flatMap (plainVars (sharedNames aligned))

/-- What the cube has is the first of each name. -/
def Within (Carries : V → V → Prop) (cube : Dataset String (CubeVar V H))
    (aligned : List (GridDataset V)) : Prop :=
  ∀ name x, cube.dataVars.lookup name = some x →
    ∃ y, (gathered aligned).lookup name = some y ∧ x.Holds Carries y

/-- The cube has the first of each name. -/
def Gathers (Carries : V → V → Prop) (cube : Dataset String (CubeVar V H))
    (aligned : List (GridDataset V)) : Prop :=
  ∀ name, Option.Rel (CubeVar.Holds Carries) (cube.dataVars.lookup name)
    ((gathered aligned).lookup name)

theorem plainVars_congr {dropped dropped' : List String}
    (h : ∀ name, name ∈ dropped ↔ name ∈ dropped') :
    (plainVars dropped : GridDataset V → List (String × CubeVar V H)) = plainVars dropped' := by
  funext ds
  simp only [plainVars, h]

theorem dataVars_dropVars (dropped : List String) (aligned : List (GridDataset V)) :
    (aligned.map (GridDataset.dropVars dropped)).flatMap Dataset.dataVars =
      (aligned.flatMap (plainVars dropped) : List (String × CubeVar V H)) := by
  rw [List.flatMap_map]
  rfl

theorem lookup_append_eq {es es' rest : List (String × CubeVar V H)}
    (h : es.lookup name = es'.lookup name) :
    (es ++ rest).lookup name = (es' ++ rest).lookup name := by
  rw [List.lookup_append, List.lookup_append, h]

/-- What is found under a name of the cube, but for a variable that all inputs have under the name
of the new dimension. -/
theorem lookup_combineAligned (hxr : xr.Lawful Carries)
    (h : combineAligned xr aligned handles = some (cube, stackedNames)) (name : String) :
    Option.Rel (CubeVar.Holds Carries) (cube.dataVars.lookup name)
        ((gathered aligned).lookup name) ∨
      name = sourceDim ∧ sourceDim ∈ sharedNames aligned ∧ cube.dataVars.lookup name = none := by
  unfold combineAligned at h
  unfold gathered
  dsimp only at h
  split_ifs at h with hshared
  · obtain ⟨merged, hmerged, heq⟩ := Option.map_eq_some_iff.1 h
    obtain ⟨rfl, rfl⟩ := Prod.mk.inj heq
    have hrel := hxr.merge.dataVars _ _ hmerged name
    rw [dataVars_dropVars] at hrel
    rw [hshared]
    exact Or.inl hrel
  · obtain ⟨stacked, hstacked, h⟩ := Option.bind_eq_some_iff.1 h
    obtain ⟨merged, hmerged, heq⟩ := Option.map_eq_some_iff.1 h
    obtain ⟨rfl, rfl⟩ := Prod.mk.inj heq
    have hrel := hxr.merge.dataVars _ _ hmerged name
    rw [List.flatMap_cons, dataVars_dropVars,
      plainVars_congr fun name => List.mem_insertionSort (· ≤ ·)] at hrel
    rcases hxr.dataVars _ _ _ hstacked name with hvars | ⟨rfl, hvars⟩
    · rw [lookup_append_eq hvars] at hrel
      exact Or.inl hrel
    · by_cases hsource : sourceDim ∈ sharedNames aligned
      · -- the variable is dropped from the inputs, so it is nowhere
        have hnone : (aligned.flatMap (plainVars (sharedNames aligned)) :
            List (String × CubeVar V H)).lookup sourceDim = none := by
          rw [List.lookup_eq_none_iff]
          intro e he
          rw [bne_iff_ne]
          intro hname
          exact (mem_plainVars.1 he).1 (hname ▸ hsource)
        rw [List.lookup_append, hvars, Option.none_or, hnone] at hrel
        exact Or.inr ⟨rfl, hsource, eq_none_of_rel hrel⟩
      · have hnone : (stackedVars aligned ((sharedNames aligned).insertionSort (· ≤ ·)) :
            List (String × CubeVar V H)).lookup sourceDim = none := by
          rw [← Option.not_isSome_iff_eq_none, ← mem_map_fst_iff]
          exact notMem_stackedVars hsource
        rw [lookup_append_eq (hvars.trans hnone.symm)] at hrel
        exact Or.inl hrel

theorem within_combineAligned (hxr : xr.Lawful Carries)
    (h : combineAligned xr aligned handles = some (cube, stackedNames)) :
    Within Carries cube aligned := by
  intro name x hx
  rcases lookup_combineAligned hxr h name with hrel | ⟨-, -, hnone⟩
  · exact exists_of_rel_left hrel hx
  · rw [hnone] at hx
    cases hx

theorem gathers_combineAligned (hxr : xr.Lawful Carries) (hsource : sourceDim ∉ sharedNames aligned)
    (h : combineAligned xr aligned handles = some (cube, stackedNames)) :
    Gathers Carries cube aligned := by
  intro name
  rcases lookup_combineAligned hxr h name with hrel | ⟨-, hmem, -⟩
  · exact hrel
  · exact absurd hmem hsource

/-- A variable with the name of the new dimension keeps datasets from being combined where something
is stacked. -/
theorem combineAligned_eq_none (hxr : xr.Lawful Carries) (hsource : sourceDim ∉ sharedNames aligned)
    (hshared : sharedNames aligned ≠ []) (hds : ds ∈ aligned) (hname : sourceDim ∈ ds.varNames) :
    combineAligned xr aligned handles = none := by
  unfold combineAligned
  dsimp only
  rw [if_neg hshared]
  cases hstacked : xr.dataset handles (stackedVars aligned ((sharedNames aligned).insertionSort
      (· ≤ ·))) with
  | none => rfl
  | some stacked =>
    have hne : stackedVars aligned ((sharedNames aligned).insertionSort (· ≤ ·)) ≠
        ([] : List (String × CubeVar V H)) := by
      intro hnil
      have hlength := congrArg List.length hnil
      rw [stackedVars, List.length_map, List.length_insertionSort] at hlength
      exact hshared (List.length_eq_zero_iff.1 hlength)
    -- the labels of the new dimension meet a data variable of the same name
    have hlabels := hxr.labels _ _ _ (notMem_stackedVars hsource) hne hstacked
    obtain ⟨values, hvalues⟩ := GridDataset.mem_varNames.1 hname
    have hplain : (sourceDim, CubeVar.plain values) ∈ plainVars (H := H)
        ((sharedNames aligned).insertionSort (· ≤ ·)) ds := by
      refine List.mem_map.2 ⟨_, List.mem_filter.2 ⟨hvalues, ?_⟩, rfl⟩
      simpa using hsource
    rw [Option.bind_some, hxr.merge.ambiguous]
    · rfl
    · refine ⟨_, List.mem_flatMap.2 ⟨_, List.mem_cons_self, hlabels⟩, _, List.mem_flatMap.2
        ⟨_, List.mem_cons_of_mem _ (List.mem_map_of_mem hds), hplain⟩, rfl⟩

theorem mem_gathered {e : String × CubeVar V H} :
    e ∈ gathered aligned ↔
      (e.1 ∈ sharedNames aligned ∧ e.2 = .stacked (aligned.filterMap (·.get? e.1))) ∨
      (e.1 ∉ sharedNames aligned ∧ ∃ ds ∈ aligned, ∃ values, (e.1, values) ∈ ds.dataVars ∧
        e.2 = .plain values) := by
  unfold gathered stackedVars
  rw [List.mem_append, mem_plainVars, List.mem_map]
  refine or_congr_left ?_
  constructor
  · rintro ⟨name, hname, rfl⟩
    exact ⟨(List.mem_insertionSort _).1 hname, rfl⟩
  · rintro ⟨hname, heq⟩
    exact ⟨e.1, (List.mem_insertionSort _).2 hname, Prod.ext rfl heq.symm⟩

/-- At each position there is something in both arrays or in none. -/
theorem CubeVar.Holds.at {x y : CubeVar V H} (h : x.Holds Carries y) (pos : ℕ) :
    Option.Rel Carries (x.at pos) (y.at pos) := by
  cases h with
  | labels handles => exact .none
  | plain h =>
    cases pos with
    | zero => exact .some h
    | succ pos => exact .none
  | stacked h =>
    unfold CubeVar.at
    induction h generalizing pos with
    | nil => exact .none
    | cons hside _ ih =>
      cases pos with
      | zero => exact .some hside
      | succ pos => exact ih pos

/-- What a slot holds: a side of a stacked variable, or a variable that is not stacked. -/
theorem slot_combineAligned (hcube : Within Carries cube aligned) {pos : ℕ}
    (h : Slot Carries cube (name, pos) values) :
    (name ∈ sharedNames aligned ∧ ∃ ds, aligned[pos]? = some ds ∧ name ∈ ds.varNames) ∨
      (name ∉ sharedNames aligned ∧ pos = 0 ∧ ∃ ds ∈ aligned, name ∈ ds.varNames) := by
  obtain ⟨x, hx, side, hside, -⟩ := h
  obtain ⟨y, hy, hholds⟩ := hcube name x hx
  obtain ⟨side', hat, -⟩ := exists_of_rel_left (hholds.at pos) hside
  rcases mem_gathered.1 (mem_of_lookup hy) with ⟨hmem, heq⟩ | ⟨hnot, ds, hds, values', hmem, heq⟩
  · left
    refine ⟨hmem, ?_⟩
    change y = .stacked (aligned.filterMap (·.get? name)) at heq
    subst heq
    have hall : ∀ ds ∈ aligned, name ∈ ds.varNames := fun ds hds => mem_names_of_shared hmem hds
    rw [CubeVar.at, sides_getElem? hall] at hat
    obtain ⟨ds, hds, -⟩ := Option.bind_eq_some_iff.1 hat
    exact ⟨ds, hds, hall ds (List.mem_of_getElem? hds)⟩
  · right
    refine ⟨hnot, ?_, ds, hds, GridDataset.mem_varNames.2 ⟨values', hmem⟩⟩
    obtain rfl : y = _ := heq
    cases pos with
    | zero => rfl
    | succ pos => cases hat

theorem slot_of_gathered (hcube : Gathers Carries cube aligned) {y : CubeVar V H} {pos : ℕ}
    (hy : (gathered aligned).lookup name = some y) (hat : y.at pos = some values) :
    Slot Carries cube (name, pos) values := by
  obtain ⟨x, hx, hholds⟩ := exists_of_rel_right (hcube name) hy
  obtain ⟨side, hside, hcarries⟩ := exists_of_rel_right (hholds.at pos) hat
  exact ⟨x, hx, side, hside, hcarries⟩

/-- A stacked variable has the values of each input in its slot. -/
theorem slot_of_shared (hcube : Gathers Carries cube aligned) {i : ℕ}
    (hshared : name ∈ sharedNames aligned) (hds : aligned[i]? = some ds)
    (hvalues : (name, values) ∈ ds.dataVars) : Slot Carries cube (name, i) values := by
  have hlookup : (gathered aligned).lookup name =
      some (.stacked (H := H) (aligned.filterMap (·.get? name))) := by
    refine lookup_of_only (e := (name, .stacked (aligned.filterMap (·.get? name))))
      (mem_gathered.2 (Or.inl ⟨hshared, rfl⟩)) ?_
    rintro e he rfl
    rcases mem_gathered.1 he with ⟨-, heq⟩ | ⟨hnot, -⟩
    · exact Prod.ext rfl heq
    · exact absurd hshared hnot
  refine slot_of_gathered hcube hlookup ?_
  rw [CubeVar.at, sides_getElem? fun ds hds => mem_names_of_shared hshared hds, hds]
  exact ds.get?_eq_some.2 hvalues

/-- A variable that one input alone has is merged as it is. -/
theorem slot_of_only (hcube : Gathers Carries cube aligned) (hnot : name ∉ sharedNames aligned)
    (hds : ds ∈ aligned) (honly : ∀ ds' ∈ aligned, name ∈ ds'.varNames → ds' = ds)
    (hvalues : (name, values) ∈ ds.dataVars) : Slot Carries cube (name, 0) values := by
  have hlookup : (gathered aligned).lookup name = some (.plain (H := H) values) := by
    refine lookup_of_only (e := (name, .plain values))
      (mem_gathered.2 (Or.inr ⟨hnot, ds, hds, values, hvalues, rfl⟩)) ?_
    rintro e he rfl
    rcases mem_gathered.1 he with ⟨hmem, -⟩ | ⟨-, ds', hds', values', hmem, heq⟩
    · exact absurd hmem hnot
    · obtain rfl := honly ds' hds' (GridDataset.mem_varNames.2 ⟨values', hmem⟩)
      obtain rfl := ds'.values_unique hmem hvalues
      exact Prod.ext rfl heq
  exact slot_of_gathered hcube hlookup rfl

end cube

/-! ### No input is lost -/

section recoverable

variable {aligned : List (GridDataset V)} {cube : Dataset String (CubeVar V H)} {name : String}
  {values : V}

theorem provides_lt {p : ℕ × String} (h : Provides aligned p) : p.1 < aligned.length := by
  obtain ⟨ds, hds, -⟩ := h
  exact (List.getElem?_eq_some_iff.1 hds).1

/-- A name that is in two inputs is in all of them, if none is shared by a part of them only. -/
theorem shared_of_provides (h : ¬ PartlyShared aligned name) {i j : ℕ} (hne : i ≠ j)
    (hi : Provides aligned (i, name)) (hj : Provides aligned (j, name)) :
    name ∈ sharedNames aligned := by
  have hnonempty : aligned ≠ [] := List.ne_nil_of_length_pos (Nat.zero_lt_of_lt (provides_lt hi))
  rw [mem_sharedNames hnonempty]
  intro ds hds
  by_contra hnot
  exact h ⟨⟨i, j, hne, hi, hj⟩, ds, hds, hnot⟩

/-- The slot of a variable: its own side where all inputs have it. -/
def slotOf (aligned : List (GridDataset V)) (p : ℕ × String) : String × ℕ :=
  if p.2 ∈ sharedNames aligned then (p.2, p.1) else (p.2, 0)

theorem recoverable_of_not_partlyShared (hcube : Gathers Carries cube aligned)
    (hpart : ∀ name, ¬ PartlyShared aligned name) : Recoverable Carries aligned cube := by
  refine ⟨slotOf aligned, ?_, ?_⟩
  · intro i ds name values hds hvalues
    have hname : name ∈ ds.varNames := GridDataset.mem_varNames.2 ⟨values, hvalues⟩
    have hmem : ds ∈ aligned := List.mem_of_getElem? hds
    unfold slotOf
    by_cases hshared : name ∈ sharedNames aligned
    · rw [if_pos hshared]
      exact slot_of_shared hcube hshared hds hvalues
    · rw [if_neg hshared]
      apply slot_of_only hcube hshared hmem ?_ hvalues
      -- another input with the name would make it a shared one
      intro ds' hds' hname'
      obtain ⟨j, hj⟩ := List.getElem?_of_mem hds'
      have hij : i = j := by
        by_contra hne
        exact hshared (shared_of_provides (hpart name) hne ⟨ds, hds, hname⟩ ⟨ds', hj, hname'⟩)
      rw [hij, hj] at hds
      exact Option.some.inj hds
  · rintro ⟨i, name⟩ hi ⟨j, name'⟩ hj heq
    unfold slotOf at heq
    dsimp only at heq
    obtain rfl : name = name' := by
      split_ifs at heq <;> exact (Prod.mk.inj heq).1
    by_cases hshared : name ∈ sharedNames aligned
    · rw [if_pos hshared, if_pos hshared] at heq
      rw [(Prod.mk.inj heq).2]
    · have hij : i = j := by
        by_contra hne
        exact hshared (shared_of_provides (hpart name) hne hi hj)
      rw [hij]

/-- Where the values of a slot come from. -/
def originOf (aligned : List (GridDataset V)) (slot : String × ℕ) : ℕ × String :=
  if slot.1 ∈ sharedNames aligned then (slot.2, slot.1)
  else (aligned.findIdx fun ds => slot.1 ∈ ds.varNames, slot.1)

theorem provides_originOf (hcube : Within Carries cube aligned) {slot : String × ℕ}
    (h : Slot Carries cube slot values) :
    Provides aligned (originOf aligned slot) := by
  unfold originOf
  rcases slot_combineAligned hcube h with ⟨hshared, hprovides⟩ | ⟨hnot, -, ds, hds, hname⟩
  · rw [if_pos hshared]
    exact hprovides
  · rw [if_neg hnot]
    have hlt : aligned.findIdx (fun ds => slot.1 ∈ ds.varNames) < aligned.length :=
      List.findIdx_lt_length_of_exists ⟨ds, hds, decide_eq_true hname⟩
    exact ⟨_, List.getElem?_eq_getElem hlt, of_decide_eq_true (List.findIdx_getElem (w := hlt))⟩

theorem originOf_inj (hcube : Within Carries cube aligned) {slot slot' : String × ℕ} {values' : V}
    (h : Slot Carries cube slot values) (h' : Slot Carries cube slot' values')
    (heq : originOf aligned slot = originOf aligned slot') : slot = slot' := by
  obtain ⟨name, pos⟩ := slot
  obtain ⟨name', pos'⟩ := slot'
  unfold originOf at heq
  dsimp only at heq
  obtain rfl : name = name' := by
    split_ifs at heq <;> exact (Prod.mk.inj heq).2
  rcases slot_combineAligned hcube h with ⟨hshared, -⟩ | ⟨hnot, rfl, -⟩
  · rw [if_pos hshared, if_pos hshared] at heq
    rw [(Prod.mk.inj heq).1]
  · rcases slot_combineAligned hcube h' with ⟨hshared, -⟩ | ⟨-, rfl, -⟩
    · exact absurd hshared hnot
    · rfl

/-- The cube has fewer slots than the inputs have variables, if no slot comes from one of these. -/
theorem not_recoverable (hcube : Within Carries cube aligned) {p : ℕ × String}
    (hp : Provides aligned p)
    (hlost : ∀ slot values, Slot Carries cube slot values → originOf aligned slot ≠ p) :
    ¬ Recoverable Carries aligned cube := by
  classical
  rintro ⟨slot, hslot, hinj⟩
  have hvalues : ∀ q, Provides aligned q →
      ∃ values, Slot Carries cube (slot q) values := by
    rintro ⟨i, name⟩ ⟨ds, hds, hname⟩
    obtain ⟨values, hmem⟩ := GridDataset.mem_varNames.1 hname
    exact ⟨values, hslot i ds name values hds hmem⟩
  let all : Finset (ℕ × String) :=
    (Finset.range aligned.length ×ˢ (aligned.flatMap GridDataset.varNames).toFinset).filter
      (Provides aligned)
  have hall : ∀ q, q ∈ all ↔ Provides aligned q := by
    intro q
    simp only [all, Finset.mem_filter, Finset.mem_product, Finset.mem_range, List.mem_toFinset,
      List.mem_flatMap, and_iff_right_iff_imp]
    intro hq
    refine ⟨provides_lt hq, ?_⟩
    obtain ⟨ds, hds, hname⟩ := hq
    exact ⟨ds, List.mem_of_getElem? hds, hname⟩
  -- from a variable to its slot, and back to where that comes from: an injection that misses `p`
  have hmaps : ∀ q ∈ all, originOf aligned (slot q) ∈ all.erase p := by
    intro q hq
    obtain ⟨values, hv⟩ := hvalues q ((hall q).1 hq)
    exact Finset.mem_erase.2 ⟨hlost _ _ hv, (hall _).2 (provides_originOf hcube hv)⟩
  have hinj' : Set.InjOn (fun q => originOf aligned (slot q)) all := by
    intro q hq q' hq' heq
    obtain ⟨values, hv⟩ := hvalues q ((hall q).1 hq)
    obtain ⟨values', hv'⟩ := hvalues q' ((hall q').1 hq')
    exact hinj ((hall q).1 hq) ((hall q').1 hq') (originOf_inj hcube hv hv' heq)
  have hle := Finset.card_le_card_of_injOn _ hmaps hinj'
  have hlt := Finset.card_erase_lt_of_mem ((hall p).2 hp)
  omega

/-- All slots of a partly shared name come from the first input that has it. -/
theorem not_recoverable_of_partlyShared (hcube : Within Carries cube aligned)
    (h : PartlyShared aligned name) : ¬ Recoverable Carries aligned cube := by
  obtain ⟨⟨i, j, hne, hi, hj⟩, ds, hds, hname⟩ := h
  have hnot : name ∉ sharedNames aligned := fun h => hname (mem_names_of_shared h hds)
  have horigin : ∀ slot k, originOf aligned slot = (k, name) →
      k = aligned.findIdx fun ds => name ∈ ds.varNames := by
    rintro ⟨name', pos⟩ k heq
    unfold originOf at heq
    dsimp only at heq
    split_ifs at heq with hshared
    · obtain ⟨rfl, rfl⟩ := Prod.mk.inj heq
      exact absurd hshared hnot
    · obtain ⟨rfl, rfl⟩ := Prod.mk.inj heq
      rfl
  by_cases hfirst : i = aligned.findIdx fun ds => name ∈ ds.varNames
  · exact not_recoverable hcube hj fun slot values _ heq =>
      hne (hfirst.trans (horigin slot j heq).symm)
  · exact not_recoverable hcube hi fun slot values _ heq => hfirst (horigin slot i heq)

/-- No input is lost in a cube only if every name is in one input or in all of them, and none is
then, if not all of them have a variable with the name of the new dimension; where something is
stacked and only some have one, there is no cube. -/
theorem recoverable_combineAligned_iff (xr : Xarray V H) (hxr : xr.Lawful Carries)
    (aligned : List (GridDataset V)) (handles : List H) :
    (∀ cube stackedNames, combineAligned xr aligned handles = some (cube, stackedNames) →
      (Recoverable Carries aligned cube → ∀ name, ¬ PartlyShared aligned name) ∧
        (sourceDim ∉ sharedNames aligned →
          (Recoverable Carries aligned cube ↔ ∀ name, ¬ PartlyShared aligned name))) ∧
    (sourceDim ∉ sharedNames aligned → sharedNames aligned ≠ [] →
      (∃ ds ∈ aligned, sourceDim ∈ ds.varNames) → combineAligned xr aligned handles = none) := by
  constructor
  · intro cube stackedNames h
    have honly : Recoverable Carries aligned cube → ∀ name, ¬ PartlyShared aligned name :=
      fun hrec name hpart =>
        not_recoverable_of_partlyShared (within_combineAligned hxr h) hpart hrec
    refine ⟨honly, fun hsource => ⟨honly, ?_⟩⟩
    exact recoverable_of_not_partlyShared (gathers_combineAligned hxr hsource h)
  · rintro hsource hshared ⟨ds, hds, hname⟩
    exact combineAligned_eq_none hxr hsource hshared hds hname

theorem CubeVar.holds_refl (x : CubeVar V H) : x.Holds Eq x := by
  cases x with
  | labels handles => exact .labels handles
  | plain values => exact .plain rfl
  | stacked sides => exact .stacked (List.forall₂_same.2 fun _ _ => rfl)

/-- A library that does what is relied on, and no more. -/
def Xarray.plain (V H : Type) : Xarray V H where
  dataset labels arrays :=
    some { sizes := [(sourceDim, labels.length)]
           coords := [(sourceDim, .labels labels)]
           dataVars := arrays }
  merge := mergeFirst

theorem Xarray.lawful_plain : (Xarray.plain V H).Lawful Eq where
  dataVars labels arrays ds h name := by
    obtain rfl := Option.some.inj h
    exact Or.inl rfl
  labels labels arrays ds _ _ h := by
    obtain rfl := Option.some.inj h
    exact List.mem_singleton_self _
  merge := keepsFirst_mergeFirst CubeVar.holds_refl

/-- Two inputs with a variable in common, and one each of their own. -/
theorem recoverable_combineAligned_both :
    let aligned : List (GridDataset ℕ) :=
      [⟨{ dataVars := [("a", 1), ("b", 2)] }, by decide⟩,
        ⟨{ dataVars := [("a", 3), ("c", 4)] }, by decide⟩]
    ∃ cube, combineAligned (.plain ℕ String) aligned ["x", "y"] = some (cube, ["a"]) ∧
      Recoverable Eq aligned cube := by
  intro aligned
  refine ⟨_, rfl, ?_⟩
  refine (((recoverable_combineAligned_iff (.plain ℕ String) Xarray.lawful_plain aligned ["x", "y"]).1
    _ _ rfl).2 (by decide)).2 ?_
  -- of two inputs, those that have the name are all of them
  rintro name ⟨⟨i, j, hne, hi, hj⟩, ds, hds, hname⟩
  obtain ⟨k, hk⟩ := List.getElem?_of_mem hds
  have hlt : k < 2 := (List.getElem?_eq_some_iff.1 hk).1
  have hilt : i < 2 := provides_lt hi
  have hjlt : j < 2 := provides_lt hj
  have hprovides : Provides aligned (k, name) := by
    obtain rfl | rfl : k = i ∨ k = j := by omega
    · exact hi
    · exact hj
  obtain ⟨ds', hds', hname'⟩ := hprovides
  rw [hk] at hds'
  obtain rfl := Option.some.inj hds'
  exact hname hname'

/-- Two of three inputs have the same variable: the first one's is kept, the second one's lost. -/
theorem not_recoverable_combineAligned : ¬ ∀ (xr : Xarray ℕ String), xr.Lawful Eq →
    ∀ (aligned : List (GridDataset ℕ)) (handles : List String) cube stackedNames,
      handles.Nodup → combineAligned xr aligned handles = some (cube, stackedNames) →
        Recoverable Eq aligned cube := by
  intro h
  let aligned : List (GridDataset ℕ) :=
    [⟨{ dataVars := [("a", 1)] }, by decide⟩, ⟨{ dataVars := [("a", 2)] }, by decide⟩,
      ⟨{ dataVars := [("b", 3)] }, by decide⟩]
  have hpart : PartlyShared aligned "a" := by
    refine ⟨⟨0, 1, by decide, ⟨_, rfl, ?_⟩, ⟨_, rfl, ?_⟩⟩,
      ⟨{ dataVars := [("b", 3)] }, by decide⟩, ?_, ?_⟩
    · decide
    · decide
    · simp [aligned]
    · decide
  obtain ⟨cube, stackedNames, hcube⟩ : ∃ cube stackedNames,
      combineAligned (.plain ℕ String) aligned ["x", "y", "z"] = some (cube, stackedNames) :=
    ⟨_, _, rfl⟩
  have hrec := h (.plain ℕ String) Xarray.lawful_plain aligned _ cube stackedNames (by decide) hcube
  exact not_recoverable_of_partlyShared (within_combineAligned Xarray.lawful_plain hcube) hpart hrec

end recoverable

end EarthdataMcp
