import EarthdataMcp.Grid.Datasets
import EarthdataMcp.Text.Paths
import Mathlib.Data.List.Sort
import Mathlib.Data.String.Basic

/-!
# Flattening groups

The groups of a file are merged into one dataset under names that are made of the path of the
group and the name of the variable, with double underscores between; a caller names a variable by
its slash path, which is translated in the same way.

* `mergeGroups` and `resolveVariableNames`;
* `flatName_eq`: what is prefixed is the slash path, translated;
* `flatteningAgrees_iff`: when every slash path leads to its own variable, whatever else merging
  does.
-/

namespace EarthdataMcp

open Grid Text

variable {V : Type}

/-- A group of a file: its path without the slash before it, and what it has. -/
structure Group (V : Type) extends Dataset (List Char) V where
  path : List Char
  head : path.head? ≠ some '/' := by decide
  last : path.getLast? ≠ some '/' := by decide
  named : ∀ v ∈ toDataset.arrays, v.1 ≠ [] ∧ '/' ∉ v.1 := by decide
  distinct : toDataset.names.Nodup := by decide

/-- The groups of a file, under their paths; the root has the empty one. -/
structure GroupTree (V : Type) where
  groups : List (Group V)
  distinct : (groups.map Group.path).Nodup := by decide

/-- `text.strip("/")`. -/
def trimSlashes (text : List Char) : List Char := (text.dropWhile (· = '/')).rdropWhile (· = '/')

/-- `text.replace("/", "__")`. -/
def underscored (text : List Char) : List Char :=
  text.flatMap fun c => if c = '/' then ['_', '_'] else [c]

namespace Group

variable (g : Group V)

/-- The key of the group in the mapping of `xr.open_groups`. -/
def groupPath : List Char := '/' :: g.path

/-- The name of a variable of the group in the merged dataset. -/
def flatName (name : List Char) : List Char :=
  let label := underscored (trimSlashes g.groupPath)
  if label = [] then name
  else if g.isDim name then name
  else label ++ ['_', '_'] ++ name

/-- The array under its new name. -/
def rename (v : List Char × V) : List Char × V := (g.flatName v.1, v.2)

/-- `ds.rename(mapping)`, in which no dimension is renamed. -/
def renamed : Dataset (List Char) V where
  sizes := g.sizes
  coords := g.coords.map g.rename
  dataVars := g.dataVars.map g.rename

/-- The path that a caller writes for a variable of the group. -/
def slashPath (name : List Char) : List Char :=
  if g.path = [] then name else g.path ++ '/' :: name

end Group

/-- `_merge_groups`, with `xr.merge(renamed, compat="override", join="outer")`; nothing where that
raises, or where renaming does because a new name is already there. -/
def mergeGroups (merge : List (Dataset (List Char) V) → Option (Dataset (List Char) V))
    (groups : List (Group V)) : Option (Dataset (List Char) V) :=
  if ∀ g ∈ groups, g.renamed.names.Nodup then merge (groups.map Group.renamed) else none

/-- The names that a dataset does not have, and those it has. -/
structure UnknownVariables where
  unknown : List (List Char)
  available : List (List Char)

/-- One turn of the loop in `_resolve_variable_names`. -/
def resolveVariableName (available : List (List Char)) (name : List Char) : Option (List Char) :=
  if available.any (· = name) then some name
  else
    let flattened := underscored (trimSlashes name)
    if available.any (· = flattened) then some flattened else none

/-- `_resolve_variable_names`. -/
def resolveVariableNames (available variableNames : List (List Char)) :
    Except UnknownVariables (List (List Char)) :=
  let unknown := variableNames.filter fun name => (resolveVariableName available name).isNone
  if unknown = [] then .ok (variableNames.filterMap (resolveVariableName available))
  else .error { unknown := unknown, available := available.insertionSort (· ≤ ·) }

/-- Different variables get different names, but for dimension coordinates of one name, and each
slash path, with a leading slash or without, leads to the name that carries the variable's values.
-/
def FlatteningAgrees (Carries : V → V → Prop)
    (merge : List (Dataset (List Char) V) → Option (Dataset (List Char) V)) (tree : GroupTree V) :
    Prop :=
  ∃ merged, mergeGroups merge tree.groups = some merged ∧
    (∀ g ∈ tree.groups, ∀ v ∈ g.arrays, ∀ g' ∈ tree.groups, ∀ v' ∈ g'.arrays,
      (g.path, v.1) ≠ (g'.path, v'.1) → g.flatName v.1 = g'.flatName v'.1 →
        v.1 = v'.1 ∧ g.isDim v.1 ∧ g'.isDim v'.1) ∧
    ∀ g ∈ tree.groups, ∀ v ∈ g.arrays,
      ∀ path, path = g.slashPath v.1 ∨ path = '/' :: g.slashPath v.1 →
        resolveVariableNames merged.names [path] = .ok [g.flatName v.1] ∧
          ∃ x, (g.flatName v.1, x) ∈ merged.arrays ∧ Carries x v.2

/-! ### Texts -/

theorem underscored_append (a b : List Char) :
    underscored (a ++ b) = underscored a ++ underscored b :=
  List.flatMap_append

theorem underscored_of_notMem {text : List Char} (h : '/' ∉ text) : underscored text = text := by
  induction text with
  | nil => rfl
  | cons c text ih =>
    obtain ⟨hc, htext⟩ := not_or.1 (List.mem_cons.not.1 h)
    have hrest := ih htext
    unfold underscored at hrest ⊢
    rw [List.flatMap_cons, if_neg (Ne.symm hc), hrest]
    rfl

/-- The last slash becomes two underscores. -/
theorem underscored_cut (a : List Char) {b : List Char} (h : '/' ∉ b) :
    underscored (a ++ '/' :: b) = underscored a ++ ['_', '_'] ++ b := by
  have hslash : underscored ['/'] = ['_', '_'] := rfl
  rw [List.append_cons, underscored_append, underscored_append, hslash, underscored_of_notMem h]

theorem notMem_underscored (text : List Char) : '/' ∉ underscored text := by
  unfold underscored
  rw [List.mem_flatMap]
  rintro ⟨c, -, hc⟩
  split_ifs at hc with heq
  · exact absurd hc (by decide)
  · exact heq (List.mem_singleton.1 hc).symm

theorem underscored_eq_nil {text : List Char} : underscored text = [] ↔ text = [] := by
  cases text with
  | nil => exact iff_of_true rfl rfl
  | cons c text =>
    refine iff_of_false ?_ (List.cons_ne_nil _ _)
    unfold underscored
    rw [List.flatMap_cons]
    split_ifs <;> simp

/-- A text with no slash at its ends is not stripped, nor is it with one before it. -/
theorem trimSlashes_eq {text : List Char} (hhead : text.head? ≠ some '/')
    (hlast : text.getLast? ≠ some '/') :
    trimSlashes text = text ∧ trimSlashes ('/' :: text) = text := by
  have hdrop : text.dropWhile (· = '/') = text := stripSlashes_of_head hhead
  have hrdrop := rdropWhile_of_last hlast
  unfold trimSlashes
  constructor
  · rw [hdrop, hrdrop]
  · rw [List.dropWhile_cons_of_pos (by simp), hdrop, hrdrop]

/-! ### Names -/

section names

variable {g g' : Group V} {name name' : List Char} {v : List Char × V}

theorem Group.label_eq : underscored (trimSlashes g.groupPath) = underscored g.path :=
  congrArg underscored (trimSlashes_eq g.head g.last).2

/-- The slash path of a variable has no slash at its ends. -/
theorem Group.trimSlashes_slashPath (hv : v ∈ g.arrays) :
    trimSlashes (g.slashPath v.1) = g.slashPath v.1 ∧
      trimSlashes ('/' :: g.slashPath v.1) = g.slashPath v.1 := by
  obtain ⟨hne, hslash⟩ := g.named v hv
  have hlastName : v.1.getLast? ≠ some '/' := fun h => hslash (List.mem_of_getLast? h)
  apply trimSlashes_eq
  · unfold slashPath
    split_ifs with hroot
    · exact fun h => hslash (List.mem_of_head? h)
    · rw [List.head?_append_of_ne_nil _ hroot]
      exact g.head
  · unfold slashPath
    split_ifs with hroot
    · exact hlastName
    · rw [List.getLast?_append_of_ne_nil _ (List.cons_ne_nil _ _), List.getLast?_cons_of_ne_nil hne]
      exact hlastName

/-- The slash path is not ambiguous. -/
theorem Group.slashPath_inj (hslash : '/' ∉ name) (hslash' : '/' ∉ name')
    (h : g.slashPath name = g'.slashPath name') : (g.path, name) = (g'.path, name') := by
  unfold slashPath at h
  split_ifs at h with hroot hroot' hroot'
  · rw [hroot, hroot', h]
  · rw [h] at hslash
    exact absurd (List.mem_append_right _ List.mem_cons_self) hslash
  · rw [← h] at hslash'
    exact absurd (List.mem_append_right _ List.mem_cons_self) hslash'
  · obtain ⟨hpath, hname⟩ := cut_last_unique hslash hslash' h
    rw [hpath, hname]

/-- A name that is prefixed, or of the root, is the slash path with its slashes translated. -/
theorem Group.flatName_eq (hslash : '/' ∉ name) (h : g.path ≠ [] → g.isDim name = false) :
    g.flatName name = underscored (g.slashPath name) := by
  unfold flatName slashPath
  dsimp only
  rw [label_eq]
  by_cases hroot : g.path = []
  · rw [if_pos (underscored_eq_nil.2 hroot), if_pos hroot, underscored_of_notMem hslash]
  · rw [if_neg (underscored_eq_nil.not.2 hroot), if_neg hroot, if_neg (by simp [h hroot]),
      underscored_cut _ hslash]

theorem Group.flatName_of_isDim (h : g.isDim name = true) : g.flatName name = name := by
  unfold flatName
  dsimp only
  rw [if_pos h, ite_self]

theorem Group.notMem_flatName (hslash : '/' ∉ name) : '/' ∉ g.flatName name := by
  by_cases h : g.isDim name = true
  · rw [flatName_of_isDim h]
    exact hslash
  · rw [flatName_eq hslash fun _ => Bool.eq_false_iff.2 h]
    exact notMem_underscored _

end names

/-! ### Resolving -/

section resolving

variable {available : List (List Char)} {path name : List Char}

theorem resolveVariableNames_singleton :
    resolveVariableNames available [path] = .ok [name] ↔
      resolveVariableName available path = some name := by
  unfold resolveVariableNames
  cases h : resolveVariableName available path with
  | none => simp [h]
  | some resolved => simp [h]

/-- A path with a slash is never a name of the dataset, so it is translated. -/
theorem resolveVariableName_of_slash (havailable : ∀ a ∈ available, '/' ∉ a) (h : '/' ∈ path) :
    resolveVariableName available path =
      if available.any (· = underscored (trimSlashes path)) then
        some (underscored (trimSlashes path))
      else none := by
  have hnot : available.any (· = path) = false := by
    rw [List.any_eq_false]
    intro a ha heq
    exact havailable a ha (of_decide_eq_true heq ▸ h)
  unfold resolveVariableName
  rw [hnot]
  rfl

/-- A path whose translation is a name of the dataset leads there. -/
theorem resolveVariableName_eq (havailable : ∀ a ∈ available, '/' ∉ a)
    (htrim : trimSlashes path = trimSlashes name) (hname : trimSlashes name = name)
    (hmem : underscored name ∈ available) (hpath : '/' ∉ path → path = name) :
    resolveVariableName available path = some (underscored name) := by
  by_cases hslash : '/' ∈ path
  · rw [resolveVariableName_of_slash havailable hslash, htrim, hname,
      if_pos (List.any_eq_true.2 ⟨_, hmem, decide_eq_true rfl⟩)]
  · have heq := hpath hslash
    rw [← heq, underscored_of_notMem hslash] at hmem ⊢
    unfold resolveVariableName
    rw [if_pos (List.any_eq_true.2 ⟨path, hmem, decide_eq_true rfl⟩)]

end resolving

/-! ### What the groups have -/

/-- No group but the root has a variable that is named as one of its dimensions. -/
def RootDims (tree : GroupTree V) : Prop :=
  ∀ g ∈ tree.groups, g.path ≠ [] → ∀ v ∈ g.arrays, g.isDim v.1 = false

/-- The slash paths of the variables stay different when their slashes are translated. -/
def Unambiguous (tree : GroupTree V) : Prop :=
  ∀ g ∈ tree.groups, ∀ v ∈ g.arrays, ∀ g' ∈ tree.groups, ∀ v' ∈ g'.arrays,
    underscored (g.slashPath v.1) = underscored (g'.slashPath v'.1) →
      g.slashPath v.1 = g'.slashPath v'.1

/-- A dimension has the same size in all groups that have it. -/
def OneSize (tree : GroupTree V) : Prop :=
  ∀ g ∈ tree.groups, ∀ e ∈ g.sizes, ∀ g' ∈ tree.groups, ∀ e' ∈ g'.sizes, e.1 = e'.1 → e.2 = e'.2

/-- No variable gets the name of a dimension, but for the coordinate of that dimension. -/
def DimsApart (tree : GroupTree V) : Prop :=
  ∀ g ∈ tree.groups, ∀ v ∈ g.arrays, ∀ g' ∈ tree.groups, g'.isDim (g.flatName v.1) →
    v.1 ∈ g.coordNames ∧ g.isDim v.1

/-! ### Agreement -/

section agreement

variable {Carries : V → V → Prop}
  {merge : List (Dataset (List Char) V) → Option (Dataset (List Char) V)} {tree : GroupTree V}
  {merged : Dataset (List Char) V}

theorem Group.arrays_renamed (g : Group V) : g.renamed.arrays = g.arrays.map g.rename :=
  List.map_append.symm

theorem Group.names_renamed (g : Group V) : g.renamed.names = g.names.map g.flatName := by
  unfold Dataset.names
  rw [g.arrays_renamed, List.map_map, List.map_map]
  rfl

theorem Group.mem_names_renamed (g : Group V) {name : List Char} :
    name ∈ g.renamed.names ↔ ∃ v ∈ g.arrays, g.flatName v.1 = name := by
  rw [g.names_renamed, Dataset.names, List.map_map, List.mem_map]
  rfl

theorem merge_of_mergeGroups (h : mergeGroups merge tree.groups = some merged) :
    merge (tree.groups.map Group.renamed) = some merged := by
  unfold mergeGroups at h
  split_ifs at h
  exact h

/-- No name of the merged dataset has a slash. -/
theorem notMem_merged (hmerge : KeepsFirst Carries merge)
    (h : mergeGroups merge tree.groups = some merged) : ∀ a ∈ merged.names, '/' ∉ a := by
  intro a ha
  obtain ⟨part, hpart, ha⟩ := (hmerge.mem_names (merge_of_mergeGroups h)).1 ha
  obtain ⟨g, -, rfl⟩ := List.mem_map.1 hpart
  obtain ⟨v, hv, rfl⟩ := g.mem_names_renamed.1 ha
  exact g.notMem_flatName (g.named v hv).2

/-- A dimension coordinate of another group is not found under its slash path. -/
theorem rootDims_of_agrees (hmerge : KeepsFirst Carries merge)
    (h : FlatteningAgrees Carries merge tree) : RootDims tree := by
  obtain ⟨merged, hmerged, -, hresolve⟩ := h
  intro g hg hroot v hv
  by_contra hdim
  rw [Bool.not_eq_false] at hdim
  have hslash : '/' ∈ g.slashPath v.1 := by
    unfold Group.slashPath
    rw [if_neg hroot]
    exact List.mem_append_right _ List.mem_cons_self
  have hres := resolveVariableNames_singleton.1 (hresolve g hg v hv _ (Or.inl rfl)).1
  rw [resolveVariableName_of_slash (notMem_merged hmerge hmerged) hslash,
    (g.trimSlashes_slashPath hv).1, g.flatName_of_isDim hdim] at hres
  split_ifs at hres
  have hname := congrArg List.length (Option.some.inj hres)
  -- the translated path is longer than the bare name
  unfold Group.slashPath at hname
  rw [if_neg hroot, underscored_cut _ (g.named v hv).2] at hname
  simp only [List.length_append, List.length_cons, List.length_nil] at hname
  omega

theorem unambiguous_of_agrees (hmerge : KeepsFirst Carries merge)
    (h : FlatteningAgrees Carries merge tree) : Unambiguous tree := by
  have hdims := rootDims_of_agrees hmerge h
  obtain ⟨merged, -, hdistinct, -⟩ := h
  intro g hg v hv g' hg' v' hv' heq
  by_contra hne
  have hflat : g.flatName v.1 = g'.flatName v'.1 := by
    rw [g.flatName_eq (g.named v hv).2 fun hroot => hdims g hg hroot v hv,
      g'.flatName_eq (g'.named v' hv').2 fun hroot => hdims g' hg' hroot v' hv', heq]
  have hvars : (g.path, v.1) ≠ (g'.path, v'.1) := by
    intro hsame
    obtain ⟨hpath, hname⟩ := Prod.mk.inj hsame
    apply hne
    unfold Group.slashPath
    rw [hpath, hname]
  obtain ⟨hname, hdim, hdim'⟩ := hdistinct g hg v hv g' hg' v' hv' hvars hflat
  -- dimension coordinates are in the root only, where names are distinct
  have hroot : g.path = [] := by
    by_contra hroot
    rw [hdims g hg hroot v hv] at hdim
    cases hdim
  have hroot' : g'.path = [] := by
    by_contra hroot
    rw [hdims g' hg' hroot v' hv'] at hdim'
    cases hdim'
  exact hvars (by rw [hroot, hroot', hname])

/-- Variables with one flat name are one. -/
theorem eq_of_flatName (hdims : RootDims tree) (hunamb : Unambiguous tree) {g g' : Group V}
    (hg : g ∈ tree.groups) (hg' : g' ∈ tree.groups) {v v' : List Char × V} (hv : v ∈ g.arrays)
    (hv' : v' ∈ g'.arrays) (heq : g.flatName v.1 = g'.flatName v'.1) :
    (g.path, v.1) = (g'.path, v'.1) := by
  have hslash := (g.named v hv).2
  have hslash' := (g'.named v' hv').2
  apply Group.slashPath_inj hslash hslash'
  apply hunamb g hg v hv g' hg' v' hv'
  rw [← g.flatName_eq hslash fun hroot => hdims g hg hroot v hv,
    ← g'.flatName_eq hslash' fun hroot => hdims g' hg' hroot v' hv', heq]

theorem eq_of_path {g g' : Group V} (hg : g ∈ tree.groups) (hg' : g' ∈ tree.groups)
    (h : g.path = g'.path) : g = g' :=
  List.inj_on_of_nodup_map tree.distinct hg hg' h

theorem eq_of_name {g : Group V} {v v' : List Char × V} (hv : v ∈ g.arrays) (hv' : v' ∈ g.arrays)
    (h : v.1 = v'.1) : v = v' :=
  List.inj_on_of_nodup_map g.distinct hv hv' h

/-- All new names are different. -/
theorem nodup_renamed (hdims : RootDims tree) (hunamb : Unambiguous tree) :
    ((tree.groups.map Group.renamed).flatMap Dataset.names).Nodup := by
  rw [List.flatMap_map, List.nodup_flatMap]
  constructor
  · intro g hg
    rw [g.names_renamed]
    refine g.distinct.map_on fun name hname name' hname' heq => ?_
    obtain ⟨v, hv, rfl⟩ := List.mem_map.1 hname
    obtain ⟨v', hv', rfl⟩ := List.mem_map.1 hname'
    exact (Prod.mk.inj (eq_of_flatName hdims hunamb hg hg hv hv' heq)).2
  · refine (List.Nodup.of_map _ tree.distinct).pairwise_of_forall_ne fun g hg g' hg' hne => ?_
    intro a ha ha'
    obtain ⟨v, hv, rfl⟩ := g.mem_names_renamed.1 ha
    obtain ⟨v', hv', heq⟩ := g'.mem_names_renamed.1 ha'
    have hpath := (Prod.mk.inj (eq_of_flatName hdims hunamb hg hg' hv hv' heq.symm)).1
    exact hne (eq_of_path hg hg' hpath)

/-- Two sizes of a dimension are in conflict, as at most one group has a coordinate for it. -/
theorem oneSize_of_agrees (hmerge : KeepsFirst Carries merge)
    (h : FlatteningAgrees Carries merge tree) : OneSize tree := by
  have hnodup := nodup_renamed (rootDims_of_agrees hmerge h) (unambiguous_of_agrees hmerge h)
  obtain ⟨merged, hmerged, -, -⟩ := h
  intro g hg e he g' hg' e' he' hname
  by_contra hsize
  have hmem {g : Group V} (hg : g ∈ tree.groups) {e : List Char × ℕ} (he : e ∈ g.sizes) :
      e ∈ (tree.groups.map Group.renamed).flatMap Dataset.sizes :=
    List.mem_flatMap.2 ⟨g.renamed, List.mem_map_of_mem hg, he⟩
  have hnone := hmerge.conflicting _
    ⟨e, hmem hg he, e', hmem hg' he', hname, hsize, length_filter_coordNames_le hnodup e.1⟩
  rw [merge_of_mergeGroups hmerged] at hnone
  cases hnone

theorem separate_renamed (hdims : RootDims tree) (hunamb : Unambiguous tree) (hsize : OneSize tree)
    (hapart : DimsApart tree) : Separate (tree.groups.map Group.renamed) where
  names := nodup_renamed hdims hunamb
  sizes e he e' he' hname := by
    obtain ⟨part, hpart, he⟩ := List.mem_flatMap.1 he
    obtain ⟨part', hpart', he'⟩ := List.mem_flatMap.1 he'
    obtain ⟨g, hg, rfl⟩ := List.mem_map.1 hpart
    obtain ⟨g', hg', rfl⟩ := List.mem_map.1 hpart'
    exact hsize g hg e he g' hg' e' he' hname
  dims part hpart name hname part' hpart' hdim := by
    obtain ⟨g, hg, rfl⟩ := List.mem_map.1 hpart
    obtain ⟨g', hg', rfl⟩ := List.mem_map.1 hpart'
    obtain ⟨v, hv, rfl⟩ := g.mem_names_renamed.1 hname
    obtain ⟨hcoord, hown⟩ := hapart g hg v hv g' hg' hdim
    obtain ⟨w, hw, hwname⟩ := List.mem_map.1 hcoord
    refine ⟨List.mem_map.2 ⟨g.rename w, List.mem_map_of_mem hw, congrArg g.flatName hwname⟩, ?_⟩
    rw [g.flatName_of_isDim hown]
    exact hown

theorem agrees_of_unambiguous (hmerge : KeepsFirst Carries merge) (hdims : RootDims tree)
    (hunamb : Unambiguous tree) (hsize : OneSize tree) (hapart : DimsApart tree) :
    FlatteningAgrees Carries merge tree := by
  have hseparate := separate_renamed hdims hunamb hsize hapart
  obtain ⟨merged, hmerged⟩ := Option.isSome_iff_exists.1 (hmerge.returns _ hseparate)
  have hrenamed : ∀ g ∈ tree.groups, g.renamed.names.Nodup := fun g hg =>
    (List.nodup_flatMap.1 hseparate.names).1 _ (List.mem_map_of_mem hg)
  have hcarried : ∀ g ∈ tree.groups, ∀ v ∈ g.arrays,
      ∃ x, (g.flatName v.1, x) ∈ merged.arrays ∧ Carries x v.2 := by
    intro g hg v hv
    have hmem : g.rename v ∈ g.renamed.arrays := by
      rw [g.arrays_renamed]
      exact List.mem_map_of_mem hv
    -- whatever else comes under the flat name is this very variable
    refine hmerge.carried hmerged (List.mem_map_of_mem hg) hmem fun part hpart e he hname => ?_
    obtain ⟨g', hg', rfl⟩ := List.mem_map.1 hpart
    rw [g'.arrays_renamed] at he
    obtain ⟨v', hv', rfl⟩ := List.mem_map.1 he
    obtain ⟨hpath, hvar⟩ := Prod.mk.inj (eq_of_flatName hdims hunamb hg' hg hv' hv hname)
    obtain rfl := eq_of_path hg' hg hpath
    rw [eq_of_name hv' hv hvar]
  have hgroups : mergeGroups merge tree.groups = some merged := (if_pos hrenamed).trans hmerged
  refine ⟨merged, hgroups, ?_, ?_⟩
  · intro g hg v hv g' hg' v' hv' hne heq
    exact absurd (eq_of_flatName hdims hunamb hg hg' hv hv' heq) hne
  · intro g hg v hv path hpath
    refine ⟨?_, hcarried g hg v hv⟩
    obtain ⟨htrim, htrim'⟩ := g.trimSlashes_slashPath hv
    have hslash := (g.named v hv).2
    have hflat := g.flatName_eq hslash fun hroot => hdims g hg hroot v hv
    have hmem : underscored (g.slashPath v.1) ∈ merged.names := by
      obtain ⟨x, hx, -⟩ := hcarried g hg v hv
      rw [← hflat]
      exact List.mem_map_of_mem hx
    rw [resolveVariableNames_singleton, hflat]
    apply resolveVariableName_eq (notMem_merged hmerge hgroups) ?_ htrim hmem ?_
    · rcases hpath with rfl | rfl
      · rfl
      · rw [htrim', htrim]
    · intro hnot
      rcases hpath with rfl | rfl
      · rfl
      · exact absurd List.mem_cons_self hnot

/-- Names and slash paths agree only if dimension coordinates are in the root, no two slash paths
are translated to the same name, and every dimension has one size; and they do if moreover no
variable gets the name of a dimension. -/
theorem flatteningAgrees_iff (hmerge : KeepsFirst Carries merge) (tree : GroupTree V) :
    (FlatteningAgrees Carries merge tree → RootDims tree ∧ Unambiguous tree ∧ OneSize tree) ∧
      (RootDims tree ∧ Unambiguous tree ∧ OneSize tree ∧ DimsApart tree →
        FlatteningAgrees Carries merge tree) := by
  constructor
  · intro h
    exact ⟨rootDims_of_agrees hmerge h, unambiguous_of_agrees hmerge h, oneSize_of_agrees hmerge h⟩
  · rintro ⟨hdims, hunamb, hsize, hapart⟩
    exact agrees_of_unambiguous hmerge hdims hunamb hsize hapart

/-- A grid in the root, and two groups on it. -/
def GroupTree.product : GroupTree ℕ where
  groups := [{ path := []
               sizes := [(['x'], 4)]
               coords := [(['x'], 0)]
               dataVars := [] },
    { path := ['a']
      sizes := [(['x'], 4)]
      dataVars := [(['v'], 1)] },
    { path := ['a', '/', 'b']
      sizes := [(['x'], 4)]
      coords := [(['t'], 3)]
      dataVars := [(['v'], 2)] }]

theorem flatteningAgrees_product : FlatteningAgrees Eq mergeFirst .product := by
  refine (flatteningAgrees_iff (keepsFirst_mergeFirst fun _ => rfl) .product).2 ⟨?_, ?_, ?_, ?_⟩
  · unfold RootDims
    decide
  · unfold Unambiguous
    decide
  · unfold OneSize
    decide
  · unfold DimsApart
    decide

/-- The variable `b__c` of the group `a` and the variable `c` of `a/b` have one name; the dimension
coordinate `t` of the group `g` is not found under its slash path. -/
theorem not_flatteningAgrees :
    let nested : GroupTree ℕ :=
      { groups := [{ path := ['a'], dataVars := [(['b', '_', '_', 'c'], 1)] },
          { path := ['a', '/', 'b'], dataVars := [(['c'], 2)] }] }
    let timed : GroupTree ℕ :=
      { groups := [{ path := ['g'], sizes := [(['t'], 1)], coords := [(['t'], 1)], dataVars := [] }] }
    ¬ ∃ merge : List (Dataset (List Char) ℕ) → Option (Dataset (List Char) ℕ),
      KeepsFirst Eq merge ∧ (FlatteningAgrees Eq merge nested ∨ FlatteningAgrees Eq merge timed) := by
  rintro nested timed ⟨merge, hmerge, h | h⟩
  · have hsame := unambiguous_of_agrees hmerge h _ List.mem_cons_self _ List.mem_cons_self _
      (List.mem_cons_of_mem _ List.mem_cons_self) _ List.mem_cons_self (by decide)
    exact absurd hsame (by decide)
  · have hdim := rootDims_of_agrees hmerge h _ List.mem_cons_self (by decide) _ List.mem_cons_self
    exact absurd hdim (by decide)

end agreement

end EarthdataMcp
