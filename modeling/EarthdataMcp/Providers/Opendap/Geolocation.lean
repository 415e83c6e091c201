import EarthdataMcp.Providers.Opendap.Dmr
import EarthdataMcp.Lists.Collect

/-!
# The nearest geolocation

A variable is located by the coordinates of the nearest group: its own, or the next one above it
that has both a latitude and a longitude.

* `HasVariable`, which variables a document has, and in which groups;
* `mem_paths_parseDmr`: they are the variables of its tree;
* `Latitude` and `Longitude`, the coordinates directly in a group;
* `groupGeolocation_nearest`: which pair is found, and when there is one.
-/

namespace EarthdataMcp

open Text

/-! ### Documents -/

/-- The element is a variable of this name, or has one in these nested groups. -/
inductive HasVariable : Element → List VarName → VarName → Prop
  | here {e : Element} {name : VarName} (hname : e.name = some name)
      (hgroup : e.localTag ≠ "Group".toList)
      (htag : e.localTag ∉ ["Dimension".toList, "Attribute".toList]) : HasVariable e [] name
  | inside {e child : Element} {group : VarName} {groups : List VarName} {name : VarName}
      (hname : e.name = some group) (hgroup : e.localTag = "Group".toList)
      (hmem : child ∈ e.children) (hchild : HasVariable child groups name) :
      HasVariable e (group :: groups) name

/-- One of these elements has a variable of this name in these nested groups. -/
def DeclaredAmong (children : List Element) (groups : List VarName) (name : VarName) : Prop :=
  ∃ child ∈ children, HasVariable child groups name

/-- Names are not empty and have no slash. -/
def PlainNames (names : List VarName) : Prop := ∀ name ∈ names, name ≠ [] ∧ '/' ∉ name

/-- All groups and variables of a document have plain names. -/
def PlainDocument (root : Element) : Prop :=
  ∀ groups name, DeclaredAmong root.children groups name → PlainNames (groups ++ [name])

theorem hasVariable_iff {tag : List Char} {named : VarName} {text : Option (List Char)}
    {children : List Element} {groups : List VarName} {name : VarName} :
    let e := Element.mk tag (some named) text children
    HasVariable e groups name ↔
      (groups = [] ∧ name = named ∧ e.localTag ≠ "Group".toList ∧
        e.localTag ∉ ["Dimension".toList, "Attribute".toList]) ∨
      e.localTag = "Group".toList ∧ ∃ inner, groups = named :: inner ∧
        DeclaredAmong children inner name := by
  intro e
  constructor
  · rintro (⟨hname, hgroup, htag⟩ | ⟨hname, hgroup, hmem, hchild⟩)
    · exact Or.inl ⟨rfl, (Option.some.inj hname).symm, hgroup, htag⟩
    · obtain rfl := Option.some.inj hname
      exact Or.inr ⟨hgroup, _, rfl, _, hmem, hchild⟩
  · rintro (⟨rfl, rfl, hgroup, htag⟩ | ⟨hgroup, inner, rfl, child, hmem, hchild⟩)
    · exact .here rfl hgroup htag
    · exact .inside rfl hgroup hmem hchild

namespace DmrTree

theorem mem_paths_put {tree : DmrTree} {var : DmrVariable} {h : var.path.head? = some '/'}
    {path : VarName} : path ∈ (tree.put var h).paths ↔ path ∈ tree.paths ∨ path = var.path := by
  unfold put
  split_ifs with hmem
  · have hsame (v : DmrVariable) : (if v.path = var.path then var else v).path = v.path := by
      split_ifs with heq
      · exact heq.symm
      · rfl
    have hpaths : (tree.vars.map fun v => if v.path = var.path then var else v).map
        DmrVariable.path = tree.paths := by
      rw [List.map_map]
      exact List.map_congr_left fun v _ => hsame v
    constructor
    · intro hpath
      exact Or.inl (hpaths ▸ hpath)
    · intro hpath
      have hpath : path ∈ tree.paths := by
        rcases hpath with hpath | rfl
        · exact hpath
        · exact hmem
      rw [← hpaths] at hpath
      exact hpath
  · simp [paths, eq_comm]

mutual

/-- What a child adds to the tree. -/
theorem mem_paths_visit (groups : List VarName) (tree : DmrTree) (child : Element)
    (path : VarName) : path ∈ (visit groups tree child).paths ↔ path ∈ tree.paths ∨
      ∃ inner name, HasVariable child inner name ∧ path = pathOf (groups ++ inner ++ [name]) := by
  match child with
  | .mk tag none text children =>
    have hnone (inner : List VarName) (name : VarName) :
        ¬ HasVariable (.mk tag none text children) inner name := by
      rintro (⟨hname, -, -⟩ | ⟨hname, -, -, -⟩) <;> cases hname
    rw [visit]
    simp [hnone]
  | .mk tag (some named) text children =>
    rw [visit]
    simp only [hasVariable_iff]
    split_ifs with hgroup htag
    · rw [mem_paths_walk]
      apply or_congr_right
      constructor
      · rintro ⟨inner, name, hdeclared, rfl⟩
        exact ⟨named :: inner, name, Or.inr ⟨hgroup, inner, rfl, hdeclared⟩, by simp⟩
      · rintro ⟨inner, name, ⟨-, -, hne, -⟩ | ⟨-, inner, rfl, hdeclared⟩, rfl⟩
        · exact absurd hgroup hne
        · exact ⟨inner, name, hdeclared, by simp⟩
    · constructor
      · exact Or.inl
      · rintro (h | ⟨inner, name, ⟨-, -, -, hne⟩ | ⟨heq, -⟩, -⟩)
        · exact h
        · exact absurd htag hne
        · exact absurd heq hgroup
    · rw [mem_paths_put]
      apply or_congr_right
      constructor
      · rintro rfl
        exact ⟨[], named, Or.inl ⟨rfl, rfl, hgroup, htag⟩, by simp⟩
      · rintro ⟨inner, name, ⟨rfl, rfl, -, -⟩ | ⟨heq, -⟩, rfl⟩
        · simp
        · exact absurd heq hgroup

/-- What children add to the tree, one after the other. -/
theorem mem_paths_walk (groups : List VarName) (tree : DmrTree) (children : List Element)
    (path : VarName) : path ∈ (walk groups tree children).paths ↔ path ∈ tree.paths ∨
      ∃ inner name, DeclaredAmong children inner name ∧
        path = pathOf (groups ++ inner ++ [name]) := by
  match children with
  | [] =>
    rw [walk]
    simp [DeclaredAmong]
  | child :: children =>
    rw [walk, mem_paths_walk, mem_paths_visit, or_assoc]
    simp only [DeclaredAmong, List.exists_mem_cons_iff, or_and_right, exists_or]

end

/-- The paths of a tree are those of the variables of its document. -/
theorem mem_paths_parseDmr {root : Element} {path : VarName} : path ∈ (parseDmr root).paths ↔
    ∃ groups name, DeclaredAmong root.children groups name ∧ path = pathOf (groups ++ [name]) := by
  unfold parseDmr
  rw [mem_paths_walk]
  simp [paths, empty]

end DmrTree

/-! ### Paths -/

theorem pathOf_concat (groups : List VarName) (name : VarName) :
    pathOf (groups ++ [name]) = pathOf groups ++ '/' :: name := by
  simp [pathOf]

theorem pathOf_eq_join {segments : List VarName} (h : segments ≠ []) :
    pathOf segments = '/' :: ['/'].intercalate segments := by
  induction segments with
  | nil => exact absurd rfl h
  | cons segment segments ih =>
    cases segments with
    | nil => simp [pathOf]
    | cons segment' segments =>
      rw [List.intercalate_cons_cons, pathOf, List.flatMap_cons, ← pathOf,
        ih (List.cons_ne_nil _ _)]
      simp

/-- A path without empty segments is cut into its segments. -/
theorem pathOf_injective {segments segments' : List VarName} (h : ∀ s ∈ segments, '/' ∉ s)
    (h' : ∀ s ∈ segments', '/' ∉ s) (heq : pathOf segments = pathOf segments') :
    segments = segments' := by
  cases segments with
  | nil =>
    cases segments' with
    | nil => rfl
    | cons segment' segments' => cases heq
  | cons segment segments =>
    cases segments' with
    | nil => cases heq
    | cons segment' segments' =>
      rw [pathOf_eq_join (List.cons_ne_nil _ _), pathOf_eq_join (List.cons_ne_nil _ _)] at heq
      have hjoin := congrArg (List.splitOn '/') (List.cons.inj heq).2
      rwa [List.splitOn_intercalate '/' h (List.cons_ne_nil _ _),
        List.splitOn_intercalate '/' h' (List.cons_ne_nil _ _)] at hjoin

theorem parentPath_concat (group : VarName) {name : VarName} (h : '/' ∉ name) :
    parentPath (group ++ '/' :: name) = group := by
  have hcut : (group ++ '/' :: name).rdropWhile (· ≠ '/') = group ++ ['/'] := by
    have hwhole := @List.rdropWhile_append_rtakeWhile _ (· ≠ '/') (group ++ '/' :: name)
    have hlast : (group ++ '/' :: name).rtakeWhile (· ≠ '/') = name := lastSegment_append group h
    rw [hlast] at hwhole
    exact List.append_cancel_right (hwhole.trans (by simp))
  unfold parentPath
  rw [if_pos (by simp), hcut, List.dropLast_concat]

/-- Joined plain names neither start nor end with a slash. -/
theorem join_ends {names : List VarName} (h : PlainNames names) :
    (['/'].intercalate names).head? ≠ some '/' ∧ (['/'].intercalate names).getLast? ≠ some '/' := by
  have hmem {name : VarName} (hplain : name ≠ [] ∧ '/' ∉ name) :
      name.head? ≠ some '/' ∧ name.getLast? ≠ some '/' :=
    ⟨fun hhead => hplain.2 (List.mem_of_head? hhead),
      fun hlast => hplain.2 (List.mem_of_getLast? hlast)⟩
  induction names with
  | nil => simp
  | cons name names ih =>
    obtain ⟨hname, hnames⟩ := List.forall_mem_cons.1 h
    cases names with
    | nil => simpa using hmem hname
    | cons name' names =>
      obtain ⟨-, hlast⟩ := ih hnames
      obtain ⟨hhead, -⟩ := hmem hname
      have hne : ['/'].intercalate (name' :: names) ≠ [] := by
        intro hnil
        have hsplit := List.splitOn_intercalate '/' (fun s hs => (hnames s hs).2)
          (List.cons_ne_nil name' names)
        rw [hnil] at hsplit
        exact (hnames name' List.mem_cons_self).1 (List.cons.inj hsplit).1.symm
      rw [List.intercalate_cons_cons, List.append_assoc, List.head?_append_of_ne_nil _ hname.1,
        List.singleton_append, List.getLast?_append_of_ne_nil _ (List.cons_ne_nil _ _),
        List.getLast?_cons_of_ne_nil hne]
      exact ⟨hhead, hlast⟩

/-- The groups of a path with plain names. -/
theorem segments_pathOf {groups : List VarName} {name : VarName}
    (h : PlainNames (groups ++ [name])) :
    (((stripSlashes (pathOf (groups ++ [name]))).rdropWhile (· = '/')).splitOn '/').dropLast =
      groups := by
  have hne : groups ++ [name] ≠ [] := by simp
  obtain ⟨hhead, hlast⟩ := join_ends h
  have hstrip : stripSlashes ('/' :: ['/'].intercalate (groups ++ [name])) =
      ['/'].intercalate (groups ++ [name]) := by
    have hcons : stripSlashes ('/' :: ['/'].intercalate (groups ++ [name])) =
        stripSlashes (['/'].intercalate (groups ++ [name])) := List.dropWhile_cons_of_pos rfl
    rw [hcons, stripSlashes_of_head hhead]
  rw [pathOf_eq_join hne, hstrip, rdropWhile_of_last hlast,
    List.splitOn_intercalate '/' (fun s hs => (h s hs).2) hne, List.dropLast_concat]

/-! ### Coordinates in a group -/

section coordinates

variable (fold : Lowering) (tree : DmrTree)

/-- The path is that of a variable directly in the group, with one of these names or this standard
name. -/
def CoordinateIn (leafNames : List VarName) (standardName : List Char) (group : List VarName)
    (path : VarName) : Prop :=
  ∃ v ∈ tree.vars, v.path = path ∧ ∃ name, '/' ∉ name ∧ path = pathOf (group ++ [name]) ∧
    (fold.lower name ∈ leafNames ∨ fold.lower (v.standardName.getD []) = standardName)

/-- A latitude directly in a group. -/
def LatitudeIn : List VarName → VarName → Prop :=
  CoordinateIn fold tree ["lat".toList, "latitude".toList, "y".toList] "latitude".toList

/-- A longitude directly in a group. -/
def LongitudeIn : List VarName → VarName → Prop :=
  CoordinateIn fold tree ["lon".toList, "longitude".toList, "x".toList] "longitude".toList

/-- A group directly contains a latitude and a longitude. -/
def HasBoth (group : List VarName) : Prop :=
  (∃ lat, LatitudeIn fold tree group lat) ∧ ∃ lon, LongitudeIn fold tree group lon

/-- The variables of a tree are at paths of plain names. -/
def PlainTree : Prop :=
  ∀ v ∈ tree.vars, ∃ groups name, PlainNames (groups ++ [name]) ∧ v.path = pathOf (groups ++ [name])

variable {fold tree} {leafNames : List VarName} {standardName : List Char} {group : List VarName}

theorem plainTree_parseDmr {root : Element} (h : PlainDocument root) : PlainTree (parseDmr root) := by
  intro v hv
  obtain ⟨groups, name, hdeclared, hpath⟩ := DmrTree.mem_paths_parseDmr.1 (List.mem_map_of_mem hv)
  exact ⟨groups, name, h groups name hdeclared, hpath⟩

/-- What the search of one group tests is that a variable is directly in it. -/
theorem test_iff (htree : PlainTree tree) (hgroup : ∀ s ∈ group, '/' ∉ s) {v : DmrVariable}
    (hv : v ∈ tree.vars) :
    (parentPath v.path = pathOf group ∧
        (fold.leaf v.path ∈ leafNames ∨ fold.lower (v.standardName.getD []) = standardName)) ↔
      ∃ name, '/' ∉ name ∧ v.path = pathOf (group ++ [name]) ∧
        (fold.lower name ∈ leafNames ∨ fold.lower (v.standardName.getD []) = standardName) := by
  have hleaf {groups : List VarName} {name : VarName} (h : '/' ∉ name) :
      fold.leaf (pathOf (groups ++ [name])) = fold.lower name := by
    rw [pathOf_concat, Lowering.leaf, lastSegment_append _ h]
  constructor
  · rintro ⟨hparent, hname⟩
    obtain ⟨groups, name, hplain, hpath⟩ := htree v hv
    have hslash : '/' ∉ name := (hplain name (by simp)).2
    have hsame : groups = group := by
      apply pathOf_injective (fun s hs => (hplain s (List.mem_append_left _ hs)).2) hgroup
      rw [← hparent, hpath, pathOf_concat, parentPath_concat _ hslash]
    subst hsame
    refine ⟨name, hslash, hpath, ?_⟩
    rwa [hpath, hleaf hslash] at hname
  · rintro ⟨name, hslash, hpath, hname⟩
    rw [hpath, hleaf hslash, pathOf_concat, parentPath_concat _ hslash]
    exact ⟨rfl, hname⟩

/-- A search of a group finds a coordinate that is directly in it. -/
theorem coordinateIn_of_directChildCoord (htree : PlainTree tree) (hgroup : ∀ s ∈ group, '/' ∉ s)
    {path : VarName}
    (h : directChildCoord fold tree (pathOf group) leafNames standardName = some path) :
    CoordinateIn fold tree leafNames standardName group path := by
  obtain ⟨v, hfind, rfl⟩ := Option.map_eq_some_iff.1 h
  have hv := List.mem_of_find?_eq_some hfind
  have hdecide := List.find?_some hfind
  have htest := of_decide_eq_true hdecide
  exact ⟨v, hv, rfl, (test_iff htree hgroup hv).1 htest⟩

/-- A search of a group finds a coordinate if there is one. -/
theorem directChildCoord_ne_none (htree : PlainTree tree) (hgroup : ∀ s ∈ group, '/' ∉ s)
    {path : VarName} (h : CoordinateIn fold tree leafNames standardName group path) :
    directChildCoord fold tree (pathOf group) leafNames standardName ≠ none := by
  obtain ⟨v, hv, rfl, hname⟩ := h
  have htest := (test_iff htree hgroup hv).2 hname
  unfold directChildCoord
  rw [Ne, Option.map_eq_none_iff, List.find?_eq_none]
  intro hnone
  exact hnone v hv (decide_eq_true htest)

/-- A latitude and a longitude of one group. -/
def coordinatePair (fold : Lowering) (tree : DmrTree) (group : VarName) :
    Option (VarName × VarName) := do
  let lat ← directChildCoord fold tree group
    ["lat".toList, "latitude".toList, "y".toList] "latitude".toList
  let lon ← directChildCoord fold tree group
    ["lon".toList, "longitude".toList, "x".toList] "longitude".toList
  pure (lat, lon)

theorem coordinatePair_eq_some {group lat lon : VarName}
    (h : coordinatePair fold tree group = some (lat, lon)) :
    directChildCoord fold tree group
        ["lat".toList, "latitude".toList, "y".toList] "latitude".toList = some lat ∧
      directChildCoord fold tree group
        ["lon".toList, "longitude".toList, "x".toList] "longitude".toList = some lon := by
  obtain ⟨lat', hlat, hrest⟩ := Option.bind_eq_some_iff.1 h
  obtain ⟨lon', hlon, hpair⟩ := Option.bind_eq_some_iff.1 hrest
  obtain ⟨rfl, rfl⟩ := Prod.mk.inj (Option.some.inj hpair)
  exact ⟨hlat, hlon⟩

theorem coordinatePair_ne_none (htree : PlainTree tree) (hgroup : ∀ s ∈ group, '/' ∉ s)
    (h : HasBoth fold tree group) : coordinatePair fold tree (pathOf group) ≠ none := by
  obtain ⟨⟨lat, hlat⟩, lon, hlon⟩ := h
  obtain ⟨lat', hlat'⟩ := Option.ne_none_iff_exists'.1 (directChildCoord_ne_none htree hgroup hlat)
  obtain ⟨lon', hlon'⟩ := Option.ne_none_iff_exists'.1 (directChildCoord_ne_none htree hgroup hlon)
  intro hnone
  rw [coordinatePair, hlat', hlon'] at hnone
  cases hnone

/-- The groups of a path are searched from its own to the root. -/
theorem groupGeolocation_eq {groups : List VarName} {name : VarName}
    (hplain : PlainNames (groups ++ [name])) (hmem : pathOf (groups ++ [name]) ∈ tree.paths) :
    groupGeolocation fold tree (pathOf (groups ++ [name])) =
      (List.range (groups.length + 1)).reverse.findSome? fun depth =>
        coordinatePair fold tree (pathOf (groups.take depth)) := by
  unfold groupGeolocation
  rw [if_neg (not_not_intro hmem), segments_pathOf hplain]
  rfl

/-- A pair is found in the deepest group that has one. -/
theorem groupGeolocation_some (htree : PlainTree tree) {groups : List VarName} {name : VarName}
    (hplain : PlainNames (groups ++ [name])) (hmem : pathOf (groups ++ [name]) ∈ tree.paths)
    {lat lon : VarName}
    (h : groupGeolocation fold tree (pathOf (groups ++ [name])) = some (lat, lon)) :
    ∃ group, group <+: groups ∧ LatitudeIn fold tree group lat ∧ LongitudeIn fold tree group lon ∧
      ∀ group', group' <+: groups → HasBoth fold tree group' → group'.length ≤ group.length := by
  have hslash {group : List VarName} (habove : group <+: groups) : ∀ s ∈ group, '/' ∉ s :=
    fun s hs => (hplain s (List.mem_append_left _ (habove.subset hs))).2
  rw [groupGeolocation_eq hplain hmem, Lists.findSome?_countdown] at h
  obtain ⟨depth, hdepth, hpair, hmax⟩ := h
  obtain ⟨hlat, hlon⟩ := coordinatePair_eq_some hpair
  have htake := hslash (List.take_prefix depth groups)
  refine ⟨groups.take depth, List.take_prefix _ _, coordinateIn_of_directChildCoord htree htake hlat,
    coordinateIn_of_directChildCoord htree htake hlon, ?_⟩
  intro group' habove hboth
  rw [List.length_take, min_eq_left hdepth]
  by_contra hlt
  have hnone := hmax group'.length (by omega) habove.length_le
  rw [← List.prefix_iff_eq_take.1 habove] at hnone
  exact coordinatePair_ne_none htree (hslash habove) hboth hnone

/-- A pair is found if a group on the way to the root has one. -/
theorem groupGeolocation_isSome (htree : PlainTree tree) {groups : List VarName} {name : VarName}
    (hplain : PlainNames (groups ++ [name])) (hmem : pathOf (groups ++ [name]) ∈ tree.paths)
    (habove : group <+: groups) (h : HasBoth fold tree group) :
    (groupGeolocation fold tree (pathOf (groups ++ [name]))).isSome := by
  have hslash : ∀ s ∈ group, '/' ∉ s :=
    fun s hs => (hplain s (List.mem_append_left _ (habove.subset hs))).2
  rw [groupGeolocation_eq hplain hmem, List.findSome?_isSome_iff]
  refine ⟨group.length, ?_, ?_⟩
  · rw [List.mem_reverse, List.mem_range]
    have hle := habove.length_le
    omega
  · rw [← List.prefix_iff_eq_take.1 habove, Option.isSome_iff_ne_none]
    exact coordinatePair_ne_none htree hslash h

end coordinates

/-! ### Every document -/

/-- What is found for a path with these groups. -/
structure Nearest (fold : Lowering) (tree : DmrTree) (groups : List VarName)
    (found : Option (VarName × VarName)) : Prop where
  found_iff : found.isSome ↔ ∃ group, group <+: groups ∧ HasBoth fold tree group
  deepest : ∀ lat lon, found = some (lat, lon) → ∃ group, group <+: groups ∧
    LatitudeIn fold tree group lat ∧ LongitudeIn fold tree group lon ∧
    ∀ group', group' <+: groups → HasBoth fold tree group' → group'.length ≤ group.length

/-- **A variable is located by the nearest group that can locate it.** -/
theorem groupGeolocation_nearest (fold : Lowering) (root : Element) (hplain : PlainDocument root)
    (varPath : VarName) :
    let tree := parseDmr root
    (varPath ∉ tree.paths → groupGeolocation fold tree varPath = none) ∧
      (varPath ∈ tree.paths → ∃ groups name, DeclaredAmong root.children groups name ∧
        varPath = pathOf (groups ++ [name]) ∧
        Nearest fold tree groups (groupGeolocation fold tree varPath)) ∧
      ∀ lat lon, groupGeolocation fold tree varPath = some (lat, lon) →
        lat ∈ tree.paths ∧ lon ∈ tree.paths := by
  intro tree
  have htree : PlainTree tree := plainTree_parseDmr hplain
  have hunknown (h : varPath ∉ tree.paths) : groupGeolocation fold tree varPath = none := if_pos h
  refine ⟨hunknown, ?_, ?_⟩
  · intro hmem
    obtain ⟨groups, name, hdeclared, rfl⟩ := DmrTree.mem_paths_parseDmr.1 hmem
    have hnames := hplain groups name hdeclared
    refine ⟨groups, name, hdeclared, rfl, ?_, ?_⟩
    · constructor
      · intro hsome
        obtain ⟨⟨lat, lon⟩, hfound⟩ := Option.isSome_iff_exists.1 hsome
        obtain ⟨group, habove, hlat, hlon, -⟩ := groupGeolocation_some htree hnames hmem hfound
        exact ⟨group, habove, ⟨lat, hlat⟩, lon, hlon⟩
      · rintro ⟨group, habove, hboth⟩
        exact groupGeolocation_isSome htree hnames hmem habove hboth
    · intro lat lon hfound
      exact groupGeolocation_some htree hnames hmem hfound
  · intro lat lon hfound
    by_cases hmem : varPath ∈ tree.paths
    · obtain ⟨groups, name, hdeclared, rfl⟩ := DmrTree.mem_paths_parseDmr.1 hmem
      obtain ⟨group, -, ⟨v, hv, rfl, -⟩, ⟨v', hv', rfl, -⟩, -⟩ :=
        groupGeolocation_some htree (hplain groups name hdeclared) hmem hfound
      exact ⟨List.mem_map_of_mem hv, List.mem_map_of_mem hv'⟩
    · rw [hunknown hmem] at hfound
      cases hfound

/-- A granule with coordinates at its root and, in one group, of its own; the group below it has
none. -/
def beamDocument : Element :=
  .mk "Dataset".toList (some "ATL08".toList) none
    [.mk "Float32".toList (some "lat".toList) none [], .mk "Float32".toList (some "lon".toList) none [],
      .mk "Group".toList (some "gt1l".toList) none
        [.mk "Float64".toList (some "latitude".toList) none [],
          .mk "Float64".toList (some "longitude".toList) none [],
          .mk "Group".toList (some "canopy".toList) none
            [.mk "Float32".toList (some "h".toList) none []]]]

/-- An element that is no group is at most a variable. -/
theorem eq_of_hasVariable {tag : List Char} {named : VarName} {children : List Element}
    {groups : List VarName} {name : VarName}
    (htag : (Element.mk tag none none []).localTag ≠ "Group".toList)
    (h : HasVariable (.mk tag (some named) none children) groups name) :
    groups = [] ∧ name = named := by
  rcases hasVariable_iff.1 h with ⟨hnil, hname, -⟩ | ⟨hgroup, -⟩
  · exact ⟨hnil, hname⟩
  · exact absurd hgroup htag

theorem plainDocument_beamDocument : PlainDocument beamDocument := by
  rintro groups name ⟨child, hmem, h⟩
  unfold PlainNames
  simp only [beamDocument, Element.children, List.mem_cons, List.not_mem_nil, or_false] at hmem
  rcases hmem with rfl | rfl | rfl
  · obtain ⟨rfl, rfl⟩ := eq_of_hasVariable (by decide) h
    decide
  · obtain ⟨rfl, rfl⟩ := eq_of_hasVariable (by decide) h
    decide
  -- the variables of the group
  · rcases hasVariable_iff.1 h with ⟨-, -, hne, -⟩ | ⟨-, inner, rfl, child, hmem, h⟩
    · exact absurd rfl hne
    · simp only [List.mem_cons, List.not_mem_nil, or_false] at hmem
      rcases hmem with rfl | rfl | rfl
      · obtain ⟨rfl, rfl⟩ := eq_of_hasVariable (by decide) h
        decide
      · obtain ⟨rfl, rfl⟩ := eq_of_hasVariable (by decide) h
        decide
      · rcases hasVariable_iff.1 h with ⟨-, -, hne, -⟩ | ⟨-, inner, rfl, child, hmem, h⟩
        · exact absurd rfl hne
        · obtain rfl := List.mem_singleton.1 hmem
          obtain ⟨rfl, rfl⟩ := eq_of_hasVariable (by decide) h
          decide

theorem groupGeolocation_nearest_beam :
    Nearest .ascii (parseDmr beamDocument) ["gt1l".toList, "canopy".toList]
        (some ("/gt1l/latitude".toList, "/gt1l/longitude".toList)) := by
  have hmem : "/gt1l/canopy/h".toList ∈ (parseDmr beamDocument).paths := by decide +kernel
  have hfound : groupGeolocation .ascii (parseDmr beamDocument) "/gt1l/canopy/h".toList =
      some ("/gt1l/latitude".toList, "/gt1l/longitude".toList) := by decide +kernel
  obtain ⟨groups, name, hdeclared, hpath, hnearest⟩ :=
    (groupGeolocation_nearest .ascii beamDocument plainDocument_beamDocument
      "/gt1l/canopy/h".toList).2.1 hmem
  have hsegments : groups ++ [name] = ["gt1l".toList, "canopy".toList] ++ ["h".toList] := by
    apply pathOf_injective _ _ hpath.symm
    · exact fun s hs => (plainDocument_beamDocument groups name hdeclared s hs).2
    · decide +kernel
  obtain ⟨rfl, -⟩ := List.append_inj' hsegments rfl
  rwa [hfound] at hnearest

end EarthdataMcp
