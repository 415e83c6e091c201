import Mathlib.Data.List.Lex
import Mathlib.Data.Char
import EarthdataMcp.Providers.Opendap.Catalog

/-!
# The structure of a granule

The variables of a granule as its DMR lists them, and what planning asks of them: the paths behind
a requested name and the coordinates next to a variable.

* `Element`, the document, and `DmrTree`, every variable by its full path;
* `parseDmr`;
* `groupGeolocation` and `resolveVariables`;
* `DmrTree.resolve_of_mem`: a path of the tree resolves to itself.
-/

namespace EarthdataMcp

open Text

/-! ### Documents -/

/-- An element of a document, with its `name` attribute, its text and its children. -/
inductive Element
  | mk (tag : List Char) (name : Option VarName) (text : Option (List Char))
      (children : List Element)

namespace Element

/-- The tag without its namespace. -/
def localTag : Element → List Char
  | .mk tag _ _ _ => tag.rtakeWhile (· ≠ '}')

def name : Element → Option VarName
  | .mk _ name _ _ => name

def text : Element → Option (List Char)
  | .mk _ _ text _ => text

def children : Element → List Element
  | .mk _ _ _ children => children

/-- `_dim_paths`, of the children of a variable. -/
def dimPaths (children : List Element) : List VarName :=
  (children.filter fun d => d.localTag = "Dim".toList).filterMap name

/-- `_standard_name`, of the children of a variable. -/
def standardName (children : List Element) : Option (List Char) :=
  children.findSome? fun attr =>
    if attr.localTag = "Attribute".toList ∧ attr.name = some "standard_name".toList then
      ((attr.children.find? fun v => v.localTag = "Value".toList).bind text).filter (· ≠ [])
    else none

end Element

/-! ### Trees -/

/-- A variable of a granule. -/
structure DmrVariable where
  path : VarName
  dimPaths : List VarName := []
  standardName : Option (List Char) := none
  deriving DecidableEq

/-- The path of a group below the root, or of a variable. -/
def pathOf (segments : List VarName) : VarName := segments.flatMap ('/' :: ·)

theorem head?_pathOf_concat (groups : List VarName) (name : VarName) :
    (pathOf (groups ++ [name])).head? = some '/' := by
  cases groups <;> rfl

/-- The variables of a granule, each at an absolute path of its own. -/
structure DmrTree where
  vars : List DmrVariable
  absolute : ∀ v ∈ vars, v.path.head? = some '/'
  distinct : (vars.map DmrVariable.path).Nodup

namespace DmrTree

def empty : DmrTree := ⟨[], by simp, List.nodup_nil⟩

def paths (tree : DmrTree) : List VarName := tree.vars.map DmrVariable.path

theorem head?_of_mem {tree : DmrTree} {path : VarName} (h : path ∈ tree.paths) :
    path.head? = some '/' := by
  obtain ⟨v, hv, rfl⟩ := List.mem_map.1 h
  exact tree.absolute v hv

/-- Enter a variable; one that is already at its path gives way, and the order stays. -/
def put (tree : DmrTree) (var : DmrVariable) (habsolute : var.path.head? = some '/') : DmrTree :=
  if hmem : var.path ∈ tree.paths then
    { vars := tree.vars.map fun v => if v.path = var.path then var else v
      absolute := by
        intro v hv
        obtain ⟨u, hu, rfl⟩ := List.mem_map.1 hv
        split_ifs
        · exact habsolute
        · exact tree.absolute u hu
      distinct := by
        have hsame (v : DmrVariable) : (if v.path = var.path then var else v).path = v.path := by
          split_ifs with h
          · exact h.symm
          · rfl
        rw [List.map_map]
        simp only [Function.comp_def, hsame]
        exact tree.distinct }
  else
    { vars := tree.vars ++ [var]
      absolute := by
        intro v hv
        rcases List.mem_append.1 hv with hv | hv
        · exact tree.absolute v hv
        · exact List.mem_singleton.1 hv ▸ habsolute
      distinct := by
        rw [List.map_append, List.map_singleton]
        exact List.nodup_append_comm.1 (List.nodup_cons.2 ⟨hmem, tree.distinct⟩) }

mutual

/-- What `_walk` does with one child: a group is entered, and any other named element that is no
dimension and no attribute is a variable. -/
def visit (groups : List VarName) (tree : DmrTree) : Element → DmrTree
  | .mk _ none _ _ => tree
  | .mk tag (some name) text children =>
      let localTag := (Element.mk tag name text children).localTag
      if localTag = "Group".toList then walk (groups ++ [name]) tree children
      else if localTag ∈ ["Dimension".toList, "Attribute".toList] then tree
      else
        tree.put ⟨pathOf (groups ++ [name]), Element.dimPaths children,
          Element.standardName children⟩ (head?_pathOf_concat groups name)

/-- `_walk`. -/
def walk (groups : List VarName) (tree : DmrTree) : List Element → DmrTree
  | [] => tree
  | child :: children => walk groups (visit groups tree child) children

end

end DmrTree

/-- `parse_dmr`, of the root element. -/
def parseDmr (root : Element) : DmrTree := DmrTree.walk [] .empty root.children

/-! ### Geolocation -/

/-- What stands before the last slash. -/
def parentPath (path : VarName) : VarName :=
  if '/' ∈ path then (path.rdropWhile (· ≠ '/')).dropLast else path

section lookups

variable (fold : Lowering) (tree : DmrTree)

/-- `_direct_child_coord`. -/
def directChildCoord (group : VarName) (leafNames : List VarName) (standardName : List Char) :
    Option VarName :=
  (tree.vars.find? fun v => parentPath v.path = group ∧
    (fold.leaf v.path ∈ leafNames ∨ fold.lower (v.standardName.getD []) = standardName)).map
      DmrVariable.path

/-- The latitude and the longitude of the nearest group, from the variable's own to the root, that
has both. -/
def groupGeolocation (varPath : VarName) : Option (VarName × VarName) :=
  if varPath ∉ tree.paths then none
  else
    let segments := (((stripSlashes varPath).rdropWhile (· = '/')).splitOn '/').dropLast
    (List.range (segments.length + 1)).reverse.findSome? fun depth => do
      let group := pathOf (segments.take depth)
      let lat ← directChildCoord fold tree group
        ["lat".toList, "latitude".toList, "y".toList] "latitude".toList
      let lon ← directChildCoord fold tree group
        ["lon".toList, "longitude".toList, "x".toList] "longitude".toList
      pure (lat, lon)

/-! ### Names -/

/-- The paths of a tree in the order of their characters. -/
def DmrTree.sortedPaths : List VarName := tree.paths.insertionSort (· ≤ ·)

/-- The paths behind one requested name: itself if it is a path, else every path with this leaf. -/
def DmrTree.resolve (userVar : VarName) : Except PlanningError (List VarName) :=
  if '/' ∈ userVar then
    if fqn userVar ∈ tree.paths then .ok [fqn userVar] else .error (.notInGranule userVar)
  else
    match tree.sortedPaths.filter fun p => fold.leaf p = fold.lower userVar with
    | [] => .error (.notInGranule userVar)
    | paths => .ok paths

/-- `resolve_variables`: the paths, and the names that were expanded to several. -/
def resolveVariables (variableNames : List VarName) :
    Except PlanningError (List VarName × List (VarName × List VarName)) := do
  let resolved ← variableNames.mapM (tree.resolve fold)
  pure (resolved.flatten, ((variableNames.zip resolved).filter fun e => 1 < e.2.length).dedup)

/-- The path a name of the catalog has in the granule, if it is the only one with its leaf. -/
def DmrTree.reconcile (var : VarName) : VarName :=
  if fqn var ∈ tree.paths then var
  else
    match tree.paths.filter fun p => fold.leaf p = fold.leaf var with
    | [path] => path
    | _ => var

variable {fold tree}

/-- What a name resolves to are paths of the tree. -/
theorem DmrTree.mem_of_resolve {userVar path : VarName} {found : List VarName}
    (h : tree.resolve fold userVar = .ok found) (hpath : path ∈ found) : path ∈ tree.paths := by
  unfold resolve at h
  split_ifs at h with hslash hmem
  · obtain rfl := Except.ok.inj h
    exact List.mem_singleton.1 hpath ▸ hmem
  · split at h
    · cases h
    · obtain rfl := Except.ok.inj h
      exact (List.mem_insertionSort _).1 (List.mem_of_mem_filter hpath)

/-- A path of the tree resolves to itself. -/
theorem DmrTree.resolve_of_mem {path : VarName} (h : path ∈ tree.paths) :
    tree.resolve fold path = .ok [path] := by
  have hhead := head?_of_mem h
  unfold resolve
  rw [if_pos (List.mem_of_head? hhead), fqn_of_head hhead, if_pos h]

theorem DmrTree.reconcile_of_mem {var : VarName} (h : fqn var ∈ tree.paths) :
    tree.reconcile fold var = var := if_pos h

/-- A name is reconciled with a path of the tree or stays what it is. -/
theorem DmrTree.reconcile_cases (fold : Lowering) (tree : DmrTree) (var : VarName) :
    tree.reconcile fold var = var ∨ tree.reconcile fold var ∈ tree.paths := by
  unfold reconcile
  split_ifs
  · exact Or.inl rfl
  · split
    · rename_i path hfilter
      right
      have hmem : path ∈ tree.paths.filter fun p => fold.leaf p = fold.leaf var := by
        rw [hfilter]
        exact List.mem_cons_self
      exact List.mem_of_mem_filter hmem
    · exact Or.inl rfl

/-- To reconcile twice is to reconcile once. -/
theorem DmrTree.reconcile_reconcile (fold : Lowering) (tree : DmrTree) (var : VarName) :
    tree.reconcile fold (tree.reconcile fold var) = tree.reconcile fold var := by
  rcases reconcile_cases fold tree var with heq | hmem
  · rw [heq, heq]
  · apply reconcile_of_mem
    rw [fqn_of_head (head?_of_mem hmem)]
    exact hmem

end lookups

end EarthdataMcp
