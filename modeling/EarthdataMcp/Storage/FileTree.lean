import Mathlib.Data.List.AList
import Mathlib.Tactic

/-!
# File trees

The directories and files of a file system without links, with the calls that make directories and
write, read and unlink files.  A path is its names from the innermost out, so that the parent of
`name :: path` is `path` and the paths above a path are its suffixes.

* `Tree`, in which whatever has a name lies in a directory;
* `mkdir`, `mkdirs`, `write`, `unlink` and `read`, with the error each may raise;
* one rule for each, that says what stands at every path afterwards.
-/

namespace FileTree

variable {Name Data : Type*}

/-- What stands at a path. -/
inductive Node (Data : Type*)
  | dir
  | file (data : Data)

/-- The bytes of a file. -/
def Node.data? : Node Data → Option Data
  | dir => none
  | file data => some data

/-- The errors of the calls. -/
inductive OSError
  | fileNotFound
  | fileExists
  | notADirectory
  | isADirectory
  | sameFile
  deriving DecidableEq, Repr

variable [DecidableEq Name]

/-- What stands at a path among the named nodes; the top is a directory. -/
def nodeAt (nodes : AList fun _ : List Name => Node Data) : List Name → Option (Node Data)
  | [] => some .dir
  | name :: path => nodes.lookup (name :: path)

/-- A file system. -/
structure Tree (Name Data : Type*) [DecidableEq Name] where
  nodes : AList fun _ : List Name => Node Data
  rooted : ∀ name path, (nodeAt nodes (name :: path)).isSome → nodeAt nodes path = some .dir

namespace Tree

/-- The top alone. -/
def empty : Tree Name Data where
  nodes := ∅
  rooted := by
    intro name path h
    rw [nodeAt, AList.lookup_empty] at h
    cases h

/-- What stands at a path. -/
def node (t : Tree Name Data) (path : List Name) : Option (Node Data) := nodeAt t.nodes path

/-- The path leads to a directory. -/
def isDir (t : Tree Name Data) (path : List Name) : Bool :=
  match t.node path with
  | some .dir => true
  | _ => false

/-- The bytes of the file at a path. -/
def data? (t : Tree Name Data) (path : List Name) : Option Data := (t.node path).bind Node.data?

/-- The path leads to a file. -/
def isFile (t : Tree Name Data) (path : List Name) : Bool := (t.data? path).isSome

variable {t t' : Tree Name Data} {name : Name} {path q : List Name}

@[simp] theorem node_nil : t.node [] = some .dir := rfl

@[simp] theorem node_empty (name : Name) (path : List Name) :
    (empty : Tree Name Data).node (name :: path) = none := by
  rw [node, nodeAt, empty, AList.lookup_empty]

theorem isDir_iff : t.isDir path = true ↔ t.node path = some .dir := by
  unfold isDir
  split
  · rename_i h
    exact ⟨fun _ => h, fun _ => rfl⟩
  · rename_i h
    exact ⟨fun hf => absurd hf (by simp), fun hd => absurd hd h⟩

theorem Node.data?_eq_some_iff {n : Node Data} {d : Data} : n.data? = some d ↔ n = .file d := by
  cases n <;> simp [Node.data?]

theorem data?_eq_some_iff {d : Data} : t.data? path = some d ↔ t.node path = some (.file d) := by
  simp only [data?, Option.bind_eq_some_iff, Node.data?_eq_some_iff, exists_eq_right]

theorem isFile_iff : t.isFile path = true ↔ ∃ d, t.node path = some (.file d) := by
  unfold isFile
  rw [Option.isSome_iff_exists]
  exact exists_congr fun d => data?_eq_some_iff

theorem not_isDir_of_none (h : t.node path = none) : ¬ t.isDir path = true := by
  rw [isDir_iff, h]
  exact fun hf => by cases hf

/-- A path is missing, a directory or a file. -/
theorem node_cases (t : Tree Name Data) (path : List Name) :
    t.node path = none ∨ t.node path = some .dir ∨ ∃ d, t.node path = some (.file d) := by
  cases h : t.node path with
  | none => exact Or.inl rfl
  | some n =>
    cases n with
    | dir => exact Or.inr (Or.inl rfl)
    | file d => exact Or.inr (Or.inr ⟨d, rfl⟩)

/-- What is above a node is a directory. -/
theorem isDir_of_suffix (h : t.node path ≠ none) (hq : q <:+ path) (hne : q ≠ path) :
    t.node q = some .dir := by
  induction path with
  | nil => exact absurd (List.suffix_nil.1 hq) hne
  | cons name path ih =>
    have hdir : t.node path = some .dir := t.rooted name path (Option.isSome_iff_ne_none.2 h)
    rcases List.suffix_cons_iff.1 hq with rfl | hq
    · exact absurd rfl hne
    · by_cases heq : q = path
      · rw [heq]
        exact hdir
      · exact ih (by rw [hdir]; simp) hq heq

/-! ### Changes -/

/-- Put a node in a directory, where nothing stands below it. -/
def set (t : Tree Name Data) (name : Name) (path : List Name) (n : Node Data)
    (hdir : t.isDir path = true) (hleaf : ¬ t.isDir (name :: path) = true) : Tree Name Data where
  nodes := t.nodes.insert (name :: path) n
  rooted := by
    have hnode : ∀ q, q ≠ name :: path →
        nodeAt (t.nodes.insert (name :: path) n) q = nodeAt t.nodes q := by
      intro q hq
      cases q with
      | nil => rfl
      | cons m q => exact AList.lookup_insert_ne hq
    intro m q hsome
    by_cases hpath : q = name :: path
    · -- nothing stands below a new node
      subst hpath
      rw [hnode _ (List.cons_ne_self m _)] at hsome
      exact absurd (isDir_iff.2 (t.rooted m _ hsome)) hleaf
    · rw [hnode q hpath]
      by_cases hself : m :: q = name :: path
      · obtain ⟨rfl, rfl⟩ := List.cons_eq_cons.1 hself
        exact isDir_iff.1 hdir
      · rw [hnode _ hself] at hsome
        exact t.rooted m q hsome

theorem node_set {n : Node Data} {hdir : t.isDir path = true}
    {hleaf : ¬ t.isDir (name :: path) = true} (q : List Name) :
    (t.set name path n hdir hleaf).node q = if q = name :: path then some n else t.node q := by
  cases q with
  | nil => rfl
  | cons m q =>
    split_ifs with h
    · rw [h]
      exact AList.lookup_insert _
    · exact AList.lookup_insert_ne h

/-- Take a file away. -/
def erase (t : Tree Name Data) (name : Name) (path : List Name)
    (hfile : t.isFile (name :: path) = true) : Tree Name Data where
  nodes := t.nodes.erase (name :: path)
  rooted := by
    have hnode : ∀ q, q ≠ name :: path → nodeAt (t.nodes.erase (name :: path)) q = t.node q := by
      intro q hq
      cases q with
      | nil => rfl
      | cons m q => exact AList.lookup_erase_ne hq
    intro m q hsome
    have hself : m :: q ≠ name :: path := by
      intro h
      rw [h] at hsome
      exact absurd (AList.lookup_erase (name :: path) t.nodes) (Option.isSome_iff_ne_none.1 hsome)
    rw [hnode _ hself] at hsome
    have hdir : t.node q = some .dir := t.rooted m q hsome
    by_cases hpath : q = name :: path
    · obtain ⟨d, hd⟩ := isFile_iff.1 hfile
      rw [hpath, hd] at hdir
      cases hdir
    · rw [hnode q hpath]
      exact hdir

theorem node_erase {hfile : t.isFile (name :: path) = true} (q : List Name) :
    (t.erase name path hfile).node q = if q = name :: path then none else t.node q := by
  cases q with
  | nil => rfl
  | cons m q =>
    split_ifs with h
    · rw [h]
      exact AList.lookup_erase _ _
    · exact AList.lookup_erase_ne h

/-! ### Calls -/

/-- The way to a path leads through a file. -/
def blocked (t : Tree Name Data) : List Name → Bool
  | [] => false
  | _ :: path => t.isFile path || t.blocked path

/-- Why a path is not found. -/
def missing (t : Tree Name Data) (path : List Name) : OSError :=
  if t.blocked path then .notADirectory else .fileNotFound

/-- Make one directory. -/
def mkdir (t : Tree Name Data) : List Name → Except OSError Unit × Tree Name Data
  | [] => (.error .fileExists, t)
  | name :: path =>
    if hnone : t.node (name :: path) = none then
      if hdir : t.isDir path = true then
        (.ok (), t.set name path .dir hdir (not_isDir_of_none hnone))
      else (.error (t.missing (name :: path)), t)
    else (.error .fileExists, t)

/-- Make one directory, or find that it is there. -/
def mkdirExistOk (t : Tree Name Data) (path : List Name) : Except OSError Unit × Tree Name Data :=
  match t.mkdir path with
  | (.ok (), t') => (.ok (), t')
  | (.error .fileNotFound, t') => (.error .fileNotFound, t')
  | (.error e, t') => if t'.isDir path then (.ok (), t') else (.error e, t')

/-- Make a directory and what is missing above it. -/
def mkdirs (t : Tree Name Data) : List Name → Except OSError Unit × Tree Name Data
  | [] => t.mkdirExistOk []
  | name :: path =>
    match t.mkdirExistOk (name :: path) with
    | (.error .fileNotFound, t') =>
        match t'.mkdirs path with
        | (.ok (), t'') => t''.mkdirExistOk (name :: path)
        | (.error e, t'') => (.error e, t'')
    | result => result

/-- Write a file whole. -/
def write (t : Tree Name Data) : List Name → Data → Except OSError Unit × Tree Name Data
  | [], _ => (.error .isADirectory, t)
  | name :: path, data =>
    if hleaf : t.isDir (name :: path) = true then (.error .isADirectory, t)
    else if hdir : t.isDir path = true then (.ok (), t.set name path (.file data) hdir hleaf)
    else (.error (t.missing (name :: path)), t)

/-- Take a file away. -/
def unlink (t : Tree Name Data) : List Name → Except OSError Unit × Tree Name Data
  | [] => (.error .isADirectory, t)
  | name :: path =>
    if hfile : t.isFile (name :: path) = true then (.ok (), t.erase name path hfile)
    else if t.isDir (name :: path) then (.error .isADirectory, t)
    else (.error (t.missing (name :: path)), t)

/-- Read a file whole. -/
def read (t : Tree Name Data) (path : List Name) : Except OSError Data :=
  match t.node path with
  | some (.file data) => .ok data
  | some .dir => .error .isADirectory
  | none => .error (t.missing path)

/-! ### What the calls do -/

theorem blocked_iff : t.blocked path = true ↔ ∃ q, q <:+ path ∧ q ≠ path ∧ t.isFile q = true := by
  induction path with
  | nil =>
    refine ⟨fun h => (by cases h), ?_⟩
    rintro ⟨q, hq, hne, -⟩
    exact absurd (List.suffix_nil.1 hq) hne
  | cons name path ih =>
    rw [blocked, Bool.or_eq_true, ih]
    constructor
    · rintro (hfile | ⟨q, hq, -, hfile⟩)
      · exact ⟨path, List.suffix_cons name path, (List.cons_ne_self name path).symm, hfile⟩
      · refine ⟨q, hq.trans (List.suffix_cons name path), ?_, hfile⟩
        rintro rfl
        have hlength := hq.length_le
        simp at hlength
    · rintro ⟨q, hq, hne, hfile⟩
      rcases List.suffix_cons_iff.1 hq with rfl | hq
      · exact absurd rfl hne
      · by_cases heq : q = path
        · exact Or.inl (heq ▸ hfile)
        · exact Or.inr ⟨q, hq, heq, hfile⟩

/-- Nothing is below a file. -/
theorem node_eq_none_of_blocked (h : t.blocked path = true) : t.node path = none := by
  obtain ⟨q, hq, hne, hfile⟩ := blocked_iff.1 h
  obtain ⟨d, hd⟩ := isFile_iff.1 hfile
  by_contra hnode
  rw [isDir_of_suffix hnode hq hne] at hd
  cases hd

theorem mkdir_of_node (h : t.node path ≠ none) : t.mkdir path = (.error .fileExists, t) := by
  cases path with
  | nil => rfl
  | cons name path =>
    rw [mkdir, dif_neg h]

theorem mkdir_of_missing (hnone : t.node (name :: path) = none) (hdir : t.node path ≠ some .dir) :
    t.mkdir (name :: path) = (.error (t.missing (name :: path)), t) := by
  rw [mkdir, dif_pos hnone, dif_neg fun h => hdir (isDir_iff.1 h)]

/-- What is there stays as it is. -/
theorem mkdirExistOk_of_node (h : t.node path ≠ none) :
    t.mkdirExistOk path = (if t.isDir path then .ok () else .error .fileExists, t) := by
  rw [mkdirExistOk, mkdir_of_node h]
  dsimp only
  split_ifs <;> rfl

/-- A directory is made in another. -/
theorem mkdirExistOk_of_dir (hnone : t.node (name :: path) = none) (hdir : t.node path = some .dir) :
    ∃ t', t.mkdirExistOk (name :: path) = (.ok (), t') ∧
      ∀ q, t'.node q = if q = name :: path then some .dir else t.node q := by
  refine ⟨t.set name path .dir (isDir_iff.2 hdir) (not_isDir_of_none hnone), ?_,
    fun q => node_set q⟩
  rw [mkdirExistOk, mkdir, dif_pos hnone, dif_pos (isDir_iff.2 hdir)]

theorem mkdirExistOk_of_missing (hnone : t.node (name :: path) = none)
    (hdir : t.node path ≠ some .dir) :
    t.mkdirExistOk (name :: path) = (.error (t.missing (name :: path)), t) := by
  rw [mkdirExistOk, mkdir_of_missing hnone hdir]
  by_cases hblocked : t.blocked (name :: path) = true
  · rw [missing, if_pos hblocked]
    exact if_neg (not_isDir_of_none hnone)
  · rw [missing, if_neg hblocked]

/-- A directory and all above it are directories already. -/
theorem dirs_of_dir (h : t.node path = some .dir) :
    (∀ q, q <:+ path → ¬ t.isFile q = true) ∧
      ∀ q, t.node q = if q <:+ path then some .dir else t.node q := by
  have habove : ∀ q, q <:+ path → t.node q = some .dir := by
    intro q hq
    by_cases heq : q = path
    · rw [heq, h]
    · exact isDir_of_suffix (by rw [h]; exact fun hf => by cases hf) hq heq
  refine ⟨fun q hq hfile => ?_, fun q => ?_⟩
  · obtain ⟨d, hd⟩ := isFile_iff.1 hfile
    rw [habove q hq] at hd
    cases hd
  · split_ifs with hq
    · exact habove q hq
    · rfl

/-- What making a directory with all above it does: it makes them, or it meets a file. -/
theorem mkdirs_spec (t : Tree Name Data) (path : List Name) :
    (∃ t', t.mkdirs path = (.ok (), t') ∧ (∀ q, q <:+ path → ¬ t.isFile q = true) ∧
      ∀ q, t'.node q = if q <:+ path then some .dir else t.node q) ∨
    (∃ e, t.mkdirs path = (.error e, t) ∧ ∃ q, q <:+ path ∧ t.isFile q = true) := by
  induction path with
  | nil => exact Or.inl ⟨t, rfl, dirs_of_dir rfl⟩
  | cons name path ih =>
    rcases t.node_cases (name :: path) with hnone | hdir | ⟨d, hd⟩
    · have hself : ¬ t.isFile (name :: path) = true := by
        rintro hfile
        obtain ⟨d, hd⟩ := isFile_iff.1 hfile
        rw [hnone] at hd
        cases hd
      have hsuffix : ∀ q, q <:+ name :: path ↔ q = name :: path ∨ q <:+ path :=
        fun q => List.suffix_cons_iff
      by_cases hparent : t.node path = some .dir
      · obtain ⟨t', hmake, hnode⟩ := mkdirExistOk_of_dir hnone hparent
        refine Or.inl ⟨t', by rw [mkdirs, hmake], ?_, fun q => ?_⟩
        · intro q hq
          rcases (hsuffix q).1 hq with rfl | hq
          · exact hself
          · exact (dirs_of_dir hparent).1 q hq
        · rw [hnode q, (dirs_of_dir hparent).2 q]
          simp only [hsuffix q]
          split_ifs <;> simp_all
      · rw [mkdirs, mkdirExistOk_of_missing hnone hparent]
        by_cases hblocked : t.blocked (name :: path) = true
        · -- a file on the way is met before anything is made
          rw [missing, if_pos hblocked]
          obtain ⟨q, hq, -, hfile⟩ := blocked_iff.1 hblocked
          exact Or.inr ⟨_, rfl, q, hq, hfile⟩
        · rw [missing, if_neg hblocked]
          rcases ih with ⟨t', hmake, hfree, hnode⟩ | ⟨e, hmake, q, hq, hfile⟩
          · have hnone' : t'.node (name :: path) = none := by
              rw [hnode, if_neg, hnone]
              intro h
              have hlength := h.length_le
              simp at hlength
            have hparent' : t'.node path = some .dir := by
              rw [hnode, if_pos List.suffix_rfl]
            obtain ⟨t'', hmake', hnode'⟩ := mkdirExistOk_of_dir hnone' hparent'
            refine Or.inl ⟨t'', by simp only [hmake, hmake'], ?_, fun q => ?_⟩
            · intro q hq
              rcases (hsuffix q).1 hq with rfl | hq
              · exact hself
              · exact hfree q hq
            · rw [hnode' q, hnode q]
              simp only [hsuffix q]
              split_ifs <;> simp_all
          · exact Or.inr ⟨e, by simp only [hmake], q, hq.trans (List.suffix_cons name path), hfile⟩
    · have hthere : t.node (name :: path) ≠ none := by
        rw [hdir]
        exact fun h => by cases h
      refine Or.inl ⟨t, ?_, dirs_of_dir hdir⟩
      rw [mkdirs, mkdirExistOk_of_node hthere, if_pos (isDir_iff.2 hdir)]
    · have hthere : t.node (name :: path) ≠ none := by
        rw [hd]
        exact fun h => by cases h
      have hfile : ¬ t.isDir (name :: path) = true := by
        rw [isDir_iff, hd]
        exact fun h => by cases h
      refine Or.inr ⟨.fileExists, ?_, name :: path, List.suffix_rfl, isFile_iff.2 ⟨d, hd⟩⟩
      rw [mkdirs, mkdirExistOk_of_node hthere, if_neg hfile]

/-- A directory is not written over. -/
theorem write_of_dir (h : t.node path = some .dir) (data : Data) :
    t.write path data = (.error .isADirectory, t) := by
  cases path with
  | nil => rfl
  | cons name path => rw [write, dif_pos (isDir_iff.2 h)]

/-- A file is written in its directory. -/
theorem write_of_free (hdir : t.node path = some .dir) (hleaf : t.node (name :: path) ≠ some .dir)
    (data : Data) :
    ∃ t', t.write (name :: path) data = (.ok (), t') ∧
      ∀ q, t'.node q = if q = name :: path then some (.file data) else t.node q := by
  have hfree : ¬ t.isDir (name :: path) = true := fun h => hleaf (isDir_iff.1 h)
  exact ⟨_, by rw [write, dif_neg hfree, dif_pos (isDir_iff.2 hdir)], fun q => node_set q⟩

/-- What an unlink does: it takes the file away, or changes nothing. -/
theorem unlink_spec (t : Tree Name Data) (path : List Name) :
    (∃ t', t.unlink path = (.ok (), t') ∧ t.isFile path = true ∧
      ∀ q, t'.node q = if q = path then none else t.node q) ∨
    (t.unlink path = (.error .isADirectory, t) ∧ t.node path = some .dir) ∨
    (t.unlink path = (.error (t.missing path), t) ∧ t.node path = none) := by
  cases path with
  | nil => exact Or.inr (Or.inl ⟨rfl, rfl⟩)
  | cons name path =>
    by_cases hfile : t.isFile (name :: path) = true
    · exact Or.inl ⟨_, by rw [unlink, dif_pos hfile], hfile, fun q => node_erase q⟩
    · rcases t.node_cases (name :: path) with hnone | hdir | ⟨d, hd⟩
      · refine Or.inr (Or.inr ⟨?_, hnone⟩)
        rw [unlink, dif_neg hfile, if_neg (not_isDir_of_none hnone)]
      · refine Or.inr (Or.inl ⟨?_, hdir⟩)
        rw [unlink, dif_neg hfile, if_pos (isDir_iff.2 hdir)]
      · exact absurd (isFile_iff.2 ⟨d, hd⟩) hfile

theorem read_of_data (d : Data) (h : t.data? path = some d) : t.read path = .ok d := by
  rw [read, data?_eq_some_iff.1 h]

theorem read_of_no_data (h : t.data? path = none) : ∃ e, t.read path = .error e := by
  rcases t.node_cases path with hnone | hdir | ⟨d, hd⟩
  · exact ⟨_, by rw [read, hnone]⟩
  · exact ⟨_, by rw [read, hdir]⟩
  · rw [data?_eq_some_iff.2 hd] at h
    cases h

/-! ### Walks -/

/-- Everything below a path. -/
def walk (t : Tree Name Data) (root : List Name) : List (List Name) :=
  t.nodes.keys.filter fun path => root <:+ path ∧ path ≠ root

theorem mem_walk {root : List Name} :
    path ∈ t.walk root ↔ t.node path ≠ none ∧ root <:+ path ∧ path ≠ root := by
  unfold walk
  rw [List.mem_filter, decide_eq_true_iff, and_congr_left_iff]
  rintro ⟨hroot, hne⟩
  rw [← AList.mem_keys, ← AList.lookup_isSome, Option.isSome_iff_ne_none]
  cases path with
  | nil => exact absurd (List.suffix_nil.1 hroot).symm hne
  | cons name path => exact Iff.rfl

theorem nodup_walk (t : Tree Name Data) (root : List Name) : (t.walk root).Nodup :=
  t.nodes.keys_nodup.filter _

end Tree

end FileTree
