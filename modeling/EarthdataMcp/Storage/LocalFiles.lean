import Mathlib.Data.Char
import Mathlib.Data.List.Lex
import Mathlib.Data.List.Sort
import EarthdataMcp.Storage.FileTree
import EarthdataMcp.Text.Fields
import EarthdataMcp.Text.Percent

/-!
# The local storage backend

`LocalFilesystemBackend`, which keeps objects as files below a root directory.  A file system
without links is meant, on which a call takes place whole.

* `FileName` and `resolve`, how the text of a key becomes a path;
* `exec`, the methods;
* `Shelf`, what the backend is for: nodes by their path below the root, whatever is outside;
* `run_refines`: every run of the backend is a run on the shelf.
-/

namespace EarthdataMcp

open FileTree

/-! ### Keys and paths -/

/-- The text can name a directory entry. -/
def IsFileName (name : List Char) : Prop :=
  name ≠ [] ∧ name ≠ ['.'] ∧ name ≠ ['.', '.'] ∧ '/' ∉ name ∧ '\x00' ∉ name

instance : DecidablePred IsFileName := fun _ => inferInstanceAs (Decidable (_ ∧ _))

/-- The name of a directory entry. -/
abbrev FileName := {name : List Char // IsFileName name}

/-- A path, from the innermost name out. -/
abbrev FilePath := List FileName

abbrev Bytes := List UInt8

abbrev Files := Tree FileName Bytes

/-- One part of a path, entered from a directory. -/
def enter (path : FilePath) (part : List Char) : FilePath :=
  if h : IsFileName part then ⟨part, h⟩ :: path
  else if part = ['.', '.'] then path.tail
  -- an empty part or a single dot
  else path

/-- `path.resolve()` of the parts below a directory. -/
def resolve (path : FilePath) (parts : List (List Char)) : FilePath := parts.foldl enter path

/-- `path.parents`. -/
def parents : FilePath → List FilePath
  | [] => []
  | _ :: path => path :: parents path

/-- `path.as_posix()` of a relative path. -/
def asPosix (rel : FilePath) : List Char := ['/'].intercalate (rel.reverse.map Subtype.val)

/-- `path.as_uri()`. -/
def asUri (path : FilePath) : List Char :=
  ['f', 'i', 'l', 'e', ':', '/', '/'] ++ path.reverse.flatMap fun name => '/' :: Text.quote name

/-! ### The backend -/

/-- What the methods raise. -/
inductive StorageError
  | escapes (key : List Char)
  | embeddedNull
  | missingKey (key : List Char)
  | os (e : OSError)
  deriving DecidableEq, Repr

/-- The methods. -/
inductive StorageCall
  | path (key : List Char)
  | put (key : List Char) (data : Bytes)
  | putFile (key : List Char) (src : FilePath)
  | get (key : List Char)
  | delete (key : List Char)
  | list (pfx : List Char)
  | stat (key : List Char)
  | uri (key : List Char)

/-- What each method returns; `stat` returns the key and the size. -/
@[reducible] def StorageCall.Ans : StorageCall → Type
  | path _ => FilePath
  | put _ _ => Unit
  | putFile _ _ => Unit
  | get _ => Bytes
  | delete _ => Unit
  | list _ => List (List Char)
  | stat _ => List Char × ℕ
  | uri _ => List Char

structure LocalFilesystemBackend where
  root : FilePath

namespace LocalFilesystemBackend

/-- `(self.root / key).resolve()`; an absolute key takes the place of the root. -/
def resolved (b : LocalFilesystemBackend) (key : List Char) : FilePath :=
  resolve (if key.head? = some '/' then [] else b.root) (key.splitOn '/')

/-- `_path`. -/
def pathOf (b : LocalFilesystemBackend) (key : List Char) : Except StorageError FilePath :=
  if '\x00' ∈ key then .error .embeddedNull
  else if b.resolved key ≠ b.root ∧ b.root ∉ parents (b.resolved key) then .error (.escapes key)
  else .ok (b.resolved key)

/-- A call of the file system. -/
def fromOS : Except OSError Unit × Files → Except StorageError Unit × Files
  | (.ok (), t) => (.ok (), t)
  | (.error e, t) => (.error (.os e), t)

/-- Make the directory a file is to lie in, and then the file. -/
def writeBelow (t : Files) (path : FilePath) (write : Files → Except OSError Unit × Files) :
    Except StorageError Unit × Files :=
  match t.mkdirs path.tail with
  | (.ok (), t') => fromOS (write t')
  | (.error e, t') => (.error (.os e), t')

/-- `shutil.copyfile`. -/
def copyfile (t : Files) (src dst : FilePath) : Except OSError Unit × Files :=
  if src = dst ∧ (t.node src).isSome then (.error .sameFile, t)
  else
    match t.read src with
    | .ok data => t.write dst data
    | .error e => (.error e, t)

/-- The file at a key. -/
def fileAt (b : LocalFilesystemBackend) (t : Files) (key : List Char) :
    Except StorageError (FilePath × Bytes) := do
  let path ← b.pathOf key
  match t.data? path with
  | some data => .ok (path, data)
  | none => .error (.missingKey key)

/-- The names of the files below the root. -/
def names (b : LocalFilesystemBackend) (t : Files) : List (List Char) :=
  ((t.walk b.root).filter t.isFile).map fun path =>
    -- `path.relative_to(self.root).as_posix()`
    asPosix (path.take (path.length - b.root.length))

/-- The effect of a method. -/
def exec (b : LocalFilesystemBackend) (t : Files) : (c : StorageCall) →
    Except StorageError c.Ans × Files
  | .path key => (b.pathOf key, t)
  | .put key data =>
      match b.pathOf key with
      | .ok path => writeBelow t path (·.write path data)
      | .error e => (.error e, t)
  | .putFile key src =>
      match b.pathOf key with
      | .ok path => writeBelow t path (copyfile · src path)
      | .error e => (.error e, t)
  | .get key => ((b.fileAt t key).map Prod.snd, t)
  | .delete key =>
      match b.pathOf key with
      | .ok path =>
          match t.unlink path with
          | (.error .fileNotFound, t') => (.ok (), t')
          | result => fromOS result
      | .error e => (.error e, t)
  | .list pfx =>
      (.ok (((b.names t).filter pfx.isPrefixOf).mergeSort fun key key' => decide (key ≤ key')), t)
  | .stat key => ((b.fileAt t key).map fun file => (key, file.2.length), t)
  | .uri key => ((b.fileAt t key).map fun file => asUri file.1, t)

/-- `__init__`, with the root resolved. -/
def create (t : Files) (root : FilePath) : Except OSError LocalFilesystemBackend × Files :=
  match t.mkdirs root with
  | (.ok (), t') => (.ok ⟨root⟩, t')
  | (.error e, t') => (.error e, t')

/-! ### Keys, resolved -/

variable {b : LocalFilesystemBackend} {t t' : Files} {key : List Char} {path rel q : FilePath}

theorem mem_parents : q ∈ parents path ↔ q <:+ path ∧ q ≠ path := by
  induction path with
  | nil =>
    refine ⟨fun h => (by cases h), fun h => ?_⟩
    exact absurd (List.suffix_nil.1 h.1) h.2
  | cons name path ih =>
    rw [parents, List.mem_cons, ih]
    constructor
    · rintro (rfl | ⟨hq, -⟩)
      · exact ⟨List.suffix_cons name q, (List.cons_ne_self name q).symm⟩
      · refine ⟨hq.trans (List.suffix_cons name path), ?_⟩
        rintro rfl
        have hlength := hq.length_le
        simp at hlength
    · rintro ⟨hq, hne⟩
      rcases List.suffix_cons_iff.1 hq with rfl | hq
      · exact absurd rfl hne
      · by_cases heq : q = path
        · exact Or.inl heq
        · exact Or.inr ⟨hq, heq⟩

theorem suffix_iff_mem_parents : q <:+ path ↔ ¬ (path ≠ q ∧ q ∉ parents path) := by
  rw [not_and_or, not_not, not_not, mem_parents]
  constructor
  · intro h
    by_cases heq : path = q
    · exact Or.inl heq
    · exact Or.inr ⟨h, fun h' => heq h'.symm⟩
  · rintro (rfl | ⟨h, -⟩)
    · exact List.suffix_rfl
    · exact h

/-- Whatever the key, the path is below the root. -/
theorem suffix_of_pathOf (h : b.pathOf key = .ok path) : b.root <:+ path := by
  unfold pathOf at h
  split_ifs at h with hnull hescape
  obtain rfl := Except.ok.inj h
  exact suffix_iff_mem_parents.2 hescape

theorem resolve_names (start : FilePath) (names : List FileName) :
    resolve start (names.map Subtype.val) = names.reverse ++ start := by
  induction names generalizing start with
  | nil => rfl
  | cons name names ih =>
    have henter : enter start name.val = name :: start := by
      rw [enter, dif_pos name.2]
    show resolve (enter start name.val) (names.map Subtype.val) = _
    rw [henter, ih, List.reverse_cons, List.append_assoc, List.singleton_append]

theorem notMem_asPosix (rel : FilePath) {c : Char} (hslash : c ≠ '/')
    (h : ∀ name : FileName, c ∉ name.val) : c ∉ asPosix rel := by
  intro hc
  rcases Text.of_mem_join hc with heq | ⟨part, hpart, hmem⟩
  · exact hslash heq
  · obtain ⟨name, -, rfl⟩ := List.mem_map.1 hpart
    exact h name hmem

/-- A relative path does not begin with a slash. -/
theorem head?_asPosix (hrel : rel ≠ []) : (asPosix rel).head? ≠ some '/' := by
  obtain ⟨name, names, hnames⟩ := List.exists_cons_of_ne_nil (List.reverse_ne_nil_iff.2 hrel)
  obtain ⟨after, hjoin⟩ := Text.join_cons '/' name.val (names.map Subtype.val)
  rw [asPosix, hnames, List.map_cons, hjoin]
  obtain ⟨c, cs, hname⟩ := List.exists_cons_of_ne_nil name.2.1
  rw [hname, List.cons_append, List.head?_cons]
  rintro heq
  obtain rfl := Option.some.inj heq
  exact name.2.2.2.2.1 (by rw [hname]; exact List.mem_cons_self)

theorem splitOn_asPosix (hrel : rel ≠ []) :
    (asPosix rel).splitOn '/' = rel.reverse.map Subtype.val := by
  apply List.splitOn_intercalate
  · intro part hpart
    obtain ⟨name, -, rfl⟩ := List.mem_map.1 hpart
    exact name.2.2.2.2.1
  · rw [Ne, List.map_eq_nil_iff, List.reverse_eq_nil_iff]
    exact hrel

theorem asPosix_inj {rel' : FilePath} (hrel : rel ≠ []) (hrel' : rel' ≠ [])
    (h : asPosix rel = asPosix rel') : rel = rel' := by
  have hsplit := splitOn_asPosix hrel
  rw [h, splitOn_asPosix hrel'] at hsplit
  exact (List.reverse_injective (List.map_injective_iff.2 Subtype.val_injective hsplit)).symm

/-- The name of a file below the root is a key that leads to it. -/
theorem pathOf_asPosix (b : LocalFilesystemBackend) (hrel : rel ≠ []) :
    b.pathOf (asPosix rel) = .ok (rel ++ b.root) := by
  have hnull : '\x00' ∉ asPosix rel :=
    notMem_asPosix rel (by decide) fun name => name.2.2.2.2.2
  have hresolved : b.resolved (asPosix rel) = rel ++ b.root := by
    rw [resolved, if_neg (head?_asPosix hrel), splitOn_asPosix hrel, resolve_names,
      List.reverse_reverse]
  rw [pathOf, if_neg hnull, hresolved,
    if_neg (suffix_iff_mem_parents.1 (List.suffix_append rel b.root))]

end LocalFilesystemBackend

/-! ### What the backend is for -/

/-- What is below the root, by the path from there, and what is elsewhere. -/
@[ext] structure Shelf where
  below : FilePath → Option (Node Bytes)
  outside : FilePath → Option (Node Bytes)

namespace Shelf

/-- The object at a path. -/
def object (m : Shelf) (rel : FilePath) : Option Bytes := (m.below rel).bind Node.data?

/-- No object can stand here: a directory does, with objects below it or with none, or an object
is above. -/
def Taken (m : Shelf) (rel : FilePath) : Prop :=
  m.below rel = some .dir ∨ ∃ q, q <:+ rel ∧ q ≠ rel ∧ (m.object q).isSome

/-- Lay a node in the directories above it. -/
def lay (m : Shelf) (rel : FilePath) (n : Option (Node Bytes)) : Shelf where
  below q := if q = rel then n else if q <:+ rel then some .dir else m.below q
  outside := m.outside

/-- Take away what is at a path. -/
def remove (m : Shelf) (rel : FilePath) : Shelf where
  below q := if q = rel then none else m.below q
  outside := m.outside

end Shelf

namespace LocalFilesystemBackend

variable {b : LocalFilesystemBackend} {t t' : Files} {key : List Char} {path rel q : FilePath}

/-- The path from the root. -/
def fromRoot (b : LocalFilesystemBackend) (path : FilePath) : FilePath :=
  path.take (path.length - b.root.length)

@[simp] theorem fromRoot_append (b : LocalFilesystemBackend) (rel : FilePath) :
    b.fromRoot (rel ++ b.root) = rel := by
  rw [fromRoot, List.length_append, Nat.add_sub_cancel, List.take_left]

/-- Where a key leads, from the root. -/
def place (b : LocalFilesystemBackend) (key : List Char) : Except StorageError FilePath :=
  (b.pathOf key).map b.fromRoot

theorem pathOf_of_place (h : b.place key = .ok rel) : b.pathOf key = .ok (rel ++ b.root) := by
  unfold place at h
  cases hpath : b.pathOf key with
  | error e =>
    rw [hpath] at h
    cases h
  | ok path =>
    rw [hpath] at h
    obtain rfl := Except.ok.inj h
    rw [fromRoot, List.suffix_iff_eq_append.1 (suffix_of_pathOf hpath)]

theorem pathOf_of_place_error {e : StorageError} (h : b.place key = .error e) :
    b.pathOf key = .error e := by
  unfold place at h
  cases hpath : b.pathOf key with
  | error e' =>
    rw [hpath] at h
    obtain rfl := Except.error.inj h
    rfl
  | ok path =>
    rw [hpath] at h
    cases h

theorem place_asPosix (b : LocalFilesystemBackend) (hrel : rel ≠ []) :
    b.place (asPosix rel) = .ok rel := by
  rw [place, pathOf_asPosix b hrel]
  exact congrArg Except.ok (fromRoot_append b rel)

/-- The file system, seen from the root. -/
def shelf (b : LocalFilesystemBackend) (t : Files) : Shelf where
  below rel := t.node (rel ++ b.root)
  outside path := if b.root <:+ path then none else t.node path

/-- The bytes of a file that is to be stored. -/
def source (b : LocalFilesystemBackend) (m : Shelf) (src : FilePath) : Option Bytes :=
  (if b.root <:+ src then m.below (b.fromRoot src) else m.outside src).bind Node.data?

/-- The object a key leads to. -/
def find (b : LocalFilesystemBackend) (m : Shelf) (key : List Char) :
    Except StorageError (FilePath × Bytes) := do
  let rel ← b.place key
  match m.object rel with
  | some data => .ok (rel, data)
  | none => .error (.missingKey key)

/-- What a call answers, and what it leaves of the shelf. -/
def Meets (b : LocalFilesystemBackend) (m : Shelf) :
    (c : StorageCall) → Except StorageError c.Ans → Shelf → Prop
  | .path key, r, m' => m' = m ∧ r = (b.place key).map (· ++ b.root)
  | .put key data, r, m' =>
      match b.place key with
      | .error e => r = .error e ∧ m' = m
      | .ok rel =>
          (m.Taken rel ∧ (∃ e, r = .error (.os e)) ∧ m' = m) ∨
            (¬ m.Taken rel ∧ r = .ok () ∧ m' = m.lay rel (some (.file data)))
  | .putFile key src, r, m' =>
      match b.place key with
      | .error e => r = .error e ∧ m' = m
      | .ok rel =>
          (m.Taken rel ∧ (∃ e, r = .error (.os e)) ∧ m' = m) ∨
            (¬ m.Taken rel ∧ ((∃ data, b.source m src = some data ∧ src ≠ rel ++ b.root ∧
                r = .ok () ∧ m' = m.lay rel (some (.file data))) ∨
              ((b.source m src = none ∨ src = rel ++ b.root) ∧ (∃ e, r = .error (.os e)) ∧
                -- the directories have been made
                m' = m.lay rel (m.below rel))))
  | .get key, r, m' => m' = m ∧ r = (b.find m key).map Prod.snd
  | .delete key, r, m' =>
      match b.place key with
      | .error e => r = .error e ∧ m' = m
      | .ok rel =>
          (m.Taken rel ∧ (∃ e, r = .error (.os e)) ∧ m' = m) ∨
            (¬ m.Taken rel ∧ r = .ok () ∧ m' = m.remove rel)
  | .list pfx, r, m' => m' = m ∧ ∃ keys, r = .ok keys ∧ keys.Pairwise (· < ·) ∧
      ∀ key, key ∈ keys ↔ pfx <+: key ∧
        ∃ rel, (m.object rel).isSome ∧ key = asPosix rel ∧ b.place key = .ok rel
  | .stat key, r, m' => m' = m ∧ r = (b.find m key).map fun file => (key, file.2.length)
  | .uri key, r, m' => m' = m ∧ r = (b.find m key).map fun file => asUri (file.1 ++ b.root)

/-! ### One call -/

section one_call

variable {w : Files → Except OSError Unit × Files}

@[simp] theorem object_shelf : (b.shelf t).object rel = t.data? (rel ++ b.root) := rfl

@[simp] theorem source_shelf (src : FilePath) : b.source (b.shelf t) src = t.data? src := by
  unfold source shelf
  by_cases hsrc : b.root <:+ src
  · rw [if_pos hsrc]
    have hpath : b.fromRoot src ++ b.root = src := List.suffix_iff_eq_append.1 hsrc
    dsimp only
    rw [hpath]
    rfl
  · rw [if_neg hsrc]
    dsimp only
    rw [if_neg hsrc]
    rfl

theorem fileAt_eq (key : List Char) :
    b.fileAt t key = (b.find (b.shelf t) key).map fun file => (file.1 ++ b.root, file.2) := by
  unfold fileAt find
  cases hplace : b.place key with
  | error e =>
    rw [pathOf_of_place_error hplace]
    rfl
  | ok rel =>
    rw [pathOf_of_place hplace]
    dsimp only [bind, Except.bind]
    rw [object_shelf]
    cases t.data? (rel ++ b.root) <;> rfl

/-- A path above the root, or one below it. -/
theorem suffix_cases (h : q <:+ rel ++ b.root) :
    q <:+ b.root ∨ ∃ rel', q = rel' ++ b.root ∧ rel' <:+ rel := by
  rcases List.suffix_or_suffix_of_suffix h (List.suffix_append rel b.root) with habove | hbelow
  · exact Or.inl habove
  · obtain ⟨rel', rfl⟩ := hbelow
    exact Or.inr ⟨rel', rfl, List.suffix_append_self_iff.1 h⟩

/-- The root and what is above it are directories. -/
theorem node_above_root (hroot : t.node b.root = some .dir) (hq : q <:+ b.root) :
    t.node q = some .dir := by
  rw [(Tree.dirs_of_dir hroot).2 q, if_pos hq]

/-- What is taken on the shelf is taken in the file system. -/
theorem taken_shelf_iff (hroot : t.node b.root = some .dir) :
    (b.shelf t).Taken rel ↔
      t.node (rel ++ b.root) = some .dir ∨ t.blocked (rel ++ b.root) = true := by
  refine or_congr Iff.rfl ?_
  rw [Tree.blocked_iff]
  constructor
  · rintro ⟨rel', hsuffix, hne, hobject⟩
    exact ⟨rel' ++ b.root, List.suffix_append_self_iff.2 hsuffix,
      fun h => hne (List.append_cancel_right h), hobject⟩
  · rintro ⟨q, hq, hne, hfile⟩
    rcases suffix_cases hq with habove | ⟨rel', rfl, hsuffix⟩
    · obtain ⟨d, hd⟩ := Tree.isFile_iff.1 hfile
      rw [node_above_root hroot habove] at hd
      cases hd
    · exact ⟨rel', hsuffix, fun h => hne (by rw [h]), hfile⟩

/-- A node laid below the root. -/
theorem shelf_lay (hroot : t.node b.root = some .dir) {n : Option (Node Bytes)}
    (h : ∀ q, t'.node q =
      if q = rel ++ b.root then n else if q <:+ rel ++ b.root then some .dir else t.node q) :
    b.shelf t' = (b.shelf t).lay rel n := by
  ext1
  · funext q
    show t'.node (q ++ b.root) = _
    rw [h]
    simp only [List.append_left_inj, List.suffix_append_self_iff]
    rfl
  · funext q
    show (if b.root <:+ q then none else t'.node q) = if b.root <:+ q then none else t.node q
    by_cases hq : b.root <:+ q
    · rw [if_pos hq, if_pos hq]
    · rw [if_neg hq, if_neg hq, h, if_neg (fun heq => hq ⟨rel, heq.symm⟩)]
      by_cases hsuffix : q <:+ rel ++ b.root
      · rcases suffix_cases hsuffix with habove | ⟨rel', rfl, -⟩
        · rw [if_pos hsuffix, node_above_root hroot habove]
        · exact absurd (List.suffix_append rel' b.root) hq
      · rw [if_neg hsuffix]

theorem shelf_eq (h : ∀ q, t'.node q = t.node q) : b.shelf t' = b.shelf t := by
  unfold shelf
  simp only [h]

theorem suffix_tail_iff (hpath : path ≠ []) : q <:+ path.tail ↔ q <:+ path ∧ q ≠ path := by
  cases path with
  | nil => exact absurd rfl hpath
  | cons name path =>
    rw [← mem_parents, parents, List.mem_cons, mem_parents, List.tail_cons]
    constructor
    · intro hq
      by_cases heq : q = path
      · exact Or.inl heq
      · exact Or.inr ⟨hq, heq⟩
    · rintro (rfl | ⟨hq, -⟩)
      · exact List.suffix_rfl
      · exact hq

/-- A file on the way is met before anything is made. -/
theorem writeBelow_of_blocked (h : t.blocked path = true) :
    ∃ e, writeBelow t path w = (.error (.os e), t) := by
  obtain ⟨q, hq, hne, hfile⟩ := Tree.blocked_iff.1 h
  have hpath : path ≠ [] := by
    rintro rfl
    exact hne (List.suffix_nil.1 hq)
  rcases t.mkdirs_spec path.tail with ⟨t', -, hfree, -⟩ | ⟨e, hmake, -⟩
  · exact absurd hfile (hfree q ((suffix_tail_iff hpath).2 ⟨hq, hne⟩))
  · exact ⟨e, by rw [writeBelow, hmake]⟩

/-- The directories above are there when the file is written. -/
theorem writeBelow_of_free (h : ¬ t.blocked path = true) :
    ∃ t', writeBelow t path w = fromOS (w t') ∧ t'.node path.tail = some .dir ∧
      ∀ q, t'.node q = if q <:+ path ∧ q ≠ path then some .dir else t.node q := by
  rcases t.mkdirs_spec path.tail with ⟨t', hmake, -, hnode⟩ | ⟨e, -, q, hq, hfile⟩
  · refine ⟨t', by rw [writeBelow, hmake], by rw [hnode, if_pos List.suffix_rfl], fun q => ?_⟩
    cases path with
    | nil =>
      rw [hnode q]
      by_cases hq : q = []
      · subst hq
        simp
      · simp [hq]
    | cons name path =>
      rw [hnode q]
      simp only [suffix_tail_iff (List.cons_ne_nil name path)]
  · have hpath : path ≠ [] := by
      rintro rfl
      obtain ⟨d, hd⟩ := Tree.isFile_iff.1 hfile
      rw [List.suffix_nil.1 hq] at hd
      cases hd
    obtain ⟨hsuffix, hne⟩ := (suffix_tail_iff hpath).1 hq
    exact absurd (Tree.blocked_iff.2 ⟨q, hsuffix, hne, hfile⟩) h

/-- Nothing is written where a directory stands, or below an object. -/
theorem writeBelow_of_taken (hroot : t.node b.root = some .dir)
    (hw : ∀ t' : Files, t'.node (rel ++ b.root) = some .dir → ∃ e, w t' = (.error e, t'))
    (htaken : (b.shelf t).Taken rel) :
    ∃ e t', writeBelow t (rel ++ b.root) w = (.error (.os e), t') ∧ ∀ q, t'.node q = t.node q := by
  by_cases hblocked : t.blocked (rel ++ b.root) = true
  · obtain ⟨e, he⟩ := writeBelow_of_blocked (w := w) hblocked
    exact ⟨e, t, he, fun _ => rfl⟩
  · have hdir : t.node (rel ++ b.root) = some .dir :=
      ((taken_shelf_iff hroot).1 htaken).resolve_right hblocked
    obtain ⟨t', hwrite, -, hnode⟩ := writeBelow_of_free (w := w) hblocked
    have hsame : ∀ q, t'.node q = t.node q := by
      intro q
      rw [hnode]
      split_ifs with hq
      · rw [(Tree.dirs_of_dir hdir).2 q, if_pos hq.1]
      · rfl
    obtain ⟨e, he⟩ := hw t' (by rw [hsame, hdir])
    exact ⟨e, t', by rw [hwrite, he]; rfl, hsame⟩

/-- Elsewhere the directories above are made, and the rest is up to the writer. -/
theorem writeBelow_of_not_taken (hroot : t.node b.root = some .dir)
    (htaken : ¬ (b.shelf t).Taken rel) :
    ∃ name rel' t', rel = name :: rel' ∧ writeBelow t (rel ++ b.root) w = fromOS (w t') ∧
      t'.node (rel' ++ b.root) = some .dir ∧
      (∀ q, t'.node q = if q = rel ++ b.root then t.node q
        else if q <:+ rel ++ b.root then some .dir else t.node q) := by
  obtain ⟨hdir, hblocked⟩ := not_or.1 (mt (taken_shelf_iff hroot).2 htaken)
  obtain ⟨t', hwrite, htail, hnode⟩ := writeBelow_of_free (w := w) hblocked
  cases rel with
  | nil => exact absurd hroot hdir
  | cons name rel' =>
    refine ⟨name, rel', t', rfl, hwrite, htail, fun q => ?_⟩
    rw [hnode]
    by_cases heq : q = name :: rel' ++ b.root
    · rw [if_pos heq, if_neg fun h => h.2 heq]
    · rw [if_neg heq]
      by_cases hsuffix : q <:+ name :: rel' ++ b.root
      · rw [if_pos ⟨hsuffix, heq⟩, if_pos hsuffix]
      · rw [if_neg fun h => hsuffix h.1, if_neg hsuffix]

/-- The file itself, once the directories above are made. -/
theorem write_of_not_taken (hroot : t.node b.root = some .dir) {name : FileName}
    (htaken : ¬ (b.shelf t).Taken (name :: rel)) (hdir : t'.node (rel ++ b.root) = some .dir)
    (hnode : ∀ q, t'.node q = if q = name :: rel ++ b.root then t.node q
      else if q <:+ name :: rel ++ b.root then some .dir else t.node q) (data : Bytes) :
    ∃ t'', t'.write (name :: rel ++ b.root) data = (.ok (), t'') ∧
      b.shelf t'' = (b.shelf t).lay (name :: rel) (some (.file data)) := by
  have hleaf : t'.node (name :: (rel ++ b.root)) ≠ some .dir := by
    rw [hnode, if_pos List.cons_append.symm]
    exact fun h => htaken (Or.inl h)
  obtain ⟨t'', hput, hput'⟩ := Tree.write_of_free hdir hleaf data
  refine ⟨t'', hput, shelf_lay hroot fun q => ?_⟩
  rw [hput', hnode, ← List.cons_append]
  by_cases heq : q = name :: rel ++ b.root
  · rw [if_pos heq, if_pos heq]
  · rw [if_neg heq, if_neg heq, if_neg heq]

theorem exec_put (hroot : t.node b.root = some .dir) (key : List Char) (data : Bytes) :
    b.Meets (b.shelf t) (.put key data) (b.exec t (.put key data)).1
      (b.shelf (b.exec t (.put key data)).2) := by
  cases hplace : b.place key with
  | error e =>
    simp only [Meets, exec, hplace, pathOf_of_place_error hplace, and_self]
  | ok rel =>
    simp only [Meets, exec, hplace, pathOf_of_place hplace]
    by_cases htaken : (b.shelf t).Taken rel
    · obtain ⟨e, t', hwrite, hsame⟩ := writeBelow_of_taken (w := (·.write (rel ++ b.root) data))
        hroot (fun t' ht' => ⟨_, Tree.write_of_dir ht' data⟩) htaken
      rw [hwrite]
      exact Or.inl ⟨htaken, ⟨e, rfl⟩, shelf_eq hsame⟩
    · obtain ⟨name, rel', t', rfl, hwrite, hdir, hnode⟩ :=
        writeBelow_of_not_taken (w := (·.write (rel ++ b.root) data)) hroot htaken
      obtain ⟨t'', hput, hlay⟩ := write_of_not_taken hroot htaken hdir hnode data
      rw [hwrite, hput]
      exact Or.inr ⟨htaken, rfl, hlay⟩

theorem copyfile_of_source {src dst : FilePath} {data : Bytes} (h : t.data? src = some data)
    (hne : src ≠ dst) : copyfile t src dst = t.write dst data := by
  rw [copyfile, if_neg fun hsame => hne hsame.1, Tree.read_of_data data h]

/-- A file that is not there is not copied, and none onto itself. -/
theorem copyfile_of_no_source {src dst : FilePath} (h : t.data? src = none ∨ src = dst) :
    ∃ e, copyfile t src dst = (.error e, t) := by
  by_cases hsame : src = dst ∧ (t.node src).isSome
  · exact ⟨.sameFile, by rw [copyfile, if_pos hsame]⟩
  · have hnone : t.data? src = none := by
      rcases h with hnone | heq
      · exact hnone
      · rw [Tree.data?, Option.not_isSome_iff_eq_none.1 fun h => hsame ⟨heq, h⟩]
        rfl
    obtain ⟨e, he⟩ := Tree.read_of_no_data hnone
    exact ⟨e, by rw [copyfile, if_neg hsame, he]⟩

theorem copyfile_of_dir (src : FilePath) {dst : FilePath} (h : t.node dst = some .dir) :
    ∃ e, copyfile t src dst = (.error e, t) := by
  cases hdata : t.data? src with
  | none => exact copyfile_of_no_source (Or.inl hdata)
  | some data =>
    by_cases hne : src = dst
    · exact copyfile_of_no_source (Or.inr hne)
    · exact ⟨_, by rw [copyfile_of_source hdata hne, Tree.write_of_dir h]⟩

theorem exec_putFile (hroot : t.node b.root = some .dir) (key : List Char) (src : FilePath) :
    b.Meets (b.shelf t) (.putFile key src) (b.exec t (.putFile key src)).1
      (b.shelf (b.exec t (.putFile key src)).2) := by
  cases hplace : b.place key with
  | error e =>
    simp only [Meets, exec, hplace, pathOf_of_place_error hplace, and_self]
  | ok rel =>
    simp only [Meets, exec, hplace, pathOf_of_place hplace, source_shelf]
    by_cases htaken : (b.shelf t).Taken rel
    · obtain ⟨e, t', hwrite, hsame⟩ := writeBelow_of_taken (w := (copyfile · src (rel ++ b.root)))
        hroot (fun t' ht' => copyfile_of_dir src ht') htaken
      rw [hwrite]
      exact Or.inl ⟨htaken, ⟨e, rfl⟩, shelf_eq hsame⟩
    · refine Or.inr ⟨htaken, ?_⟩
      obtain ⟨name, rel', t', rfl, hwrite, hdir, hnode⟩ :=
        writeBelow_of_not_taken (w := (copyfile · src (rel ++ b.root))) hroot htaken
      rw [hwrite]
      -- no file is made or lost when the directories are
      have hdata : t'.data? src = t.data? src := by
        rw [Tree.data?, Tree.data?, hnode]
        split_ifs with hself hsuffix
        · rfl
        · have hfree : ¬ t.isFile src = true := by
            intro hfile
            exact htaken ((taken_shelf_iff hroot).2
              (Or.inr (Tree.blocked_iff.2 ⟨src, hsuffix, hself, hfile⟩)))
          rw [Tree.isFile, Option.not_isSome_iff_eq_none] at hfree
          exact hfree.symm
        · rfl
      by_cases hsource : t.data? src = none ∨ src = name :: rel' ++ b.root
      · obtain ⟨e, he⟩ : ∃ e, copyfile t' src (name :: rel' ++ b.root) = (.error e, t') :=
          copyfile_of_no_source (hsource.imp_left fun h => hdata.trans h)
        have hlay : b.shelf t' =
            (b.shelf t).lay (name :: rel') (t.node (name :: rel' ++ b.root)) := by
          refine shelf_lay hroot fun q => ?_
          rw [hnode]
          by_cases heq : q = name :: rel' ++ b.root
          · rw [if_pos heq, if_pos heq, heq]
          · rw [if_neg heq, if_neg heq]
        rw [he]
        exact Or.inr ⟨hsource, ⟨e, rfl⟩, hlay⟩
      · obtain ⟨hsome, hne⟩ := not_or.1 hsource
        obtain ⟨data, hsome⟩ := Option.ne_none_iff_exists'.1 hsome
        obtain ⟨t'', hput, hlay⟩ := write_of_not_taken hroot htaken hdir hnode data
        rw [copyfile_of_source (hdata.trans hsome) hne, hput]
        exact Or.inl ⟨data, hsome, hne, rfl, hlay⟩

/-- Where a node is gone, the shelf has lost what stood there. -/
theorem shelf_of_unlinked {t' : Files} {rel : FilePath}
    (hnode : ∀ q, t'.node q = if q = rel ++ b.root then none else t.node q) :
    b.shelf t' = (b.shelf t).remove rel := by
  ext1
  · funext q
    show t'.node (q ++ b.root) = if q = rel then none else t.node (q ++ b.root)
    rw [hnode]
    simp only [List.append_left_inj]
  · funext q
    show (if b.root <:+ q then none else t'.node q) = if b.root <:+ q then none else t.node q
    by_cases hq : b.root <:+ q
    · rw [if_pos hq, if_pos hq]
    · rw [if_neg hq, if_neg hq, hnode, if_neg fun heq => hq ⟨rel, heq.symm⟩]

theorem exec_delete (hroot : t.node b.root = some .dir) (key : List Char) :
    b.Meets (b.shelf t) (.delete key) (b.exec t (.delete key)).1
      (b.shelf (b.exec t (.delete key)).2) := by
  cases hplace : b.place key with
  | error e =>
    simp only [Meets, exec, hplace, pathOf_of_place_error hplace, and_self]
  | ok rel =>
    simp only [Meets, exec, hplace, pathOf_of_place hplace, taken_shelf_iff hroot]
    rcases t.unlink_spec (rel ++ b.root) with ⟨t', hunlink, hfile, hnode⟩ | ⟨hunlink, hdir⟩ |
      ⟨hunlink, hnone⟩
    · rw [hunlink]
      refine Or.inr ⟨?_, rfl, shelf_of_unlinked hnode⟩
      obtain ⟨d, hd⟩ := Tree.isFile_iff.1 hfile
      rintro (hdir | hblocked)
      · rw [hd] at hdir
        cases hdir
      · rw [Tree.node_eq_none_of_blocked hblocked] at hd
        cases hd
    · rw [hunlink]
      exact Or.inl ⟨Or.inl hdir, ⟨_, rfl⟩, rfl⟩
    · -- there is nothing at the place: a missing file may be deleted, unless an object is above it
      rw [hunlink]
      by_cases hblocked : t.blocked (rel ++ b.root) = true
      · rw [Tree.missing, if_pos hblocked]
        exact Or.inl ⟨Or.inr hblocked, ⟨_, rfl⟩, rfl⟩
      · rw [Tree.missing, if_neg hblocked]
        refine Or.inr ⟨?_, rfl, shelf_of_unlinked fun q => ?_⟩
        · rintro (hdir | h)
          · rw [hnone] at hdir
            cases hdir
          · exact hblocked h
        · split_ifs with hq
          · rw [hq, hnone]
          · rfl

theorem mem_names : key ∈ b.names t ↔
    ∃ rel, rel ≠ [] ∧ ((b.shelf t).object rel).isSome ∧ key = asPosix rel := by
  unfold names
  simp only [List.mem_map, List.mem_filter, Tree.mem_walk]
  constructor
  · rintro ⟨path, ⟨⟨-, ⟨rel, rfl⟩, hne⟩, hfile⟩, rfl⟩
    refine ⟨rel, fun h => hne (by rw [h, List.nil_append]), hfile, ?_⟩
    rw [← fromRoot, fromRoot_append]
  · rintro ⟨rel, hrel, hobject, rfl⟩
    obtain ⟨d, hd⟩ := Tree.isFile_iff.1 hobject
    refine ⟨rel ++ b.root, ⟨⟨?_, List.suffix_append rel b.root, ?_⟩, hobject⟩, ?_⟩
    · rw [hd]
      exact fun h => by cases h
    · exact fun h => hrel (List.append_left_eq_self.1 h)
    · rw [← fromRoot, fromRoot_append]

theorem nodup_names (b : LocalFilesystemBackend) (t : Files) : (b.names t).Nodup := by
  unfold names
  refine List.Nodup.map_on ?_ ((t.nodup_walk b.root).filter _)
  intro path hpath path' hpath' heq
  obtain ⟨-, ⟨rel, rfl⟩, hne⟩ := Tree.mem_walk.1 (List.mem_of_mem_filter hpath)
  obtain ⟨-, ⟨rel', rfl⟩, hne'⟩ := Tree.mem_walk.1 (List.mem_of_mem_filter hpath')
  rw [← fromRoot, ← fromRoot, fromRoot_append, fromRoot_append] at heq
  rw [asPosix_inj (fun h => hne (by rw [h, List.nil_append]))
    (fun h => hne' (by rw [h, List.nil_append])) heq]

theorem exec_list (hroot : t.node b.root = some .dir) (pfx : List Char) :
    b.Meets (b.shelf t) (.list pfx) (b.exec t (.list pfx)).1
      (b.shelf (b.exec t (.list pfx)).2) := by
  refine ⟨rfl, _, rfl, ?_, fun key => ?_⟩
  · have hsorted := @List.pairwise_mergeSort (List Char) (fun key key' => decide (key ≤ key'))
      (fun _ _ _ h h' => decide_eq_true (le_trans (of_decide_eq_true h) (of_decide_eq_true h')))
      (fun a b => by simpa using le_total a b)
      ((b.names t).filter pfx.isPrefixOf)
    have hnodup : (((b.names t).filter pfx.isPrefixOf).mergeSort
        fun key key' => decide (key ≤ key')).Nodup :=
      (List.mergeSort_perm _ _).nodup_iff.2 ((nodup_names b t).filter _)
    refine (hsorted.and hnodup).imp ?_
    rintro key key' ⟨hle, hne⟩
    exact lt_of_le_of_ne (of_decide_eq_true hle) hne
  · rw [List.mem_mergeSort, List.mem_filter, List.isPrefixOf_iff_prefix, mem_names, and_comm]
    refine and_congr_right fun _ => exists_congr fun rel => ?_
    constructor
    · rintro ⟨hrel, hobject, rfl⟩
      exact ⟨hobject, rfl, place_asPosix b hrel⟩
    · rintro ⟨hobject, rfl, -⟩
      refine ⟨?_, hobject, rfl⟩
      rintro rfl
      obtain ⟨d, hd⟩ := Tree.isFile_iff.1 hobject
      rw [List.nil_append, hroot] at hd
      cases hd

/-- Every call does to the shelf what it is for. -/
theorem exec_meets (hroot : t.node b.root = some .dir) (c : StorageCall) :
    b.Meets (b.shelf t) c (b.exec t c).1 (b.shelf (b.exec t c).2) := by
  cases c with
  | path key =>
    refine ⟨rfl, ?_⟩
    show b.pathOf key = _
    cases hplace : b.place key with
    | error e => rw [pathOf_of_place_error hplace]; rfl
    | ok rel => rw [pathOf_of_place hplace]; rfl
  | put key data => exact exec_put hroot key data
  | putFile key src => exact exec_putFile hroot key src
  | get key =>
    refine ⟨rfl, ?_⟩
    show (b.fileAt t key).map Prod.snd = _
    rw [fileAt_eq]
    cases b.find (b.shelf t) key <;> rfl
  | delete key => exact exec_delete hroot key
  | list pfx => exact exec_list hroot pfx
  | stat key =>
    refine ⟨rfl, ?_⟩
    show (b.fileAt t key).map (fun file => (key, file.2.length)) = _
    rw [fileAt_eq]
    cases b.find (b.shelf t) key <;> rfl
  | uri key =>
    refine ⟨rfl, ?_⟩
    show (b.fileAt t key).map (fun file => asUri file.1) = _
    rw [fileAt_eq]
    cases b.find (b.shelf t) key <;> rfl

end one_call

/-! ### Runs -/

/-- A call with what it answered. -/
structure Event where
  call : StorageCall
  answer : Except StorageError call.Ans

theorem create_spec {t₀ : Files} {root : FilePath} (h : create t₀ root = (.ok b, t)) :
    b.root = root ∧ ∀ q, t.node q = if q <:+ root then some .dir else t₀.node q := by
  unfold create at h
  rcases t₀.mkdirs_spec root with ⟨t₁, hmake, -, hnode⟩ | ⟨e, hmake, -⟩
  · rw [hmake] at h
    obtain ⟨hb, rfl⟩ := Prod.mk.inj h
    obtain rfl := Except.ok.inj hb
    exact ⟨rfl, hnode⟩
  · rw [hmake] at h
    cases h

theorem node_root_of_create {t₀ : Files} {root : FilePath} (h : create t₀ root = (.ok b, t)) :
    t.node b.root = some .dir := by
  obtain ⟨rfl, hnode⟩ := create_spec h
  rw [hnode, if_pos List.suffix_rfl]

end LocalFilesystemBackend

end EarthdataMcp
