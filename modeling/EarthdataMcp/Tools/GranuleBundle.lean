import EarthdataMcp.Text.Paths
import Mathlib.Data.List.Sort
import Mathlib.Data.String.Basic

/-!
# Bundles of granules

The granules of a retrieval are fetched into one archive, under names that are taken from their
URLs; the archive is opened again in two ways, by reading its entries or by extracting them.

* `filenameFromUrl` and `writeBundle`;
* `openNetcdfBundle`, which reads, and `openResultLazy`, which extracts;
* `bundleRoundTrips_iff`: when both give every granule once, in the same order.
-/

namespace EarthdataMcp

open Text

/-! ### Names -/

def dapSuffix : List Char := ['.', 'd', 'a', 'p', '.', 'n', 'c', '4']

def ncSuffix : List Char := ['.', 'n', 'c', '4']

/-- What may stand in a scheme after its first letter. -/
def isSchemeChar (c : Char) : Bool := c.isAlphanum || c = '+' || c = '-' || c = '.'

/-- The URL without its scheme. -/
def dropScheme (url : List Char) : List Char :=
  let scheme := url.takeWhile (· ≠ ':')
  if scheme.length < url.length ∧ scheme.head?.any Char.isAlpha ∧ scheme.all isSchemeChar then
    url.drop (scheme.length + 1)
  else url

/-- `urlsplit(url).path`, of a URL whose authority is well formed. -/
def urlPath (url : List Char) : List Char :=
  let url := (url.dropWhile fun c => c.val ≤ 0x20).filter fun c => c ≠ '\t' ∧ c ≠ '\r' ∧ c ≠ '\n'
  let rest := dropScheme url
  let rest :=
    if ['/', '/'] <+: rest then (rest.drop 2).dropWhile fun c => c ≠ '/' ∧ c ≠ '?' ∧ c ≠ '#'
    else rest
  (rest.takeWhile (· ≠ '#')).takeWhile (· ≠ '?')

/-- `_filename_from_url`. -/
def filenameFromUrl (url : List Char) : List Char :=
  let last := lastSegment (urlPath url)
  if dapSuffix <:+ last then
    let stem := last.take (last.length - dapSuffix.length)
    if ncSuffix <:+ stem then stem else stem ++ ncSuffix
  else if last = [] then ['s', 'u', 'b', 's', 'e', 't', '.', 'n', 'c', '4'] else last

theorem notMem_filenameFromUrl (url : List Char) : '/' ∉ filenameFromUrl url := by
  have hlast : '/' ∉ lastSegment (urlPath url) := notMem_lastSegment _
  unfold filenameFromUrl
  dsimp only
  split_ifs with hdap hnc hnil
  · exact fun h => hlast (List.mem_of_mem_take h)
  · intro h
    rcases List.mem_append.1 h with h | h
    · exact hlast (List.mem_of_mem_take h)
    · exact absurd h (by decide)
  · decide
  · exact hlast

theorem filenameFromUrl_ne_nil (url : List Char) : filenameFromUrl url ≠ [] := by
  unfold filenameFromUrl
  dsimp only
  split_ifs with hdap hnc hnil
  · intro h
    rw [h] at hnc
    exact absurd hnc (by decide)
  · exact List.append_ne_nil_of_right_ne_nil _ (List.cons_ne_nil _ _)
  · exact List.cons_ne_nil _ _
  · exact hnil

/-! ### Archives -/

variable {C : Type}

/-- The entries of an archive, in order; a name may occur more than once. -/
abbrev Archive (C : Type) := List (List Char × C)

/-- The bundle that `materialize` writes of the granules that it has fetched. -/
def writeBundle (fetched : List (List Char × C)) : Archive C :=
  fetched.map fun granule => (filenameFromUrl granule.1, granule.2)

/-- `zf.read(name)`. -/
def readEntry (archive : Archive C) (name : List Char) : Option C :=
  (archive.filter fun e => e.1 = name).getLast?.map Prod.snd

/-- The members that `_open_netcdf_bundle` puts together; nothing if it raises. -/
def openNetcdfBundle (archive : Archive C) : Option (List C) :=
  let names := ((archive.map Prod.fst).filter fun name => name.getLast? ≠ some '/').insertionSort
    (· ≤ ·)
  let members := names.filterMap (readEntry archive)
  if members = [] then none else some members

/-- The files below a directory, each with its path. -/
abbrev Tree (C : Type) := List (List (List Char) × C)

/-- The two names of a directory that are not names of files. -/
def isDots (name : List Char) : Prop := name = ['.'] ∨ name = ['.', '.']

instance : DecidablePred isDots := fun _ => inferInstanceAs (Decidable (_ ∨ _))

/-- The path that an entry is extracted to. -/
def extractPath (name : List Char) : List (List Char) :=
  (name.splitOn '/').filter fun segment => segment ≠ [] ∧ ¬ isDots segment

/-- An entry is written to its path; it can not be written to the directory itself. -/
def extractEntry (tree : Tree C) (entry : List Char × C) : Option (Tree C) :=
  let path := extractPath entry.1
  if entry.1.getLast? = some '/' then some tree
  else if path = [] then none
  else some (tree.filter (fun file => file.1 ≠ path) ++ [(path, entry.2)])

/-- `zf.extractall(tmp)`. -/
def extractAll (archive : Archive C) : Option (Tree C) := archive.foldlM extractEntry []

/-- The members that `open_result_lazy` puts together; nothing if it raises. -/
def openResultLazy (archive : Archive C) : Option (List C) := do
  let tree ← extractAll archive
  let memberPaths := (tree.filter fun file => file.1.length = 1).insertionSort fun a b => a.1 ≤ b.1
  let members := memberPaths.map Prod.snd
  if members = [] then none else some members

/-- Both ways to open the bundle give every granule that was fetched once, in the same order. -/
def BundleRoundTrips (fetched : List (List Char × C)) : Prop :=
  ∃ members, openNetcdfBundle (writeBundle fetched) = some members ∧
    openResultLazy (writeBundle fetched) = some members ∧
    members.Perm (fetched.map Prod.snd)

/-! ### Extracting -/

section extract

variable {archive : Archive C} {tree : Tree C} {name : List Char}

/-- A name of one segment is the path of the file, unless it is one of the two. -/
theorem extractPath_of_notMem (hslash : '/' ∉ name) (hne : name ≠ []) :
    extractPath name = if isDots name then [] else [name] := by
  have hsplit : name.splitOn '/' = [name] := by
    have h : (['/'].intercalate [name]).splitOn '/' = [name] :=
      List.splitOn_intercalate '/' (by simpa using hslash) (List.cons_ne_nil _ _)
    rwa [List.intercalate_singleton] at h
  unfold extractPath
  rw [hsplit]
  by_cases hdots : isDots name
  · simp [hdots]
  · simp [hdots, hne]

/-- The tree with a file written over what was there under its name. -/
def overwrite (tree : Tree C) (entry : List Char × C) : Tree C :=
  tree.filter (fun file => file.1 ≠ [entry.1]) ++ [([entry.1], entry.2)]

theorem extractEntry_eq {entry : List Char × C} (hslash : '/' ∉ entry.1) (hne : entry.1 ≠ []) :
    extractEntry tree entry = if isDots entry.1 then none else some (overwrite tree entry) := by
  unfold extractEntry
  dsimp only
  rw [if_neg fun h => hslash (List.mem_of_getLast? h), extractPath_of_notMem hslash hne]
  by_cases hdots : isDots entry.1
  · rw [if_pos hdots, if_pos rfl, if_pos hdots]
  · rw [if_neg hdots, if_neg (List.cons_ne_nil _ _), if_neg hdots]
    rfl

/-- The names are of one segment. -/
def Flat (archive : Archive C) : Prop := ∀ entry ∈ archive, '/' ∉ entry.1 ∧ entry.1 ≠ []

theorem foldlM_extractEntry (h : Flat archive) :
    archive.foldlM extractEntry tree =
      if ∃ entry ∈ archive, isDots entry.1 then none else some (archive.foldl overwrite tree) := by
  induction archive generalizing tree with
  | nil => simp
  | cons entry archive ih =>
    obtain ⟨hslash, hne⟩ := h entry List.mem_cons_self
    rw [List.foldlM_cons, extractEntry_eq hslash hne]
    have htail : Flat archive := fun e he => h e (List.mem_cons_of_mem _ he)
    by_cases hdots : isDots entry.1
    · rw [if_pos hdots, if_pos ⟨entry, List.mem_cons_self, hdots⟩]
      rfl
    · rw [if_neg hdots, Option.bind_eq_bind, Option.bind_some, ih htail, List.foldl_cons]
      simp only [List.mem_cons, exists_eq_or_imp, hdots, false_or]

theorem extractAll_eq (h : Flat archive) :
    extractAll archive =
      if ∃ entry ∈ archive, isDots entry.1 then none else some (archive.foldl overwrite []) :=
  foldlM_extractEntry h

/-- Every path of the tree is a name that was there, or one that was written. -/
theorem mem_foldl_overwrite {file : List (List Char) × C}
    (h : file ∈ archive.foldl overwrite tree) :
    file ∈ tree ∨ ∃ entry ∈ archive, file = ([entry.1], entry.2) := by
  induction archive generalizing tree with
  | nil => exact Or.inl h
  | cons entry archive ih =>
    rcases ih h with hmem | ⟨entry', hentry', heq⟩
    · rcases List.mem_append.1 hmem with hmem | hmem
      · exact Or.inl (List.mem_of_mem_filter hmem)
      · exact Or.inr ⟨entry, List.mem_cons_self, List.mem_singleton.1 hmem⟩
    · exact Or.inr ⟨entry', List.mem_cons_of_mem _ hentry', heq⟩

/-- No two files have one path. -/
theorem nodup_foldl_overwrite (h : (tree.map Prod.fst).Nodup) :
    ((archive.foldl overwrite tree).map Prod.fst).Nodup := by
  induction archive generalizing tree with
  | nil => exact h
  | cons entry archive ih =>
    apply ih
    unfold overwrite
    rw [List.map_append, List.nodup_append]
    refine ⟨(List.filter_sublist.map Prod.fst).nodup h, List.nodup_singleton _, ?_⟩
    rintro path hpath _ hlast rfl
    obtain ⟨file, hfile, rfl⟩ := List.mem_map.1 hpath
    have hne := of_decide_eq_true (List.mem_filter.1 hfile).2
    exact hne (List.mem_singleton.1 hlast)

/-- Under distinct names nothing is overwritten. -/
theorem foldl_overwrite_of_nodup (h : (archive.map Prod.fst).Nodup)
    (htree : ∀ entry ∈ archive, ∀ file ∈ tree, file.1 ≠ [entry.1]) :
    archive.foldl overwrite tree = tree ++ archive.map fun entry => ([entry.1], entry.2) := by
  induction archive generalizing tree with
  | nil => simp
  | cons entry archive ih =>
    rw [List.map_cons, List.nodup_cons] at h
    have hkeep : overwrite tree entry = tree ++ [([entry.1], entry.2)] := by
      unfold overwrite
      rw [List.filter_eq_self.2]
      intro file hfile
      exact decide_eq_true (htree entry List.mem_cons_self file hfile)
    rw [List.foldl_cons, ih h.2, hkeep, List.map_cons, List.append_assoc, List.singleton_append]
    intro entry' hentry' file hfile
    rw [hkeep] at hfile
    rcases List.mem_append.1 hfile with hfile | hfile
    · exact htree entry' (List.mem_cons_of_mem _ hentry') file hfile
    · rw [List.mem_singleton.1 hfile]
      intro heq
      refine h.1 (List.mem_map.2 ⟨entry', hentry', ?_⟩)
      exact (List.singleton_inj.1 heq).symm

end extract

/-! ### The two readers -/

section readers

variable {archive : Archive C}

theorem singleton_le_singleton {α : Type} [LinearOrder α] (a b : α) : [a] ≤ [b] ↔ a ≤ b := by
  have hle : [a] ≤ [b] ↔ [a] < [b] ∨ [a] = [b] := le_iff_lt_or_eq
  have hlt : [a] < [b] ↔ a < b := by
    rw [List.cons_lt_cons_iff]
    simp
  rw [hle, hlt, List.singleton_inj, le_iff_lt_or_eq]

/-- The entries in the order of their names. -/
def byName (archive : Archive C) : Archive C := archive.insertionSort fun a b => a.1 ≤ b.1

theorem byName_perm : (byName archive).Perm archive := List.perm_insertionSort _ _

theorem byName_ne_nil (h : archive ≠ []) : (byName archive).map Prod.snd ≠ [] := by
  rw [Ne, List.map_eq_nil_iff]
  intro hnil
  have hperm : (byName archive).Perm archive := byName_perm
  rw [hnil] at hperm
  exact h hperm.nil_eq.symm

theorem readEntry_of_nodup (h : (archive.map Prod.fst).Nodup) {entry : List Char × C}
    (hentry : entry ∈ archive) : readEntry archive entry.1 = some entry.2 := by
  have honly : archive.filter (fun e => e.1 = entry.1) = [entry] := by
    induction archive with
    | nil => cases hentry
    | cons first archive ih =>
      rw [List.map_cons, List.nodup_cons] at h
      rcases List.mem_cons.1 hentry with rfl | hentry
      · have hrest : archive.filter (fun e => e.1 = entry.1) = [] := by
          apply List.filter_eq_nil_iff.2
          intro e he heq
          exact h.1 (List.mem_map.2 ⟨e, he, of_decide_eq_true heq⟩)
        rw [List.filter_cons_of_pos (by simp), hrest]
      · have hne : first.1 ≠ entry.1 := fun heq => h.1 (List.mem_map.2 ⟨entry, hentry, heq.symm⟩)
        rw [List.filter_cons_of_neg (by simpa using hne), ih h.2 hentry]
  unfold readEntry
  rw [honly]
  rfl

/-- Reading gives the entries in the order of their names, if these are distinct. -/
theorem openNetcdfBundle_of_nodup (hflat : Flat archive) (h : (archive.map Prod.fst).Nodup)
    (hne : archive ≠ []) :
    openNetcdfBundle archive = some ((byName archive).map Prod.snd) := by
  have hnames : (archive.map Prod.fst).filter (fun name => name.getLast? ≠ some '/') =
      archive.map Prod.fst := by
    apply List.filter_eq_self.2
    intro name hname
    obtain ⟨entry, hentry, rfl⟩ := List.mem_map.1 hname
    exact decide_eq_true fun hlast => (hflat entry hentry).1 (List.mem_of_getLast? hlast)
  have hsorted : (archive.map Prod.fst).insertionSort (· ≤ ·) = (byName archive).map Prod.fst :=
    (List.map_insertionSort _ _ Prod.fst archive fun _ _ _ _ => Iff.rfl).symm
  have hread : ((byName archive).map Prod.fst).filterMap (readEntry archive) =
      (byName archive).map Prod.snd := by
    rw [List.filterMap_map, ← List.filterMap_eq_map]
    apply List.filterMap_congr
    intro entry hentry
    exact readEntry_of_nodup h ((List.mem_insertionSort _).1 hentry)
  unfold openNetcdfBundle
  dsimp only
  rw [hnames, hsorted, hread, if_neg (byName_ne_nil hne)]

/-- Extracting gives them in the same order, if nothing is written to the directory itself. -/
theorem openResultLazy_of_nodup (hflat : Flat archive) (h : (archive.map Prod.fst).Nodup)
    (hdots : ∀ entry ∈ archive, ¬ isDots entry.1) (hne : archive ≠ []) :
    openResultLazy archive = some ((byName archive).map Prod.snd) := by
  have htree : extractAll archive = some (archive.map fun entry => ([entry.1], entry.2)) := by
    rw [extractAll_eq hflat, if_neg fun ⟨entry, hentry, h⟩ => hdots entry hentry h,
      foldl_overwrite_of_nodup h fun _ _ _ hfile => absurd hfile List.not_mem_nil]
    rfl
  let file : List Char × C → List (List Char) × C := fun entry => ([entry.1], entry.2)
  have hfiles : (archive.map file).filter (fun f => f.1.length = 1) = archive.map file := by
    apply List.filter_eq_self.2
    intro f hf
    obtain ⟨entry, -, rfl⟩ := List.mem_map.1 hf
    exact decide_eq_true rfl
  have hsorted : (archive.map file).insertionSort (fun a b => a.1 ≤ b.1) =
      (byName archive).map file := by
    refine (List.map_insertionSort _ _ file archive ?_).symm
    intro a _ b _
    exact (singleton_le_singleton a.1 b.1).symm
  have hmembers : ((byName archive).map file).map Prod.snd = (byName archive).map Prod.snd := by
    rw [List.map_map]
    rfl
  unfold openResultLazy
  rw [htree, Option.bind_eq_bind, Option.bind_some]
  dsimp only
  rw [hfiles, hsorted, hmembers, if_neg (byName_ne_nil hne)]

/-- Where extracting gives as many members as there are entries, their names are distinct. -/
theorem nodup_of_openResultLazy (hflat : Flat archive) {members : List C}
    (h : openResultLazy archive = some members) (hlength : members.length = archive.length) :
    (archive.map Prod.fst).Nodup ∧ ∀ entry ∈ archive, ¬ isDots entry.1 := by
  unfold openResultLazy at h
  rw [extractAll_eq hflat] at h
  by_cases hdots : ∃ entry ∈ archive, isDots entry.1
  · rw [if_pos hdots] at h
    cases h
  · refine ⟨?_, fun entry hentry hd => hdots ⟨entry, hentry, hd⟩⟩
    rw [if_neg hdots, Option.bind_eq_bind, Option.bind_some] at h
    dsimp only at h
    set tree := archive.foldl overwrite [] with htree
    have hmembers : members =
        ((tree.filter fun f => f.1.length = 1).insertionSort fun a b => a.1 ≤ b.1).map Prod.snd := by
      split_ifs at h
      exact (Option.some.inj h).symm
    have hle : archive.length ≤ (tree.map Prod.fst).length := by
      rw [← hlength, hmembers, List.length_map, List.length_insertionSort, List.length_map]
      exact List.length_filter_le _ _
    have hnodup : (tree.map Prod.fst).Nodup := nodup_foldl_overwrite List.nodup_nil
    have hsub : tree.map Prod.fst ⊆ archive.map fun entry => [entry.1] := by
      intro path hpath
      obtain ⟨file, hfile, rfl⟩ := List.mem_map.1 hpath
      rcases mem_foldl_overwrite hfile with hmem | ⟨entry, hentry, rfl⟩
      · cases hmem
      · exact List.mem_map.2 ⟨entry, hentry, rfl⟩
    have hperm : (tree.map Prod.fst).Perm (archive.map fun entry => [entry.1]) := by
      apply (hnodup.subperm hsub).perm_of_length_le
      rw [List.length_map]
      exact hle
    have hpaths : ((archive.map Prod.fst).map fun name => [name]).Nodup := by
      rw [List.map_map]
      exact hperm.nodup_iff.1 hnodup
    exact hpaths.of_map _

end readers

/-! ### The round trip -/

section roundTrip

variable {fetched : List (List Char × C)}

theorem flat_writeBundle : Flat (writeBundle fetched) := by
  unfold Flat writeBundle
  rw [List.forall_mem_map]
  intro granule _
  dsimp only
  exact ⟨notMem_filenameFromUrl granule.1, filenameFromUrl_ne_nil granule.1⟩

theorem writeBundle_names :
    (writeBundle fetched).map Prod.fst = fetched.map fun granule => filenameFromUrl granule.1 := by
  simp only [writeBundle, List.map_map, Function.comp_def]

theorem writeBundle_contents : (writeBundle fetched).map Prod.snd = fetched.map Prod.snd := by
  simp only [writeBundle, List.map_map, Function.comp_def]

/-- A bundle makes the round trip if the names of its granules are distinct names of files. -/
theorem bundleRoundTrips_iff (hne : fetched ≠ []) :
    BundleRoundTrips fetched ↔
      (fetched.map fun granule => filenameFromUrl granule.1).Nodup ∧
        ∀ granule ∈ fetched, ¬ isDots (filenameFromUrl granule.1) := by
  have hbundle : writeBundle fetched ≠ [] := by
    unfold writeBundle
    rwa [Ne, List.map_eq_nil_iff]
  have hdots : (∀ entry ∈ writeBundle fetched, ¬ isDots entry.1) ↔
      ∀ granule ∈ fetched, ¬ isDots (filenameFromUrl granule.1) := by
    unfold writeBundle
    rw [List.forall_mem_map]
  rw [← writeBundle_names, ← hdots]
  constructor
  · rintro ⟨members, -, hlazy, hperm⟩
    apply nodup_of_openResultLazy flat_writeBundle hlazy
    rw [hperm.length_eq, ← writeBundle_contents, List.length_map]
  · rintro ⟨hnodup, hdots⟩
    refine ⟨_, openNetcdfBundle_of_nodup flat_writeBundle hnodup hbundle,
      openResultLazy_of_nodup flat_writeBundle hnodup hdots hbundle, ?_⟩
    have hperm : ((byName (writeBundle fetched)).map Prod.snd).Perm
        ((writeBundle fetched).map Prod.snd) := byName_perm.map Prod.snd
    rwa [writeBundle_contents] at hperm

/-- Two granules of different names. -/
theorem bundleRoundTrips_two :
    BundleRoundTrips
      [(['h', ':', '/', '/', 'a', '/', 'y'], 1), (['h', ':', '/', '/', 'a', '/', 'x'], 2)] := by
  have hy : filenameFromUrl ['h', ':', '/', '/', 'a', '/', 'y'] = ['y'] := by decide +kernel
  have hx : filenameFromUrl ['h', ':', '/', '/', 'a', '/', 'x'] = ['x'] := by decide +kernel
  apply (bundleRoundTrips_iff (List.cons_ne_nil _ _)).2
  simp only [List.map_cons, List.map_nil, List.forall_mem_cons, hy, hx]
  decide

/-- Two URLs of one name: reading gives the second granule twice, extracting gives it once. -/
theorem not_bundleRoundTrips :
    let fetched := [(['h', ':', '/', '/', 'a', '/', 'x', '?', 'p'], 1),
      (['h', ':', '/', '/', 'b', '/', 'x', '?', 'q'], 2)]
    openNetcdfBundle (writeBundle fetched) = some [2, 2] ∧
      openResultLazy (writeBundle fetched) = some [2] ∧ ¬ BundleRoundTrips fetched := by
  intro fetched
  have hp : filenameFromUrl ['h', ':', '/', '/', 'a', '/', 'x', '?', 'p'] = ['x'] := by
    decide +kernel
  have hq : filenameFromUrl ['h', ':', '/', '/', 'b', '/', 'x', '?', 'q'] = ['x'] := by
    decide +kernel
  have hbundle : writeBundle fetched = [(['x'], 1), (['x'], 2)] := by
    simp only [fetched, writeBundle, List.map_cons, List.map_nil, hp, hq]
  have hread : openNetcdfBundle (writeBundle fetched) = some [2, 2] := by
    rw [hbundle]
    decide +kernel
  have hlazy : openResultLazy (writeBundle fetched) = some [2] := by
    rw [hbundle]
    decide +kernel
  refine ⟨hread, hlazy, ?_⟩
  rintro ⟨members, -, hlazy', hperm⟩
  rw [hlazy] at hlazy'
  obtain rfl := Option.some.inj hlazy'
  exact absurd hperm.length_eq (by decide)

end roundTrip

end EarthdataMcp
