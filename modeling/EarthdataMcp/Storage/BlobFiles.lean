import EarthdataMcp.Storage.LocalFiles
import EarthdataMcp.Workspace.Store

/-!
# Blobs as files

The storage of the service is a map from keys to blobs.  Here it is what the local backend makes
of the keys the server writes: of a retrieval under its job handle, and of a transform under its
cache key.  Such a key has three names, so none lies below another.

* `Key.text` and `Key.place`, the key as it is written and where it leads;
* `Carries` and `AnswersAlike`, a method of the map as a call, and the answers of both;
* `blobs_on_disk`: in every run, the backend answers as the map does.
-/

namespace EarthdataMcp

open FileTree

/-! ### Keys -/

section keys

variable (handleName : HandleId → FileName)

/-- The text of an owner. -/
def KeyOwner.text : KeyOwner → List Char
  | jobHandle h => (handleName h).val
  | providerJob id => id.toList
  | result => "result".toList

/-- The key as it is written. -/
def Key.text : Key → List Char
  | retrieval provider owner name =>
      ['/'].intercalate [provider.name.toList, owner.text handleName, name.toList]
  | transform cacheKey name => ['/'].intercalate ["transform".toList, cacheKey.toList, name.toList]

/-- The directory of a provider. -/
def Provider.fileName (provider : Provider) : FileName :=
  ⟨provider.name.toList, by cases provider <;> decide⟩

/-- Where the key leads, from the root. -/
def Key.place : Key → Option FilePath
  | retrieval provider (.jobHandle h) name =>
      if hname : IsFileName name.toList then
        some [⟨name.toList, hname⟩, handleName h, provider.fileName]
      else none
  | retrieval _ _ _ => none
  | transform cacheKey name =>
      if hname : IsFileName name.toList then
        if hkey : IsFileName cacheKey.toList then
          some [⟨name.toList, hname⟩, ⟨cacheKey.toList, hkey⟩, ⟨"transform".toList, by decide⟩]
        else none
      else none

/-- The text of a prefix. -/
def Prefix.text : Prefix → List Char
  | harmony => "harmony/".toList
  | appeears => "appeears/".toList
  | opendap => "opendap/".toList
  | transform => "transform/".toList

variable {handleName} {k k' : Key} {rel : FilePath}

theorem Key.length_place (h : k.place handleName = some rel) : rel.length = 3 := by
  unfold Key.place at h
  split at h
  · split_ifs at h
    obtain rfl := Option.some.inj h
    rfl
  · cases h
  · split_ifs at h
    obtain rfl := Option.some.inj h
    rfl

/-- The key is written as the path it leads to. -/
theorem Key.text_eq (h : k.place handleName = some rel) : k.text handleName = asPosix rel := by
  unfold Key.place at h
  split at h
  · split_ifs at h
    obtain rfl := Option.some.inj h
    rfl
  · cases h
  · split_ifs at h
    obtain rfl := Option.some.inj h
    rfl

theorem Provider.name_inj {p q : Provider} (h : p.name = q.name) : p = q := by
  cases p <;> cases q <;> first | rfl | exact absurd h (by decide)

theorem Key.place_inj (hinj : Function.Injective handleName) (h : k.place handleName = some rel)
    (h' : k'.place handleName = some rel) : k = k' := by
  -- a result lies under the name of a provider, a cube under `transform`, which is none of these
  have htransform : ∀ p : Provider, p.name ≠ "transform" := by
    intro p
    cases p <;> decide
  unfold Key.place at h h'
  split at h
  · split_ifs at h
    obtain rfl := Option.some.inj h
    split at h'
    · split_ifs at h'
      simp only [Option.some.injEq, List.cons.injEq, Subtype.mk.injEq, String.toList_inj,
        Provider.fileName, and_true] at h'
      obtain ⟨rfl, hhandle, hprovider⟩ := h'
      rw [hinj hhandle, Provider.name_inj hprovider]
    · cases h'
    · split_ifs at h'
      simp only [Option.some.injEq, List.cons.injEq, Subtype.mk.injEq, String.toList_inj,
        Provider.fileName, and_true] at h'
      exact absurd h'.2.2.symm (htransform _)
  · cases h
  · split_ifs at h
    obtain rfl := Option.some.inj h
    split at h'
    · split_ifs at h'
      simp only [Option.some.injEq, List.cons.injEq, Subtype.mk.injEq, String.toList_inj,
        Provider.fileName, and_true] at h'
      exact absurd h'.2.2 (htransform _)
    · cases h'
    · split_ifs at h'
      simp only [Option.some.injEq, List.cons.injEq, Subtype.mk.injEq, String.toList_inj,
        and_true] at h'
      obtain ⟨rfl, rfl⟩ := h'
      rfl

/-- The prefixes of the orphan pass, as they are written. -/
theorem Key.startsWith_iff (h : k.place handleName = some rel) (pfx : Prefix) :
    k.startsWith pfx = true ↔ pfx.text <+: k.text handleName := by
  rw [← List.isPrefixOf_iff_prefix]
  unfold Key.place at h
  split at h
  · rename_i provider _ _
    cases provider <;> cases pfx <;> exact Iff.rfl
  · cases h
  · cases pfx <;> exact Iff.rfl

end keys

/-! ### Two storages -/

section together

variable (handleName : HandleId → FileName) (encode : Blob → Bytes) (b : LocalFilesystemBackend)

/-- The call carries the operation out.  A blob is given as its bytes, or as a file outside that
holds them. -/
inductive Carries (m : Shelf) : StorageOp → StorageCall → Prop
  | put {k : Key} {rel : FilePath} (blob : Blob) : k.place handleName = some rel →
      Carries m (.put k blob) (.put (k.text handleName) (encode blob))
  | putFile {k : Key} {rel : FilePath} (blob : Blob) {src : FilePath} :
      k.place handleName = some rel → ¬ b.root <:+ src → b.source m src = some (encode blob) →
      Carries m (.put k blob) (.putFile (k.text handleName) src)
  | get {k : Key} {rel : FilePath} : k.place handleName = some rel →
      Carries m (.get k) (.get (k.text handleName))
  | delete {k : Key} {rel : FilePath} : k.place handleName = some rel →
      Carries m (.delete k) (.delete (k.text handleName))
  | list (pfx : Prefix) : Carries m (.list pfx) (.list pfx.text)
  | stat {k : Key} {rel : FilePath} : k.place handleName = some rel →
      Carries m (.stat k) (.stat (k.text handleName))
  | uri {k : Key} {rel : FilePath} : k.place handleName = some rel →
      Carries m (.uri k) (.uri (k.text handleName))

/-- The map and the backend answer alike. -/
def AnswersAlike : (o : StorageOp) → Except Exn o.Ans → (c : StorageCall) →
    Except StorageError c.Ans → Prop
  | .put _ _, r, .put _ _, r' => r = .ok () ∧ r' = .ok ()
  | .put _ _, r, .putFile _ _, r' => r = .ok () ∧ r' = .ok ()
  | .get _, r, .get key, r' => (∃ blob, r = .ok blob ∧ r' = .ok (encode blob)) ∨
      (r = .error .missingKey ∧ r' = .error (.missingKey key))
  | .delete _, r, .delete _, r' => r = .ok () ∧ r' = .ok ()
  | .list _, r, .list _, r' => ∃ keys names, r = .ok keys ∧ r' = .ok names ∧
      names.Perm (keys.map (Key.text handleName))
  | .stat _, r, .stat key, r' => (∃ size, r = .ok size ∧ r' = .ok (key, size)) ∨
      (r = .error .missingKey ∧ r' = .error (.missingKey key))
  | .uri k, r, .uri key, r' => (∃ rel, k.place handleName = some rel ∧ r = .ok k ∧
      r' = .ok (asUri (rel ++ b.root))) ∨
      (r = .error .missingKey ∧ r' = .error (.missingKey key))
  | _, _, _, _ => False

/-- The map and the file system of a run, from a backend created on an empty root, without
directories in it either, while anything may happen outside the root. -/
inductive Together : BlobStore → Files → Prop
  | create {t₀ t : Files} {root : FilePath} :
      LocalFilesystemBackend.create t₀ root = (.ok b, t) →
      (∀ rel, rel ≠ [] → t.node (rel ++ b.root) = none) → Together {} t
  | step {s : BlobStore} {t : Files} {o : StorageOp} {c : StorageCall} : Together s t →
      Carries handleName encode b (b.shelf t) o c → Together (s.exec o).2 (b.exec t c).2
  | elsewhere {s : BlobStore} {t t' : Files} : Together s t →
      (∀ path, b.root <:+ path → t'.node path = t.node path) → Together s t'

/-- The blobs are the objects, and no object is in another's way. -/
structure Mirrors (s : BlobStore) (m : Shelf) : Prop where
  root : m.below [] = some .dir
  nodup : (s.blobs.map Prod.fst).Nodup
  placed : ∀ k : Key, s.Has k → (k.place handleName).isSome
  held : ∀ (k : Key) rel, k.place handleName = some rel → m.object rel = (s.find k).map encode
  owned : ∀ rel, (m.object rel).isSome → ∃ k : Key, k.place handleName = some rel
  dirs : ∀ rel, m.below rel = some .dir → rel.length < 3

variable {handleName encode b} {s : BlobStore} {m : Shelf} {k : Key} {rel : FilePath}

theorem place_text (h : k.place handleName = some rel) :
    b.place (k.text handleName) = .ok rel := by
  rw [Key.text_eq h]
  apply LocalFilesystemBackend.place_asPosix
  rintro rfl
  cases Key.length_place h

theorem object_lay {data : Bytes} (q : FilePath) : (m.lay rel (some (.file data))).object q =
    if q = rel then some data else if q <:+ rel then none else m.object q := by
  show ((if q = rel then some (Node.file data) else if q <:+ rel then some .dir
    else m.below q).bind Node.data?) = _
  split_ifs <;> rfl

theorem object_remove (q : FilePath) :
    (m.remove rel).object q = if q = rel then none else m.object q := by
  show ((if q = rel then none else m.below q).bind Node.data?) = _
  split_ifs <;> rfl

namespace Mirrors

theorem not_taken (h : Mirrors handleName encode s m) (hk : k.place handleName = some rel) :
    ¬ m.Taken rel := by
  rintro (hdir | ⟨q, hq, hne, hobject⟩)
  · have hlength := h.dirs rel hdir
    rw [Key.length_place hk] at hlength
    omega
  · obtain ⟨k', hk'⟩ := h.owned q hobject
    exact hne (hq.eq_of_length ((Key.length_place hk').trans (Key.length_place hk).symm))

theorem find_eq (h : Mirrors handleName encode s m) (hk : k.place handleName = some rel) :
    b.find m (k.text handleName) = match s.find k with
      | some blob => .ok (rel, encode blob)
      | none => .error (.missingKey (k.text handleName)) := by
  unfold LocalFilesystemBackend.find
  rw [place_text hk]
  dsimp only [bind, Except.bind]
  rw [h.held k rel hk]
  cases s.find k <;> rfl

theorem put (hinj : Function.Injective handleName) (h : Mirrors handleName encode s m)
    (hk : k.place handleName = some rel) (blob : Blob) :
    Mirrors handleName encode (s.exec (.put k blob)).2 (m.lay rel (some (.file (encode blob)))) := by
  have hrel : rel.length = 3 := Key.length_place hk
  constructor
  case root =>
    show (if [] = rel then _ else if [] <:+ rel then some Node.dir else m.below []) = _
    rw [if_neg (by rintro rfl; cases hrel), if_pos List.nil_suffix]
  case nodup =>
    show (k :: (s.without k).map Prod.fst).Nodup
    refine List.nodup_cons.2 ⟨?_, (List.filter_sublist.map Prod.fst).nodup h.nodup⟩
    intro hmem
    obtain ⟨entry, hentry, rfl⟩ := List.mem_map.1 hmem
    simpa using (List.mem_filter.1 hentry).2
  case placed =>
    intro k' hk'
    rcases (BlobStore.has_put s k blob k').1 hk' with rfl | hhas
    · rw [hk]
      rfl
    · exact h.placed k' hhas
  case held =>
    intro k' rel' hk'
    rw [object_lay, BlobStore.find_put]
    by_cases heq : k' = k
    · subst heq
      obtain rfl := Option.some.inj (hk.symm.trans hk')
      rw [if_pos rfl, if_pos rfl]
      rfl
    · -- all places are of one length, so none is above another
      have hne : rel' ≠ rel := by
        rintro rfl
        exact heq (Key.place_inj hinj hk' hk)
      have hapart : ¬ rel' <:+ rel := fun hsuffix =>
        hne (hsuffix.eq_of_length ((Key.length_place hk').trans hrel.symm))
      rw [if_neg hne, if_neg hapart, if_neg heq, h.held k' rel' hk']
  case owned =>
    intro q hq
    rw [object_lay] at hq
    split_ifs at hq with hself hsuffix
    · exact ⟨k, by rw [hself, hk]⟩
    · cases hq
    · exact h.owned q hq
  case dirs =>
    intro q hq
    change (if q = rel then some (Node.file (encode blob)) else if q <:+ rel then some Node.dir
      else m.below q) = some Node.dir at hq
    split_ifs at hq with hself hsuffix
    · cases hq
    · have hle := hsuffix.length_le
      have hne : q.length ≠ rel.length := fun heq => hself (hsuffix.eq_of_length heq)
      omega
    · exact h.dirs q hq

theorem delete (hinj : Function.Injective handleName) (h : Mirrors handleName encode s m)
    (hk : k.place handleName = some rel) :
    Mirrors handleName encode (s.exec (.delete k)).2 (m.remove rel) := by
  have hrel : rel.length = 3 := Key.length_place hk
  constructor
  case root =>
    show (if [] = rel then none else m.below []) = _
    rw [if_neg (by rintro rfl; cases hrel), h.root]
  case nodup => exact (List.filter_sublist.map Prod.fst).nodup h.nodup
  case placed =>
    intro k' hk'
    exact h.placed k' ((BlobStore.has_delete s k k').1 hk').2
  case held =>
    intro k' rel' hk'
    rw [object_remove, BlobStore.find_delete_cases]
    by_cases heq : k' = k
    · subst heq
      obtain rfl := Option.some.inj (hk.symm.trans hk')
      rw [if_pos rfl, if_pos rfl]
      rfl
    · have hne : rel' ≠ rel := by
        rintro rfl
        exact heq (Key.place_inj hinj hk' hk)
      rw [if_neg hne, if_neg heq, h.held k' rel' hk']
  case owned =>
    intro q hq
    rw [object_remove] at hq
    split_ifs at hq with hself
    · cases hq
    · exact h.owned q hq
  case dirs =>
    intro q hq
    change (if q = rel then none else m.below q) = some Node.dir at hq
    split_ifs at hq with hself
    exact h.dirs q hq

/-- The keys the map lists are the names the backend lists. -/
theorem list (h : Mirrors handleName encode s m) (hinj : Function.Injective handleName)
    (pfx : Prefix) {names : List (List Char)} (hsorted : names.Pairwise (· < ·))
    (hnames : ∀ key, key ∈ names ↔ pfx.text <+: key ∧
      ∃ rel, (m.object rel).isSome ∧ key = asPosix rel ∧ b.place key = .ok rel) :
    names.Perm (((s.blobs.map Prod.fst).filter fun k => k.startsWith pfx).map
      (Key.text handleName)) := by
  have hnodup : names.Nodup := hsorted.imp fun hlt => ne_of_lt hlt
  have hnodup' : (((s.blobs.map Prod.fst).filter fun k => k.startsWith pfx).map
      (Key.text handleName)).Nodup := by
    refine List.Nodup.map_on ?_ (h.nodup.filter _)
    intro k hk k' hk' heq
    obtain ⟨rel, hrel⟩ := Option.isSome_iff_exists.1 (h.placed k (List.mem_of_mem_filter hk))
    obtain ⟨rel', hrel'⟩ := Option.isSome_iff_exists.1 (h.placed k' (List.mem_of_mem_filter hk'))
    have hsame := place_text (b := b) hrel
    rw [heq, place_text hrel'] at hsame
    obtain rfl := Except.ok.inj hsame
    exact Key.place_inj hinj hrel hrel'
  refine (List.perm_ext_iff_of_nodup hnodup hnodup').2 fun key => ?_
  rw [hnames, List.mem_map]
  constructor
  · rintro ⟨hpfx, rel, hobject, rfl, hplace⟩
    obtain ⟨k, hk⟩ := h.owned rel hobject
    rw [← Key.text_eq hk] at hpfx ⊢
    refine ⟨k, List.mem_filter.2 ⟨?_, (Key.startsWith_iff hk pfx).2 hpfx⟩, rfl⟩
    rw [h.held k rel hk, Option.isSome_map] at hobject
    obtain ⟨blob, hblob⟩ := Option.isSome_iff_exists.1 hobject
    exact (BlobStore.has_iff_find s k).2 (by rw [hblob]; rfl)
  · rintro ⟨k, hk, rfl⟩
    obtain ⟨hmem, hpfx⟩ := List.mem_filter.1 hk
    obtain ⟨rel, hrel⟩ := Option.isSome_iff_exists.1 (h.placed k hmem)
    refine ⟨(Key.startsWith_iff hrel pfx).1 hpfx, rel, ?_, Key.text_eq hrel, place_text hrel⟩
    rw [h.held k rel hrel, Option.isSome_map]
    exact (BlobStore.has_iff_find s k).1 hmem

/-- One operation, carried out. -/
theorem step (hinj : Function.Injective handleName)
    (hsize : ∀ blob, (encode blob).length = blob.size) (h : Mirrors handleName encode s m)
    {o : StorageOp} {c : StorageCall} {r : Except StorageError c.Ans} {m' : Shelf}
    (hc : Carries handleName encode b m o c) (hmeets : b.Meets m c r m') :
    AnswersAlike handleName encode b o (s.exec o).1 c r ∧
      Mirrors handleName encode (s.exec o).2 m' := by
  cases hc with
  | put blob hk =>
    simp only [LocalFilesystemBackend.Meets, place_text hk] at hmeets
    obtain ⟨-, rfl, rfl⟩ := hmeets.resolve_left fun htaken => h.not_taken hk htaken.1
    exact ⟨⟨rfl, rfl⟩, h.put hinj hk blob⟩
  | putFile blob hk hsrc hsource =>
    -- the file at the source holds the blob, and is not the place itself
    simp only [LocalFilesystemBackend.Meets, place_text hk] at hmeets
    obtain ⟨-, hput⟩ := hmeets.resolve_left fun htaken => h.not_taken hk htaken.1
    rcases hput with ⟨data, hdata, -, rfl, rfl⟩ | ⟨hnone | rfl, -⟩
    · obtain rfl := Option.some.inj (hsource.symm.trans hdata)
      exact ⟨⟨rfl, rfl⟩, h.put hinj hk blob⟩
    · rw [hsource] at hnone
      cases hnone
    · exact absurd (List.suffix_append _ b.root) hsrc
  | get hk =>
    rename_i k rel
    obtain ⟨rfl, rfl⟩ := hmeets
    rw [h.find_eq hk]
    cases hfind : s.find k with
    | none => exact ⟨Or.inr ⟨by simp only [BlobStore.exec, hfind], rfl⟩, by
        simpa only [BlobStore.exec, hfind] using h⟩
    | some blob => exact ⟨Or.inl ⟨blob, by simp only [BlobStore.exec, hfind], rfl⟩, by
        simpa only [BlobStore.exec, hfind] using h⟩
  | delete hk =>
    simp only [LocalFilesystemBackend.Meets, place_text hk] at hmeets
    obtain ⟨-, rfl, rfl⟩ := hmeets.resolve_left fun htaken => h.not_taken hk htaken.1
    exact ⟨⟨rfl, rfl⟩, h.delete hinj hk⟩
  | list pfx =>
    obtain ⟨rfl, names, rfl, hsorted, hnames⟩ := hmeets
    exact ⟨⟨_, names, rfl, rfl, h.list hinj pfx hsorted hnames⟩, h⟩
  | stat hk =>
    rename_i k rel
    obtain ⟨rfl, rfl⟩ := hmeets
    rw [h.find_eq hk]
    cases hfind : s.find k with
    | none => exact ⟨Or.inr ⟨by simp only [BlobStore.exec, hfind], rfl⟩, by
        simpa only [BlobStore.exec, hfind] using h⟩
    | some blob => exact ⟨Or.inl ⟨blob.size, by simp only [BlobStore.exec, hfind], by
        rw [← hsize]; rfl⟩, by simpa only [BlobStore.exec, hfind] using h⟩
  | uri hk =>
    rename_i k rel
    obtain ⟨rfl, rfl⟩ := hmeets
    rw [h.find_eq hk]
    have hhas := BlobStore.has_iff_find s k
    cases hfind : s.find k with
    | none =>
      have hnot : ¬ s.Has k := fun h => by simpa [hfind] using hhas.1 h
      exact ⟨Or.inr ⟨by simp only [BlobStore.exec, if_neg hnot], rfl⟩, by
        simpa only [BlobStore.exec, if_neg hnot] using h⟩
    | some blob =>
      have hthere : s.Has k := hhas.2 (by rw [hfind]; rfl)
      exact ⟨Or.inl ⟨rel, hk, by simp only [BlobStore.exec, if_pos hthere], rfl⟩, by
        simpa only [BlobStore.exec, if_pos hthere] using h⟩

end Mirrors

/-- In every run the blobs of the map are the files below the root. -/
theorem mirrors_of_together (hinj : Function.Injective handleName)
    (hsize : ∀ blob, (encode blob).length = blob.size) {t : Files}
    (h : Together handleName encode b s t) : Mirrors handleName encode s (b.shelf t) := by
  induction h with
  | @create t₀ t root hcreate hfresh =>
    have hroot : (b.shelf t).below [] = some .dir :=
      LocalFilesystemBackend.node_root_of_create hcreate
    have hnone : ∀ rel, rel ≠ [] → (b.shelf t).below rel = none := hfresh
    have hobject : ∀ rel, (b.shelf t).object rel = none := by
      intro rel
      by_cases hrel : rel = []
      · rw [Shelf.object, hrel, hroot]
        rfl
      · rw [Shelf.object, hnone rel hrel]
        rfl
    refine ⟨hroot, List.nodup_nil, fun k hk => (by cases hk), fun k rel _ => hobject rel,
      fun rel hrel => ?_, fun rel hdir => ?_⟩
    · rw [hobject] at hrel
      cases hrel
    · by_cases hrel : rel = []
      · subst hrel
        decide
      · rw [hnone rel hrel] at hdir
        cases hdir
  | step _ hc ih =>
    exact (ih.step hinj hsize hc (LocalFilesystemBackend.exec_meets ih.root _)).2
  | @elsewhere s t t' _ hsame ih =>
    have hbelow : (b.shelf t').below = (b.shelf t).below :=
      funext fun rel => hsame _ (List.suffix_append rel b.root)
    exact ⟨by rw [hbelow]; exact ih.root, ih.nodup, ih.placed,
      fun k rel hk => by rw [Shelf.object, hbelow]; exact ih.held k rel hk,
      fun rel hrel => ih.owned rel (by rwa [Shelf.object, hbelow] at hrel),
      fun rel hdir => ih.dirs rel (by rwa [hbelow] at hdir)⟩

/-- In every run the backend answers as the map does. -/
theorem blobs_on_disk (hinj : Function.Injective handleName)
    (hsize : ∀ blob, (encode blob).length = blob.size) {t : Files}
    (h : Together handleName encode b s t) {o : StorageOp} {c : StorageCall}
    (hc : Carries handleName encode b (b.shelf t) o c) :
    AnswersAlike handleName encode b o (s.exec o).1 c (b.exec t c).1 := by
  have hmirrors := mirrors_of_together hinj hsize h
  exact (hmirrors.step hinj hsize hc (LocalFilesystemBackend.exec_meets hmirrors.root c)).1

end together

/-- The prefix of the handles of a type. -/
def HandleType.value : HandleType → String
  | dataset => "dataset"
  | aoi => "aoi"
  | query => "query"
  | obs => "obs"
  | cube => "cube"
  | preview => "preview"
  | job => "job"

theorem HandleType.value_inj {type type' : HandleType} (h : type.value = type'.value) :
    type = type' := by
  cases type <;> cases type' <;> first | rfl | exact absurd h (by decide)

/-- A name for every handle, with as many digits as it takes to tell the suffixes apart. -/
def unaryName (h : HandleId) : FileName :=
  ⟨h.type.value.toList ++ '_' :: List.replicate h.suffix 'f', by
    cases h.type <;> simp [IsFileName, HandleType.value, List.mem_replicate]⟩

theorem unaryName_injective : Function.Injective unaryName := by
  intro h h' heq
  have htype : ∀ type : HandleType, '_' ∉ type.value.toList := by
    intro type
    cases type <;> decide
  obtain ⟨hvalue, hsuffix⟩ := Text.cut_unique (htype h.type) (htype h'.type)
    (Subtype.mk.inj heq)
  have hlength := congrArg List.length hsuffix
  rw [List.length_replicate, List.length_replicate] at hlength
  obtain ⟨type, suffix⟩ := h
  obtain ⟨type', suffix'⟩ := h'
  obtain rfl : suffix = suffix' := hlength
  obtain rfl : type = type' := HandleType.value_inj (String.toList_inj.1 hvalue)
  rfl

/-- A transform's blob is stored and read. -/
theorem blobs_on_disk_transform : ∃ b s t,
    Together unaryName (fun blob => List.replicate blob.size 0) b s t ∧
      AnswersAlike unaryName (fun blob => List.replicate blob.size 0) b
        (.get (.transform "c1" "a.nc")) (.ok ⟨2, "ab", none, none⟩)
        (.get "transform/c1/a.nc".toList) (.ok [0, 0]) := by
  have hsize : ∀ blob : Blob, (List.replicate blob.size (0 : UInt8)).length = blob.size :=
    fun blob => List.length_replicate
  let root : FilePath := [⟨['d'], by decide⟩]
  have hcreate : LocalFilesystemBackend.create .empty root =
      (.ok ⟨root⟩, (LocalFilesystemBackend.create .empty root).2) := rfl
  have hfresh : ∀ rel, rel ≠ [] →
      (LocalFilesystemBackend.create .empty root).2.node (rel ++ root) = none := by
    intro rel hrel
    obtain ⟨name, rel, rfl⟩ := List.exists_cons_of_ne_nil hrel
    rw [(LocalFilesystemBackend.create_spec hcreate).2, if_neg, List.cons_append, Tree.node_empty]
    intro h
    have hlength := h.length_le
    rw [List.length_append, List.length_cons] at hlength
    omega
  have hput : Carries unaryName (fun blob => List.replicate blob.size 0) ⟨root⟩
      (LocalFilesystemBackend.shelf ⟨root⟩ (LocalFilesystemBackend.create .empty root).2)
      (.put (.transform "c1" "a.nc") ⟨2, "ab", none, none⟩)
      (.put "transform/c1/a.nc".toList [0, 0]) := .put _ rfl
  have hrun := Together.step (.create hcreate hfresh) hput
  exact ⟨_, _, _, hrun, blobs_on_disk unaryName_injective hsize hrun (.get rfl)⟩

end EarthdataMcp
