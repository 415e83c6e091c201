import EarthdataMcp.Providers.Identity
import EarthdataMcp.Workspace.Handle

/-!
# The workspace store and the blob storage

* `HandleTable`, the `handles` table in order of creation, with `HandleOp`, the methods of
  `WorkspaceStore`, each one transaction;
* `BlobStore`, the storage backend, with `StorageOp`;
* what an operation leaves in place: rows keep their identity, their workspace and their
  signature.
-/

namespace EarthdataMcp

/-- The `handles` table, and the next suffix to mint. -/
structure HandleTable where
  rows : List Handle := []
  next : ℕ := 0

/-- The methods of `WorkspaceStore`. -/
inductive HandleOp
  | getHandle (ws : WorkspaceId) (h : HandleId)
  | findBySignature (ws : WorkspaceId) (signature : String)
  | listHandles (ws : WorkspaceId) (type : HandleType)
  /-- The sweep's own query: every `obs_` and `cube_` handle, of every workspace. -/
  | selectEvictable
  | putHandle (ws : WorkspaceId) (type : HandleType) (payload : Payload)
  /-- The insert of `put_handle_unique_signature`; `none` when the unique index refuses it. -/
  | insertUnique (ws : WorkspaceId) (type : HandleType) (payload : Payload)
  | updateHandle (ws : WorkspaceId) (h : HandleId) (update : PayloadUpdate)
  | touchHandle (ws : WorkspaceId) (h : HandleId)

/-- What each method answers. -/
@[reducible] def HandleOp.Ans : HandleOp → Type
  | getHandle _ _ => Handle
  | findBySignature _ _ => Option Handle
  | listHandles _ _ => List Handle
  | selectEvictable => List Handle
  | putHandle _ _ _ => HandleId
  | insertUnique _ _ _ => Option Handle
  | updateHandle _ _ _ => Handle
  | touchHandle _ _ => Unit

/-- An `obs_` handle of the workspace with this signature. -/
def Handle.hasSignature (ws : WorkspaceId) (signature : String) (row : Handle) : Bool :=
  row.workspaceId = ws && row.handle.type = .obs && row.payload.signature = some signature

/-- The row of a handle, checked against the workspace. -/
def HandleTable.lookup (t : HandleTable) (ws : WorkspaceId) (h : HandleId) : Except Exn Handle :=
  match t.rows.find? fun row => row.handle = h with
  | none => .error (.handleNotFound h)
  | some row => if row.workspaceId = ws then .ok row else .error (.crossWorkspace h)

/-- The row of a handle, if there is one. -/
def HandleTable.row (t : HandleTable) (h : HandleId) : Option Handle :=
  t.rows.find? fun row => row.handle = h

/-- Change the row of a handle. -/
def HandleTable.modify (t : HandleTable) (h : HandleId) (f : Handle → Handle) : HandleTable :=
  { t with rows := t.rows.map fun row => if row.handle = h then f row else row }

/-- Append a freshly minted row. -/
def HandleTable.mint (t : HandleTable) (now : Time) (ws : WorkspaceId) (type : HandleType)
    (payload : Payload) : Handle × HandleTable :=
  let row : Handle := { handle := ⟨type, t.next⟩, workspaceId := ws, payload, updatedAt := now }
  (row, { rows := t.rows ++ [row], next := t.next + 1 })

/-- The write of `update_handle` to one row; a payload that stays the same is not written. -/
def Handle.updated (now : Time) (u : PayloadUpdate) (row : Handle) : Handle :=
  if row.payload.merge u = row.payload then row
  else { row with payload := row.payload.merge u, updatedAt := now }

/-- The write of `touch_handle` to one row. -/
def Handle.touched (now : Time) (row : Handle) : Handle :=
  { row with lastAccessedAt := some now, updatedAt := now }

/-- The effect of a method on the table. -/
def HandleTable.exec (now : Time) (t : HandleTable) :
    (o : HandleOp) → Except Exn o.Ans × HandleTable
  | .getHandle ws h => (t.lookup ws h, t)
  | .findBySignature ws signature =>
      (.ok (t.rows.filter (Handle.hasSignature ws signature)).getLast?, t)
  | .listHandles ws type =>
      (.ok (t.rows.filter fun row => row.workspaceId = ws && row.handle.type = type), t)
  | .selectEvictable => (.ok (t.rows.filter fun row => row.handle.evictable), t)
  | .putHandle ws type payload =>
      (.ok (t.mint now ws type payload).1.handle, (t.mint now ws type payload).2)
  | .insertUnique ws type payload =>
      match payload.signature with
      | some signature =>
          if t.rows.any (Handle.hasSignature ws signature) then (.ok none, t)
          else
            (.ok (some (t.mint now ws type payload).1), (t.mint now ws type payload).2)
      | none => (.ok (some (t.mint now ws type payload).1), (t.mint now ws type payload).2)
  | .updateHandle ws h u =>
      match t.lookup ws h with
      | .error e => (.error e, t)
      | .ok row => (.ok (row.updated now u), t.modify h (Handle.updated now u))
  | .touchHandle ws h =>
      match t.lookup ws h with
      | .error e => (.error e, t)
      | .ok _ => (.ok (), t.modify h (Handle.touched now))

theorem HandleTable.lookup_eq_ok {t : HandleTable} {ws : WorkspaceId} {h : HandleId}
    {row : Handle} (hl : t.lookup ws h = .ok row) :
    row ∈ t.rows ∧ row.handle = h ∧ row.workspaceId = ws := by
  unfold lookup at hl
  split at hl
  · cases hl
  · rename_i r hr
    split_ifs at hl with hws
    obtain rfl := Except.ok.inj hl
    exact ⟨List.mem_of_find?_eq_some hr, by simpa using List.find?_some hr, hws⟩

theorem HandleTable.lookup_eq_ok_iff {t : HandleTable} {ws : WorkspaceId} {h : HandleId}
    {row : Handle} : t.lookup ws h = .ok row ↔ t.row h = some row ∧ row.workspaceId = ws := by
  unfold lookup HandleTable.row
  cases t.rows.find? fun row => row.handle = h with
  | none => simp
  | some r =>
    dsimp only
    split_ifs with hws
    · rw [Except.ok.injEq, Option.some.injEq]
      exact ⟨fun heq => ⟨heq, heq ▸ hws⟩, fun heq => heq.1⟩
    · constructor
      · intro heq
        cases heq
      · rintro ⟨heq, rfl⟩
        exact absurd (congrArg Handle.workspaceId (Option.some.inj heq)) hws

theorem HandleTable.row_handle {t : HandleTable} {h : HandleId} {row : Handle}
    (hrow : t.row h = some row) : row.handle = h := by
  simpa using List.find?_some hrow

/-- A change of one row leaves every other row as it is. -/
theorem HandleTable.row_modify {t : HandleTable} {h : HandleId} {f : Handle → Handle}
    (hf : ∀ row, (f row).handle = row.handle) (h' : HandleId) :
    (t.modify h f).row h' = (t.row h').map fun row => if row.handle = h then f row else row := by
  have hkey (row : Handle) : (if row.handle = h then f row else row).handle = row.handle := by
    split_ifs
    · exact hf row
    · rfl
  show (t.rows.map _).find? _ = _
  rw [List.find?_map]
  simp only [Function.comp_def, hkey]
  rfl

@[simp] theorem Handle.updated_handle (now : Time) (u : PayloadUpdate) (row : Handle) :
    (row.updated now u).handle = row.handle := by
  unfold Handle.updated
  split_ifs <;> rfl

@[simp] theorem Handle.updated_workspaceId (now : Time) (u : PayloadUpdate) (row : Handle) :
    (row.updated now u).workspaceId = row.workspaceId := by
  unfold Handle.updated
  split_ifs <;> rfl

@[simp] theorem Handle.updated_payload (now : Time) (u : PayloadUpdate) (row : Handle) :
    (row.updated now u).payload = row.payload.merge u := by
  unfold Handle.updated
  split_ifs with h
  · exact h.symm
  · rfl

namespace HandleTable

variable {t : HandleTable}

theorem row_updated (now : Time) (u : PayloadUpdate) (h h' : HandleId) :
    (t.modify h (Handle.updated now u)).row h' =
      if h' = h then (t.row h).map (Handle.updated now u) else t.row h' := by
  rw [row_modify (fun row => Handle.updated_handle now u row)]
  split_ifs with heq
  · subst heq
    cases hrow : t.row h' with
    | none => rfl
    | some row => simp [row_handle hrow]
  · cases hrow : t.row h' with
    | none => rfl
    | some row => simp [row_handle hrow, heq]

theorem row_touched (now : Time) (h h' : HandleId) :
    (t.modify h (Handle.touched now)).row h' =
      if h' = h then (t.row h).map (Handle.touched now) else t.row h' := by
  rw [row_modify (f := Handle.touched now) fun row => rfl]
  split_ifs with heq
  · subst heq
    cases hrow : t.row h' with
    | none => rfl
    | some row => simp [row_handle hrow]
  · cases hrow : t.row h' with
    | none => rfl
    | some row => simp [row_handle hrow, heq]

/-! ### Handles are numbered -/

/-- The rows are numbered in the order in which they were minted. -/
def Numbered (t : HandleTable) : Prop :=
  t.rows.map (fun row => row.handle.suffix) = List.range t.next

theorem Numbered.lt (h : t.Numbered) {row : Handle} (hrow : row ∈ t.rows) :
    row.handle.suffix < t.next := by
  have hmem : row.handle.suffix ∈ t.rows.map fun row => row.handle.suffix :=
    List.mem_map_of_mem hrow
  rw [h] at hmem
  exact List.mem_range.1 hmem

/-- The row of a handle is the only one with that handle. -/
theorem Numbered.row_eq (h : t.Numbered) {row : Handle} (hrow : row ∈ t.rows) :
    t.row row.handle = some row := by
  have hnodup : (t.rows.map fun row => row.handle.suffix).Nodup := by
    rw [h]
    exact List.nodup_range
  cases hfind : t.row row.handle with
  | none => exact absurd (List.find?_eq_none.1 hfind row hrow) (by simp)
  | some row' =>
    have hid : row'.handle.suffix = row.handle.suffix := by rw [row_handle hfind]
    rw [List.inj_on_of_nodup_map hnodup (List.mem_of_find?_eq_some hfind) hrow hid]

/-- A suffix that has not been minted yet has no row. -/
theorem Numbered.row_next (h : t.Numbered) (type : HandleType) : t.row ⟨type, t.next⟩ = none := by
  refine List.find?_eq_none.2 fun row hrow => ?_
  simp only [decide_eq_true_eq]
  rintro heq
  have hlt := h.lt hrow
  rw [heq] at hlt
  exact lt_irrefl _ hlt

theorem row_mint (now : Time) (ws : WorkspaceId) (type : HandleType) (payload : Payload)
    (h : HandleId) :
    (t.mint now ws type payload).2.row h =
      (t.row h).or (if h = ⟨type, t.next⟩ then some (t.mint now ws type payload).1 else none) := by
  show (t.rows ++ [_]).find? _ = _
  rw [List.find?_append, List.find?_singleton]
  congr 1
  by_cases h' : h = ⟨type, t.next⟩
  · subst h'
    simp only [decide_true, if_true]
    rfl
  · rw [if_neg h', if_neg (by simpa using Ne.symm h')]

theorem Numbered.modify (ht : t.Numbered) {h : HandleId} {f : Handle → Handle}
    (hf : ∀ row, (f row).handle = row.handle) : (t.modify h f).Numbered := by
  show (t.rows.map _).map _ = List.range t.next
  rw [List.map_map, ← ht]
  refine List.map_congr_left fun row _ => ?_
  show (if row.handle = h then f row else row).handle.suffix = _
  split_ifs
  · rw [hf]
  · rfl

theorem Numbered.mint (ht : t.Numbered) (now : Time) (ws : WorkspaceId) (type : HandleType)
    (payload : Payload) : (t.mint now ws type payload).2.Numbered := by
  show (t.rows ++ [_]).map _ = List.range (t.next + 1)
  rw [List.map_append, ht, List.range_succ]
  rfl

/-- The unique index refuses a signature that is held, and lets any other in. -/
theorem exec_insertUnique (now : Time) (ws : WorkspaceId) (type : HandleType) (payload : Payload) :
    (∃ signature, payload.signature = some signature ∧
        t.rows.any (Handle.hasSignature ws signature) = true) ∧
      t.exec now (.insertUnique ws type payload) = (.ok none, t) ∨
    (∀ signature, payload.signature = some signature →
        t.rows.any (Handle.hasSignature ws signature) = false) ∧
      t.exec now (.insertUnique ws type payload) =
        (.ok (some (t.mint now ws type payload).1), (t.mint now ws type payload).2) := by
  cases hsig : payload.signature with
  | none => exact Or.inr ⟨fun _ h => (by cases h), by simp only [exec, hsig]⟩
  | some signature =>
    cases hany : t.rows.any (Handle.hasSignature ws signature) with
    | true =>
      exact Or.inl ⟨⟨signature, rfl, hany⟩, by simp only [exec, hsig, hany, if_true]⟩
    | false =>
      refine Or.inr ⟨?_, by simp [exec, hsig, hany]⟩
      rintro _ ⟨⟩
      exact hany

/-- A method changes one row, mints one, or changes nothing. -/
theorem exec_cases (now : Time) (o : HandleOp) :
    (t.exec now o).2 = t ∨
      (∃ ws h u row, o = .updateHandle ws h u ∧ t.lookup ws h = .ok row ∧
        (t.exec now o).2 = t.modify h (Handle.updated now u)) ∨
      (∃ ws h, o = .touchHandle ws h ∧ (t.exec now o).2 = t.modify h (Handle.touched now)) ∨
      ∃ ws type payload, (o = .putHandle ws type payload ∨ o = .insertUnique ws type payload) ∧
        (t.exec now o).2 = (t.mint now ws type payload).2 := by
  cases o with
  | updateHandle ws h u =>
    cases hl : t.lookup ws h with
    | error e => exact Or.inl (by simp only [exec, hl])
    | ok row => exact Or.inr (Or.inl ⟨ws, h, u, row, rfl, hl, by simp only [exec, hl]⟩)
  | touchHandle ws h =>
    cases hl : t.lookup ws h with
    | error e => exact Or.inl (by simp only [exec, hl])
    | ok row => exact Or.inr (Or.inr (Or.inl ⟨ws, h, rfl, by simp only [exec, hl]⟩))
  | putHandle ws type payload =>
    exact Or.inr (Or.inr (Or.inr ⟨ws, type, payload, Or.inl rfl, rfl⟩))
  | insertUnique ws type payload =>
    rcases exec_insertUnique (t := t) now ws type payload with ⟨-, h⟩ | ⟨-, h⟩
    · exact Or.inl (congrArg Prod.snd h)
    · exact Or.inr (Or.inr (Or.inr ⟨ws, type, payload, Or.inr rfl, congrArg Prod.snd h⟩))
  | _ => exact Or.inl rfl

theorem Numbered.exec (ht : t.Numbered) (now : Time) (o : HandleOp) :
    (t.exec now o).2.Numbered := by
  rcases exec_cases (t := t) now o with h | ⟨ws, h, u, row, -, -, heq⟩ | ⟨ws, h, -, heq⟩ |
    ⟨ws, type, payload, -, heq⟩
  · rw [h]
    exact ht
  · rw [heq]
    exact ht.modify fun row => Handle.updated_handle now u row
  · rw [heq]
    exact ht.modify fun row => rfl
  · rw [heq]
    exact ht.mint now ws type payload

end HandleTable

/-! ### The blob storage -/

/-- The storage backend: its blobs by key. -/
structure BlobStore where
  blobs : List (Key × Blob) := []

/-- The methods of the storage backend. -/
inductive StorageOp
  | put (key : Key) (blob : Blob)
  | get (key : Key)
  | delete (key : Key)
  | list (pfx : Prefix)
  | stat (key : Key)
  | uri (key : Key)

/-- What each method answers; `stat` answers the size. -/
@[reducible] def StorageOp.Ans : StorageOp → Type
  | put _ _ => Unit
  | get _ => Blob
  | delete _ => Unit
  | list _ => List Key
  | stat _ => ℕ
  | uri _ => Key

namespace BlobStore

/-- The blob stored under a key. -/
def find (s : BlobStore) (key : Key) : Option Blob := s.blobs.lookup key

/-- A blob is stored under the key. -/
def Has (s : BlobStore) (key : Key) : Prop := key ∈ s.blobs.map Prod.fst

instance (s : BlobStore) (key : Key) : Decidable (s.Has key) :=
  inferInstanceAs (Decidable (key ∈ s.blobs.map Prod.fst))

/-- Every entry but those of a key. -/
def without (s : BlobStore) (key : Key) : List (Key × Blob) :=
  s.blobs.filter fun entry => entry.1 ≠ key

/-- The effect of a method on the storage. -/
def exec (s : BlobStore) : (o : StorageOp) → Except Exn o.Ans × BlobStore
  | .put key blob => (.ok (), ⟨(key, blob) :: s.without key⟩)
  | .get key =>
      match s.find key with
      | some blob => (.ok blob, s)
      | none => (.error .missingKey, s)
  | .delete key => (.ok (), ⟨s.without key⟩)
  | .list pfx => (.ok ((s.blobs.map Prod.fst).filter fun key => key.startsWith pfx), s)
  | .stat key =>
      match s.find key with
      | some blob => (.ok blob.size, s)
      | none => (.error .missingKey, s)
  | .uri key => if s.Has key then (.ok key, s) else (.error .missingKey, s)

@[simp] theorem has_put (s : BlobStore) (key : Key) (blob : Blob) (k : Key) :
    (s.exec (.put key blob)).2.Has k ↔ k = key ∨ s.Has k := by
  unfold Has
  simp only [exec, List.map_cons, List.mem_cons, without, List.mem_map, List.mem_filter]
  constructor
  · rintro (rfl | ⟨entry, ⟨he, _⟩, rfl⟩)
    · exact Or.inl rfl
    · exact Or.inr ⟨entry, he, rfl⟩
  · rintro (rfl | ⟨entry, he, rfl⟩)
    · exact Or.inl rfl
    · by_cases hk : entry.1 = key
      · exact Or.inl hk
      · exact Or.inr ⟨entry, ⟨he, by simpa using hk⟩, rfl⟩

@[simp] theorem has_delete (s : BlobStore) (key k : Key) :
    (s.exec (.delete key)).2.Has k ↔ k ≠ key ∧ s.Has k := by
  unfold Has
  simp only [exec, without, List.mem_map, List.mem_filter]
  constructor
  · rintro ⟨entry, ⟨he, hk⟩, rfl⟩
    exact ⟨by simpa using hk, entry, he, rfl⟩
  · rintro ⟨hk, entry, he, rfl⟩
    exact ⟨entry, ⟨he, by simpa using hk⟩, rfl⟩

theorem lookup_without (s : BlobStore) (key k : Key) :
    (s.without key).lookup k = if k = key then none else s.find k := by
  obtain ⟨blobs⟩ := s
  show (blobs.filter fun entry => entry.1 ≠ key).lookup k = if k = key then none else blobs.lookup k
  induction blobs with
  | nil => split_ifs <;> rfl
  | cons entry blobs ih =>
    by_cases hentry : entry.1 = key
    · rw [List.filter_cons_of_neg (by simpa using hentry), List.lookup_cons, ih, hentry]
      by_cases hk : k = key
      · rw [if_pos hk, if_pos hk]
      · rw [if_neg hk, if_neg hk, beq_false_of_ne hk]
    · rw [List.filter_cons_of_pos (by simpa using hentry), List.lookup_cons, List.lookup_cons, ih]
      by_cases hk : k = key
      · subst hk
        rw [beq_false_of_ne (Ne.symm hentry), if_pos rfl]
      · rw [if_neg hk, if_neg hk]

/-- What is found after a blob is stored. -/
theorem find_put (s : BlobStore) (key : Key) (blob : Blob) (k : Key) :
    (s.exec (.put key blob)).2.find k = if k = key then some blob else s.find k := by
  show ((key, blob) :: s.without key).lookup k = _
  rw [List.lookup_cons, lookup_without]
  by_cases hk : k = key
  · rw [beq_iff_eq.2 hk]
    exact (if_pos hk).symm
  · rw [if_neg hk, beq_false_of_ne hk, if_neg hk]

/-- What is found after a blob is deleted. -/
theorem find_delete_cases (s : BlobStore) (key k : Key) :
    (s.exec (.delete key)).2.find k = if k = key then none else s.find k :=
  lookup_without s key k

theorem find_delete {s : BlobStore} {key k : Key} (h : k ≠ key) :
    (s.exec (.delete key)).2.find k = s.find k := by
  rw [find_delete_cases, if_neg h]

theorem has_iff_find (s : BlobStore) (key : Key) :
    s.Has key ↔ (s.find key).isSome = true := by
  obtain ⟨blobs⟩ := s
  show key ∈ blobs.map Prod.fst ↔ (blobs.lookup key).isSome = true
  induction blobs with
  | nil => simp
  | cons entry blobs ih =>
    rw [List.map_cons, List.mem_cons, List.lookup_cons, ih]
    by_cases hk : key = entry.1
    · simp [hk]
    · simp [hk, beq_false_of_ne hk]

/-- Only `put` and `delete` change what is stored. -/
theorem exec_eq_self {s : BlobStore} {o : StorageOp} (hput : ∀ k b, o ≠ .put k b)
    (hdel : ∀ k, o ≠ .delete k) : (s.exec o).2 = s := by
  cases o with
  | put k b => exact absurd rfl (hput k b)
  | delete k => exact absurd rfl (hdel k)
  | get k => simp only [exec]; split <;> rfl
  | stat k => simp only [exec]; split <;> rfl
  | uri k => simp only [exec]; split_ifs <;> rfl
  | list pfx => rfl

end BlobStore

end EarthdataMcp
