import EarthdataMcp.Jobs.Job

/-!
# Handles and stored blobs

* `Key`, the storage keys the providers and the transforms derive, and the prefixes the
  orphan pass lists;
* `Payload`, what a handle resolves to, with the merge of `update_handle`;
* `Handle`, one row of the `handles` table.
-/

namespace EarthdataMcp

/-- Whose name a provider puts into its storage key: `job_handle or provider_job_id or
"result"`. -/
inductive KeyOwner
  | jobHandle (handle : HandleId)
  | providerJob (id : String)
  | result
  deriving DecidableEq, Repr

/-- A storage key: `<provider>/<owner>/<name>` for a retrieval, `transform/<cache
key>/<name>` for a transform. -/
inductive Key
  | retrieval (provider : Provider) (owner : KeyOwner) (name : String)
  | transform (cacheKey : String) (name : String)
  deriving DecidableEq, Repr

/-- The prefixes under which materialized output is stored. -/
inductive Prefix
  | harmony
  | appeears
  | opendap
  | transform
  deriving DecidableEq, Repr

/-- Every materialization prefix, in the order the orphan pass lists them. -/
def materializationPrefixes : List Prefix := [.harmony, .appeears, .opendap, .transform]

/-- The key starts with the prefix. -/
def Key.startsWith : Key → Prefix → Bool
  | .retrieval .harmony _ _, .harmony => true
  | .retrieval .appeears _ _, .appeears => true
  | .retrieval .opendap _ _, .opendap => true
  | .transform _ _, .transform => true
  | _, _ => false

/-- What a materialization describes its result as. -/
structure Materialized where
  record : MaterializationRecord
  mediaType : String
  deriving DecidableEq, Repr

/-- A stored blob: its size and its bytes; of a retrieval, also the per-call identity it was
fetched under (`none` for the service's own) and how the materialization that wrote it describes
it. -/
structure Blob where
  size : ℕ
  bytes : String := ""
  fetchedAs : Option Token := none
  made : Option Materialized := none
  deriving DecidableEq, Repr

/-- The status a handle's payload carries. -/
inductive HandleStatus
  | pending
  | ready
  | expired
  deriving DecidableEq, Repr

/-- The payload of a handle. -/
structure Payload where
  status : Option HandleStatus := none
  signature : Option String := none
  storageKey : Option Key := none
  mediaType : Option String := none
  sizeBytes : Option ℕ := none
  pinned : Bool := false
  speculative : Bool := false
  contentDigest : Option String := none
  isPartial : Option Bool := none
  granuleCount : Option ℕ := none
  obsHandle : Option HandleId := none
  datasetHandle : Option HandleId := none
  deriving DecidableEq, Repr

/-- The keys a payload is updated with. -/
structure PayloadUpdate where
  status : Option HandleStatus := none
  storageKey : Option (Option Key) := none
  mediaType : Option String := none
  sizeBytes : Option (Option ℕ) := none
  pinned : Option Bool := none
  speculative : Option Bool := none
  contentDigest : Option String := none
  isPartial : Option Bool := none
  granuleCount : Option ℕ := none

/-- `{**payload, **update}`. -/
def Payload.merge (p : Payload) (u : PayloadUpdate) : Payload :=
  { p with
    status := u.status.or p.status
    storageKey := u.storageKey.getD p.storageKey
    mediaType := u.mediaType.or p.mediaType
    sizeBytes := u.sizeBytes.getD p.sizeBytes
    pinned := u.pinned.getD p.pinned
    speculative := u.speculative.getD p.speculative
    contentDigest := u.contentDigest.or p.contentDigest
    isPartial := u.isPartial.or p.isPartial
    granuleCount := u.granuleCount.or p.granuleCount }

@[simp] theorem Payload.merge_signature (p : Payload) (u : PayloadUpdate) :
    (p.merge u).signature = p.signature := rfl

@[simp] theorem Payload.merge_status (p : Payload) (u : PayloadUpdate) :
    (p.merge u).status = u.status.or p.status := rfl

@[simp] theorem Payload.merge_storageKey (p : Payload) (u : PayloadUpdate) :
    (p.merge u).storageKey = u.storageKey.getD p.storageKey := rfl

/-- One row of the `handles` table; `handle.type` is its type column. -/
structure Handle where
  handle : HandleId
  workspaceId : WorkspaceId
  payload : Payload
  updatedAt : Time := 0
  lastAccessedAt : Option Time := none
  deriving DecidableEq, Repr

/-- The handle's stored status is `ready`. -/
def Handle.Ready (h : Handle) : Prop := h.payload.status = some .ready

instance (h : Handle) : Decidable h.Ready :=
  inferInstanceAs (Decidable (h.payload.status = some .ready))

/-- The types of handle whose results are kept in the cache. -/
def HandleId.evictable (h : HandleId) : Bool := h.type = .obs || h.type = .cube

end EarthdataMcp
