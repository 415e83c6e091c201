import EarthdataMcp.Tools.Retrieval

/-!
# Exporting, pinning, rematerializing, emitting cubes

The tools that read a cached result or decide about its retention: `exportResult`,
`rematerialize`, `pinResult`; and `emitCube`, the common end of every transform.
-/

namespace EarthdataMcp

/-- The delivered-content fields of a ready handle. -/
structure Delivered where
  contentDigest : String
  isPartial : Bool
  granuleCount : Option ℕ
  deriving DecidableEq, Repr

/-- The delivered-content fields a payload carries, or nothing where it has no digest. -/
def deliveredContent (payload : Payload) : Option Delivered :=
  match payload.contentDigest with
  | none | some "" => none
  | some digest =>
      some { contentDigest := digest, isPartial := payload.isPartial.getD false
             granuleCount := payload.granuleCount }

/-- The answer of `export_result`. -/
inductive ExportAnswer
  | notFound
  | expired
  | notMaterialized (status : Option HandleStatus)
  | ready (storageUri : Key) (mediaType : String) (sizeBytes : ℕ) (delivered : Option Delivered)
  deriving DecidableEq, Repr

/-- The handle of a cached result, or `none` where the tool answers that it is not found. -/
def resolveCached (ws : WorkspaceId) (h : HandleId) : Program (Option Handle) := do
  match ← attempt (perform (.handles (.getHandle ws h))) with
  | .ok row => pure (some row)
  | .error (.handleNotFound _) => pure none
  | .error (.crossWorkspace _) => pure none
  | .error e => raise e

/-- Read a materialized result's size: the stored one, or `stat`. -/
def exportSize (payload : Payload) (key : Key) : Program ℕ :=
  match payload.sizeBytes with
  | some size => pure size
  | none => perform (.storage (.stat key))

/-- Resolve a materialized handle to an openable URI. -/
def exportResult (ws : WorkspaceId) (h : HandleId) (token : Option Token) :
    Program ExportAnswer := do
  let now ← perform .now
  match parseEdlToken now token with
  | .error e => raise e
  | .ok _ =>
      if ¬ h.evictable then raise (.other "export_result expects an obs_ or cube_ handle")
      else do
        match ← resolveCached ws h with
        | none => pure .notFound
        | some row =>
            if row.payload.status = some .expired then pure .expired
            else
              match row.payload.storageKey, row.payload.mediaType with
              | some key, some mediaType =>
                  if row.Ready then do
                    let size ← exportSize row.payload key
                    let uri ← perform (.storage (.uri key))
                    perform (.handles (.touchHandle ws h))
                    pure (.ready uri mediaType size (deliveredContent row.payload))
                  else pure (.notMaterialized row.payload.status)
              | _, _ => pure (.notMaterialized row.payload.status)

/-- The answer of `rematerialize`. -/
inductive RematerializeAnswer
  | notFound
  | existing (jobHandle : Option HandleId) (status : Option HandleStatus)
  | replayed (answer : RetrievalAnswer)
  deriving DecidableEq, Repr

/-- Re-enqueue the durable job behind an evicted handle. -/
def rematerialize (cfg : Settings) (ws : WorkspaceId) (h : HandleId) (token : Option Token) :
    Program RematerializeAnswer := do
  let now ← perform .now
  match parseEdlToken now token with
  | .error e => raise e
  | .ok identity =>
      if identity.isSome ∧ cfg.earthdataCredentialKey = [] then raise .credentialKeyUnavailable
      else if ¬ h.evictable then raise (.other "rematerialize expects an obs_ or cube_ handle")
      else do
        match ← resolveCached ws h with
        | none => pure .notFound
        | some row => do
            let jobs ← perform (.jobs (.read (.getJobByObsHandle h)))
            if row.payload.status ≠ some .expired then
              pure (.existing (jobs.head?.map Job.jobHandle) row.payload.status)
            else
              match jobs.head? with
              | none => pure .notFound
              | some job => do
                  let answer ← reenqueueReplay cfg ws h job identity
                  pure (.replayed answer)

/-! ### Pinning -/

/-- The answer of `pin_result`. -/
inductive PinAnswer
  | notFound
  | unpinned (pinnedBytes : ℕ)
  | refusedSpeculative
  | notReady (status : Option HandleStatus)
  | refusedOverCeiling (pinnedBytes : ℕ)
  | pinned (pinnedBytes : ℕ)
  deriving DecidableEq, Repr

/-- A ready result's size; a missing key, of the payload or of the store, counts as nothing. -/
def pinnedSizeOf (payload : Payload) : Program ℕ :=
  match payload.sizeBytes, payload.storageKey with
  | some size, _ => pure size
  | none, none => pure 0
  | none, some key => do
      match ← attempt (perform (.storage (.stat key))) with
      | .ok size => pure size
      | .error .missingKey => pure 0
      | .error e => raise e

/-- Bytes of one listed handle, if it is pinned and ready. -/
def pinnedBytesOf (exclude : HandleId) (row : Handle) : Program ℕ :=
  if row.handle = exclude ∨ ¬ row.payload.pinned ∨ ¬ row.Ready then pure 0
  else pinnedSizeOf row.payload

/-- Bytes the workspace holds pinned, ignoring one handle. -/
def pinnedBytes (ws : WorkspaceId) (exclude : HandleId) : Program ℕ := do
  let obs ← perform (.handles (.listHandles ws .obs))
  let obsSizes ← collect (pinnedBytesOf exclude) obs
  let cubes ← perform (.handles (.listHandles ws .cube))
  let cubeSizes ← collect (pinnedBytesOf exclude) cubes
  pure (obsSizes.sum + cubeSizes.sum)

/-- Pin a result that is ready. -/
def pinReady (cfg : Settings) (ws : WorkspaceId) (row : Handle) : Program PinAnswer := do
  let others ← pinnedBytes ws row.handle
  let size ← pinnedSizeOf row.payload
  if cfg.pinnedBytesMaxPerWorkspace < others + size then pure (.refusedOverCeiling others)
  else do
    let _ ← perform (.handles (.updateHandle ws row.handle { pinned := some true }))
    pure (.pinned (others + size))

/-- Pin or unpin a cached result. -/
def pinResult (cfg : Settings) (ws : WorkspaceId) (h : HandleId) (pinned : Bool)
    (token : Option Token) : Program PinAnswer := do
  let now ← perform .now
  match parseEdlToken now token with
  | .error e => raise e
  | .ok _ =>
      if ¬ h.evictable then raise (.other "pin_result expects an obs_ or cube_ handle")
      else do
        match ← resolveCached ws h with
        | none => pure .notFound
        | some row =>
            if ¬ pinned then do
              let _ ← perform (.handles (.updateHandle ws h { pinned := some false }))
              let held ← pinnedBytes ws h
              pure (.unpinned held)
            else if row.payload.speculative then pure .refusedSpeculative
            else if ¬ row.Ready then pure (.notReady row.payload.status)
            else pinReady cfg ws row

/-! ### Emitting a cube -/

/-- A transform's serialized result and its recipe: the operation and parameters in their
canonical form, and the handles it was computed from. -/
structure CubeResult where
  recipe : String
  sourceHandles : List HandleId
  name : String
  mediaType : String
  size : ℕ
  bytes : String := ""
  deriving DecidableEq, Repr

/-- The storage key of a cube: a fingerprint of the recipe and the sources, and the name. -/
def CubeResult.storageKey (cfg : Settings) (cube : CubeResult) : Key :=
  .transform (cfg.transformFingerprint cube.recipe cube.sourceHandles) cube.name

/-- Serialize, store, mint a `cube_`, record a provenance edge per source. -/
def emitCube (cfg : Settings) (ws : WorkspaceId) (cube : CubeResult) : Program HandleId := do
  perform (.storage (.put (cube.storageKey cfg) { size := cube.size, bytes := cube.bytes }))
  let h ← perform (.handles (.putHandle ws .cube
    { status := some .ready, storageKey := some (cube.storageKey cfg)
      mediaType := some cube.mediaType }))
  forEach (fun source => perform (.provenance (.edge ws h source))) cube.sourceHandles
  perform (.provenance (.event ws h .created))
  pure h

end EarthdataMcp
