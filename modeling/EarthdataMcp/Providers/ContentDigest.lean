import EarthdataMcp.Config
import EarthdataMcp.Text.SelfDelimiting

/-!
# The content digest

What a job has delivered is described by a record, and the digest of the record goes onto the
handle.

* `MaterializationRecordOf` and its digest `MaterializationRecordOf.contentDigest`;
* `MaterializationRecord.texts`, the record of the worker.
-/

namespace EarthdataMcp

open Text

/-- What one materialization delivered; it is made of texts, and of any JSON values where it has
been read back. -/
structure MaterializationRecordOf (τ : Type) where
  granuleIds : Option (List τ)
  providerUsed : τ
  serviceChain : Option (List τ)
  outputFormat : τ
  deriving DecidableEq, Repr

namespace MaterializationRecordOf

/-- `partial`. -/
def isPartial {τ : Type} (r : MaterializationRecordOf τ) : Bool := r.granuleIds.isNone

/-- What stands under a key of the hashed object. -/
inductive DigestValue
  | text (s : String)
  | texts (ss : List String)
  deriving DecidableEq, Repr

/-- The object that is hashed; an unknown component is left out. -/
def payload (r : MaterializationRecordOf String) : List (String × DigestValue) :=
  [("provider_used", .text r.providerUsed), ("output_format", .text r.outputFormat)] ++
    r.granuleIds.elim []
      (fun ids => [("granule_ids", .texts (ids.dedup.insertionSort (· ≤ ·)))]) ++
    r.serviceChain.elim [] fun chain => [("service_chain", .texts chain)]

/-- A value as `json.dumps` writes it with the separators `,` and `:`. -/
def DigestValue.dumps : DigestValue → List Char
  | text s => quoted s
  | texts ss => listCode '[' ',' ']' quoted ss

/-- A key and its value. -/
def dumpsEntry (e : String × DigestValue) : List Char := quoted e.1 ++ ':' :: e.2.dumps

/-- `json.dumps(payload, sort_keys=True, separators=(",", ":"))`. -/
def dumps (entries : List (String × DigestValue)) : List Char :=
  listCode '{' ',' '}' dumpsEntry (entries.insertionSort fun e e' => e.1 ≤ e'.1)

/-- `content_digest`. -/
def contentDigest (cfg : Settings) (r : MaterializationRecordOf String) : String :=
  cfg.sha256Prefix 64 (String.ofList (dumps r.payload))

end MaterializationRecordOf

/-- The record of the worker, in texts. -/
def MaterializationRecord.texts (r : MaterializationRecord) : MaterializationRecordOf String where
  granuleIds := r.granuleIds
  providerUsed := r.providerUsed.name
  serviceChain := r.serviceChain
  outputFormat := r.outputFormat

end EarthdataMcp
