import EarthdataMcp.Providers.ContentDigest
import EarthdataMcp.Providers.RequestSignature
import EarthdataMcp.Text.Json

/-!
# What a content digest identifies

Two records describe the same content if and only if their digests are equal. The record is
stored as JSON and read back unchanged.

* `MaterializationRecordOf.toJsonb` and `fromJsonb`, the stored form of a record;
* `SameContent`, when two records describe the same content;
* `ReadBack`, what reading a stored record must give;
* `contentDigest_identifies`: both, for all records.
-/

namespace EarthdataMcp

open Text

/-! ### The stored record -/

namespace MaterializationRecordOf

/-- A list of texts, as it is stored. -/
def jsonTexts (ss : List String) : Json := .arr (ss.map .str)

/-- `to_jsonb`: an absent list is left out. -/
def toJsonb (cfg : Settings) (r : MaterializationRecordOf String) : List (String × Json) :=
  [("provider_used", .str r.providerUsed), ("output_format", .str r.outputFormat),
    ("content_digest", .str (r.contentDigest cfg)), ("partial", .bool r.isPartial)] ++
    r.granuleIds.elim [] (fun ids => [("granule_ids", jsonTexts ids)]) ++
    r.serviceChain.elim [] fun chain => [("service_chain", jsonTexts chain)]

/-- `tuple(v) if v is not None else None`. -/
def optionalTuple : Json → Except ReadError (Option (List Json))
  | .null => .ok none
  | v => v.iter.map some

/-- `from_jsonb`. -/
def fromJsonb (data : List (String × Json)) :
    Except ReadError (Option (MaterializationRecordOf Json)) :=
  if data.isEmpty then .ok none
  else do
    let granuleIds ← optionalTuple (Json.get data "granule_ids")
    let serviceChain ← optionalTuple (Json.get data "service_chain")
    pure (some {
      granuleIds := granuleIds
      providerUsed := (Json.get data "provider_used").orElse (.str "")
      serviceChain := serviceChain
      outputFormat := (Json.get data "output_format").orElse (.str "") })

/-- The same record, made of other values. -/
def map {τ τ' : Type} (f : τ → τ') (r : MaterializationRecordOf τ) : MaterializationRecordOf τ' where
  granuleIds := r.granuleIds.map (List.map f)
  providerUsed := f r.providerUsed
  serviceChain := r.serviceChain.map (List.map f)
  outputFormat := f r.outputFormat

end MaterializationRecordOf

/-! ### What the digest identifies -/

/-- Two lists of granules: both absent, or both present and with the same members. -/
def SameGranules : Option (List String) → Option (List String) → Prop
  | none, none => True
  | some ids, some ids' => ∀ id, id ∈ ids ↔ id ∈ ids'
  | _, _ => False

/-- Two records describe the same content. -/
structure SameContent (r r' : MaterializationRecordOf String) : Prop where
  providerUsed : r.providerUsed = r'.providerUsed
  outputFormat : r.outputFormat = r'.outputFormat
  serviceChain : r.serviceChain = r'.serviceChain
  granuleIds : SameGranules r.granuleIds r'.granuleIds

/-- The data have gone through JSON: every key has the value it had, in whatever order. -/
def JsonRoundTrip (data data' : List (String × Json)) : Prop :=
  ∀ key, data'.lookup key = data.lookup key

/-- A record is read back from data, with its digest, granules, chain and partial flag. -/
def ReadBack (cfg : Settings) (data : List (String × Json)) (r : MaterializationRecordOf String) :
    Prop :=
  ∃ r' : MaterializationRecordOf String,
    MaterializationRecordOf.fromJsonb data = .ok (some (r'.map .str)) ∧
      r'.contentDigest cfg = r.contentDigest cfg ∧ r'.granuleIds = r.granuleIds ∧
      r'.serviceChain = r.serviceChain ∧ r'.isPartial = r.isPartial

namespace MaterializationRecordOf

/-! ### The encoding -/

theorem selfDelimiting_dumps : SelfDelimiting DigestValue.dumps := by
  have htexts : SelfDelimiting (listCode '[' ',' ']' quoted) :=
    selfDelimiting_quoted.listCode (neverStarts_quoted (by decide)) (by decide)
  have hbracket (ss : List String) : ∃ rest, listCode '[' ',' ']' quoted ss = '[' :: rest := by
    cases ss <;> exact ⟨_, rfl⟩
  have hclash (s : String) (ss : List String) (x y : List Char) :
      quoted s ++ x ≠ listCode '[' ',' ']' quoted ss ++ y := by
    intro heq
    obtain ⟨rest, hrest⟩ := hbracket ss
    rw [hrest] at heq
    exact absurd (List.cons.inj heq).1 (by decide)
  intro v v' x y heq
  cases v with
  | text s =>
    cases v' with
    | text s' =>
      obtain ⟨rfl, hrest⟩ := selfDelimiting_quoted s s' x y heq
      exact ⟨rfl, hrest⟩
    | texts ss' => exact absurd heq (hclash s ss' x y)
  | texts ss =>
    cases v' with
    | text s' => exact absurd heq.symm (hclash s' ss y x)
    | texts ss' =>
      obtain ⟨rfl, hrest⟩ := htexts ss ss' x y heq
      exact ⟨rfl, hrest⟩

theorem selfDelimiting_dumpsEntry : SelfDelimiting dumpsEntry :=
  selfDelimiting_quoted.append (selfDelimiting_dumps.cons ':')

/-- Equal texts come from the same keys and values. -/
theorem perm_of_dumps_eq {entries entries' : List (String × DigestValue)}
    (h : dumps entries = dumps entries') : entries.Perm entries' := by
  have hstarts : NeverStarts '}' dumpsEntry := fun e => ⟨'"', _, rfl, by decide⟩
  have hcode : SelfDelimiting (listCode '{' ',' '}' dumpsEntry) :=
    selfDelimiting_dumpsEntry.listCode hstarts (by decide)
  have hsorted := hcode.injective h
  calc entries.Perm _ := (List.perm_insertionSort _ _).symm
    _ = _ := hsorted
    List.Perm _ entries' := List.perm_insertionSort _ _

/-! ### The hashed object -/

variable {r r' : MaterializationRecordOf String}

/-- What stands under the keys of the hashed object. -/
theorem mem_payload {key : String} {v : DigestValue} : (key, v) ∈ r.payload ↔
    (key = "provider_used" ∧ v = .text r.providerUsed) ∨
    (key = "output_format" ∧ v = .text r.outputFormat) ∨
    (key = "granule_ids" ∧ ∃ ids, r.granuleIds = some ids ∧
      v = .texts (ids.dedup.insertionSort (· ≤ ·))) ∨
    (key = "service_chain" ∧ ∃ chain, r.serviceChain = some chain ∧ v = .texts chain) := by
  obtain ⟨ids, provider, chain, format⟩ := r
  cases ids <;> cases chain <;> simp [payload]

theorem provider_mem_payload {v : DigestValue} :
    ("provider_used", v) ∈ r.payload ↔ v = .text r.providerUsed := by
  rw [mem_payload]
  simp

theorem format_mem_payload {v : DigestValue} :
    ("output_format", v) ∈ r.payload ↔ v = .text r.outputFormat := by
  rw [mem_payload]
  simp

theorem granules_mem_payload {v : DigestValue} : ("granule_ids", v) ∈ r.payload ↔
    ∃ ids, r.granuleIds = some ids ∧ v = .texts (ids.dedup.insertionSort (· ≤ ·)) := by
  rw [mem_payload]
  simp

theorem chain_mem_payload {v : DigestValue} : ("service_chain", v) ∈ r.payload ↔
    ∃ chain, r.serviceChain = some chain ∧ v = .texts chain := by
  rw [mem_payload]
  simp

/-- Where the same lists stand under a key, the chains are the same. -/
theorem eq_of_texts_iff {chain chain' : Option (List String)}
    (h : ∀ v, (∃ ss, chain = some ss ∧ v = DigestValue.texts ss) ↔
      ∃ ss, chain' = some ss ∧ v = DigestValue.texts ss) : chain = chain' := by
  cases chain with
  | none =>
    cases chain' with
    | none => rfl
    | some ss' =>
      obtain ⟨ss, hnone, -⟩ := (h (.texts ss')).2 ⟨ss', rfl, rfl⟩
      cases hnone
  | some ss =>
    obtain ⟨ss', hsome, heq⟩ := (h (.texts ss)).1 ⟨ss, rfl, rfl⟩
    obtain rfl := DigestValue.texts.inj heq
    exact hsome.symm

/-- Equal hashed objects describe the same content. -/
theorem sameContent_of_perm (h : r.payload.Perm r'.payload) : SameContent r r' := by
  have hmem (key : String) (v : DigestValue) : (key, v) ∈ r.payload ↔ (key, v) ∈ r'.payload :=
    h.mem_iff
  have hprovider := provider_mem_payload.1 ((hmem _ _).1 (provider_mem_payload.2 rfl))
  have hformat := format_mem_payload.1 ((hmem _ _).1 (format_mem_payload.2 rfl))
  have hchain : r.serviceChain = r'.serviceChain := by
    apply eq_of_texts_iff
    intro v
    rw [← chain_mem_payload, hmem, chain_mem_payload]
  have hgranules : r.granuleIds.map (fun ids => ids.dedup.insertionSort (· ≤ ·)) =
      r'.granuleIds.map fun ids => ids.dedup.insertionSort (· ≤ ·) := by
    apply eq_of_texts_iff
    intro v
    have hv := (granules_mem_payload.symm.trans (hmem _ v)).trans granules_mem_payload
    simpa [Option.map_eq_some_iff, and_assoc] using hv
  refine ⟨DigestValue.text.inj hprovider, DigestValue.text.inj hformat, hchain, ?_⟩
  cases hids : r.granuleIds <;> cases hids' : r'.granuleIds <;> rw [hids, hids'] at hgranules
  case none.none => trivial
  case some.some => exact sorted_inj_iff.1 (Option.some.inj hgranules)
  all_goals cases hgranules

/-- The same content gives the same hashed object. -/
theorem payload_eq (h : SameContent r r') : r.payload = r'.payload := by
  obtain ⟨hprovider, hformat, hchain, hgranules⟩ := h
  have hids : r.granuleIds.elim [] (fun ids =>
        [("granule_ids", DigestValue.texts (ids.dedup.insertionSort (· ≤ ·)))]) =
      r'.granuleIds.elim [] fun ids =>
        [("granule_ids", DigestValue.texts (ids.dedup.insertionSort (· ≤ ·)))] := by
    cases hids : r.granuleIds with
    | none =>
      cases hids' : r'.granuleIds with
      | none => rfl
      | some ids' =>
        rw [hids, hids'] at hgranules
        exact hgranules.elim
    | some ids =>
      cases hids' : r'.granuleIds with
      | none =>
        rw [hids, hids'] at hgranules
        exact hgranules.elim
      | some ids' =>
        rw [hids, hids'] at hgranules
        simp only [Option.elim_some, sorted_inj_iff.2 hgranules]
  unfold payload
  rw [hprovider, hformat, hchain, hids]

variable {cfg : Settings}

theorem contentDigest_eq_iff (hhash : Function.Injective (cfg.sha256Prefix 64)) :
    r.contentDigest cfg = r'.contentDigest cfg ↔ SameContent r r' := by
  unfold contentDigest
  rw [hhash.eq_iff, String.ofList_inj]
  constructor
  · intro h
    exact sameContent_of_perm (perm_of_dumps_eq h)
  · intro h
    rw [payload_eq h]

/-! ### The stored form -/

@[simp] theorem optionalTuple_jsonTexts (ss : List String) :
    optionalTuple (jsonTexts ss) = .ok (some (ss.map .str)) := rfl

/-- What is stored under the key of a list is read as that list. -/
theorem optionalTuple_stored (ss : Option (List String)) :
    optionalTuple ((ss.map jsonTexts).getD .null) = .ok (ss.map (List.map .str)) := by
  cases ss <;> rfl

/-- No key is stored twice, so that the order of the stored keys does not matter. -/
theorem jsonRoundTrip_of_perm {data : List (String × Json)} (h : (r.toJsonb cfg).Perm data) :
    JsonRoundTrip (r.toJsonb cfg) data := by
  have hkeys : ((r.toJsonb cfg).map Prod.fst).Nodup := by
    obtain ⟨ids, provider, chain, format⟩ := r
    cases ids <;> cases chain <;> simp [toJsonb]
  exact Lists.lookup_eq_of_perm hkeys h

theorem lookup_toJsonb (cfg : Settings) (r : MaterializationRecordOf String) :
    (r.toJsonb cfg).lookup "provider_used" = some (.str r.providerUsed) ∧
      (r.toJsonb cfg).lookup "output_format" = some (.str r.outputFormat) ∧
      (r.toJsonb cfg).lookup "granule_ids" = r.granuleIds.map jsonTexts ∧
      (r.toJsonb cfg).lookup "service_chain" = r.serviceChain.map jsonTexts := by
  obtain ⟨ids, provider, chain, format⟩ := r
  cases ids <;> cases chain <;> exact ⟨rfl, rfl, rfl, rfl⟩

/-- A record is read back as it was, from any data with the values it was stored as. -/
theorem fromJsonb_toJsonb {data : List (String × Json)} (h : JsonRoundTrip (r.toJsonb cfg) data) :
    fromJsonb data = .ok (some (r.map .str)) := by
  obtain ⟨hprovider, hformat, hgranules, hchain⟩ := lookup_toJsonb cfg r
  have hdata : data.isEmpty = false := by
    cases data with
    | nil =>
      have hnone := (h "provider_used").trans hprovider
      cases hnone
    | cons e data => rfl
  unfold fromJsonb
  rw [if_neg (by rw [hdata]; decide)]
  simp only [Json.get, h _, hprovider, hformat, hgranules, hchain, optionalTuple_stored,
    Option.getD_some, Json.orElse_empty]
  rfl

end MaterializationRecordOf

/-! ### Every record -/

/-- **The digest identifies the content, and is kept with it.** -/
theorem contentDigest_identifies (cfg : Settings)
    (hhash : Function.Injective (cfg.sha256Prefix 64)) :
    (∀ r r' : MaterializationRecordOf String,
      r.contentDigest cfg = r'.contentDigest cfg ↔ SameContent r r') ∧
    (∀ (r : MaterializationRecordOf String) (ids ids' : List String),
      (∀ id, id ∈ ids ↔ id ∈ ids') → ({ r with granuleIds := some ids }).contentDigest cfg =
        ({ r with granuleIds := some ids' } : MaterializationRecordOf String).contentDigest cfg) ∧
    ∀ (r : MaterializationRecordOf String) (data : List (String × Json)),
      JsonRoundTrip (r.toJsonb cfg) data → ReadBack cfg data r := by
  refine ⟨fun r r' => MaterializationRecordOf.contentDigest_eq_iff hhash, ?_, ?_⟩
  · intro r ids ids' hmem
    exact (MaterializationRecordOf.contentDigest_eq_iff hhash).2 ⟨rfl, rfl, rfl, hmem⟩
  · intro r data hdata
    exact ⟨r, MaterializationRecordOf.fromJsonb_toJsonb hdata, rfl, rfl, rfl, rfl⟩

/-- A delivery of two granules. -/
def twoGranules : MaterializationRecordOf String where
  granuleIds := some ["G2", "G1", "G1"]
  providerUsed := "harmony"
  serviceChain := none
  outputFormat := "application/netcdf"

/-- The order of the granules does not matter; an empty chain is not an absent one, and the record
is read back from data in another order. -/
theorem contentDigest_identifies_twoGranules :
    twoGranules.contentDigest {} =
        ({ twoGranules with granuleIds := some ["G1", "G2"] }).contentDigest {} ∧
      twoGranules.contentDigest {} ≠
        ({ twoGranules with serviceChain := some [] }).contentDigest {} ∧
      ReadBack {} (twoGranules.toJsonb {}).reverse twoGranules := by
  obtain ⟨hdigest, horder, hread⟩ := contentDigest_identifies {} fun _ _ h => h
  refine ⟨horder twoGranules _ _ (by simp [or_comm]), ?_, hread _ _ ?_⟩
  · intro h
    exact absurd ((hdigest _ _).1 h).serviceChain (by decide)
  · exact MaterializationRecordOf.jsonRoundTrip_of_perm (List.reverse_perm _).symm

end EarthdataMcp
