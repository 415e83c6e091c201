import EarthdataMcp.Footprint
import EarthdataMcp.Providers.DateArithmetic
import EarthdataMcp.Providers.IsoFormat
import EarthdataMcp.Providers.RequestSignature

/-!
# The signature of a prefetched window

The prefetch stores its result under the signature of the request it predicts; the signature
is computed from the persisted specification, after its variable names have been resolved
against the catalog, while the request computes its own from the names as they were typed.

* `Catalog`, what planning learns about a collection, with `planRetrieval` and `planWindow`,
  the two planning passes; `Catalog.Answers`, services that answer from it;
* `requestSignature` and `prefetchSignature`, and that the programs look up the one and store
  the other;
* `prefetchReachable_iff`: the two agree exactly when names and formats render alike.
-/

namespace EarthdataMcp

open Concurrency Concurrency.Prog

/-! ### The catalog -/

/-- What planning learns about a collection, whatever the window: its capabilities, whether a
restriction was observed, the granules' OPeNDAP URLs in a window, and the resolution of
variable names. -/
structure Catalog where
  caps : Capabilities
  observedRestricted : Bool := false
  opendapUrls : Option Bbox → Option String → List String
  resolve : List String → List String

namespace Catalog

variable (cat : Catalog)

/-- `plan_subset`, as far as a signature depends on it: the URLs in the window, and the names,
which are resolved where there is a URL. -/
def planSubset (bbox : Option Bbox) (timeRange : Option String) (names : List String) :
    List String × List String :=
  let urls := cat.opendapUrls bbox timeRange
  (urls, if urls = [] then names else cat.resolve names)

/-- A gridded or swath collection with a bounding box is planned for OPeNDAP. -/
def discovers (bbox : Option Bbox) : Bool :=
  bbox.isSome && (cat.caps.outputShape = "grid" || cat.caps.outputShape = "swath")

/-- The planning pass of `_submit_retrieval` for a request routed to `path`. -/
def planRetrieval (path : Provider) (request : RetrievalRequest) (bbox : Option Bbox) :
    PlannedRetrieval :=
  if ¬ request.needsPointSample ∧ cat.discovers bbox then
    let (urls, names) := cat.planSubset bbox (some request.timeRange) request.variableNames
    { path, opendapUrls := urls, variableNames := names }
  else { path, variableNames := request.variableNames }

/-- `_plan_window`. -/
def planWindow (predicted : RequestSpec) : WindowPlan :=
  if cat.discovers predicted.aoiBbox then
    let (urls, names) :=
      cat.planSubset predicted.aoiBbox predicted.timeRange predicted.variableNames
    if urls = [] then { spec := none, accessRestricted := cat.caps.accessRestricted }
    else
      { spec := some { predicted with opendapUrls := urls, variableNames := names }
        accessRestricted := cat.caps.accessRestricted }
  else { spec := some predicted, accessRestricted := cat.caps.accessRestricted }

/-- The collection is known to be restricted, known to be open, or neither. -/
def restricted : Option Bool :=
  if cat.caps.accessRestricted = some true ∨ cat.observedRestricted then some true
  else cat.caps.accessRestricted

theorem planWindow_accessRestricted (predicted : RequestSpec) :
    (cat.planWindow predicted).accessRestricted = cat.caps.accessRestricted := by
  unfold planWindow
  split_ifs
  · dsimp only
    split_ifs <;> rfl
  · rfl

/-- The services answer from the catalog; the handles resolve to this collection and box. -/
def Answers (conceptId : String) (bbox : Option Bbox) : (o : Op) → Except Exn o.Ans → Prop
  | .planning (.resolveHandles _ _), .ok resolved => resolved = (conceptId, bbox)
  | .planning (.collectionCapabilities _ _), .ok caps => caps = cat.caps
  | .planning (.planRetrieval request _), .ok plan =>
      ∃ path, plan = cat.planRetrieval path request bbox
  | .planning (.planWindow predicted _), .ok plan => plan = cat.planWindow predicted
  | .access (.collectionRestriction _), .ok flag =>
      flag = if cat.observedRestricted then some true else none
  | _, _ => True

end Catalog

/-! ### The two signatures -/

/-- The identity dimension of a request made at this time. -/
def Catalog.scope (cat : Catalog) (cfg : Settings) (now : Time) (identity : Option Token) :
    Option String :=
  if cat.restricted = some false then none else some (identityScope cfg now identity)

/-- The signature under which `_submit_retrieval` looks for a reusable handle. -/
def requestSignature (cfg : Settings) (cat : Catalog) (now : Time) (conceptId : String)
    (bbox : Option Bbox) (request : RetrievalRequest) (identity : Option Token) : String :=
  computeRequestSignature cfg (some conceptId) bbox (some request.timeRange)
    request.variableNames (outputFormat request cat.caps) (cat.scope cfg now identity)

/-- The signature the prefetch stores for a predicted window, where it stores one. -/
def prefetchSignature (cfg : Settings) (cat : Catalog) (now : Time) (conceptId : String)
    (predicted : RequestSpec) (credential : Option Credential) : Option String :=
  match (cat.planWindow predicted).spec with
  | none => none
  | some planned =>
      if cat.restricted = some true ∧ inheritedToken cfg credential = none then none
      else
        match prefetchScope cfg now cat.restricted (inheritedToken cfg credential) with
        | .error _ => none
        | .ok scope =>
            some (computeRequestSignature cfg (some conceptId) predicted.aoiBbox
              predicted.timeRange planned.variableNames predicted.outputFormat scope)

/-- The specification a planned request persists, as the worker loads it. -/
def persistedSpec (cat : Catalog) (path : Provider) (conceptId : String) (bbox : Option Bbox)
    (request : RetrievalRequest) (ws : WorkspaceId) (jobHandle obsHandle : HandleId) :
    RequestSpec :=
  (ResolvedRequest.spec
    { request, conceptId, bbox, caps := cat.caps, format := outputFormat request cat.caps }
    (cat.planRetrieval path request bbox) ws jobHandle obsHandle).loaded

/-! ### What the programs look up and store -/

/-- Services that answer from the catalog, and what is allowed of each operation. -/
abbrev Catalog.protocol (cat : Catalog) (conceptId : String) (bbox : Option Bbox)
    (φ : Op → Prop) : Protocol Api Unit where
  allows _ o := φ o
  next _ o a _ := cat.Answers conceptId bbox o a

/-- Every signature looked up or stored is the one computed at some time. -/
def Op.LooksFor (signature : Time → Option String) : Op → Prop
  | .handles (.findBySignature _ sig) => ∃ now, signature now = some sig
  | .handles (.insertUnique _ _ payload) => ∃ now, signature now = payload.signature
  | _ => True

section programs

variable {cfg : Settings} {cat : Catalog} {conceptId : String} {bbox : Option Bbox} {α : Type}

theorem obeys_catalog {p : Program α} {φ : Op → Prop} (hp : p.Only φ) :
    p.Obeys (cat.protocol conceptId bbox φ) () fun _ _ => True :=
  hp.obeys (fun _ _ _ ho => ho) (fun _ _ _ _ h _ _ => h) trivial

variable {signature : Time → Option String}

theorem createRetrieval_looksFor (ws : WorkspaceId) (r : ResolvedRequest) (plan : PlannedRetrieval)
    (h : HandleId) (identity : Option Token) :
    (createRetrieval cfg ws r plan h identity).Only (Op.LooksFor signature) := by
  unfold createRetrieval
  exact (only_perform.2 trivial).bind fun _ => (only_perform.2 trivial).bind fun _ =>
    (only_perform.2 trivial).bind fun _ => (only_perform.2 trivial).bind fun _ =>
      (only_perform.2 trivial).bind fun _ => trivial

theorem reuseResponseForMatch_looksFor (ws : WorkspaceId) (row : Handle)
    (identity : Option Token) :
    (reuseResponseForMatch cfg ws row identity).Only (Op.LooksFor signature) := by
  have hanswer (answer : RetrievalAnswer) :
      (reuseAnswer ws row answer).Only (Op.LooksFor signature) :=
    (only_perform.2 trivial).bind fun _ => trivial
  have hreplay (h : HandleId) (job : Job) :
      (reenqueueReplay cfg ws h job identity).Only (Op.LooksFor signature) := by
    unfold reenqueueReplay
    exact (only_perform.2 trivial).bind fun _ => (only_perform.2 trivial).bind fun _ =>
      (only_perform.2 trivial).bind fun _ => (only_perform.2 trivial).bind fun _ =>
        (only_perform.2 trivial).bind fun _ => trivial
  unfold reuseResponseForMatch promoteIfSpeculative
  refine Only.bind ?_ fun _ => (only_perform.2 trivial).bind fun jobs => ?_
  · split_ifs
    · exact (only_perform.2 trivial).bind fun _ => only_perform.2 trivial
    · trivial
  · split
    · trivial
    · exact (hreplay _ _).bind fun _ => hanswer _
    · exact hanswer _
    · trivial
    · split_ifs
      · trivial
      · exact hanswer _

theorem awaitReuse_looksFor (ws : WorkspaceId) (row : Handle) (identity : Option Token) (n : ℕ) :
    (awaitReuse cfg ws row identity n).Only (Op.LooksFor signature) := by
  induction n with
  | zero => trivial
  | succ n ih =>
    unfold awaitReuse
    refine (reuseResponseForMatch_looksFor _ _ _).bind fun r => ?_
    split
    · trivial
    · exact ih

theorem putHandleUniqueSignature_looksFor {now : Time} {sig : String}
    (hsig : signature now = some sig) (ws : WorkspaceId) (type : HandleType) (payload : Payload) :
    (putHandleUniqueSignature ws type sig payload).Only (Op.LooksFor signature) := by
  unfold putHandleUniqueSignature
  refine (only_perform.2 ⟨now, hsig⟩).bind fun row => ?_
  split
  · trivial
  · refine (only_perform.2 ⟨now, hsig⟩).bind fun row => ?_
    split <;> trivial

theorem planAndCreate_looksFor {now : Time} {sig : String} (hsig : signature now = some sig)
    (ws : WorkspaceId) (r : ResolvedRequest) (identity : Option Token) :
    (planAndCreate cfg ws r (some sig) identity).Only (Op.LooksFor signature) := by
  unfold planAndCreate
  refine (only_perform.2 trivial).bind fun plan =>
    (putHandleUniqueSignature_looksFor hsig _ _ _).bind fun (row, created) => ?_
  dsimp only
  split_ifs
  · exact createRetrieval_looksFor _ _ _ _ _
  · refine (awaitReuse_looksFor _ _ _ _).bind fun answer => ?_
    split
    · trivial
    · exact (only_perform.2 trivial).bind fun _ => createRetrieval_looksFor _ _ _ _ _

/-- The identity dimension of a request is the catalog's. -/
theorem reuseIdentityScope_obeys (now : Time) (identity : Option Token) :
    (reuseIdentityScope cfg now cat.caps conceptId identity).Obeys
      (cat.protocol conceptId bbox (Op.LooksFor signature)) ()
      fun r _ => ∀ scope, r = .ok scope → scope = cat.scope cfg now identity := by
  unfold reuseIdentityScope
  by_cases hclosed : cat.caps.accessRestricted = some true
  · rw [if_pos hclosed]
    rintro scope ⟨⟩
    simp [Catalog.scope, Catalog.restricted, hclosed]
  rw [if_neg hclosed, obeys_bind, obeys_perform]
  refine ⟨trivial, ?_⟩
  rintro (e | flag) ⟨⟩ hflag
  · exact fun scope h => by cases h
  obtain rfl : flag = if cat.observedRestricted then some true else none := hflag
  rw [afterBind_ok]
  by_cases hobserved : cat.observedRestricted = true
  · simp [Catalog.scope, Catalog.restricted, hobserved]
  · by_cases hopen : cat.caps.accessRestricted = some false <;>
      simp [Catalog.scope, Catalog.restricted, hobserved, hopen, hclosed]

/-- `retrieve_subset` looks for its own signature, and stores its handle under it. -/
theorem submitRetrieval_looksFor (ws : WorkspaceId) {request canonical : RetrievalRequest}
    (hcanonical : request.normalize cfg = .ok canonical) (token : Option Token) :
    (submitRetrieval cfg ws request true token).Obeys
      (cat.protocol conceptId bbox (Op.LooksFor fun now =>
        some (requestSignature cfg cat now conceptId bbox canonical token))) ()
      fun _ _ => True := by
  unfold submitRetrieval
  rw [obeys_bind, obeys_perform]
  refine ⟨trivial, ?_⟩
  rintro (e | now) ⟨⟩ -
  · trivial
  rw [afterBind_ok]
  split
  · trivial
  rename_i identity hidentity
  obtain rfl := parseEdlToken_eq_ok hidentity
  split_ifs
  · trivial
  rw [hcanonical]
  dsimp only
  unfold submitNormalized
  rw [obeys_bind, obeys_perform]
  refine ⟨trivial, ?_⟩
  rintro (e | ⟨c, b⟩) ⟨⟩ hresolved
  · trivial
  obtain ⟨rfl, rfl⟩ : c = conceptId ∧ b = bbox := Prod.mk.inj hresolved
  rw [afterBind_ok]
  dsimp only
  rw [obeys_bind, obeys_perform]
  refine ⟨trivial, ?_⟩
  rintro (e | caps) ⟨⟩ hcaps
  · trivial
  obtain rfl : caps = cat.caps := hcaps
  rw [afterBind_ok, if_pos rfl, obeys_bind]
  refine (reuseIdentityScope_obeys now identity).mono ?_
  rintro (e | scope) ⟨⟩ hscope
  · trivial
  -- here the signature is computed, with the scope of this moment
  obtain rfl := hscope scope rfl
  rw [afterBind_ok]
  refine obeys_catalog ?_
  unfold checkReuse
  refine Only.bind ((only_perform.2 ⟨now, rfl⟩).bind fun row => ?_) fun answer => ?_
  · split
    · trivial
    · exact reuseResponseForMatch_looksFor _ _ _
  · split
    · trivial
    · exact @planAndCreate_looksFor _ _ now _ rfl _ _ _

/-- The job of a planned request persists its specification and the caller's credential. -/
theorem createRetrieval_persists (ws : WorkspaceId) (path : Provider) (request : RetrievalRequest)
    (h : HandleId) (identity : Option Token) :
    (createRetrieval cfg ws
      { request, conceptId, bbox, caps := cat.caps, format := outputFormat request cat.caps }
      (cat.planRetrieval path request bbox) h identity).Only fun o : Op =>
        ∀ new, o = .jobs (.create new) →
          new.credentialEncrypted = storedCredential cfg identity ∧
            ∃ jobHandle, fromJsonb new.requestSpec =
              .ok (persistedSpec cat path conceptId bbox request ws jobHandle h) := by
  unfold createRetrieval
  refine Only.bind (only_perform.2 fun _ h => ?_) fun _ => Only.bind
    (only_perform.2 fun _ h => ?_) fun jobHandle => Only.bind (only_perform.2 fun new h => ?_)
      fun _ => Only.bind (only_perform.2 fun _ h => ?_) fun _ => Only.bind
        (only_perform.2 fun _ h => ?_) fun _ => only_pure
  · cases h
  · cases h
  · obtain rfl := JobOp.create.inj (Op.jobs.inj h)
    exact ⟨rfl, jobHandle, rfl⟩
  · cases h
  · cases h

/-- The prefetch learns of a restriction what the catalog says. -/
theorem windowRestriction_obeys (predicted : RequestSpec) :
    (windowRestriction (cat.planWindow predicted) conceptId).Obeys
      (cat.protocol conceptId bbox (Op.LooksFor signature)) ()
      fun r _ => ∀ flagged, r = .ok flagged → flagged = cat.restricted := by
  unfold windowRestriction
  rw [cat.planWindow_accessRestricted]
  by_cases hclosed : cat.caps.accessRestricted = some true
  · rw [if_pos hclosed]
    rintro flagged ⟨⟩
    simp [Catalog.restricted, hclosed]
  rw [if_neg hclosed, obeys_bind, obeys_perform]
  refine ⟨trivial, ?_⟩
  rintro (e | flag) ⟨⟩ hflag
  · exact fun flagged h => by cases h
  obtain rfl : flag = if cat.observedRestricted then some true else none := hflag
  rw [afterBind_ok]
  rintro flagged ⟨⟩
  by_cases hobserved : cat.observedRestricted = true <;>
    simp [Catalog.restricted, hobserved, hclosed]

theorem enqueuePrefetch_looksFor {now : Time} {sig : String} (hsig : signature now = some sig)
    (predicted : RequestSpec) (originJobHandle : Option HandleId) (ws : WorkspaceId)
    (credential : Option Credential) :
    (enqueuePrefetch predicted sig originJobHandle ws credential).Only
      (Op.LooksFor signature) := by
  unfold enqueuePrefetch
  refine (putHandleUniqueSignature_looksFor hsig _ _ _).bind fun (obs, created) => ?_
  show (if ¬ created then pure PrefetchDecision.alreadyHeld else _ : Program _).Only _
  by_cases hcreated : created = true
  swap
  · rw [if_pos hcreated]
    trivial
  rw [if_neg (not_not.2 hcreated)]
  refine Only.bind ?_ fun datasetHandle => (only_perform.2 trivial).bind fun _ =>
    (only_perform.2 trivial).bind fun _ => Only.bind ?_ fun _ =>
      (only_perform.2 trivial).bind fun _ => (only_perform.2 trivial).bind fun _ => trivial
  · unfold originDatasetHandle
    cases originJobHandle with
    | none => trivial
    | some h => exact (only_perform.2 trivial).attempt.bind fun r => by split <;> trivial
  · unfold recordEdgeFrom
    cases datasetHandle with
    | none => trivial
    | some source => exact only_perform.2 trivial

theorem prefetchWindow_looksFor (spec predicted : RequestSpec) (ws : WorkspaceId)
    (credential : Option Credential) :
    (prefetchWindow cfg spec predicted ws conceptId credential).Obeys
      (cat.protocol conceptId bbox (Op.LooksFor fun now =>
        prefetchSignature cfg cat now conceptId predicted credential)) ()
      fun _ _ => True := by
  unfold prefetchWindow
  rw [obeys_bind, obeys_perform]
  refine ⟨trivial, ?_⟩
  rintro (e | plan) ⟨⟩ hplan
  · trivial
  obtain rfl : plan = cat.planWindow predicted := hplan
  rw [afterBind_ok]
  split
  · trivial
  rename_i planned hplanned
  rw [obeys_bind]
  refine (windowRestriction_obeys predicted).mono ?_
  rintro (e | flagged) ⟨⟩ hflagged
  · trivial
  obtain rfl := hflagged flagged rfl
  rw [afterBind_ok]
  split_ifs with hrefused
  · trivial
  rw [obeys_bind, obeys_perform]
  refine ⟨trivial, ?_⟩
  rintro (e | now) ⟨⟩ -
  · trivial
  rw [afterBind_ok]
  split
  · trivial
  rename_i scope hscope
  -- what the service computes by now is what the prefetch is said to look for
  have hsig : prefetchSignature cfg cat now conceptId predicted credential =
      some (computeRequestSignature cfg (some conceptId) predicted.aoiBbox predicted.timeRange
        planned.variableNames predicted.outputFormat scope) := by
    simp only [prefetchSignature, hplanned, if_neg hrefused, hscope]
  refine obeys_catalog ((only_perform.2 ⟨now, hsig⟩).bind fun row => ?_)
  split
  · trivial
  · exact enqueuePrefetch_looksFor hsig _ _ _ _

/-- The prefetch looks for the signature of the window it predicts, and stores its handle
under it. -/
theorem maybePrefetch_looksFor {spec predicted : RequestSpec}
    (hpredicted : predictNext cfg spec = some predicted) (hconcept : spec.conceptId = some conceptId)
    (speculativeOrigin : Bool) (sizeBytes : Option ℕ) (credential : Option Credential) :
    (maybePrefetch cfg spec speculativeOrigin sizeBytes credential).Obeys
      (cat.protocol conceptId bbox (Op.LooksFor fun now =>
        prefetchSignature cfg cat now conceptId predicted credential)) ()
      fun _ _ => True := by
  unfold maybePrefetch
  by_cases henabled : cfg.prefetchEnabled = true
  swap
  · rw [if_pos henabled]
    trivial
  rw [if_neg (not_not.2 henabled), hpredicted, hconcept]
  split_ifs
  · trivial
  cases spec.workspaceId with
  | none => trivial
  | some ws =>
    dsimp only
    rw [obeys_bind, obeys_perform]
    refine ⟨trivial, ?_⟩
    rintro (e | busy) ⟨⟩ -
    · trivial
    rw [afterBind_ok]
    split_ifs
    · trivial
    cases sizeBytes with
    | none => trivial
    | some size =>
      dsimp only
      split_ifs
      · trivial
      rw [obeys_bind, obeys_perform]
      refine ⟨trivial, ?_⟩
      rintro (e | now) ⟨⟩ -
      · trivial
      rw [afterBind_ok, obeys_bind, obeys_perform]
      refine ⟨trivial, ?_⟩
      rintro (e | issued) ⟨⟩ -
      · trivial
      rw [afterBind_ok]
      by_cases hbudget : cfg.prefetchBudgetPerWorkspacePerDay ≤ List.length issued
      · rw [if_pos hbudget]
        trivial
      rw [if_neg hbudget, obeys_bind, obeys_perform]
      refine ⟨trivial, ?_⟩
      rintro (e | rows) ⟨⟩ -
      · trivial
      rw [afterBind_ok]
      split_ifs
      · exact prefetchWindow_looksFor _ _ _ _
      · trivial
      · trivial

end programs

/-! ### When the two agree -/

/-- Within one identity scope, two requests for the same collection, box and window have the
same text exactly when their names and formats render alike. -/
theorem signatureText_eq_iff {cfg : Settings} {conceptId : Option String} {bbox : Option Bbox}
    {timeRange : Option String} {names names' : List String} {format format' : String}
    {scope : Option String} :
    signatureText cfg conceptId bbox timeRange names format scope =
        signatureText cfg conceptId bbox timeRange names' format' scope ↔
      renderNames names ++ ":" ++ format = renderNames names' ++ ":" ++ format' := by
  cases scope with
  | none =>
    simp only [signatureText, Option.map_none, Option.toList_none, List.append_nil,
      String.intercalate_cons_cons, String.intercalate_singleton, String.append_right_inj,
      String.append_assoc]
  | some scope =>
    simp only [signatureText, Option.map_some, Option.toList_some, List.cons_append,
      List.nil_append, String.intercalate_cons_cons, String.intercalate_singleton,
      String.append_right_inj]
    simp only [← String.append_assoc, String.append_left_inj]

/-- A format survives the round trip through JSONB unless it is empty, and an empty one is
noticed. -/
theorem names_and_format_eq_iff {names names' format : String} :
    names ++ ":" ++ format =
        names' ++ ":" ++ (if format = "" then defaultFormat else format) ↔
      format ≠ "" ∧ names = names' := by
  by_cases hformat : format = ""
  · subst hformat
    simp only [if_true, ne_eq, not_true_eq_false, false_and, iff_false]
    intro h
    have hlast := congrArg (fun text : String => text.toList.getLast?) h
    simp [defaultFormat] at hlast
  · simp only [hformat, if_false, ne_eq, not_false_eq_true, true_and, String.append_left_inj]

/-- The stored credential of a caller yields the caller's token again. -/
theorem inheritedToken_storedCredential {cfg : Settings} {token : Option Token}
    (hkey : token.isSome → cfg.earthdataCredentialKey ≠ []) :
    inheritedToken cfg (storedCredential cfg token) = token := by
  cases token with
  | none => rfl
  | some token =>
    obtain ⟨key, keys, hkeys⟩ := List.exists_cons_of_ne_nil (hkey rfl)
    simp [storedCredential, encryptCredential, inheritedToken, decryptCredential, hkeys,
      Except.toOption]

/-- A prefetch is not refused for its identity: it has one where the collection is restricted,
and it is still valid where it matters. -/
def Catalog.MayPrefetch (cat : Catalog) (now : Time) (identity : Option Token) : Prop :=
  (cat.restricted = some true → identity ≠ none) ∧
    (cat.restricted ≠ some false → (parseEdlToken now identity).toBool = true)

theorem prefetchSignature_eq_some {cfg : Settings} {cat : Catalog} {now : Time}
    {conceptId : String} {predicted : RequestSpec} {credential : Option Credential}
    {signature : String} :
    prefetchSignature cfg cat now conceptId predicted credential = some signature ↔
      ∃ planned, (cat.planWindow predicted).spec = some planned ∧
        cat.MayPrefetch now (inheritedToken cfg credential) ∧
        computeRequestSignature cfg (some conceptId) predicted.aoiBbox predicted.timeRange
          planned.variableNames predicted.outputFormat
          (cat.scope cfg now (inheritedToken cfg credential)) = signature := by
  unfold prefetchSignature Catalog.MayPrefetch Catalog.scope prefetchScope
  cases (cat.planWindow predicted).spec with
  | none => simp
  | some planned =>
    simp only [Option.some.injEq, exists_eq_left']
    generalize inheritedToken cfg credential = identity
    by_cases hopen : cat.restricted = some false
    · simp [hopen]
    · simp only [hopen, if_false, ne_eq, not_false_eq_true, true_imp_iff]
      cases hparse : parseEdlToken now identity with
      | error e => simp [Except.toBool]
      | ok identity' =>
        obtain rfl := parseEdlToken_eq_ok hparse
        simp only [Except.toBool, and_true]
        split_ifs with hrefused
        · simp [hrefused]
        · simp only [Option.some.injEq]
          exact ⟨fun h => ⟨fun hr hn => hrefused ⟨hr, hn⟩, h⟩, fun h => h.2⟩

/-- The result of a prefetch is found by the request it predicts: the request is made again by the
same caller, with the predicted window for its time range. -/
def PrefetchReachable (cfg : Settings) (cat : Catalog) (now now' : Time) (conceptId : String)
    (bbox : Option Bbox) (request : RetrievalRequest) (token : Option Token)
    (predicted : RequestSpec) : Prop :=
  ∀ signature, prefetchSignature cfg cat now conceptId predicted (storedCredential cfg token) =
      some signature → ∀ timeRange, predicted.timeRange = some timeRange →
    ∃ canonical, RetrievalRequest.normalize cfg { request with timeRange } = .ok canonical ∧
      requestSignature cfg cat now' conceptId bbox canonical token = signature

/-- Where the predicted window is planned and not refused: the service's scope is still the
one it was, the caller's format was not empty, and the names as typed render as the names the
prefetch has resolved. -/
def RendersAlike (cfg : Settings) (cat : Catalog) (now now' : Time) (request : RetrievalRequest)
    (token : Option Token) (predicted : RequestSpec) : Prop :=
  ∀ planned, (cat.planWindow predicted).spec = some planned → cat.MayPrefetch now token →
    cat.scope cfg now' token = cat.scope cfg now token ∧
      outputFormat request cat.caps ≠ "" ∧
        renderNames request.variableNames = renderNames planned.variableNames

theorem predictNext_eq_some {cfg : Settings} {spec predicted : RequestSpec}
    (h : predictNext cfg spec = some predicted) :
    ∃ range : TimeRange, range.start.instant ≤ range.stop.instant ∧
      predicted = spec.forTimeRange range.toCmr := by
  unfold predictNext at h
  split_ifs at h
  split at h
  · cases h
  · rename_i window _
    obtain ⟨next, hnext, rfl⟩ := Option.map_eq_some_iff.1 h
    refine ⟨next, ?_, rfl⟩
    unfold TimeRange.next at hnext
    split_ifs at hnext with hlength
    obtain ⟨stop, hadd, heq⟩ := Option.bind_eq_some_iff.1 hnext
    obtain rfl := Option.some.inj heq
    have hinstant := DateTime.instant_of_add hadd
    dsimp only
    omega

section reachable

variable {cfg : Settings} {cat : Catalog} {now now' : Time} {path : Provider} {conceptId : String}
  {bbox : Option Bbox} {request canonical : RetrievalRequest} {token : Option Token}
  {ws : WorkspaceId} {jobHandle obsHandle : HandleId} {predicted : RequestSpec}

/-- A predicted window is in the canonical form. -/
theorem normalize_toCmr (hempty : cfg.fromisoformat "" = none) (hback : ReadsBack cfg.fromisoformat)
    (request : RetrievalRequest) {range : TimeRange}
    (hle : range.start.instant ≤ range.stop.instant) :
    RetrievalRequest.normalize cfg { request with timeRange := range.toCmr } =
      .ok { request with timeRange := range.toCmr } := by
  unfold RetrievalRequest.normalize
  rw [normalizeTimeRange_toCmr hempty hback hle]
  show Except.ok { request with timeRange := String.ofList range.toCmr.toList } = _
  rw [String.ofList_toList]

theorem RendersAlike.prefetchReachable (hempty : cfg.fromisoformat "" = none)
    (hback : ReadsBack cfg.fromisoformat) (hkey : token.isSome → cfg.earthdataCredentialKey ≠ [])
    (hcanonical : request.normalize cfg = .ok canonical)
    (hpredicted : predictNext cfg
      (persistedSpec cat path conceptId bbox canonical ws jobHandle obsHandle) = some predicted)
    (halike : RendersAlike cfg cat now now' request token predicted) :
    PrefetchReachable cfg cat now now' conceptId bbox request token predicted := by
  obtain ⟨canonicalTime, -, rfl⟩ := RetrievalRequest.normalize_eq_ok hcanonical
  obtain ⟨range, hle, rfl⟩ := predictNext_eq_some hpredicted
  intro signature hstored timeRange htimeRange
  obtain ⟨planned, hplanned, hmay, rfl⟩ := prefetchSignature_eq_some.1 hstored
  rw [inheritedToken_storedCredential hkey] at hmay ⊢
  obtain rfl : range.toCmr = timeRange := Option.some.inj htimeRange
  obtain ⟨hscope, hformat, hnames⟩ := halike planned hplanned hmay
  refine ⟨_, normalize_toCmr hempty hback request hle, congrArg (cfg.sha256Prefix 24) ?_⟩
  rw [← hscope]
  exact signatureText_eq_iff.2 (names_and_format_eq_iff.2 ⟨hformat, hnames⟩)

theorem PrefetchReachable.rendersAlike (hempty : cfg.fromisoformat "" = none)
    (hback : ReadsBack cfg.fromisoformat) (hkey : token.isSome → cfg.earthdataCredentialKey ≠ [])
    (hcanonical : request.normalize cfg = .ok canonical)
    (hpredicted : predictNext cfg
      (persistedSpec cat path conceptId bbox canonical ws jobHandle obsHandle) = some predicted)
    (hinj : Function.Injective (cfg.sha256Prefix 24))
    (hscope : cat.scope cfg now' token = cat.scope cfg now token)
    (hreach : PrefetchReachable cfg cat now now' conceptId bbox request token predicted) :
    RendersAlike cfg cat now now' request token predicted := by
  obtain ⟨canonicalTime, -, rfl⟩ := RetrievalRequest.normalize_eq_ok hcanonical
  obtain ⟨range, hle, rfl⟩ := predictNext_eq_some hpredicted
  intro planned hplanned hmay
  obtain ⟨again, hagain, hsame⟩ := hreach _ (prefetchSignature_eq_some.2 ⟨planned, hplanned,
    by rwa [inheritedToken_storedCredential hkey], rfl⟩) range.toCmr rfl
  obtain rfl := Except.ok.inj ((normalize_toCmr hempty hback request hle).symm.trans hagain)
  rw [inheritedToken_storedCredential hkey, ← hscope] at hsame
  exact ⟨hscope, names_and_format_eq_iff.1 (signatureText_eq_iff.1 (hinj hsame))⟩

/-- The prefetched result is found if the two render alike; and, since the hash is taken to be
injective, only then, as long as the caller's scope has not changed. -/
theorem prefetchReachable_iff (hempty : cfg.fromisoformat "" = none)
    (hback : ReadsBack cfg.fromisoformat) (hkey : token.isSome → cfg.earthdataCredentialKey ≠ [])
    (hcanonical : request.normalize cfg = .ok canonical)
    (hpredicted : predictNext cfg
      (persistedSpec cat path conceptId bbox canonical ws jobHandle obsHandle) = some predicted) :
    (RendersAlike cfg cat now now' request token predicted →
      PrefetchReachable cfg cat now now' conceptId bbox request token predicted) ∧
    (Function.Injective (cfg.sha256Prefix 24) →
      cat.scope cfg now' token = cat.scope cfg now token →
      PrefetchReachable cfg cat now now' conceptId bbox request token predicted →
        RendersAlike cfg cat now now' request token predicted) :=
  ⟨fun halike => halike.prefetchReachable hempty hback hkey hcanonical hpredicted,
    fun hinj hscope hreach =>
      hreach.rendersAlike hempty hback hkey hcanonical hpredicted hinj hscope⟩

end reachable

/-- An open, gridded and grouped collection: its column is found under its leaf name. -/
def Catalog.grouped : Catalog where
  caps := { accessRestricted := some false }
  opendapUrls _ _ := ["https://opendap.earthdata.nasa.gov/granule"]
  resolve names :=
    names.map fun name => if name = "vertical_column" then "/product/vertical_column" else name

/-- Reads a date, and what `isoformat` writes. -/
def readDates (text : String) : Option DateTime :=
  (readIsoformat text).or (readIsoformat (text ++ "T00:00:00"))

theorem readsBack_readDates : ReadsBack readDates := by
  intro d
  unfold readDates
  rw [readsBack_readIsoformat d, Option.some_or]

/-- The settings in which dates are read. -/
def Settings.readsDates : Settings := { Settings.aprilWeeks with fromisoformat := readDates }

theorem readsBack_readsDates : ReadsBack Settings.readsDates.fromisoformat := by
  unfold Settings.readsDates
  dsimp only
  exact readsBack_readDates

/-- A box over the first week, with the variable written as given. -/
def RetrievalRequest.firstWeek (name : String) : RetrievalRequest :=
  { RetrievalRequest.plain with timeRange := " 2024-04-01, 2024-04-08", variableNames := [name] }

/-- The request with its time range in the canonical form. -/
def RetrievalRequest.canonicalWeek (name : String) : RetrievalRequest :=
  { RetrievalRequest.plain with timeRange := "2024-04-01/2024-04-08", variableNames := [name] }

theorem normalize_firstWeek (name : String) :
    (RetrievalRequest.firstWeek name).normalize .readsDates = .ok (.canonicalWeek name) := by
  have hrange : normalizeTimeRange Settings.readsDates.fromisoformat
      " 2024-04-01, 2024-04-08".toList false = .ok "2024-04-01/2024-04-08".toList := by
    decide +kernel
  unfold RetrievalRequest.normalize
  rw [show (RetrievalRequest.firstWeek name).timeRange = " 2024-04-01, 2024-04-08" from rfl, hrange]
  rfl

/-- The prediction for a request over the first week in a box, by a caller without a token. -/
def predictedWeek (name : String) : Option RequestSpec :=
  predictNext .readsDates (persistedSpec .grouped .harmony "C1-LPCLOUD" (some ⟨0, 0, 1, 1⟩)
    (.canonicalWeek name) 0 ⟨.job, 1⟩ ⟨.obs, 0⟩)

theorem prefetchReachable_fullPath : ∃ predicted,
    predictedWeek "/product/vertical_column" = some predicted ∧
      PrefetchReachable .readsDates .grouped 0 0 "C1-LPCLOUD" (some ⟨0, 0, 1, 1⟩)
        (.firstWeek "/product/vertical_column") none predicted := by
  obtain ⟨predicted, hpredicted⟩ := Option.isSome_iff_exists.1
    (show (predictedWeek "/product/vertical_column").isSome from by decide +kernel)
  refine ⟨predicted, hpredicted, (prefetchReachable_iff (by decide +kernel) readsBack_readsDates
    (by simp) (normalize_firstWeek _) hpredicted).1 ?_⟩
  obtain ⟨range, -, rfl⟩ := predictNext_eq_some hpredicted
  rintro planned hplanned -
  obtain rfl := Option.some.inj hplanned
  exact ⟨rfl, by decide, rfl⟩

theorem not_prefetchReachable_leafName : ∃ predicted,
    predictedWeek "vertical_column" = some predicted ∧
      ¬ PrefetchReachable .readsDates .grouped 0 0 "C1-LPCLOUD" (some ⟨0, 0, 1, 1⟩)
        (.firstWeek "vertical_column") none predicted := by
  obtain ⟨predicted, hpredicted⟩ := Option.isSome_iff_exists.1
    (show (predictedWeek "vertical_column").isSome from by decide +kernel)
  refine ⟨predicted, hpredicted, fun hreach => ?_⟩
  have halike := hreach.rendersAlike (by decide +kernel) readsBack_readsDates (by simp)
    (normalize_firstWeek _) hpredicted Function.injective_id rfl
  obtain ⟨range, -, rfl⟩ := predictNext_eq_some hpredicted
  have hmay : Catalog.grouped.MayPrefetch 0 none :=
    ⟨fun hclosed => (by cases hclosed), fun hopen => absurd rfl hopen⟩
  have hnames : renderNames ["vertical_column"] = renderNames ["/product/vertical_column"] :=
    (halike _ rfl hmay).2.2
  exact absurd hnames (by decide)

end EarthdataMcp
