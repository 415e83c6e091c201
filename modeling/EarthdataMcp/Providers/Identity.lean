import EarthdataMcp.Config
import EarthdataMcp.Text.Fields

/-!
# Identities, exceptions and their classification

* `Exn`, the exceptions of the system, as far as a handler tells them apart;
* `parseEdlToken`, `scopeKey`, `serviceIdentityScope`, `encryptCredential`,
  `decryptCredential`;
* `classifyCredentialFailure`, and the worker's own `isTransientFault` and
  `classifySubmitFailure`.
-/

namespace EarthdataMcp

/-- The classifications of a credential failure. -/
inductive CredentialClass
  | tokenExpired
  | tokenInvalid
  | eulaNotAccepted
  deriving DecidableEq, Repr

/-- An exception: what the handlers can tell about it. -/
inductive Exn
  /-- `IllegalTransition`. -/
  | illegalTransition (edge : JobState.IllegalTransition)
  /-- `JobNotFoundError`. -/
  | jobNotFound (job : JobId)
  /-- `HandleNotFoundError`. -/
  | handleNotFound (handle : HandleId)
  /-- `CrossWorkspaceError`. -/
  | crossWorkspace (handle : HandleId)
  /-- `CredentialError`, with its classification. -/
  | credential (classification : CredentialClass)
  /-- `CredentialKeyUnavailable`. -/
  | credentialKeyUnavailable
  /-- A dependency could not be reached (`_TRANSIENT_FAULTS`). -/
  | transient (text : String)
  /-- A client of a provider could not reach its server, in an exception of its own that is not
  among `_TRANSIENT_FAULTS`, as `requests.ConnectionError` or `requests.Timeout`. -/
  | unreached (text : String)
  /-- An HTTP error response: its status, what the exception says, and the body. -/
  | http (status : ℕ) (text : String) (body : String)
  /-- A plain `Exception(reason, message)`, as harmony-py raises it. -/
  | plain (reason : String) (message : String)
  /-- `KeyError` from the storage. -/
  | missingKey
  /-- Any other `Exception`. -/
  | other (text : String)
  /-- `asyncio.CancelledError`, which is not an `Exception`. -/
  | cancelled
  deriving DecidableEq, Repr

/-- `isinstance(exc, Exception)`. -/
def Exn.isException : Exn → Bool
  | .cancelled => false
  | _ => true

/-- A failure to reach a dependency rather than a verdict on the job. -/
def isTransientFault : Exn → Bool
  | .transient _ => true
  | _ => false

/-! ### Tokens -/

/-- The per-call identity behind a presented token, or a classified failure. -/
def parseEdlToken (now : Time) : Option Token → Except Exn (Option Token)
  | none => .ok none
  | some token =>
      if ¬ token.wellFormed then .error (.credential .tokenInvalid)
      else
        match token.exp with
        | some exp => if exp ≤ now then .error (.credential .tokenExpired) else .ok (some token)
        | none => .ok (some token)

/-- A token that parses is the token that was presented. -/
theorem parseEdlToken_eq_ok {now : Time} {token identity : Option Token}
    (h : parseEdlToken now token = .ok identity) : identity = token := by
  cases token with
  | none => exact (Except.ok.inj h).symm
  | some token =>
    unfold parseEdlToken at h
    simp only at h
    split_ifs at h
    split at h
    · split_ifs at h
      exact (Except.ok.inj h).symm
    · exact (Except.ok.inj h).symm

variable (cfg : Settings)

/-- The identity dimension of a token: the user name, or a digest of the token. -/
def scopeKey (token : Token) : String :=
  match token.uid with
  | some uid => uid
  | none => "token:" ++ cfg.sha256Prefix 16 token.text

/-- The scope of fetches under the environment's own credential. -/
def serviceIdentityScope (now : Time) : String :=
  match cfg.edlUsername with
  | some username => username
  | none =>
      match parseEdlToken now cfg.earthdataToken with
      | .ok (some token) => scopeKey cfg token
      | _ => "service"

/-- The scope of a caller: the token's, or the service's when there is none. -/
def identityScope (now : Time) : Option Token → String
  | some token => scopeKey cfg token
  | none => serviceIdentityScope cfg now

/-- Encrypt a token under the first key. -/
def encryptCredential (token : Token) : Option Credential :=
  cfg.earthdataCredentialKey.head?.map fun key => ⟨key, token⟩

/-- Decrypt a stored credential, with any configured key. -/
def decryptCredential (c : Credential) : Except Exn Token :=
  if c.key ∈ cfg.earthdataCredentialKey then .ok c.token
  else .error (.other "cannot decrypt the job's stored credential")

theorem decryptCredential_eq_ok {c : Credential} {token : Token} :
    decryptCredential cfg c = .ok token ↔ c.key ∈ cfg.earthdataCredentialKey ∧ c.token = token := by
  unfold decryptCredential
  split_ifs with h <;> simp [h]

/-! ### Classification -/

/-- `needle in haystack`. -/
def contains (needle haystack : String) : Bool :=
  haystack.toList.tails.any fun tail => needle.toList.isPrefixOf tail

/-- Signs that an authorization failure asks for a licence to be accepted. -/
def eulaPhrases : List String := ["eula", "approve_app", "license agreement", "end user license"]

/-- The message names a licence requirement. -/
def mentionsEula (text : String) : Bool :=
  eulaPhrases.any fun phrase => contains phrase (lower text)

/-- A rejected credential: expired by its own claim, or invalid. -/
def tokenRejection (now : Time) (identity : Option Token) : CredentialClass :=
  match identity.bind Token.exp with
  | some exp => if exp ≤ now then .tokenExpired else .tokenInvalid
  | none => .tokenInvalid

/-- The reason of an error response, as it is looked up: `reason.strip().lower()`. -/
def reasonPhrase (reason : String) : String := lower (String.ofList (Text.strip reason.toList))

/-- Classify an exception of a provider, or `none` when it is not a credential failure. -/
def classifyCredentialFailure (now : Time) (identity : Option Token) : Exn → Option CredentialClass
  | .credential c => some c
  | .http status _ body =>
      if status = 401 ∨ status = 403 then
        if status = 403 ∧ mentionsEula body then some .eulaNotAccepted
        else some (tokenRejection now identity)
      else none
  | .plain reason message =>
      if reasonPhrase reason = "unauthorized" then some (tokenRejection now identity)
      else if reasonPhrase reason = "forbidden" then
        if mentionsEula message then some .eulaNotAccepted
        else some (tokenRejection now identity)
      else none
  | _ => none

/-- Whether a failed submit says that the request itself is bad. -/
inductive SubmitFailure
  | invalidRequest
  | infrastructure
  deriving DecidableEq, Repr

/-- HTTP reason phrases of a rejected request. -/
def invalidRequestReasons : List String := ["bad request", "unprocessable entity"]

/-- Harmony's wordings for a rejected request. -/
def invalidRequestPhrases : List String :=
  ["coverages were not found", "the requested combination of operations"]

/-- What an exception says, its arguments joined. -/
def Exn.text : Exn → String
  | .plain reason message => reason ++ ": " ++ message
  | .transient text => text
  | .unreached text => text
  | .other text => text
  | .http _ text _ => text
  | .illegalTransition _ => "illegal job state transition"
  | .jobNotFound _ => "unknown job"
  | .handleNotFound _ => "unknown handle"
  | .crossWorkspace _ => "handle is not owned by this workspace"
  | .credential .tokenExpired => "TOKEN_EXPIRED"
  | .credential .tokenInvalid => "TOKEN_INVALID"
  | .credential .eulaNotAccepted => "EULA_NOT_ACCEPTED"
  | .credentialKeyUnavailable => "CredentialKeyUnavailable"
  | .missingKey => "KeyError"
  | .cancelled => "CancelledError"

/-- A readable message for an exception, without the registered secrets. -/
def excMessage (e : Exn) : String := cfg.redact e.text

/-- Classify a caught Harmony submit exception. -/
def classifySubmitFailure (e : Exn) : SubmitFailure :=
  let badReason : Bool :=
    match e with
    | .plain reason _ => reasonPhrase reason ∈ invalidRequestReasons
    | _ => false
  if badReason then .invalidRequest
  else if invalidRequestPhrases.any fun p => contains p (lower (excMessage cfg e)) then
    .invalidRequest
  else .infrastructure

end EarthdataMcp
