import EarthdataMcp.Jobs.State

/-!
# The durable job row

* the identifiers of the system and the durable request specification a job carries;
* `Job`, one row of the `jobs` table, and `setState`, the guarded change of state through
  which every writer of the table goes: it sets extra columns, stamps the rebuild cost on
  the way to `ready`, and erases the stored credential in a terminal state;
* `Job.Moves`, what any sequence of guarded changes can do to a row.

Times are microseconds, as those of a `datetime` are.  The `request_spec` column is kept as what
`from_jsonb` makes of it: the fields, and the defect that makes it raise, if there is one.
-/

namespace EarthdataMcp

abbrev Time := ℕ

/-- `timedelta(seconds=n)`. -/
def seconds (n : ℕ) : Time := n * 1000000

abbrev JobId := ℕ
abbrev WorkspaceId := ℕ

/-- `str.lower`, on the letters that occur in the tables of the source. -/
def lower (s : String) : String := String.ofList (s.toList.map Char.toLower)

/-- The kinds of handle the server mints. -/
inductive HandleType
  | dataset
  | aoi
  | query
  | obs
  | cube
  | preview
  | job
  deriving DecidableEq, Repr

/-- A handle, `obs_3f9c…`: its prefix and its random suffix. -/
structure HandleId where
  type : HandleType
  suffix : ℕ
  deriving DecidableEq, Repr

/-- The paths a request can be routed to. -/
inductive Provider
  | harmony
  | appeears
  | opendap
  | direct
  deriving DecidableEq, Repr

/-- The name of a provider, as it stands in a message. -/
def Provider.name : Provider → String
  | .harmony => "harmony"
  | .appeears => "appeears"
  | .opendap => "opendap"
  | .direct => "direct"

/-- A coordinate in degrees: a finite float, which is a number, or the negative zero. -/
structure Coordinate where
  value : ℚ
  negativeZero : Bool := false
  signed : negativeZero = true → value = 0 := by simp
  deriving DecidableEq, Repr

instance (n : ℕ) : OfNat Coordinate n := ⟨{ value := n }⟩

/-- A bounding box `(west, south, east, north)`. -/
structure Bbox where
  west : Coordinate
  south : Coordinate
  east : Coordinate
  north : Coordinate
  deriving DecidableEq, Repr

/-- The durable, re-materializable request of a job. -/
structure RequestSpec where
  conceptId : Option String
  shortName : Option String
  outputFormat : String
  needsPointSample : Bool
  aoiBbox : Option Bbox
  timeRange : Option String
  variableNames : List String
  provider : Provider
  opendapUrls : List String
  workspaceId : Option WorkspaceId
  jobHandle : Option HandleId
  obsHandle : Option HandleId
  deriving DecidableEq, Repr

/-- A stored specification: `defect` is the message `from_jsonb` raises with, if any. -/
structure StoredSpec where
  spec : RequestSpec
  defect : Option String := none
  deriving DecidableEq, Repr

/-- `_DEFAULT_FORMAT`. -/
def defaultFormat : String := "application/netcdf4"

/-- A specification after the round trip through JSONB: `output_format or _DEFAULT_FORMAT`. -/
def RequestSpec.loaded (s : RequestSpec) : RequestSpec :=
  { s with outputFormat := if s.outputFormat = "" then defaultFormat else s.outputFormat }

/-- The JSONB form of a specification. -/
def RequestSpec.toJsonb (s : RequestSpec) : StoredSpec := ⟨s.loaded, none⟩

/-- Rebuild a specification from its stored form. -/
def fromJsonb (s : StoredSpec) : Except String RequestSpec :=
  match s.defect with
  | some m => .error m
  | none => .ok s.spec

theorem fromJsonb_eq_ok {s : StoredSpec} {spec : RequestSpec} (h : fromJsonb s = .ok spec) :
    s.spec = spec := by
  unfold fromJsonb at h
  split at h
  · cases h
  · exact Except.ok.inj h

@[simp] theorem fromJsonb_toJsonb (s : RequestSpec) : fromJsonb s.toJsonb = .ok s.loaded :=
  rfl

/-- The fallback's `{**request_spec, "provider": p}`. -/
def StoredSpec.withProvider (s : StoredSpec) (p : Provider) : StoredSpec :=
  { s with spec := { s.spec with provider := p } }

/-- A caller's Earthdata Login token, with the claims of its payload. -/
structure Token where
  text : String
  wellFormed : Bool := true
  uid : Option String := none
  exp : Option Time := none
  deriving DecidableEq, Repr

/-- The encrypted credential column: the token and the key it was written under. -/
structure Credential where
  key : ℕ
  token : Token
  deriving DecidableEq, Repr

/-- What one materialization delivered. -/
structure MaterializationRecord where
  granuleIds : Option (List String)
  providerUsed : Provider
  serviceChain : Option (List String)
  outputFormat : String
  deriving DecidableEq, Repr

/-- One row of the `jobs` table. -/
structure Job where
  jobId : JobId
  jobHandle : HandleId
  obsHandle : Option HandleId
  provider : Provider
  requestSpec : StoredSpec
  state : JobState
  providerJobUrl : Option String := none
  progress : ℤ := 0
  message : Option String := none
  error : Option String := none
  lastPolledAt : Option Time := none
  credentialEncrypted : Option Credential := none
  materialization : Option MaterializationRecord := none
  rebuildCostSeconds : Option ℚ := none
  speculative : Bool := false
  createdAt : Time := 0
  updatedAt : Time := 0
  deriving DecidableEq, Repr

/-! ### The guarded change of state -/

/-- The extra columns a change of state may set. -/
structure Extra where
  providerJobUrl : Option (Option String) := none
  progress : Option ℤ := none
  message : Option (Option String) := none
  error : Option (Option String) := none
  materialization : Option MaterializationRecord := none
  rebuildCostSeconds : Option ℚ := none

/-- Set the extra columns. -/
def Job.setExtra (job : Job) (extra : Extra) : Job :=
  { job with
    providerJobUrl := extra.providerJobUrl.getD job.providerJobUrl
    progress := extra.progress.getD job.progress
    message := extra.message.getD job.message
    error := extra.error.getD job.error
    materialization := extra.materialization.or job.materialization
    rebuildCostSeconds := extra.rebuildCostSeconds.or job.rebuildCostSeconds }

/-- Seconds from `createdAt` to now, never negative. -/
def elapsedSince (now createdAt : Time) : ℚ := (now - createdAt : ℕ) / 1000000

/-- The change of state once the guard has passed. -/
def Job.enter (now : Time) (job : Job) (new : JobState) (extra : Extra) : Job :=
  let moved := { job with state := new }.setExtra extra
  let costed :=
    if new = .ready ∧ extra.rebuildCostSeconds = none then
      { moved with rebuildCostSeconds := some (elapsedSince now job.createdAt) }
    else moved
  if new.Terminal then { costed with credentialEncrypted := none } else costed

/-- Move a loaded job to `new` (guarded), setting any extra columns. -/
def setState (now : Time) (job : Job) (new : JobState) (extra : Extra := {}) :
    Except JobState.IllegalTransition Job :=
  match JobState.assertLegal job.state new with
  | .error e => .error e
  | .ok _ => .ok (job.enter now new extra)

theorem setState_eq_ok {now : Time} {job job' : Job} {new : JobState} {extra : Extra} :
    setState now job new extra = .ok job' ↔
      job.state.Legal new ∧ job' = job.enter now new extra := by
  unfold setState JobState.assertLegal
  split_ifs with h <;> simp [h, eq_comm]

theorem setState_of_legal {now : Time} {job : Job} {new : JobState} {extra : Extra}
    (h : job.state.Legal new) : setState now job new extra = .ok (job.enter now new extra) :=
  setState_eq_ok.2 ⟨h, rfl⟩

section enter

variable (now : Time) (job : Job) (new : JobState) (extra : Extra)

@[simp] theorem Job.enter_state : (job.enter now new extra).state = new := by
  unfold Job.enter; split_ifs <;> rfl

@[simp] theorem Job.enter_jobId : (job.enter now new extra).jobId = job.jobId := by
  unfold Job.enter; split_ifs <;> rfl

@[simp] theorem Job.enter_jobHandle : (job.enter now new extra).jobHandle = job.jobHandle := by
  unfold Job.enter; split_ifs <;> rfl

@[simp] theorem Job.enter_obsHandle : (job.enter now new extra).obsHandle = job.obsHandle := by
  unfold Job.enter; split_ifs <;> rfl

@[simp] theorem Job.enter_provider : (job.enter now new extra).provider = job.provider := by
  unfold Job.enter; split_ifs <;> rfl

@[simp] theorem Job.enter_requestSpec :
    (job.enter now new extra).requestSpec = job.requestSpec := by
  unfold Job.enter; split_ifs <;> rfl

@[simp] theorem Job.enter_createdAt : (job.enter now new extra).createdAt = job.createdAt := by
  unfold Job.enter; split_ifs <;> rfl

@[simp] theorem Job.enter_updatedAt : (job.enter now new extra).updatedAt = job.updatedAt := by
  unfold Job.enter; split_ifs <;> rfl

@[simp] theorem Job.enter_lastPolledAt :
    (job.enter now new extra).lastPolledAt = job.lastPolledAt := by
  unfold Job.enter; split_ifs <;> rfl

@[simp] theorem Job.enter_speculative :
    (job.enter now new extra).speculative = job.speculative := by
  unfold Job.enter; split_ifs <;> rfl

@[simp] theorem Job.enter_providerJobUrl :
    (job.enter now new extra).providerJobUrl = extra.providerJobUrl.getD job.providerJobUrl := by
  unfold Job.enter; split_ifs <;> rfl

/-- The credential is erased in a terminal state and kept in every other. -/
@[simp] theorem Job.enter_credentialEncrypted :
    (job.enter now new extra).credentialEncrypted =
      if new.Terminal then none else job.credentialEncrypted := by
  unfold Job.enter; split_ifs <;> rfl

end enter

/-! ### What a transaction can do to a row -/

theorem setState_hops {now : Time} {job job' : Job} {new : JobState} {extra : Extra}
    (h : setState now job new extra = .ok job') : job.state.Hops job'.state := by
  obtain ⟨hl, rfl⟩ := setState_eq_ok.1 h
  rw [Job.enter_state]
  exact Or.inr (Or.inl hl)

/-- `job'` is reached from `job` by guarded changes of state and writes of other columns:
the row keeps its identity and its time of creation, its state follows the table, and its
credential is the one it had, or erased in a terminal state. -/
structure Job.Moves (job job' : Job) : Prop where
  jobId : job'.jobId = job.jobId
  jobHandle : job'.jobHandle = job.jobHandle
  obsHandle : job'.obsHandle = job.obsHandle
  createdAt : job'.createdAt = job.createdAt
  speculative : job'.speculative = job.speculative
  follows : job.state.Follows job'.state
  credential : job'.state = job.state ∧ job'.credentialEncrypted = job.credentialEncrypted ∨
    job'.credentialEncrypted = if job'.state.Terminal then none else job.credentialEncrypted

namespace Job.Moves

theorem refl (job : Job) : job.Moves job :=
  ⟨rfl, rfl, rfl, rfl, rfl, .refl _, Or.inl ⟨rfl, rfl⟩⟩

theorem trans {a b c : Job} (h : a.Moves b) (h' : b.Moves c) : a.Moves c where
  jobId := h'.jobId.trans h.jobId
  jobHandle := h'.jobHandle.trans h.jobHandle
  obsHandle := h'.obsHandle.trans h.obsHandle
  createdAt := h'.createdAt.trans h.createdAt
  speculative := h'.speculative.trans h.speculative
  follows := h.follows.trans h'.follows
  credential := by
    rcases h.credential with ⟨hs, hc⟩ | hc <;> rcases h'.credential with ⟨hs', hc'⟩ | hc'
    · exact Or.inl ⟨hs'.trans hs, hc'.trans hc⟩
    · exact Or.inr (by rw [hc', hc])
    · exact Or.inr (by rw [hc', hc, hs'])
    · refine Or.inr ?_
      rw [hc', hc]
      split_ifs with hcT hbT
      · rfl
      · exact absurd (h'.follows.terminal hbT) hcT
      · rfl

theorem enter (now : Time) {job : Job} {new : JobState} {extra : Extra}
    (h : job.state.Legal new) : job.Moves (job.enter now new extra) where
  jobId := by simp
  jobHandle := by simp
  obsHandle := by simp
  createdAt := by simp
  speculative := by simp
  follows := by simpa using h.follows
  credential := Or.inr (by simp)

theorem setState {now : Time} {job job' : Job} {new : JobState} {extra : Extra}
    (h : setState now job new extra = .ok job') : job.Moves job' := by
  obtain ⟨hl, rfl⟩ := setState_eq_ok.1 h
  exact enter now hl

end Job.Moves

end EarthdataMcp
