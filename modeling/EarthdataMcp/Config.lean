import EarthdataMcp.Jobs.Job
import EarthdataMcp.Providers.TimeRange
import EarthdataMcp.Redaction

/-!
# Settings

The settings the modelled functions read, with the defaults of the source, and the functions
from outside the repository that they call: the hash, the reader of an instant, and the text of
a float.
-/

namespace EarthdataMcp

/-- Process settings.  Durations are seconds, sizes are bytes. -/
structure Settings where
  cacheMaxBytes : ℕ := 50 * 1024 ^ 3
  pinnedBytesMaxPerWorkspace : ℕ := 10 * 1024 ^ 3
  rebuildCostDefaultSeconds : ℚ := 60
  orphanSweepIntervalSeconds : ℕ := 3600
  prefetchEnabled : Bool := false
  prefetchMaxBytes : ℕ := 2 * 1024 ^ 3
  prefetchBudgetPerWorkspacePerDay : ℕ := 24
  prefetchMinWindowAgeSeconds : ℕ := 48 * 3600
  jobStaleAfterSeconds : ℕ := 7 * 86400
  jobStalledAfterSeconds : ℕ := 300
  jobMaterializingStalledAfterSeconds : ℕ := 7200
  edlUsername : Option String := none
  earthdataToken : Option Token := none
  /-- The configured Fernet keys; the first one encrypts. -/
  earthdataCredentialKey : List ℕ := []
  /-- The secrets that are registered in the process. -/
  secrets : Registry := .empty
  /-- The first characters of the SHA-256 digest of a text, in hexadecimal. -/
  sha256Prefix : ℕ → String → String := fun _ text => text
  /-- The fingerprint of a transform's recipe and sources. -/
  transformFingerprint : String → List HandleId → String := fun recipe _ => recipe
  /-- `datetime.fromisoformat`; nothing where it raises. -/
  fromisoformat : String → Option DateTime := fun _ => none
  /-- `str` of a coordinate. -/
  renderCoordinate : Coordinate → String := fun _ => ""

/-- `TimeRange.from_cmr`. -/
def Settings.parseTimeRange (cfg : Settings) (value : String) : Option TimeRange :=
  TimeRange.fromCmr cfg.fromisoformat value

/-- `redact`, on a text of the process. -/
def Settings.redact (cfg : Settings) (text : String) : String :=
  String.ofList (EarthdataMcp.redact cfg.secrets text.toList)

end EarthdataMcp
