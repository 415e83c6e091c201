import EarthdataMcp.Config

/-!
# Signatures and derived requests

* `computeRequestSignature`, the canonical signature of a request that the exact-match reuse
  looks up, with its identity dimension;
* `RequestSpec.forTimeRange` and `predictNext`, the same ask over the next window.
-/

namespace EarthdataMcp

variable (cfg : Settings)

/-- The west, south, east and north of a box, joined by commas. -/
def Bbox.render (b : Bbox) : String :=
  ",".intercalate ([b.west, b.south, b.east, b.north].map cfg.renderCoordinate)

/-- The canonical form of a time range, whose spelling has been checked. -/
def canonicalTime (timeRange : Option String) : String :=
  match timeRange.bind cfg.parseTimeRange with
  | some range => range.toCmr
  | none => ""

/-- The variable names, as they stand in the text of a signature. -/
def renderNames (names : List String) : String :=
  ",".intercalate (names.dedup.insertionSort (· ≤ ·))

/-- The text a signature is the hash of. -/
def signatureText (conceptId : Option String) (bbox : Option Bbox) (timeRange : Option String)
    (variableNames : List String) (outputFormat : String) (identityScope : Option String) :
    String :=
  let parts :=
    [conceptId.getD "", (bbox.map (Bbox.render cfg)).getD "", canonicalTime cfg timeRange,
      renderNames variableNames, outputFormat]
  ":".intercalate
    (parts ++ (identityScope.map fun scope => "identity=" ++ scope).toList)

/-- The canonical signature of a request. -/
def computeRequestSignature (conceptId : Option String) (bbox : Option Bbox)
    (timeRange : Option String) (variableNames : List String) (outputFormat : String)
    (identityScope : Option String) : String :=
  cfg.sha256Prefix 24
    (signatureText cfg conceptId bbox timeRange variableNames outputFormat identityScope)

/-- The same ask over a different window: what belonged to the old window is cleared. -/
def RequestSpec.forTimeRange (spec : RequestSpec) (timeRange : String) : RequestSpec :=
  { spec with timeRange := some timeRange, opendapUrls := [], jobHandle := none, obsHandle := none }

/-- The next request a specification predicts: the adjacent window of the same length. -/
def predictNext (spec : RequestSpec) : Option RequestSpec :=
  if spec.needsPointSample then none
  else
    match spec.timeRange.bind cfg.parseTimeRange with
    | none => none
    | some window => window.next.map fun next => spec.forTimeRange next.toCmr

end EarthdataMcp
