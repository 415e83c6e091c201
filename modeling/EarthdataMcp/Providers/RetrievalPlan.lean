import EarthdataMcp.Jobs.Job
import EarthdataMcp.Providers.TimeRange
import EarthdataMcp.Providers.Opendap.Axis

/-!
# Retrieval plans

What a retrieval needs, as routing and the providers read it.
-/

namespace EarthdataMcp

/-- An area of interest. -/
structure Aoi where
  bbox : Option Bbox := none
  deriving DecidableEq

/-- The transformations a retrieval requests of a service. -/
structure TransformSpec where
  outputFormat : String
  variableNames : List VarName := []
  reproject : Option String := none
  resample : Option String := none
  deriving DecidableEq

/-- The transformations for a list of variables, if there is one. -/
def transformFor (outputFormat : String) (variableNames : List VarName) : Option TransformSpec :=
  if variableNames = [] then none
  else some { outputFormat := outputFormat, variableNames := variableNames }

/-- What a retrieval needs, and the concrete request. -/
structure RetrievalPlan where
  outputFormat : String
  needsBbox : Bool := false
  needsVariable : Bool := false
  needsTemporal : Bool := false
  needsShape : Bool := false
  needsDimension : Bool := false
  needsReproject : Bool := false
  needsPointSample : Bool := false
  conceptId : Option String := none
  shortName : Option String := none
  aoi : Option Aoi := none
  timeRange : Option TimeRange := none
  transform : Option TransformSpec := none
  deriving DecidableEq

namespace RetrievalPlan

variable (plan : RetrievalPlan)

/-- The variables of the plan, if it has a transform. -/
def variableNames : List VarName := (plan.transform.map TransformSpec.variableNames).getD []

/-- The box of the plan, if it has an area of interest. -/
def bbox : Option Bbox := plan.aoi.bind Aoi.bbox

/-- The same plan for other variables. -/
def withVariables (variableNames : List VarName) : RetrievalPlan :=
  { plan with transform := plan.transform.map fun t => { t with variableNames := variableNames } }

end RetrievalPlan

end EarthdataMcp
