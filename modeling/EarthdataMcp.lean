import EarthdataMcp.Jobs.State
import EarthdataMcp.Jobs.Job
import EarthdataMcp.Providers.Status
import EarthdataMcp.Jobs.Poll
import EarthdataMcp.Concurrency.Prog
import EarthdataMcp.Concurrency.Machine
import EarthdataMcp.Providers.Identity
import EarthdataMcp.Workspace.Handle
import EarthdataMcp.Jobs.Table
import EarthdataMcp.Workspace.Store
import EarthdataMcp.Jobs.Queue
import EarthdataMcp.World
import EarthdataMcp.Providers.RequestSpec
import EarthdataMcp.Jobs.Eviction
import EarthdataMcp.Jobs.Prefetch
import EarthdataMcp.Jobs.Worker
import EarthdataMcp.Tools.Retrieval
import EarthdataMcp.Tools.Export
import EarthdataMcp.Service
import EarthdataMcp.Footprint
import EarthdataMcp.Jobs.EvictionRules
import EarthdataMcp.Jobs.ReadCommitted
import EarthdataMcp.Jobs.CommittedStates
import EarthdataMcp.Jobs.RowNotes
import EarthdataMcp.Jobs.Credentials
import EarthdataMcp.Jobs.Phases
import EarthdataMcp.Jobs.Submission
import EarthdataMcp.Concurrency.Sequential
import EarthdataMcp.Concurrency.Cut
import EarthdataMcp.Jobs.PollWatch
import EarthdataMcp.Jobs.PrefetchSignature
import EarthdataMcp.Concurrency.SharedRecord
import EarthdataMcp.Workspace.UpdateHandle
import EarthdataMcp.Jobs.HandleWork
import EarthdataMcp.Jobs.WorkPrograms
import EarthdataMcp.Jobs.HandleRuns
import EarthdataMcp.Jobs.Agreement
import EarthdataMcp.Tools.PinGuarantee
import EarthdataMcp.Jobs.BlobIntegrity
import EarthdataMcp.Tools.Recovery
import EarthdataMcp.Tools.SignatureSlots
import EarthdataMcp.Jobs.EvictionOrder
import EarthdataMcp.Jobs.EvictionTurn
import EarthdataMcp.Jobs.SpeculativeResults
import EarthdataMcp.Jobs.AdmissionGate
import EarthdataMcp.Providers.TimeRange
import EarthdataMcp.Text.Fields
import EarthdataMcp.Providers.Instants
import EarthdataMcp.Providers.RequestSignature
import EarthdataMcp.Tools.PinCeiling
import EarthdataMcp.Jobs.PrefetchBudget
import EarthdataMcp.Grid.Cells
import EarthdataMcp.Providers.Opendap.Axis
import EarthdataMcp.Text.Paths
import EarthdataMcp.Providers.Opendap.Catalog
import EarthdataMcp.Providers.Opendap.Geometry
import EarthdataMcp.Providers.Opendap.Dmr
import EarthdataMcp.Lists.Collect
import EarthdataMcp.Providers.Opendap.Planning
import EarthdataMcp.Providers.RetrievalPlan
import EarthdataMcp.Providers.Opendap.Constraint
import EarthdataMcp.Providers.Opendap.Brackets
import EarthdataMcp.Text.Json
import EarthdataMcp.Providers.DurableSpec
import EarthdataMcp.Providers.SpecLoading
import EarthdataMcp.Jobs.ReclaimedSpecs
import EarthdataMcp.Providers.SpecRoundTrip
import EarthdataMcp.Tools.SubmittedSpec
import EarthdataMcp.Lists.Rounds
import EarthdataMcp.Workspace.Ancestry
import EarthdataMcp.Text.Replace
import EarthdataMcp.Redaction
import EarthdataMcp.Workspace.Provenance
import EarthdataMcp.Tools.SpatialSelect
import EarthdataMcp.Lists.KeepFirst
import EarthdataMcp.Tools.AlignedCube
import EarthdataMcp.Tools.GroupFlattening
import EarthdataMcp.Tools.GranuleBundle
import EarthdataMcp.Jobs.FailurePath
import EarthdataMcp.Jobs.SubmitFailures
import EarthdataMcp.Providers.ServicePin
import EarthdataMcp.Concurrency.TokenBucket
import EarthdataMcp.Providers.TokenSessions
import EarthdataMcp.Providers.RateLimit
import EarthdataMcp.Providers.CmrPaging
import EarthdataMcp.Text.SelfDelimiting
import EarthdataMcp.Providers.ContentDigest
import EarthdataMcp.Providers.Materialization
import EarthdataMcp.Text.Percent
import EarthdataMcp.Providers.Opendap.Coordinates
import EarthdataMcp.Providers.Opendap.Geolocation
import EarthdataMcp.Tools.Area
import EarthdataMcp.Tools.AreaValidity
import EarthdataMcp.Tools.PointSample
import EarthdataMcp.Providers.TimeRangeGrammar
import EarthdataMcp.Providers.DateArithmetic
import EarthdataMcp.Providers.IsoFormat
import EarthdataMcp.Jobs.WindowPrediction
import EarthdataMcp.Jobs.JobNotes
import EarthdataMcp.Jobs.UpstreamJobs
import EarthdataMcp.Workspace.Registry
import EarthdataMcp.Concurrency.Lockstep
import EarthdataMcp.Workspace.View
import EarthdataMcp.Tools.WorkspaceScope
import EarthdataMcp.Tools.StorageScope
import EarthdataMcp.Tools.RetrievalStatus
import EarthdataMcp.Workspace.SameView
import EarthdataMcp.Tools.Noninterference
import EarthdataMcp.Storage.FileTree
import EarthdataMcp.Storage.LocalFiles
import EarthdataMcp.Storage.BlobFiles
