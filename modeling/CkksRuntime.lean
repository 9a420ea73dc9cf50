import CkksRuntime.OperatorSpec
import CkksRuntime.Verifier
import CkksRuntime.Acceptance
import CkksRuntime.Fanout
import CkksRuntime.VecExecutor
import CkksRuntime.ComputeRules
import CkksRuntime.Json
import CkksRuntime.JsonPlanReader
import CkksRuntime.OperatorSpecReader
import CkksRuntime.PlaintextBundle
import CkksRuntime.IntegerBounds
import CkksRuntime.Interaction
import CkksRuntime.Runtime
import CkksRuntime.FailFast
import CkksRuntime.Script
import CkksRuntime.ScriptOrder
import CkksRuntime.ScriptRun
import CkksRuntime.Release
import CkksRuntime.Modes
import CkksRuntime.Ranks
import CkksRuntime.MpiWire
import CkksRuntime.SpecInvariants
import CkksRuntime.Requirements
import CkksRuntime.Evaluation
import CkksRuntime.PlanAlignment
import CkksRuntime.MockCluster
import CkksRuntime.Preflight
import CkksRuntime.MockVecApi
import CkksRuntime.Protocol
import CkksRuntime.ScriptProtocol
import CkksRuntime.MockSystem
import CkksRuntime.MockProgress
import CkksRuntime.MockInvariant
import CkksRuntime.Deadlock
import CkksRuntime.DigestChecks
import CkksRuntime.DigestRuns
import CkksRuntime.Matching
import CkksRuntime.MpiSystem
import CkksRuntime.Fips180
import CkksRuntime.Identifiers
import CkksRuntime.Sha256Fips
import CkksRuntime.VecStore
import CkksRuntime.DuplicateKeys
import CkksRuntime.BundleLoader
import CkksRuntime.Handles
import CkksRuntime.CleanSlots
import CkksRuntime.VerifierSafety
import CkksRuntime.Admission
import CkksRuntime.FanoutFixture
import CkksRuntime.Attempt
import CkksRuntime.Described
import CkksRuntime.Promises
import CkksRuntime.MockValues
import CkksRuntime.MockRefinement
import CkksRuntime.Halting
import CkksRuntime.MockTermination
import CkksRuntime.Barriers
import CkksRuntime.MpiMessages
import CkksRuntime.MpiValues
import CkksRuntime.MpiDelivery
import CkksRuntime.MpiProgress
