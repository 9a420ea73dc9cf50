/-
  ckks-runtime formalization — the operator specification
  (`runtime/operator_spec.hpp`).
-/
import CkksRuntime.Plan

namespace CkksRuntime

structure OperatorSupport where
  supported : Bool := false
  latencyUsByLevel : Option (List ℕ) := none
  noiseByLevel : Option (List Double) := none
  maxLevelsPerOp : Option CInt := none
  deriving DecidableEq, Repr

structure OperatorSpecProvenance where
  kind : String
  repository : String
  revision : String
  path : String
  sourceSha256 : String
  deriving DecidableEq, Repr

structure BootProfile where
  profileId : String
  implementation : BootImplementation := .native
  inputLevelMin : CInt := 0
  inputLevelMax : CInt := 0
  inputComponents : CInt := 2
  outputLevel : CInt := 0
  outputScaleLog2 : CInt := 0
  outputComponents : CInt := 2
  latencyUs : Option ℕ := none
  latencyUsByInputLevel : Option (List ℕ) := none
  noiseByInputLevel : Option (List Double) := none
  needsSecretKey : Bool := false
  needsHostCompute : Bool := false
  deriving DecidableEq, Repr

/-- `operators` is the `std::map` from operations to their support. -/
structure OperatorSpec where
  formatVersion : CInt := 1
  id : String
  version : CInt := 0
  status : String
  targetId : String
  rescaleMode : RescaleMode := .eager
  noiseUnit : Option String := none
  provenance : Option OperatorSpecProvenance := none
  contextId : String
  polyDegree : ℕ := 0
  rnsModuliLog2 : List CInt
  maxModulusLog2 : CInt := 0
  defaultScaleLog2 : CInt := 0
  levelLowerBound : CInt := 0
  levelUpperBound : CInt := 0
  operators : List (ComputeKind × OperatorSupport)
  bootProfiles : List BootProfile
  deriving DecidableEq, Repr

structure LoadedOperatorSpec where
  spec : OperatorSpec
  sourceSha256 : String
  deriving DecidableEq, Repr

/-- `operators.find(kind)`. -/
def OperatorSpec.operator? (spec : OperatorSpec) (kind : ComputeKind) : Option OperatorSupport :=
  spec.operators.lookup kind

end CkksRuntime
