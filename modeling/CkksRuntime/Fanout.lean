/-
  ckks-runtime formalization — the fan-out fixture (`testing/testing.cpp`):
  the test operator specification and `make_fanout_plan`, which distributes one
  multiplication and one negation over every device of a topology.
-/
import CkksRuntime.OperatorSpec

namespace CkksRuntime

structure DiffPoint where
  opOrdinal : ℕ
  distributedValue : ValueId
  referenceValue : ValueId
  deriving DecidableEq, Repr

structure BuiltPlan where
  plan : RuntimePlan
  operatorSpec : LoadedOperatorSpec
  diffMap : List DiffPoint
  referenceOutput : ValueId
  deriving DecidableEq, Repr

/-- The digest of the test operator specification. -/
def testSpecSha256 : String :=
  "sha256:0000000000000000000000000000000000000000000000000000000000000000"

def valueDesc (id : ValueId) (kind : ValueKind) (place : Place) (scaleLog2 : CInt := 1) :
    ValueDesc :=
  ⟨id, kind, place, "ctx", 3, scaleLog2, true, if kind = .plaintext then 1 else 2⟩

def makeTestOperatorSpec : LoadedOperatorSpec where
  spec :=
    { id := "vec-operator-spec"
      version := 1
      status := "placeholder"
      targetId := "vec-fixed-target"
      contextId := "ctx"
      polyDegree := 8192
      rnsModuliLog2 := [60, 40, 40, 40, 60]
      maxModulusLog2 := 60
      defaultScaleLog2 := 40
      levelLowerBound := 0
      levelUpperBound := 4
      operators := [ComputeKind.addCC, .addCP, .subCC, .subCP, .mulCC, .mulCP, .negate, .rotate,
        .rescale, .modSwitch, .relinearize, .boot].map fun kind =>
          (kind, { supported := true,
                   maxLevelsPerOp := if kind = .rescale then some 2 else none })
      bootProfiles :=
        [{ profileId := "test-boot"
           implementation := .decryptReencrypt
           inputLevelMin := 0
           inputLevelMax := 4
           inputComponents := 2
           outputLevel := 4
           outputScaleLog2 := 1
           outputComponents := 2
           latencyUs := some 1
           needsSecretKey := true
           needsHostCompute := true }] }
  sourceSha256 := testSpecSha256

/-- Every device of the topology, rank by rank; a negative count throws. -/
def fanoutDevices : ℕ → List CInt → Except Fault (List Place)
  | _, [] => .ok []
  | rank, count :: counts => do
    if count < 0 then .error (.runtimeError "negative device count")
    let rest ← fanoutDevices (rank + 1) counts
    return ((List.range count.toInt.toNat).map fun index =>
      ⟨.device, Int32.ofNat rank, Int32.ofNat index⟩) ++ rest

/-- The plan for the devices `first :: others`.  With `n` devices the ids are:
    `0`, `1` the host inputs, `2` the ciphertext on the first device, `3 …` the
    plaintexts, `n + 3` the product, then its copies on the other devices, the
    branches and the final output. -/
def fanoutPlan (deviceCounts : List CInt) (first : Place) (others : List Place) : BuiltPlan :=
  let devices := first :: others
  let n := devices.length
  let host : Place := ⟨.host, 0, 0⟩
  let plains := (List.range n).map (· + 3)
  let product := n + 3
  let copies := (List.range others.length).map (· + (n + 4))
  let products := product :: copies
  let branches := (List.range n).map (· + (n + 4 + others.length))
  let final := n + 4 + others.length + n
  let last := devices.getLastD first
  let outputHost : Place := ⟨.host, last.rank, 0⟩
  let replicatePlain := n > 1
  let broadcast := n > 1
  let afterProduct := if broadcast then 4 else 3
  { plan :=
      { planId := 0x46504750554c4c
        target :=
          { targetId := "vec-fixed-target"
            worldSize := Int32.ofNat deviceCounts.length
            deviceCounts := deviceCounts
            capabilityVersion := 1
            operatorSpec := ⟨"vec-operator-spec", 1, testSpecSha256⟩ }
        plaintextBundle := none
        values :=
          [valueDesc 0 .ciphertext host, valueDesc 1 .plaintext host,
            valueDesc 2 .ciphertext first] ++
          List.zipWith (fun id place => valueDesc id .plaintext place) plains devices ++
          [valueDesc product .ciphertext first 2] ++
          List.zipWith (fun id place => valueDesc id .ciphertext place 2) copies others ++
          List.zipWith (fun id place => valueDesc id .ciphertext place 2) branches devices ++
          [valueDesc final .ciphertext outputHost 2]
        externalInputs := [0, 1]
        initialization :=
          [⟨0, .comm ⟨100, .transfer, .pointToPoint, [0], [2], [host], [first], [.ciphertext]⟩⟩,
            ⟨1, .comm ⟨101, if replicatePlain then .replicate else .transfer,
              if replicatePlain then .broadcast else .pointToPoint,
              [1], plains, [host], devices, devices.map fun _ => .plaintext⟩⟩]
        execution :=
          [⟨2, .compute ⟨.mulCP, [2, plains.headD 0], product, first, .monostate⟩⟩] ++
          (if broadcast then
            [⟨3, .comm ⟨102, if copies.length = 1 then .transfer else .replicate, .broadcast,
              [product], copies, [first], others, others.map fun _ => .ciphertext⟩⟩]
          else []) ++
          (List.zip devices (List.zip products branches)).mapIdx fun i x =>
            ⟨afterProduct + i, .compute ⟨.negate, [x.2.1], x.2.2, x.1, .monostate⟩⟩
        finalization :=
          [⟨afterProduct + n, .comm ⟨if broadcast then 103 else 102, .transfer, .auto,
            [branches.getLastD 0], [final], [last], [outputHost], [.ciphertext]⟩⟩]
        finalOutputs := [final] }
    operatorSpec := makeTestOperatorSpec
    diffMap :=
      [⟨0, 2, 0⟩] ++ plains.map (⟨1, ·, 1⟩) ++ [⟨2, product, 2⟩] ++ copies.map (⟨3, ·, 2⟩) ++
        branches.map (⟨4, ·, 3⟩) ++ [⟨afterProduct + n, final, 3⟩]
    referenceOutput := 3 }

def makeFanoutPlan (deviceCounts : List CInt) : Except Fault BuiltPlan := do
  if deviceCounts.isEmpty then
    .error (.runtimeError "fanout plan requires at least one rank")
  match ← fanoutDevices 0 deviceCounts with
  | [] => .error (.runtimeError "fanout plan requires at least one device")
  | first :: others => return fanoutPlan deviceCounts first others

end CkksRuntime
