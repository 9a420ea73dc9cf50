/-
  ckks-runtime formalization — the plan verifier (`runtime/verifier.cpp`).

  `verify` is `PlanVerifier::verify`, `verifyRuntimeTarget` is
  `PlanVerifier::verify_runtime_target`.  The sets and the counter that
  `check_list` captures by reference are the fields of `CheckState`; one
  instruction is `checkInstruction`, with an arm for each of the three bodies.

  A `long long` is an integer whose operations check their range (`LongLong`).
-/
import CkksRuntime.OperatorSpec

namespace CkksRuntime

namespace PlanVerifier

/-- `fail(message)`: throws. -/
def fail {α : Type} (message : String) : Except Fault α :=
  .error (.runtimeError ("plan verification failed: " ++ message))

/-- `if (condition) fail(message)`. -/
def failIf (condition : Prop) [Decidable condition] (message : String) : Except Fault Unit :=
  if condition then fail message else .ok ()

@[simp] theorem fail_ne_ok {α : Type} {message : String} {a : α} : fail message ≠ .ok a := by
  simp [fail]

@[simp] theorem failIf_eq_ok {c : Prop} [Decidable c] {message : String} {u : Unit} :
    failIf c message = .ok u ↔ ¬ c := by
  unfold failIf; split_ifs with h <;> simp [h]

/-- The descriptors by id, in the order of insertion. -/
abbrev DescMap := List ValueDesc

/-- `descs.find(id)`. -/
def DescMap.find (descs : DescMap) (id : ValueId) : Option ValueDesc :=
  descs.find? fun v => v.id == id

def checkPlace (plan : RuntimePlan) (place : Place) : Except Fault Unit := do
  failIf (place.rank < 0 ∨ place.rank ≥ plan.target.worldSize)
    ("place rank is outside target: " ++ place.toString)
  match place.kind with
  | .host => failIf (place.index ≠ 0) ("Host index must be zero: " ++ place.toString)
  | .device =>
    if place.index < 0 then fail ("device index is outside target: " ++ place.toString)
    else
      let count ← elemAt plan.target.deviceCounts place.rank.toInt.toNat
      failIf (place.index ≥ count) ("device index is outside target: " ++ place.toString)

def lookup (descs : DescMap) (id : ValueId) (where_ : String) : Except Fault ValueDesc :=
  match descs.find id with
  | some value => .ok value
  | none => fail (where_ ++ " has no ValueDesc: " ++ toString id)

def sameMetadata (a b : ValueDesc) : Bool :=
  a.kind == b.kind && a.context == b.context && a.level == b.level &&
    a.scaleLog2 == b.scaleLog2 && a.ntt == b.ntt && a.components == b.components

def requireSameBase (input output : ValueDesc) (op : String) : Except Fault Unit :=
  failIf (input.context ≠ output.context ∨ input.ntt ≠ output.ntt)
    (op ++ " changes context or NTT state")

def expectedInputs : ComputeKind → List ValueKind
  | .addCC | .subCC | .mulCC => [.ciphertext, .ciphertext]
  | .addCP | .subCP | .mulCP => [.ciphertext, .plaintext]
  | .negate | .rotate | .rescale | .modSwitch | .relinearize | .boot => [.ciphertext]

/-- One round of the operand loop of `verify_compute_metadata`. -/
def checkOperand (op : ComputeOp) (descs : DescMap) (id : ValueId) (type : ValueKind) :
    Except Fault ValueDesc := do
  let input ← lookup descs id "compute input"
  failIf (input.kind ≠ type) (op.kind.toString ++ " has wrong input kind")
  failIf (input.place ≠ op.place)
    ("implicit cross-Place compute operand " ++ toString input.id)
  return input

/-- The rule of each operation for the metadata of its first operand `a`, its
    second operand and its output (the `switch` of `verify_compute_metadata`). -/
def checkMetadataRule (op : ComputeOp) (inputs : List ValueDesc) (output : ValueDesc) :
    Except Fault Unit := do
  let name := op.kind.toString
  let a ← index inputs 0
  let noAttrs := op.attrs = .monostate
  match op.kind with
  | .addCC | .subCC =>
    failIf (¬ noAttrs) (name ++ " does not accept attrs")
    let b ← index inputs 1
    failIf (a.scaleLog2 ≠ b.scaleLog2 ∨ a.components ≠ b.components ∨ ¬ sameMetadata a output)
      (name ++ " metadata rule failed")
  | .addCP | .subCP =>
    failIf (¬ noAttrs) (name ++ " does not accept attrs")
    let b ← index inputs 1
    failIf (a.scaleLog2 ≠ b.scaleLog2 ∨ output.level ≠ a.level ∨ output.scaleLog2 ≠ a.scaleLog2 ∨
        output.components ≠ a.components)
      (name ++ " metadata rule failed")
  | .mulCC =>
    failIf (¬ noAttrs) "MulCC does not accept attrs"
    let b ← index inputs 1
    let scale ← LongLong.add a.scaleLog2.toInt b.scaleLog2.toInt
    let components ← LongLong.add a.components.toInt b.components.toInt
    let components ← LongLong.sub components 1
    failIf (output.level ≠ a.level ∨ output.scaleLog2.toInt ≠ scale ∨
        output.components.toInt ≠ components)
      "MulCC metadata rule failed"
  | .mulCP =>
    failIf (¬ noAttrs) "MulCP does not accept attrs"
    let b ← index inputs 1
    let scale ← LongLong.add a.scaleLog2.toInt b.scaleLog2.toInt
    failIf (output.level ≠ a.level ∨ output.scaleLog2.toInt ≠ scale ∨
        output.components ≠ a.components)
      "MulCP metadata rule failed"
  | .negate => failIf (¬ noAttrs ∨ ¬ sameMetadata a output) "Negate metadata rule failed"
  | .rotate =>
    match op.attrs with
    | .rotate attrs =>
      failIf (attrs.steps = 0 ∨ a.components ≠ 2 ∨ ¬ sameMetadata a output)
        "Rotate metadata rule failed"
    | _ => fail "Rotate metadata rule failed"
  | .rescale =>
    match op.attrs with
    | .rescale attrs =>
      failIf (attrs.targetLevel ≥ a.level ∨ output.level ≠ attrs.targetLevel ∨
          output.scaleLog2 ≠ attrs.targetScaleLog2 ∨ output.components ≠ a.components)
        "Rescale metadata rule failed"
    | _ => fail "Rescale metadata rule failed"
  | .modSwitch =>
    match op.attrs with
    | .modSwitch attrs =>
      failIf (attrs.targetLevel ≥ a.level ∨ output.level ≠ attrs.targetLevel ∨
          output.scaleLog2 ≠ a.scaleLog2 ∨ output.components ≠ a.components)
        "ModSwitch metadata rule failed"
    | _ => fail "ModSwitch metadata rule failed"
  | .relinearize =>
    failIf (¬ noAttrs ∨ a.components ≠ 3 ∨ output.level ≠ a.level ∨
        output.scaleLog2 ≠ a.scaleLog2 ∨ output.components ≠ 2)
      "Relinearize metadata rule failed"
  | .boot =>
    match op.attrs with
    | .boot attrs =>
      failIf (attrs.operatorProfile.isEmpty ∨ output.level ≠ attrs.targetLevel ∨
          output.scaleLog2 ≠ attrs.targetScaleLog2 ∨ output.components ≠ attrs.targetComponents)
        "Boot metadata rule failed"
      failIf (attrs.implementation = .decryptReencrypt ∧ op.place.kind ≠ .host)
        "decrypt_reencrypt Boot must execute on Host"
    | _ => fail "Boot metadata rule failed"

/-- The operand loop of `verify_compute_metadata`. -/
def checkOperands (op : ComputeOp) (descs : DescMap) :
    List ValueId → List ValueKind → Except Fault (List ValueDesc)
  | id :: ids, type :: types => do
    let input ← checkOperand op descs id type
    let inputs ← checkOperands op descs ids types
    return input :: inputs
  | _, _ => .ok []

def verifyComputeMetadata (op : ComputeOp) (descs : DescMap) : Except Fault Unit := do
  let types := expectedInputs op.kind
  failIf (op.inputs.length ≠ types.length) (op.kind.toString ++ " has wrong input count")
  let inputs ← checkOperands op descs op.inputs types
  let output ← lookup descs op.output "compute output"
  failIf (output.kind ≠ .ciphertext) "compute output must be ciphertext"
  failIf (output.place ≠ op.place) "compute output Place mismatch"
  let a ← index inputs 0
  requireSameBase a output op.kind.toString
  if inputs.length = 2 then
    let b ← index inputs 1
    failIf (a.context ≠ b.context ∨ a.ntt ≠ b.ntt ∨ a.level ≠ b.level)
      (op.kind.toString ++ " inputs have incompatible metadata")
  checkMetadataRule op inputs output

def findBootProfile (spec : OperatorSpec) (id : String) : Except Fault BootProfile :=
  match spec.bootProfiles.find? fun p => p.profileId == id with
  | some profile => .ok profile
  | none => fail ("Boot references unknown operator profile: " ++ id)

def normalizedRotationStep (steps : CInt) (slotCount : ℕ) : Except Fault CInt := do
  failIf (slotCount = 0 ∨ slotCount > CInt.max.toInt.toNat)
    "OperatorSpec slot count is outside supported rotation range"
  let modulus : ℤ := slotCount
  let remainder ← LongLong.rem steps.toInt modulus
  let normalized ← (if remainder < 0 then LongLong.add remainder modulus else .ok remainder)
  failIf (normalized = 0) "Rotate step becomes zero after slot-count normalization"
  return Int32.ofInt normalized

/-- One round of the loop of `modulusBudget`. -/
def addModulus (spec : OperatorSpec) (budget : ℤ) (level : ℕ) : Except Fault ℤ := do
  let modulus ← elemAt spec.rnsModuliLog2 level
  let budget ← LongLong.add budget modulus.toInt
  let _ ← CInt.ofInt? (level + 1) -- `++level`
  return budget

/-- The modulus budget of a level: the sum of the moduli `0 … level`. -/
def modulusBudget (spec : OperatorSpec) (level : CInt) : Except Fault ℤ :=
  (List.range (level.toInt + 1).toNat).foldlM (addModulus spec) 0

/-- The checks of one entry of `plan.values`. -/
def checkValue (plan : RuntimePlan) (spec : OperatorSpec) (descs : DescMap) (value : ValueDesc) :
    Except Fault DescMap := do
  checkPlace plan value.place
  failIf (descs.find value.id).isSome ("duplicate ValueId " ++ toString value.id)
  failIf (value.context ≠ spec.contextId) "value context does not match OperatorSpec"
  failIf (value.level < spec.levelLowerBound ∨ value.level > spec.levelUpperBound)
    "value level is outside OperatorSpec range"
  let budget ← modulusBudget spec value.level
  failIf (value.scaleLog2.toInt ≥ budget) "value scale exceeds modulus budget"
  failIf (value.kind = .plaintext ∧ value.components ≠ 1) "plaintext components must be one"
  failIf (value.kind = .ciphertext ∧ value.components < 2)
    "ciphertext components must be at least two"
  return descs ++ [value]

/-! ## The instruction list -/

/-- What `check_list` has collected so far. -/
structure CheckState where
  expectedOrdinal : ℕ := 0
  defined : Finset ValueId := ∅
  mentioned : Finset ValueId := ∅
  transfers : Finset TransferId := ∅
  capabilities : List RequiredCapability := []
  keys : List KeyRequirement := []
  hasBundleEncode : Bool := false

namespace CheckState

def mention (st : CheckState) (id : ValueId) : CheckState :=
  { st with mentioned := insert id st.mentioned }

/-- `defined.insert(id)`, failing when the id was there. -/
def define (st : CheckState) (id : ValueId) (message : String) : Except Fault CheckState :=
  if id ∈ st.defined then fail message else .ok { st with defined := insert id st.defined }

def require (st : CheckState) (capability : RequiredCapability) : CheckState :=
  { st with capabilities := setInsert (fun a b => a.toNat < b.toNat) capability st.capabilities }

def requireKey (st : CheckState) (key : KeyRequirement) : CheckState :=
  { st with keys := setInsert KeyRequirement.lt key st.keys }

end CheckState

/-- One external input. -/
def checkExternalInput (descs : DescMap) (st : CheckState) (id : ValueId) :
    Except Fault CheckState := do
  let value ← lookup descs id "external input"
  let st := st.mention id
  failIf (value.place.kind ≠ .host) "external input must be placed on Host (IO-2)"
  st.define id ("duplicate external input " ++ toString id)

def checkEncode (spec : OperatorSpec) (descs : DescMap) (phase : Phase) (encode : EncodeOp)
    (st : CheckState) : Except Fault CheckState := do
  failIf (phase ≠ .initialization) "Encode is only allowed in initialization"
  let output ← lookup descs encode.output "Encode output"
  let st := st.mention output.id
  failIf (output.kind ≠ .plaintext ∨ output.place.kind ≠ .host ∨ output.components ≠ 1)
    "Encode output must be Host plaintext"
  let st ← st.define output.id ("duplicate definition of ValueId " ++ toString output.id)
  let st := st.require .encode
  match encode.payload with
  | .inline values => do
    failIf values.isEmpty "inline Encode payload is empty"
    failIf (values.length > spec.polyDegree / 2) "inline Encode exceeds CKKS slot capacity"
    return st
  | .bundle _ => return { st with hasBundleEncode := true }

/-- One operand of a compute instruction. -/
def checkUse (st : CheckState) (id : ValueId) : Except Fault CheckState := do
  let st := st.mention id
  failIf (id ∉ st.defined) ("undefined or use-before-definition ValueId " ++ toString id)
  return st

/-- What an operation requires of the specification and of the deployment. -/
def checkOperation (spec : OperatorSpec) (descs : DescMap) (op : ComputeOp)
    (support : OperatorSupport) (st : CheckState) : Except Fault CheckState :=
  match op.kind with
  | .rotate =>
    match op.attrs with
    | .rotate attrs => do
      let step ← normalizedRotationStep attrs.steps (spec.polyDegree / 2)
      return st.requireKey ⟨.galois, op.place, some step⟩
    | _ => .error .badVariantAccess
  | .relinearize => .ok (st.requireKey ⟨.relin, op.place, none⟩)
  | .rescale =>
    match op.attrs with
    | .rescale attrs => do
      let input ← lookup descs (← index op.inputs 0) "Rescale input"
      match support.maxLevelsPerOp with
      | none => fail "Rescale level drop exceeds OperatorSpec max_levels_per_op"
      | some maxLevels => do
        let drop ← CInt.sub input.level attrs.targetLevel
        failIf (drop > maxLevels) "Rescale level drop exceeds OperatorSpec max_levels_per_op"
        return st
    | _ => .error .badVariantAccess
  | .boot =>
    match op.attrs with
    | .boot attrs => do
      let profile ← findBootProfile spec attrs.operatorProfile
      let input ← lookup descs (← index op.inputs 0) "Boot input"
      failIf (profile.implementation ≠ attrs.implementation ∨ input.level < profile.inputLevelMin ∨
          input.level > profile.inputLevelMax ∨ input.components ≠ profile.inputComponents ∨
          attrs.targetLevel ≠ profile.outputLevel ∨
          attrs.targetScaleLog2 ≠ profile.outputScaleLog2 ∨
          attrs.targetComponents ≠ profile.outputComponents)
        "Boot instruction does not match OperatorSpec profile"
      match attrs.implementation with
      | .native => return st.require .bootNative
      | .decryptReencrypt =>
        return (st.require .bootDecryptReencrypt).requireKey ⟨.secret, op.place, none⟩
    | _ => .error .badVariantAccess
  | _ => .ok st

def checkCompute (plan : RuntimePlan) (spec : OperatorSpec) (descs : DescMap) (op : ComputeOp)
    (st : CheckState) : Except Fault CheckState := do
  checkPlace plan op.place
  let st ← op.inputs.foldlM checkUse st
  let st ← (st.mention op.output).define op.output
    ("duplicate definition of ValueId " ++ toString op.output)
  verifyComputeMetadata op descs
  match spec.operator? op.kind with
  | none => fail (op.kind.toString ++ " is unsupported by OperatorSpec")
  | some support => do
    failIf (¬ support.supported) (op.kind.toString ++ " is unsupported by OperatorSpec")
    let st := if op.place.kind = .host then st.require .hostCompute else st
    checkOperation spec descs op support st

/-- One output of a communication action; `seen` are the destinations before it. -/
def checkCommOutput (plan : RuntimePlan) (descs : DescMap) (action : CommAction)
    (source : ValueDesc) (st : CheckState × Finset Place) (i : ℕ) :
    Except Fault (CheckState × Finset Place) := do
  let destination ← index action.destinations i
  checkPlace plan destination
  failIf (destination = source.place) "communication destination equals source Place"
  failIf (destination ∈ st.2) "duplicate communication destination"
  let output ← lookup descs (← index action.outputs i) "communication output"
  let checked := st.1.mention output.id
  failIf (output.place ≠ destination) "communication output/destination mapping mismatch"
  let type ← index action.outputTypes i
  failIf (type ≠ source.kind ∨ ¬ sameMetadata source output)
    "communication changes kind or CKKS metadata"
  let checked ← checked.define output.id "duplicate definition of communication output"
  return (checked, insert destination st.2)

/-- The capability a communication needs. -/
def commCapability : CommKind → RequiredCapability
  | .transfer => .transfer
  | .replicate => .replicate

def checkComm (plan : RuntimePlan) (descs : DescMap) (action : CommAction) (st : CheckState) :
    Except Fault CheckState := do
  failIf (action.id ∈ st.transfers) ("duplicate TransferId " ++ toString action.id)
  let st := { st with transfers := insert action.id st.transfers }
  let st := st.require (commCapability action.kind)
  failIf (action.inputs.length ≠ 1 ∨ action.sources.length ≠ 1)
    (action.kind.toString ++ " requires one input and source")
  let input ← index action.inputs 0
  let st := st.mention input
  failIf (input ∉ st.defined) "communication source is undefined or used before definition"
  let source ← lookup descs input "communication source"
  let place ← index action.sources 0
  checkPlace plan place
  failIf (source.place ≠ place) "communication source Place mismatch"
  let count := action.outputs.length
  failIf (action.destinations.length ≠ count ∨ action.outputTypes.length ≠ count)
    "communication outputs/destinations/types mapping mismatch"
  failIf (action.kind = .transfer ∧ count ≠ 1) "Transfer requires exactly one output"
  failIf (action.kind = .replicate ∧ count < 2) "Replicate requires at least two outputs"
  let r ← (List.range count).foldlM (checkCommOutput plan descs action source) (st, ∅)
  return r.1

def checkInstruction (plan : RuntimePlan) (spec : OperatorSpec) (descs : DescMap) (phase : Phase)
    (st : CheckState) (instruction : Instruction) : Except Fault CheckState := do
  failIf (instruction.ordinal ≠ st.expectedOrdinal)
    "instruction ordinals must be contiguous and stable"
  let st := { st with expectedOrdinal := st.expectedOrdinal + 1 }
  match instruction.body with
  | .encode encode => checkEncode spec descs phase encode st
  | .compute op => checkCompute plan spec descs op st
  | .comm action => checkComm plan descs action st

def checkList (plan : RuntimePlan) (spec : OperatorSpec) (descs : DescMap)
    (list : List Instruction) (phase : Phase) (st : CheckState) : Except Fault CheckState :=
  list.foldlM (checkInstruction plan spec descs phase) st

/-- One final output; `seen` are the final outputs before it. -/
def checkFinalOutput (descs : DescMap) (st : CheckState × Finset ValueId) (id : ValueId) :
    Except Fault (CheckState × Finset ValueId) := do
  let _ ← lookup descs id "final output"
  let checked := st.1.mention id
  failIf (id ∉ checked.defined) "final output is undefined"
  failIf (id ∈ st.2) "duplicate final output"
  return (checked, insert id st.2)

/-! ## `PlanVerifier` -/

/-- The checks of the plan's header against the specification. -/
def checkHeader (plan : RuntimePlan) (loadedSpec : LoadedOperatorSpec) (skipDigests : Bool) :
    Except Fault Unit := do
  let spec := loadedSpec.spec
  failIf (plan.formatVersion ≠ 1) "unsupported format version"
  failIf (spec.formatVersion ≠ 1 ∧ spec.formatVersion ≠ 2)
    "unsupported OperatorSpec format version"
  failIf plan.target.targetId.isEmpty "target id is empty"
  failIf (plan.target.capabilityVersion ≤ 0) "capability version must be positive"
  failIf (plan.target.worldSize ≤ 0) "world size must be positive"
  failIf (plan.target.deviceCounts.length ≠ plan.target.worldSize.toInt.toNat)
    "device count table does not match world size"
  failIf (∃ count ∈ plan.target.deviceCounts, count < 0) "negative device count"
  failIf (plan.target.operatorSpec.id ≠ spec.id ∨
    plan.target.operatorSpec.version ≠ spec.version) "OperatorSpec id/version mismatch"
  failIf (¬ skipDigests ∧ plan.target.operatorSpec.sourceSha256 ≠ loadedSpec.sourceSha256)
    "OperatorSpec source SHA-256 mismatch"
  failIf (plan.target.targetId ≠ spec.targetId) "target_id does not match OperatorSpec"

def verify (plan : RuntimePlan) (loadedSpec : LoadedOperatorSpec) (skipDigests : Bool) :
    Except Fault PlanRequirements := do
  checkHeader plan loadedSpec skipDigests
  let spec := loadedSpec.spec
  let descs ← plan.values.foldlM (checkValue plan spec) []
  let st ← plan.externalInputs.foldlM (checkExternalInput descs) {}
  let st ← checkList plan spec descs plan.initialization .initialization st
  let st ← checkList plan spec descs plan.execution .execution st
  let st ← checkList plan spec descs plan.finalization .finalization st
  failIf (st.hasBundleEncode ≠ plan.plaintextBundle.isSome)
    "plaintext_bundle must be present exactly when bundle Encode is used"
  failIf plan.finalOutputs.isEmpty "final_outputs must not be empty"
  let r ← plan.finalOutputs.foldlM (checkFinalOutput descs) (st, ∅)
  failIf (r.1.mentioned.card ≠ descs.length) "values contains an unused ValueDesc"
  failIf (∃ d ∈ descs, d.id ∉ r.1.mentioned) "values contains an unused ValueDesc"
  return ⟨r.1.capabilities, r.1.keys⟩

def verifyRuntimeTarget (plan : RuntimePlan) (rank worldSize localDevices : CInt) :
    Except Fault Unit := do
  failIf (worldSize ≠ plan.target.worldSize) "runtime world size does not match target"
  failIf (rank < 0 ∨ rank ≥ worldSize) "local rank is outside runtime world"
  let count ← elemAt plan.target.deviceCounts rank.toInt.toNat
  failIf (localDevices ≠ count) "local device count does not match target"

end PlanVerifier

end CkksRuntime
