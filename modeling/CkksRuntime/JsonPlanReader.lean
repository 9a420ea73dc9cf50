/-
  ckks-runtime formalization — the JSON reader of runtime plans
  (`runtime/json_plan_reader.cpp`).
-/
import CkksRuntime.Plan
import CkksRuntime.Json

namespace CkksRuntime

namespace RuntimePlanJsonReader

open JsonUtils

def doc : String := "runtime plan"

def readPlace (value : Json) (path : String) : Except Fault Place := do
  match value with
  | .object _ =>
    failIf (!value.contains "kind") doc path "missing required field 'kind'"
    let kind ← readString (← value.member "kind") doc (path ++ ".kind")
    if kind = "host" then
      requireMembers value doc path ["kind", "rank"]
      return ⟨.host, ← readNonnegativeInt (← value.member "rank") doc (path ++ ".rank"), 0⟩
    else if kind = "device" then
      requireMembers value doc path ["kind", "rank", "index"]
      return ⟨.device, ← readNonnegativeInt (← value.member "rank") doc (path ++ ".rank"),
        ← readNonnegativeInt (← value.member "index") doc (path ++ ".index")⟩
    else fail doc (path ++ ".kind") ("unknown place kind '" ++ kind ++ "'")
  | _ => fail doc path "expected object"

def readValueKind (value : Json) (path : String) : Except Fault ValueKind := do
  let kind ← readString value doc path
  if kind = "plaintext" then return .plaintext
  else if kind = "ciphertext" then return .ciphertext
  else fail doc path ("unknown value kind '" ++ kind ++ "'")

def readBootImplementation (value : Json) (path : String) : Except Fault BootImplementation := do
  let implementation ← readString value doc path
  if implementation = "native" then return .native
  else if implementation = "decrypt_reencrypt" then return .decryptReencrypt
  else fail doc path ("unknown boot implementation '" ++ implementation ++ "'")

/-- The spellings of the operations. -/
def computeKindNames : List (String × ComputeKind) :=
  [("add_cc", .addCC), ("add_cp", .addCP), ("sub_cc", .subCC), ("sub_cp", .subCP),
    ("mul_cc", .mulCC), ("mul_cp", .mulCP), ("negate", .negate), ("rotate", .rotate),
    ("rescale", .rescale), ("mod_switch", .modSwitch), ("relinearize", .relinearize),
    ("boot", .boot)]

def readComputeKind (value : Json) (path : String) : Except Fault ComputeKind := do
  let kind ← readString value doc path
  match computeKindNames.lookup kind with
  | some k => return k
  | none => fail doc path ("unknown compute operation '" ++ kind ++ "'")

/-- The spellings of the communication hints. -/
def commHintNames : List (String × CommHint) :=
  [("auto", .auto), ("point_to_point", .pointToPoint), ("broadcast", .broadcast), ("tree", .tree),
    ("ring", .ring), ("host_staged", .hostStaged)]

def readCommHint (value : Json) (path : String) : Except Fault CommHint := do
  let hint ← readString value doc path
  match commHintNames.lookup hint with
  | some h => return h
  | none => fail doc path ("unknown communication hint '" ++ hint ++ "'")

def readOperatorSpec (value : Json) (path : String) : Except Fault OperatorSpecRef := do
  requireMembers value doc path ["id", "version", "source_sha256"]
  return ⟨← readString (← value.member "id") doc (path ++ ".id"),
    ← readPositiveInt (← value.member "version") doc (path ++ ".version"),
    ← readSha256 (← value.member "source_sha256") doc (path ++ ".source_sha256")⟩

def readBundleRef (value : Json) (path : String) : Except Fault PlaintextBundleRef := do
  requireMembers value doc path ["id", "version", "manifest_sha256"]
  return ⟨← readString (← value.member "id") doc (path ++ ".id"),
    ← readPositiveInt (← value.member "version") doc (path ++ ".version"),
    ← readSha256 (← value.member "manifest_sha256") doc (path ++ ".manifest_sha256")⟩

def readTarget (value : Json) (path : String) : Except Fault TargetConfig := do
  requireMembers value doc path
    ["target_id", "capability_version", "operator_spec", "world_size", "device_counts"]
  let targetId ← readString (← value.member "target_id") doc (path ++ ".target_id")
  let capabilityVersion ← readPositiveInt (← value.member "capability_version") doc
    (path ++ ".capability_version")
  let operatorSpec ← readOperatorSpec (← value.member "operator_spec") (path ++ ".operator_spec")
  let worldSize ← readPositiveInt (← value.member "world_size") doc (path ++ ".world_size")
  let counts ← arrayItems (← value.member "device_counts") doc (path ++ ".device_counts")
  let deviceCounts ← readItems (fun v p => readNonnegativeInt v doc p) counts
    (path ++ ".device_counts")
  -- `static_cast<std::size_t>(world_size)`
  failIf (deviceCounts.length ≠ worldSize.toInt64.toUInt64.toNat)
    doc (path ++ ".device_counts") "length must equal world_size"
  return ⟨targetId, worldSize, deviceCounts, capabilityVersion, operatorSpec⟩

def readValueDesc (value : Json) (path : String) : Except Fault ValueDesc := do
  requireMembers value doc path
    ["id", "kind", "place", "context", "level", "scale_log2", "ntt", "components"]
  return ⟨← readId (← value.member "id") doc (path ++ ".id"),
    ← readValueKind (← value.member "kind") (path ++ ".kind"),
    ← readPlace (← value.member "place") (path ++ ".place"),
    ← readString (← value.member "context") doc (path ++ ".context"),
    ← readNonnegativeInt (← value.member "level") doc (path ++ ".level"),
    ← readNonnegativeInt (← value.member "scale_log2") doc (path ++ ".scale_log2"),
    ← readBool (← value.member "ntt") doc (path ++ ".ntt"),
    ← readPositiveInt (← value.member "components") doc (path ++ ".components")⟩

def readIds (value : Json) (path : String) : Except Fault (List ℕ) := do
  readItems (fun v p => readId v doc p) (← arrayItems value doc path) path

def readPlaces (value : Json) (path : String) : Except Fault (List Place) := do
  readItems readPlace (← arrayItems value doc path) path

def readValueKinds (value : Json) (path : String) : Except Fault (List ValueKind) := do
  readItems readValueKind (← arrayItems value doc path) path

def computeRequiresAttrs (kind : ComputeKind) : Bool :=
  kind = .rotate || kind = .rescale || kind = .modSwitch || kind = .boot

def readComputeAttrs (kind : ComputeKind) (value : Json) (path : String) :
    Except Fault ComputeAttrs :=
  match kind with
  | .rotate => do
    requireMembers value doc path ["steps"]
    return .rotate ⟨← readInt (← value.member "steps") doc (path ++ ".steps") Int32.minValue
      CInt.max⟩
  | .rescale => do
    requireMembers value doc path ["target_level", "target_scale_log2"]
    return .rescale
      ⟨← readNonnegativeInt (← value.member "target_level") doc (path ++ ".target_level"),
        ← readNonnegativeInt (← value.member "target_scale_log2") doc
          (path ++ ".target_scale_log2")⟩
  | .modSwitch => do
    requireMembers value doc path ["target_level"]
    return .modSwitch
      ⟨← readNonnegativeInt (← value.member "target_level") doc (path ++ ".target_level")⟩
  | .boot => do
    requireMembers value doc path
      ["target_level", "target_scale_log2", "target_components", "operator_profile",
        "implementation"]
    return .boot
      ⟨← readNonnegativeInt (← value.member "target_level") doc (path ++ ".target_level"),
        ← readNonnegativeInt (← value.member "target_scale_log2") doc
          (path ++ ".target_scale_log2"),
        ← readPositiveInt (← value.member "target_components") doc (path ++ ".target_components"),
        ← readString (← value.member "operator_profile") doc (path ++ ".operator_profile"),
        ← readBootImplementation (← value.member "implementation") (path ++ ".implementation")⟩
  | _ => fail doc path "operation does not accept attrs"

def readOrdinal (value : Json) (path : String) : Except Fault ℕ := do
  return (← readNonnegativeInt (← value.member "ordinal") doc
    (path ++ ".ordinal")).toInt64.toUInt64.toNat

def readEncodePayload [DoubleArith] (payload : Json) (path : String) :
    Except Fault EncodePayload := do
  failIf (!payload.contains "kind") doc path "missing required field 'kind'"
  let kind ← readString (← payload.member "kind") doc (path ++ ".kind")
  if kind = "inline" then
    requireMembers payload doc path ["kind", "values"]
    match ← payload.member "values" with
    | .array (v :: vs) =>
      return .inline (← readItems (fun v p => readFiniteDouble v doc p) (v :: vs)
        (path ++ ".values"))
    | _ => fail doc (path ++ ".values") "expected non-empty array"
  else if kind = "bundle" then
    requireMembers payload doc path ["kind", "content"]
    return .bundle (← readSha256 (← payload.member "content") doc (path ++ ".content"))
  else fail doc (path ++ ".kind") ("unknown encode payload kind '" ++ kind ++ "'")

def readEncode [DoubleArith] (value : Json) (path : String) : Except Fault Instruction := do
  requireMembers value doc path ["ordinal", "kind", "payload", "output"]
  let payload ← readEncodePayload (← value.member "payload") (path ++ ".payload")
  let ordinal ← readOrdinal value path
  return ⟨ordinal, .encode ⟨payload, ← readId (← value.member "output") doc (path ++ ".output")⟩⟩

def readCompute (value : Json) (path : String) : Except Fault Instruction := do
  failIf (!value.contains "op") doc path "missing required field 'op'"
  let kind ← readComputeKind (← value.member "op") (path ++ ".op")
  requireMembers value doc path (["ordinal", "kind", "op", "place", "inputs", "output"] ++
    if computeRequiresAttrs kind then ["attrs"] else [])
  let place ← readPlace (← value.member "place") (path ++ ".place")
  let inputs ← readIds (← value.member "inputs") (path ++ ".inputs")
  let output ← readId (← value.member "output") doc (path ++ ".output")
  let attrs ← (if computeRequiresAttrs kind then do
      let attrs ← value.member "attrs"
      readComputeAttrs kind attrs (path ++ ".attrs")
    else pure .monostate)
  return ⟨← readOrdinal value path, .compute ⟨kind, inputs, output, place, attrs⟩⟩

def readComm (value : Json) (path : String) (kind : CommKind) : Except Fault Instruction := do
  requireMembers value doc path
    ["ordinal", "kind", "transfer_id", "hint", "inputs", "outputs", "sources", "destinations",
      "output_kinds"]
  let id ← readId (← value.member "transfer_id") doc (path ++ ".transfer_id")
  let hint ← readCommHint (← value.member "hint") (path ++ ".hint")
  let inputs ← readIds (← value.member "inputs") (path ++ ".inputs")
  let outputs ← readIds (← value.member "outputs") (path ++ ".outputs")
  let sources ← readPlaces (← value.member "sources") (path ++ ".sources")
  let destinations ← readPlaces (← value.member "destinations") (path ++ ".destinations")
  let outputTypes ← readValueKinds (← value.member "output_kinds") (path ++ ".output_kinds")
  return ⟨← readOrdinal value path,
    .comm ⟨id, kind, hint, inputs, outputs, sources, destinations, outputTypes⟩⟩

def readInstruction [DoubleArith] (value : Json) (path : String) : Except Fault Instruction := do
  failIf (!value.contains "kind") doc path "missing required field 'kind'"
  let kind ← readString (← value.member "kind") doc (path ++ ".kind")
  if kind = "encode" then readEncode value path
  else if kind = "compute" then readCompute value path
  else if kind = "transfer" then readComm value path .transfer
  else if kind = "replicate" then readComm value path .replicate
  else fail doc (path ++ ".kind") ("unknown instruction kind '" ++ kind ++ "'")

def readInstructions [DoubleArith] (value : Json) (path : String) :
    Except Fault (List Instruction) := do
  readItems readInstruction (← arrayItems value doc path) path

def readDocument [DoubleArith] (root : Json) : Except Fault RuntimePlan := do
  requireMembers root doc "$"
    ["format_version", "plan_id", "target", "values", "external_inputs", "initialization",
      "execution", "finalization", "final_outputs"] ["plaintext_bundle"]
  let formatVersion ← readNonnegativeInt (← root.member "format_version") doc "$.format_version"
  failIf (formatVersion ≠ 1) doc "$.format_version" "unsupported format version"
  let planId ← readId (← root.member "plan_id") doc "$.plan_id"
  let target ← readTarget (← root.member "target") "$.target"
  let plaintextBundle ← (if root.contains "plaintext_bundle" then do
      let bundle ← root.member "plaintext_bundle"
      return some (← readBundleRef bundle "$.plaintext_bundle")
    else pure none)
  let values ← readItems readValueDesc
    (← arrayItems (← root.member "values") doc "$.values") "$.values"
  let externalInputs ← readIds (← root.member "external_inputs") "$.external_inputs"
  let initialization ← readInstructions (← root.member "initialization") "$.initialization"
  let execution ← readInstructions (← root.member "execution") "$.execution"
  let finalization ← readInstructions (← root.member "finalization") "$.finalization"
  let finalOutputs ← readIds (← root.member "final_outputs") "$.final_outputs"
  return ⟨formatVersion.toInt.toNat, planId, target, plaintextBundle, values, externalInputs,
    initialization, execution, finalization, finalOutputs⟩

def readText [DoubleArith] (sax : Sax) (text : Bytes) : Except Fault LoadedRuntimePlan := do
  let plan ← readDocument (← parse sax text doc)
  return ⟨plan, ← sourceSha256 text⟩

end RuntimePlanJsonReader

end CkksRuntime
