/-
  ckks-runtime formalization — the JSON reader of operator specifications
  (`runtime/operator_spec_reader.cpp`), formats 1 and 2.
-/
import CkksRuntime.OperatorSpec
import CkksRuntime.Json

namespace CkksRuntime

namespace OperatorSpecReader

open JsonUtils

def doc : String := "operator spec"

def readRescaleMode (value : Json) (path : String) : Except Fault RescaleMode := do
  let mode ← readString value doc path
  if mode = "eager" then return .eager
  else if mode = "lazy" then return .lazy
  else fail doc path ("unknown rescale mode '" ++ mode ++ "'")

def readBootImplementation (value : Json) (path : String) : Except Fault BootImplementation := do
  let implementation ← readString value doc path
  if implementation = "native" then return .native
  else if implementation = "decrypt_reencrypt" then return .decryptReencrypt
  else fail doc path ("unknown boot implementation '" ++ implementation ++ "'")

/-- The entries of a table that may be null, of the expected length. -/
def readTable {α : Type} (read : Json → String → Except Fault α) (value : Json) (path : String)
    (expectedLength : CInt) : Except Fault (Option (List α)) :=
  match value with
  | .null => .ok none
  | .array items => do
    -- `static_cast<std::size_t>(expected_length)`
    failIf (items.length ≠ expectedLength.toInt64.toUInt64.toNat)
      doc path "length must equal levels.upper_bound + 1"
    return some (← readItems read items path)
  | _ => fail doc path "expected array or null"

/-- `std::numeric_limits<std::int64_t>::max()`. -/
def maxInt64 : UInt64 := 0x7fffffffffffffff

def readLatency (value : Json) (path : String) (expectedLength : CInt) :
    Except Fault (Option (List UInt64)) :=
  readTable (fun v p => readSafeUint v doc p 0 maxInt64) value path expectedLength

def readNoise [DoubleArith] (value : Json) (path : String) (expectedLength : CInt) :
    Except Fault (Option (List Double)) :=
  readTable (fun v p => do
    let noise ← readFiniteDouble v doc p
    failIf (noise.isNegative) doc p "noise must be nonnegative"
    return noise) value path expectedLength

/-- The noise table of an operator, which format 1 does not have. -/
def readOperatorNoise [DoubleArith] (value : Json) (path : String)
    (tableLength formatVersion : CInt) : Except Fault (Option (List Double)) :=
  if formatVersion = 1 then
    match value with
    | .null => .ok none
    | _ => fail doc path "must be null in V1"
  else readNoise value path tableLength

def readOperator [DoubleArith] (value : Json) (path : String) (tableLength : CInt) (rescale : Bool)
    (formatVersion : CInt) : Except Fault OperatorSupport := do
  requireMembers value doc path (["supported"] ++ (if rescale then ["max_levels_per_op"] else []) ++
    ["latency_us_by_level", "noise_by_level"])
  let supported ← readBool (← value.member "supported") doc (path ++ ".supported")
  let latency ← readLatency (← value.member "latency_us_by_level")
    (path ++ ".latency_us_by_level") tableLength
  let noise ← readOperatorNoise (← value.member "noise_by_level") (path ++ ".noise_by_level")
    tableLength formatVersion
  let maxLevelsPerOp ← (if rescale then do
      let levels ← value.member "max_levels_per_op"
      return some (← readPositiveInt levels doc (path ++ ".max_levels_per_op"))
    else pure none)
  return ⟨supported, latency.map (·.map (·.toNat)), noise, maxLevelsPerOp⟩

/-- The latency of a boot profile in format 1, its two tables in format 2. -/
def readBootTables [DoubleArith] (value : Json) (path : String) (formatVersion tableLength : CInt) :
    Except Fault (Option UInt64 × Option (List UInt64) × Option (List Double)) :=
  if formatVersion = 1 then do
    let latency ← readSafeUint (← value.member "latency_us") doc (path ++ ".latency_us") 0 maxInt64
    return (some latency, none, none)
  else do
    let latency ← readLatency (← value.member "latency_us_by_input_level")
      (path ++ ".latency_us_by_input_level") tableLength
    let noise ← readNoise (← value.member "noise_by_input_level")
      (path ++ ".noise_by_input_level") tableLength
    return (none, latency, noise)

def readBootProfile [DoubleArith] (value : Json) (path : String) (formatVersion tableLength : CInt) :
    Except Fault BootProfile := do
  requireMembers value doc path
    (["profile_id", "implementation", "input_level_min", "input_level_max", "input_components",
      "output_level", "output_scale_log2", "output_components"] ++
      (if formatVersion = 1 then ["latency_us"]
       else ["latency_us_by_input_level", "noise_by_input_level"]) ++ ["host_requirements"])
  let host ← value.member "host_requirements"
  requireMembers host doc (path ++ ".host_requirements") ["needs_secret_key", "needs_host_compute"]
  let profileId ← readString (← value.member "profile_id") doc (path ++ ".profile_id")
  let implementation ← readBootImplementation (← value.member "implementation")
    (path ++ ".implementation")
  let inputLevelMin ← readNonnegativeInt (← value.member "input_level_min") doc
    (path ++ ".input_level_min")
  let inputLevelMax ← readNonnegativeInt (← value.member "input_level_max") doc
    (path ++ ".input_level_max")
  let inputComponents ← readPositiveInt (← value.member "input_components") doc
    (path ++ ".input_components")
  let outputLevel ← readNonnegativeInt (← value.member "output_level") doc
    (path ++ ".output_level")
  let outputScaleLog2 ← readNonnegativeInt (← value.member "output_scale_log2") doc
    (path ++ ".output_scale_log2")
  let outputComponents ← readPositiveInt (← value.member "output_components") doc
    (path ++ ".output_components")
  let (latencyUs, latencyTable, noiseTable) ← readBootTables value path formatVersion tableLength
  let needsSecretKey ← readBool (← host.member "needs_secret_key") doc
    (path ++ ".host_requirements.needs_secret_key")
  let needsHostCompute ← readBool (← host.member "needs_host_compute") doc
    (path ++ ".host_requirements.needs_host_compute")
  return ⟨profileId, implementation, inputLevelMin, inputLevelMax, inputComponents, outputLevel,
    outputScaleLog2, outputComponents, latencyUs.map (·.toNat),
    latencyTable.map (·.map (·.toNat)), noiseTable, needsSecretKey, needsHostCompute⟩

def readProvenance (provenance : Json) (path : String) : Except Fault OperatorSpecProvenance := do
  requireMembers provenance doc path ["kind", "repository", "revision", "path", "source_sha256"]
  return ⟨← readString (← provenance.member "kind") doc (path ++ ".kind"),
    ← readString (← provenance.member "repository") doc (path ++ ".repository"),
    ← readString (← provenance.member "revision") doc (path ++ ".revision"),
    ← readString (← provenance.member "path") doc (path ++ ".path"),
    ← readSha256 (← provenance.member "source_sha256") doc (path ++ ".source_sha256")⟩

def readNoiseUnit (value : Json) (path : String) : Except Fault (Option String) :=
  match value with
  | .null => .ok none
  | _ => do return some (← readString value doc path)

/-- The fields that only one of the two formats has: the status words, the noise
    unit and the provenance. -/
def readFormatFields (root : Json) (formatVersion : CInt) (status : String) :
    Except Fault (Option String × Option OperatorSpecProvenance) := do
  if formatVersion = 1 then
    failIf (status ≠ "placeholder" ∧ status ≠ "validated") doc "$.status" "unknown status"
    return (none, none)
  else
    failIf (status ≠ "imported" ∧ status ≠ "validated") doc "$.status" "unknown status"
    let noiseUnit ← readNoiseUnit (← root.member "noise_unit") "$.noise_unit"
    return (noiseUnit, some (← readProvenance (← root.member "provenance") "$.provenance"))

/-- The operations with a table, in the order in which they are read. -/
def ordinary : List (String × ComputeKind) :=
  [("add_cc", .addCC), ("add_cp", .addCP), ("sub_cc", .subCC), ("sub_cp", .subCP),
    ("mul_cc", .mulCC), ("mul_cp", .mulCP), ("negate", .negate), ("rotate", .rotate),
    ("rescale", .rescale), ("mod_switch", .modSwitch), ("relinearize", .relinearize)]

def readOrdinary [DoubleArith] (operators : Json) (tableLength formatVersion : CInt) :
    List (String × ComputeKind) → Except Fault (List (ComputeKind × OperatorSupport))
  | [] => .ok []
  | entry :: entries => do
    let support ← readOperator (← operators.member entry.1) ("$.operators." ++ entry.1) tableLength
      (entry.2 = .rescale) formatVersion
    let supports ← readOrdinary operators tableLength formatVersion entries
    return (entry.2, support) :: supports

/-- `poly_degree`, a power of two. -/
def readPolyDegree (context : Json) : Except Fault UInt64 := do
  let polyDegree ← readSafeUint (← context.member "poly_degree") doc "$.context.poly_degree" 2
    maxInt64
  failIf (polyDegree &&& (polyDegree - 1) ≠ 0) doc "$.context.poly_degree" "must be a power of two"
  return polyDegree

def readModuli (context : Json) : Except Fault (List CInt) := do
  match ← context.member "rns_moduli_log2" with
  | .array (v :: vs) =>
    readItems (fun v p => readInt v doc p 1 64) (v :: vs) "$.context.rns_moduli_log2"
  | _ => fail doc "$.context.rns_moduli_log2" "expected non-empty array"

/-- The sum of the moduli `0 … level`. -/
def outputBudget (moduli : List CInt) (level : CInt) : Except Fault ℤ :=
  (List.range (level.toInt + 1).toNat).foldlM
    (fun budget l => do return budget + (← elemAt moduli l).toInt) 0

/-- The checks of one boot profile; `profiles` are the ones before it. -/
def checkBootProfile (spec : OperatorSpec) (profiles : List BootProfile) (profile : BootProfile)
    (path : String) : Except Fault Unit := do
  failIf (profile.profileId ∈ profiles.map (·.profileId)) doc path "duplicate profile_id"
  failIf (profile.inputLevelMin > profile.inputLevelMax) doc path "input level range is empty"
  failIf (profile.inputLevelMin < spec.levelLowerBound ∨
      profile.inputLevelMax > spec.levelUpperBound ∨
      profile.outputLevel < spec.levelLowerBound ∨
      profile.outputLevel > spec.levelUpperBound)
    doc path "boot level is outside levels range"
  failIf (profile.inputComponents < 2 ∨ profile.outputComponents < 2)
    doc path "Boot components must describe ciphertexts"
  let budget ← outputBudget spec.rnsModuliLog2 profile.outputLevel
  failIf (profile.outputScaleLog2.toInt ≥ budget)
    doc path "Boot output scale exceeds modulus budget"
  failIf (profile.implementation = .decryptReencrypt ∧
      (!profile.needsSecretKey || !profile.needsHostCompute))
    doc path "decrypt_reencrypt must require secret key and host compute"
  failIf (profile.implementation = .native ∧ (profile.needsSecretKey || profile.needsHostCompute))
    doc path "native boot cannot declare host requirements"

/-- The boot profiles from position `profiles.length` on. -/
def readBootProfiles [DoubleArith] (spec : OperatorSpec) (tableLength : CInt) :
    List BootProfile → List Json → Except Fault (List BootProfile)
  | profiles, [] => .ok profiles
  | profiles, value :: values => do
    let path := itemPath "$.boot_profiles" profiles.length
    let profile ← readBootProfile value path spec.formatVersion tableLength
    checkBootProfile spec profiles profile path
    readBootProfiles spec tableLength (profiles ++ [profile]) values

/-- The members of the root object, by format. -/
def rootMembers (formatVersion : CInt) : List String :=
  ["spec_format_version", "spec_id", "version", "status", "target_id", "rescale_mode"] ++
    (if formatVersion = 2 then ["noise_unit", "provenance"] else []) ++
    ["context", "levels", "operators", "boot_profiles"]

/-- The root is an object with a known format version and the members of that
    format. -/
def checkRoot (root : Json) : Except Fault CInt :=
  match root with
  | .object _ => do
    failIf (!root.contains "spec_format_version")
      doc "$" "missing required field 'spec_format_version'"
    let formatVersion ← readNonnegativeInt (← root.member "spec_format_version") doc
      "$.spec_format_version"
    if formatVersion = 1 ∨ formatVersion = 2 then
      requireMembers root doc "$" (rootMembers formatVersion)
      return formatVersion
    else fail doc "$.spec_format_version" "unsupported format version"
  | _ => fail doc "$" "expected object"

/-- The context and the levels of the specification. -/
def readContext (root : Json) (spec : OperatorSpec) : Except Fault OperatorSpec := do
  let context ← root.member "context"
  requireMembers context doc "$.context"
    ["context_id", "poly_degree", "rns_moduli_log2", "max_modulus_log2", "default_scale_log2"]
  let contextId ← readString (← context.member "context_id") doc "$.context.context_id"
  let polyDegree ← readPolyDegree context
  let moduli ← readModuli context
  let maxModulus ← readInt (← context.member "max_modulus_log2") doc "$.context.max_modulus_log2"
    1 64
  failIf (∃ bits ∈ moduli, bits > maxModulus)
    doc "$.context.rns_moduli_log2" "modulus exceeds max_modulus_log2"
  let defaultScale ← readNonnegativeInt (← context.member "default_scale_log2") doc
    "$.context.default_scale_log2"
  let levels ← root.member "levels"
  requireMembers levels doc "$.levels" ["lower_bound", "upper_bound"]
  let lower ← readNonnegativeInt (← levels.member "lower_bound") doc "$.levels.lower_bound"
  let upper ← readNonnegativeInt (← levels.member "upper_bound") doc "$.levels.upper_bound"
  failIf (lower > upper) doc "$.levels" "lower_bound exceeds upper_bound"
  -- `static_cast<int>(rns_moduli_log2.size())`
  failIf (upper ≥ Int32.ofNat moduli.length)
    doc "$.levels.upper_bound" "must be inside the modulus chain"
  return { spec with
    contextId := contextId
    polyDegree := polyDegree.toNat
    rnsModuliLog2 := moduli
    maxModulusLog2 := maxModulus
    defaultScaleLog2 := defaultScale
    levelLowerBound := lower
    levelUpperBound := upper }

def readDocument [DoubleArith] (root : Json) : Except Fault OperatorSpec := do
  let formatVersion ← checkRoot root
  let id ← readString (← root.member "spec_id") doc "$.spec_id"
  let version ← readPositiveInt (← root.member "version") doc "$.version"
  let status ← readString (← root.member "status") doc "$.status"
  let (noiseUnit, provenance) ← readFormatFields root formatVersion status
  let targetId ← readString (← root.member "target_id") doc "$.target_id"
  let rescaleMode ← readRescaleMode (← root.member "rescale_mode") "$.rescale_mode"
  let spec ← readContext root
    { formatVersion := formatVersion, id := id, version := version, status := status,
      targetId := targetId, rescaleMode := rescaleMode, noiseUnit := noiseUnit,
      provenance := provenance, contextId := "", rnsModuliLog2 := [], operators := [],
      bootProfiles := [] }
  let tableLength ← CInt.add spec.levelUpperBound 1
  let operators ← root.member "operators"
  requireMembers operators doc "$.operators" (ordinary.map (·.1) ++ ["boot"])
  let supports ← readOrdinary operators tableLength formatVersion ordinary
  let boot ← operators.member "boot"
  requireMembers boot doc "$.operators.boot" ["supported"]
  let bootSupported ← readBool (← boot.member "supported") doc "$.operators.boot.supported"
  let profiles ← readBootProfiles spec tableLength []
    (← arrayItems (← root.member "boot_profiles") doc "$.boot_profiles")
  failIf (bootSupported ≠ !profiles.isEmpty)
    doc "$.boot_profiles" "boot supported flag must match profile availability"
  let hasNoise := supports.any (·.2.noiseByLevel.isSome) ||
    profiles.any (·.noiseByInputLevel.isSome)
  failIf (formatVersion = 2 ∧ hasNoise ≠ noiseUnit.isSome)
    doc "$.noise_unit" "must be set exactly when a V2 noise table is present"
  return { spec with
    operators := supports ++ [(.boot, { supported := bootSupported })], bootProfiles := profiles }

def readText [DoubleArith] (sax : Sax) (text : Bytes) : Except Fault LoadedOperatorSpec := do
  let spec ← readDocument (← parse sax text doc)
  return ⟨spec, ← sourceSha256 text⟩

end OperatorSpecReader

end CkksRuntime
