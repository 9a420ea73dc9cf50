/-
  ckks-runtime formalization — the sequential runtime of one rank
  (`runtime/runtime.hpp`).

  The runtime is an interactive program (`Comp`) over the calls of its `Api`
  (`ApiOp`); every call is answered by a result or by an exception.  `body` is
  what `run` does inside its `try`, and `run` is the whole call.

  The contents and the times of the trace are left out, as are the two lines
  printed on `stderr`; opening the trace file is not.
-/
import CkksRuntime.Interaction
import CkksRuntime.Fanout
import CkksRuntime.PlaintextBundle
import CkksRuntime.Verifier

namespace CkksRuntime

open Interaction

inductive DiffMode where
  | finalOnly | allValuesAfterRun
  deriving DecidableEq, Repr

structure RuntimeResources where
  operatorSpec : LoadedOperatorSpec
  plaintextBundleDir : Option String
  skipArtifactDigestChecks : Bool := false

/-- The process environment: the trace variable, the paths at which a file can be
    created, the files, and the JSON parser. -/
structure Environment where
  traceVariable : Option String
  canCreate : String → Bool
  files : Files
  sax : Sax

/-- The runtime object of a rank and the arguments of its `run`. -/
structure RunConfig (V : Type) where
  rank : CInt
  worldSize : CInt
  localDevices : CInt
  apiName : String
  loadedPlan : LoadedRuntimePlan
  resources : RuntimeResources
  localInputs : List (ValueId × V)
  localInputs_nodup : (localInputs.map (·.1)).Nodup
  diffMode : DiffMode := .finalOnly

structure RuntimeTiming where
  computeCalls : ℕ := 0
  bootCalls : ℕ := 0
  communicationPostCalls : ℕ := 0
  communicationWaitCalls : ℕ := 0
  deriving DecidableEq, Repr

/-- The values by id, with their places. -/
structure RunArtifact (V : Type) where
  values : ValueId → Option (Place × V)
  timing : RuntimeTiming

/-! ## Failures -/

/-- The exceptions that the runtime throws itself. -/
inductive RuntimeError where
  | cannotOpenTrace
  | bundleDirectoryRequired
  | missingInput (id : ValueId)
  | unexpectedInputs
  | wrongOutputCount
  | definedTwice (id : ValueId)
  | absent (id : ValueId)
  | cannotBeReleased (id : ValueId)
  | missingDescriptor (id : ValueId)
  | missingBundleSlots (content : String)
  | readyPlaceMismatch (id : ValueId)
  | pendingPlaceMismatch (id : ValueId)
  | notReady (id : ValueId)
  | noRemainingUse (id : ValueId)
  | noSuchGroup (group : ℕ)
  deriving DecidableEq, Repr

def RuntimeError.what : RuntimeError → String
  | cannotOpenTrace => "cannot open Poseidon Runtime trace file"
  | bundleDirectoryRequired => "RuntimePlan requires a plaintext bundle directory"
  | missingInput id => "missing local external input " ++ toString id
  | unexpectedInputs => "unexpected local external input binding"
  | wrongOutputCount => "Api wait returned wrong output count"
  | definedTwice id => "ValueId defined twice in ValueStore: " ++ toString id
  | absent id => "ValueId is absent from local ValueStore: " ++ toString id
  | cannotBeReleased id => "ValueId cannot be released from ValueStore: " ++ toString id
  | missingDescriptor id => "missing value descriptor for " ++ toString id
  | missingBundleSlots _ => "map::at"
  | readyPlaceMismatch id => "Ready value Place mismatch for " ++ toString id
  | pendingPlaceMismatch id => "Pending value Place mismatch for " ++ toString id
  | notReady _ => "std::get: wrong index for variant"
  | noRemainingUse id => "ValueId has no remaining local use: " ++ toString id
  | noSuchGroup _ => "vector::_M_range_check"

/-- The branches that only a broken interpreter reaches. -/
def RuntimeError.isInternal : RuntimeError → Bool
  | cannotOpenTrace | bundleDirectoryRequired | missingInput _ | unexpectedInputs
  | wrongOutputCount => false
  | _ => true

/-- Where an abnormal outcome comes from. -/
inductive Failure where
  | verifier (fault : Fault)
  | bundle (fault : Fault)
  | api (fault : Fault)
  | runtime (error : RuntimeError)
  /-- an element access outside a vector -/
  | access
  deriving DecidableEq, Repr

namespace Failure

def what : Failure → String
  | verifier f | bundle f | api f => f.what
  | runtime e => e.what
  | access => ""

/-- Undefined behaviour is not an exception. -/
def isException : Failure → Bool
  | verifier f | bundle f | api f => f.isException
  | runtime _ => true
  | access => false

/-- Failures of the interpreter itself. -/
def isInternal : Failure → Bool
  | runtime e => e.isInternal
  | access => true
  | _ => false

end Failure

/-! ## The Api -/

/-- The calls of the runtime to its `Api`, with values `V` and handles `H`. -/
inductive ApiOp (V H : Type) where
  | preflight (planSourceSha256 : String) (skipArtifactDigestChecks : Bool) (target : TargetConfig)
      (operatorSpec : OperatorSpec) (requirements : PlanRequirements)
  | validateValue (value : V) (expected : ValueDesc)
  | encodePlaintext (outputDesc : ValueDesc) (slots : List Double)
  | compute (op : ComputeOp) (inputs : List V)
  | communicateAsync (action : CommAction) (localInputs : List V)
  | wait (handle : H)
  | synchronize (value : V)
  | abortAll (exitCode : CInt) (reason : String)

namespace ApiOp

variable {V H : Type}

/-- What a call returns.  `wait` also updates the handle it is given a reference
    to, `synchronize` the value; `abort_all` does not return. -/
@[reducible] def Result : ApiOp V H → Type
  | preflight .. | validateValue .. => Unit
  | encodePlaintext .. | compute .. | synchronize .. => V
  | communicateAsync .. => H
  | wait .. => List V × H
  | abortAll .. => Empty

/-- A call returns, or throws. -/
abbrev Ans (op : ApiOp V H) : Type := Except Fault op.Result

end ApiOp

/-! ## The state -/

/-- An entry of the `ValueStore`. -/
inductive Entry (V : Type) where
  | ready (place : Place) (value : V)
  | pending (place : Place) (group localSlot : ℕ)

structure PendingGroup (H : Type) where
  action : CommAction
  localInputIds : List ValueId
  localOutputIds : List ValueId
  handle : H
  completed : Bool := false

structure RuntimeState (V H : Type) where
  current : Option Instruction := none
  currentValue : Option ValueId := none
  store : ValueId → Option (Entry V) := fun _ => none
  groups : List (PendingGroup H) := []
  bundleSlots : List (String × List Double) := []
  remainingUses : ValueId → ℕ := fun _ => 0
  timing : RuntimeTiming := {}

abbrev Runtime (V H : Type) := Comp (ApiOp V H) ApiOp.Ans (RuntimeState V H) Failure

namespace SequentialRuntime

variable {V H : Type}

def fail {α : Type} (error : RuntimeError) : Runtime V H α := Comp.throw (.runtime error)

/-- A call to the Api. -/
def api (op : ApiOp V H) : Runtime V H op.Result :=
  Comp.call op fun ans => ans.mapError .api

/-! ### `ValueStore` -/

def define (id : ValueId) (entry : Entry V) : Runtime V H Unit := do
  let s ← Comp.get
  match s.store id with
  | some _ => fail (.definedTwice id)
  | none => Comp.modify fun s => { s with store := Function.update s.store id (some entry) }

def lookup (id : ValueId) : Runtime V H (Entry V) := do
  let s ← Comp.get
  match s.store id with
  | some entry => return entry
  | none => fail (.absent id)

/-- The assignment through the reference that `lookup` returns. -/
def assign (id : ValueId) (entry : Entry V) : Runtime V H Unit := do
  let _ ← lookup id
  Comp.modify fun s => { s with store := Function.update s.store id (some entry) }

def erase (id : ValueId) : Runtime V H Unit := do
  let s ← Comp.get
  match s.store id with
  | some _ => Comp.modify fun s => { s with store := Function.update s.store id none }
  | none => fail (.cannotBeReleased id)

/-! ### Uses -/

def desc (plan : RuntimePlan) (id : ValueId) : Except Failure ValueDesc :=
  match plan.desc? id with
  | some d => .ok d
  | none => .error (.runtime (.missingDescriptor id))

/-- The inputs whose source Place is on the rank. -/
def localSources (rank : CInt) : List ValueId → List Place → Except Failure (List (ValueId × Place))
  | [], _ => .ok []
  | _ :: _, [] => .error .access
  | id :: ids, place :: places => do
    let rest ← localSources rank ids places
    return if place.rank = rank then (id, place) :: rest else rest

/-- The local uses of an instruction, an operand counted once an occurrence. -/
def instructionUses (rank : CInt) (instruction : Instruction) : Except Failure (List ValueId) :=
  match instruction.body with
  | .compute op => .ok (if op.place.rank = rank then op.inputs else [])
  | .comm action => do return (← localSources rank action.inputs action.sources).map (·.1)
  | .encode _ => .ok []

def phaseUses (rank : CInt) : List Instruction → Except Failure (List ValueId)
  | [] => .ok []
  | i :: is => do return (← instructionUses rank i) ++ (← phaseUses rank is)

/-- The final outputs on the rank. -/
def localFinals (plan : RuntimePlan) (rank : CInt) : List ValueId → Except Failure (List ValueId)
  | [] => .ok []
  | id :: ids => do
    let d ← desc plan id
    let rest ← localFinals plan rank ids
    return if d.place.rank = rank then id :: rest else rest

/-- `++remaining_uses_[id]` for every use. -/
def countUses (uses : List ValueId) : ValueId → ℕ :=
  uses.foldl (fun counts id => Function.update counts id (counts id + 1)) fun _ => 0

section
variable (cfg : RunConfig V)

def plan : RuntimePlan := cfg.loadedPlan.plan

def retainAllValues : Bool := cfg.diffMode = .allValuesAfterRun

def initializeUseCounts : Runtime V H Unit :=
  if retainAllValues cfg then pure ()
  else do
    let uses ← Comp.ofExcept (phaseUses cfg.rank (plan cfg).instructions)
    let finals ← Comp.ofExcept (localFinals (plan cfg) cfg.rank (plan cfg).finalOutputs)
    Comp.modify fun s => { s with remainingUses := countUses (uses ++ finals) }

def releaseAfterUse (id : ValueId) : Runtime V H Unit :=
  if retainAllValues cfg then pure ()
  else do
    let s ← Comp.get
    match s.remainingUses id with
    | 0 => fail (.noRemainingUse id)
    | n + 1 => do
      Comp.modify fun s => { s with remainingUses := Function.update s.remainingUses id n }
      if n = 0 then erase id else pure ()

/-! ### Setup -/

/-- The contents that the local bundle encodes need. -/
def localContents : List Instruction → Except Failure (List String)
  | [] => .ok []
  | i :: is =>
    match i.body with
    | .encode op => do
      let d ← desc (plan cfg) op.output
      let rest ← localContents is
      if d.place.rank ≠ cfg.rank then return rest
      else match op.payload with
        | .bundle content => return content :: rest
        | .inline _ => return rest
    | _ => localContents is

/-- The slots that `load_bundle` leaves in `bundle_slots_`. -/
def bundleSlotsOf (env : Environment) : Except Failure (List (String × List Double)) :=
  match (plan cfg).plaintextBundle with
  | none => .ok []
  | some reference =>
    match cfg.resources.plaintextBundleDir with
    | none => .error (.runtime .bundleDirectoryRequired)
    | some directory => do
      let contents ← localContents cfg (plan cfg).initialization
      let bundle ← (PlaintextBundleLoader.load env.sax env.files directory reference contents
        (cfg.resources.operatorSpec.spec.polyDegree / 2)
        cfg.resources.skipArtifactDigestChecks).mapError .bundle
      return bundle.slotsByContent

def loadBundle (env : Environment) : Runtime V H Unit := do
  let slots ← Comp.ofExcept (bundleSlotsOf cfg env)
  Comp.modify fun s => { s with bundleSlots := slots }

/-- Bind the local external inputs and count them. -/
def bindExternal : List ValueId → Runtime V H ℕ
  | [] => pure 0
  | id :: ids => do
    let d ← Comp.ofExcept (desc (plan cfg) id)
    if d.place.rank ≠ cfg.rank then bindExternal ids
    else match cfg.localInputs.lookup id with
      | none => fail (.missingInput id)
      | some value => do
        api (.validateValue value d)
        define id (.ready d.place value)
        let expected ← bindExternal ids
        return expected + 1

def bindInputs : Runtime V H Unit := do
  let expected ← bindExternal cfg (plan cfg).externalInputs
  Comp.throwIf (cfg.localInputs.length ≠ expected) (.runtime .unexpectedInputs)

/-! ### Instructions -/

/-- The slots of an Encode. -/
def payloadSlots (bundleSlots : List (String × List Double)) :
    EncodePayload → Except Failure (List Double)
  | .inline values => .ok values
  | .bundle content =>
    match bundleSlots.lookup content with
    | some slots => .ok slots
    | none => .error (.runtime (.missingBundleSlots content))

def executeEncode (op : EncodeOp) : Runtime V H Unit := do
  let d ← Comp.ofExcept (desc (plan cfg) op.output)
  if d.place.rank ≠ cfg.rank then pure ()
  else do
    let s ← Comp.get
    let slots ← Comp.ofExcept (payloadSlots s.bundleSlots op.payload)
    let output ← api (.encodePlaintext d (slots.map Double.normalizeZero))
    api (.validateValue output d)
    define op.output (.ready d.place output)

/-- The outputs of a finished group, each with its id. -/
def storeOutputs : List (ValueId × V) → Runtime V H Unit
  | [] => pure ()
  | (id, output) :: outputs => do
    let d ← Comp.ofExcept (desc (plan cfg) id)
    api (.validateValue output d)
    assign id (.ready d.place output)
    storeOutputs outputs

def releaseAll : List ValueId → Runtime V H Unit
  | [] => pure ()
  | id :: ids => do
    releaseAfterUse cfg id
    releaseAll ids

def RuntimeTiming.addWait (t : RuntimeTiming) : RuntimeTiming :=
  { t with communicationWaitCalls := t.communicationWaitCalls + 1 }

def RuntimeTiming.addPost (t : RuntimeTiming) : RuntimeTiming :=
  { t with communicationPostCalls := t.communicationPostCalls + 1 }

def RuntimeTiming.addCompute (t : RuntimeTiming) (kind : ComputeKind) : RuntimeTiming :=
  { t with
    computeCalls := t.computeCalls + 1
    bootCalls := if kind = .boot then t.bootCalls + 1 else t.bootCalls }

/-- The group after its wait, with the handle the Api left. -/
def setHandle (groupId : ℕ) (handle : H) (s : RuntimeState V H) : RuntimeState V H :=
  { s with
    groups := s.groups.modify groupId fun g => { g with handle := handle }
    timing := RuntimeTiming.addWait s.timing }

def complete (groupId : ℕ) (s : RuntimeState V H) : RuntimeState V H :=
  { s with groups := s.groups.modify groupId fun g => { g with completed := true } }

def finishGroup (groupId : ℕ) : Runtime V H Unit := do
  let s ← Comp.get
  match s.groups[groupId]? with
  | none => fail (.noSuchGroup groupId)
  | some group =>
    if group.completed then pure ()
    else do
      let (outputs, handle) ← api (.wait group.handle)
      Comp.modify (setHandle groupId handle)
      Comp.throwIf (outputs.length ≠ group.localOutputIds.length) (.runtime .wrongOutputCount)
      storeOutputs cfg (List.zip group.localOutputIds outputs)
      releaseAll cfg group.localInputIds
      Comp.modify (complete groupId)

def ensureReady (id : ValueId) (expectedPlace : Place) : Runtime V H V := do
  match ← lookup id with
  | .ready place value => do
    Comp.throwIf (place ≠ expectedPlace) (.runtime (.readyPlaceMismatch id))
    return value
  | .pending place group _ => do
    Comp.throwIf (place ≠ expectedPlace) (.runtime (.pendingPlaceMismatch id))
    finishGroup cfg group
    match ← lookup id with
    | .ready _ value => return value
    | .pending .. => fail (.notReady id)

def collectOperands (place : Place) : List ValueId → Runtime V H (List V)
  | [] => pure []
  | id :: ids => do
    let value ← ensureReady cfg id place
    let values ← collectOperands place ids
    return value :: values

def executeCompute (op : ComputeOp) : Runtime V H Unit :=
  if op.place.rank ≠ cfg.rank then pure ()
  else do
    let inputs ← collectOperands cfg op.place op.inputs
    let output ← api (.compute op inputs)
    Comp.modify fun s => { s with timing := RuntimeTiming.addCompute s.timing op.kind }
    let d ← Comp.ofExcept (desc (plan cfg) op.output)
    api (.validateValue output d)
    define op.output (.ready op.place output)
    releaseAll cfg op.inputs

/-- The local inputs of a communication, in order. -/
def collectSources : List ValueId → List Place → Runtime V H (List V)
  | [], _ => pure []
  | _ :: _, [] => Comp.throw .access
  | id :: ids, place :: places =>
    if place.rank = cfg.rank then do
      let value ← ensureReady cfg id place
      let values ← collectSources ids places
      return value :: values
    else collectSources ids places

/-- The pending entries of the local outputs, from local slot `slot` on. -/
def definePending (group : ℕ) : ℕ → List ValueId → List Place → Runtime V H (List ValueId)
  | _, [], _ => pure []
  | _, _ :: _, [] => Comp.throw .access
  | slot, id :: ids, place :: places =>
    if place.rank = cfg.rank then do
      define id (.pending place group slot)
      let rest ← definePending group (slot + 1) ids places
      return id :: rest
    else definePending group slot ids places

def executeCommunication (action : CommAction) : Runtime V H Unit := do
  let localInputs ← collectSources cfg action.inputs action.sources
  let localInputIds ← Comp.ofExcept (localSources cfg.rank action.inputs action.sources)
  let handle ← api (.communicateAsync action localInputs)
  Comp.modify fun s => { s with timing := RuntimeTiming.addPost s.timing }
  let s ← Comp.get
  let localOutputIds ← definePending cfg s.groups.length 0 action.outputs action.destinations
  Comp.modify fun s => { s with
    groups := s.groups ++ [⟨action, localInputIds.map (·.1), localOutputIds, handle, false⟩] }

def executeInstruction (instruction : Instruction) : Runtime V H Unit := do
  Comp.modify fun s => { s with current := some instruction }
  match instruction.body with
  | .encode op => executeEncode cfg op
  | .compute op => executeCompute cfg op
  | .comm action => executeCommunication cfg action

def executeInstructions : List Instruction → Runtime V H Unit
  | [] => pure ()
  | i :: is => do
    executeInstruction cfg i
    executeInstructions is

def executePhase (instructions : List Instruction) : Runtime V H Unit := do
  executeInstructions cfg instructions
  Comp.modify fun s => { s with current := none }

def finishGroups : List ℕ → Runtime V H Unit
  | [] => pure ()
  | g :: gs => do
    finishGroup cfg g
    finishGroups gs

def finishAllGroups : Runtime V H Unit := do
  let s ← Comp.get
  finishGroups cfg (List.range s.groups.length)

/-! ### The results -/

def synchronizeOutputs : List ValueId → Runtime V H Unit
  | [] => pure ()
  | id :: ids => do
    let d ← Comp.ofExcept (desc (plan cfg) id)
    if d.place.rank ≠ cfg.rank then synchronizeOutputs ids
    else do
      Comp.modify fun s => { s with currentValue := some id }
      let value ← ensureReady cfg id d.place
      let value' ← api (.synchronize value)
      assign id (.ready d.place value')
      synchronizeOutputs ids

def synchronizeFinalOutputs : Runtime V H Unit := do
  synchronizeOutputs cfg (plan cfg).finalOutputs
  Comp.modify fun s => { s with currentValue := none }

/-- `result.values.emplace(id, …)` for the local final outputs. -/
def collectFinals (values : ValueId → Option (Place × V)) :
    List ValueId → Runtime V H (ValueId → Option (Place × V))
  | [] => pure values
  | id :: ids => do
    let d ← Comp.ofExcept (desc (plan cfg) id)
    if d.place.rank ≠ cfg.rank then collectFinals values ids
    else do
      let value ← ensureReady cfg id d.place
      collectFinals (if (values id).isSome then values
        else Function.update values id (some (d.place, value))) ids

/-- The ready entries of the store. -/
def readyValues (store : ValueId → Option (Entry V)) : ValueId → Option (Place × V) := fun id =>
  match store id with
  | some (.ready place value) => some (place, value)
  | _ => none

def makeArtifact : Runtime V H (RunArtifact V) := do
  let s ← Comp.get
  if retainAllValues cfg then return ⟨readyValues s.store, s.timing⟩
  else do
    let values ← collectFinals cfg (fun _ => none) (plan cfg).finalOutputs
    return ⟨values, s.timing⟩

/-! ### `run` -/

/-- The check of the plan and of the deployment. -/
def verifyPlan : Except Failure PlanRequirements := do
  let requirements ← (PlanVerifier.verify (plan cfg) cfg.resources.operatorSpec
    cfg.resources.skipArtifactDigestChecks).mapError .verifier
  (PlanVerifier.verifyRuntimeTarget (plan cfg) cfg.rank cfg.worldSize
    cfg.localDevices).mapError .verifier
  return requirements

/-- The part of `run` before the first instruction. -/
def setup (env : Environment) : Runtime V H Unit := do
  let requirements ← Comp.ofExcept (verifyPlan cfg)
  initializeUseCounts cfg
  loadBundle cfg env
  api (.preflight cfg.loadedPlan.sourceSha256 cfg.resources.skipArtifactDigestChecks
    (plan cfg).target cfg.resources.operatorSpec.spec requirements)
  bindInputs cfg

/-- The three phases. -/
def execute : Runtime V H Unit := do
  executePhase cfg (plan cfg).initialization
  finishAllGroups cfg
  executePhase cfg (plan cfg).execution
  executePhase cfg (plan cfg).finalization
  finishAllGroups cfg

/-- The body of the `try`. -/
def body (env : Environment) : Runtime V H (RunArtifact V) := do
  setup cfg env
  execute cfg
  synchronizeFinalOutputs cfg
  makeArtifact cfg

/-- `format_error`. -/
def formatError (s : RuntimeState V H) (reason : String) : String :=
  "fatal runtime error: reason=" ++ reason ++
    " plan_id=" ++ toString (plan cfg).planId ++
    " plan_source_sha256=" ++ cfg.loadedPlan.sourceSha256 ++
    " local_rank=" ++ toString cfg.rank ++ " api=" ++ cfg.apiName ++
    (match s.currentValue with
    | some id => " value_id=" ++ toString id
    | none => "") ++
    match s.current with
    | none => ""
    | some i => " op_ordinal=" ++ toString i.ordinal ++
      match i.body with
      | .encode op => " op=Encode output=" ++ toString op.output
      | .compute op => " op=" ++ op.kind.toString ++ " output=" ++ toString op.output ++
        " place=" ++ op.place.toString
      | .comm action => " op=" ++ action.kind.toString ++ " transfer_id=" ++ toString action.id

end

/-! ### The trace file -/

/-- Every `%r` replaced by the rank, and whether there was one. -/
def replaceRank (rank : List Char) : List Char → List Char × Bool
  | '%' :: 'r' :: path => (rank ++ (replaceRank rank path).1, true)
  | c :: path => (c :: (replaceRank rank path).1, (replaceRank rank path).2)
  | [] => ([], false)

/-- The path of the trace file, if tracing is on. -/
def tracePath (env : Environment) (rank : CInt) : Option String :=
  match env.traceVariable with
  | none => none
  | some value =>
    if value = "" ∨ value = "0" then none
    else
      let path := if value = "1" then "/tmp/poseidon-runtime" else value
      let rankText := toString rank
      let (chars, replaced) := replaceRank rankText.toList path.toList
      some (String.ofList chars ++ if replaced then "" else ".rank" ++ rankText ++ ".csv")

/-- `open_trace` succeeds. -/
def openTrace (env : Environment) (rank : CInt) : Except Failure Unit :=
  match tracePath env rank with
  | none => .ok ()
  | some path =>
    if env.canCreate path then .ok () else .error (.runtime .cannotOpenTrace)

end SequentialRuntime

/-- How a call of `run` ends. -/
inductive RunResult (V : Type) where
  | returned (artifact : RunArtifact V)
  /-- an exception leaves `run` -/
  | threw (failure : Failure)
  /-- undefined behaviour -/
  | crashed

namespace SequentialRuntime

variable {V H : Type}

/-- `abort_all` does not return. -/
def abortAll (reason : String) : Prog (ApiOp V H) ApiOp.Ans (RunResult V) :=
  .call (.abortAll 1 reason) fun ans =>
    match ans with
    | .error fault => .ret (.threw (.api fault))

/-- The end of the `try`: an artifact, or the handler of `std::exception`. -/
def handle (cfg : RunConfig V) (r : Except Failure (RunArtifact V) × RuntimeState V H) :
    Prog (ApiOp V H) ApiOp.Ans (RunResult V) :=
  match r.1 with
  | .ok artifact => .ret (.returned artifact)
  | .error failure =>
    if failure.isException then abortAll (formatError cfg r.2 failure.what) else .ret .crashed

def run (cfg : RunConfig V) (env : Environment) : Prog (ApiOp V H) ApiOp.Ans (RunResult V) :=
  match openTrace env cfg.rank with
  | .error failure => .ret (.threw failure)
  | .ok () => body cfg env {} >>= handle cfg

/-- The fan-out plan of one rank with two devices, run by that rank. -/
def fanoutConfig (zero one : V) : RunConfig V where
  rank := 0
  worldSize := 1
  localDevices := 2
  apiName := "MockVecApi"
  loadedPlan := ⟨(fanoutPlan [2] ⟨.device, 0, 0⟩ [⟨.device, 0, 1⟩]).plan, testSpecSha256⟩
  resources := { operatorSpec := makeTestOperatorSpec, plaintextBundleDir := none }
  localInputs := [(0, zero), (1, one)]
  localInputs_nodup := by simp

/-- An environment without tracing and without files. -/
def bareEnvironment : Environment :=
  ⟨none, fun _ => false, fun _ => .absent, fun _ => ([], .error "")⟩

/-- An Api on which every call succeeds: the values are empty, a handle is the
    number of local outputs. -/
def succeed (rank : CInt) : ∀ op : ApiOp Unit ℕ, op.Ans
  | .preflight .. | .validateValue .. | .encodePlaintext .. | .compute .. | .synchronize .. => .ok ()
  | .communicateAsync action _ => .ok (action.destinations.countP fun p => p.rank = rank)
  | .wait handle => .ok (List.replicate handle (), handle)
  | .abortAll _ reason => .error (.runtimeError reason)

end SequentialRuntime

end CkksRuntime
