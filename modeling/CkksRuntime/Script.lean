/-
  ckks-runtime formalization — the script of a rank.

  Which calls a rank makes, and in which order, does not depend on the values.
  The *script* of a rank is that order, computed from the plan: the actions of the
  interpreter (`Act`), with the waits where an operand or the end of a phase first
  demands them.

  * `RuntimePlan.script`: the script of a rank, built from the left: what an
    instruction adds depends on the lines before it only;
  * `Act.exec`: the meaning of an action, over an environment that keeps every
    value (`ScriptState`);
  * `scriptRun`: the run of a rank, as its script.
-/
import CkksRuntime.Runtime
import CkksRuntime.Acceptance

namespace CkksRuntime

open Interaction

/-! ## The lines of a script -/

/-- What is being executed, for the diagnostics. -/
structure Context where
  current : Option Instruction := none
  value : Option ValueId := none

inductive Act where
  /-- bind an external input of the rank -/
  | bind (id : ValueId)
  /-- compare the number of bound inputs with that of the given ones -/
  | checkInputs (expected : ℕ)
  | encode (op : EncodeOp)
  | compute (op : ComputeOp)
  /-- `communicate_async`, which opens the group -/
  | post (group : ℕ) (action : CommAction)
  /-- `finish_group` -/
  | wait (group : ℕ) (action : CommAction)
  | sync (id : ValueId)

structure Line where
  context : Context
  act : Act

abbrev Script := List Line

/-- The inputs of an action on a rank. -/
def CommAction.localInputs (rank : CInt) (action : CommAction) : List ValueId :=
  ((action.inputs.zip action.sources).filter fun p => p.2.rank = rank).map (·.1)

/-- The outputs of an action on a rank. -/
def CommAction.localOutputs (rank : CInt) (action : CommAction) : List ValueId :=
  ((action.outputs.zip action.destinations).filter fun p => p.2.rank = rank).map (·.1)

/-- The value lies on a rank. -/
def RuntimePlan.IsLocal (plan : RuntimePlan) (rank : CInt) (id : ValueId) : Prop :=
  ∃ d, plan.desc? id = some d ∧ d.place.rank = rank

instance (plan : RuntimePlan) (rank : CInt) (id : ValueId) : Decidable (plan.IsLocal rank id) :=
  match h : plan.desc? id with
  | none => isFalse fun ⟨_, hd, _⟩ => by simp [h] at hd
  | some d =>
    if hr : d.place.rank = rank then isTrue ⟨d, h, hr⟩
    else isFalse fun ⟨d', hd, hr'⟩ => by rw [h] at hd; cases hd; exact hr hr'

/-- The values an action makes ready on a rank. -/
def Act.defines (rank : CInt) : Act → List ValueId
  | bind id => [id]
  | encode op => [op.output]
  | compute op => [op.output]
  | wait _ action => action.localOutputs rank
  | checkInputs _ | post .. | sync _ => []

/-- The values an action reads on a rank. -/
def Act.reads (rank : CInt) : Act → List ValueId
  | compute op => op.inputs
  | post _ action => action.localInputs rank
  | sync id => [id]
  | bind _ | checkInputs _ | encode _ | wait .. => []

def Act.post? : Act → Option CommAction
  | post _ action => some action
  | _ => none

def Act.wait? : Act → Option ℕ
  | wait group _ => some group
  | _ => none

namespace Script

/-- The posted actions, by group. -/
def posts (acc : Script) : List CommAction := acc.filterMap fun line => line.act.post?

/-- The group has been waited for. -/
def Waited (acc : Script) (group : ℕ) : Prop := some group ∈ acc.map fun line => line.act.wait?

instance (acc : Script) (group : ℕ) : Decidable (acc.Waited group) :=
  inferInstanceAs (Decidable (_ ∈ _))

/-- The values that are ready. -/
def ready (rank : CInt) (acc : Script) : List ValueId :=
  acc.flatMap fun line => line.act.defines rank

/-! ### Building the script -/

/-- Wait for a group unless that has been done. -/
def settle (context : Context) (acc : Script) (group : CommAction × ℕ) : Script :=
  if acc.Waited group.2 then acc else acc ++ [⟨context, .wait group.2 group.1⟩]

/-- The group that brings a value. -/
def groupOf (rank : CInt) (acc : Script) (id : ValueId) : Option (CommAction × ℕ) :=
  acc.posts.zipIdx.find? fun group => id ∈ group.1.localOutputs rank

/-- `ensure_ready`. -/
def demand (rank : CInt) (context : Context) (acc : Script) (id : ValueId) : Script :=
  match acc.groupOf rank id with
  | some group => acc.settle context group
  | none => acc

/-- The operands of an instruction, in order. -/
def demandAll (rank : CInt) (context : Context) (acc : Script) (ids : List ValueId) : Script :=
  ids.foldl (demand rank context) acc

def addInstruction (plan : RuntimePlan) (rank : CInt) (acc : Script) (i : Instruction) : Script :=
  let context : Context := { current := some i }
  match i.body with
  | .encode op => if plan.IsLocal rank op.output then acc ++ [⟨context, .encode op⟩] else acc
  | .compute op =>
    if op.place.rank = rank then
      acc.demandAll rank context op.inputs ++ [⟨context, .compute op⟩]
    else acc
  | .comm action =>
    let acc := acc.demandAll rank context (action.localInputs rank)
    acc ++ [⟨context, .post acc.posts.length action⟩]

def addPhase (plan : RuntimePlan) (rank : CInt) (acc : Script) (list : List Instruction) : Script :=
  list.foldl (addInstruction plan rank) acc

/-- `finish_all_groups`. -/
def finishAll (acc : Script) : Script :=
  acc.posts.zipIdx.foldl (settle {}) acc

end Script

namespace RuntimePlan

/-- The external inputs on a rank. -/
def localExternals (plan : RuntimePlan) (rank : CInt) : List ValueId :=
  plan.externalInputs.filter fun id => plan.IsLocal rank id

/-- The final outputs on a rank. -/
def finalsOf (plan : RuntimePlan) (rank : CInt) : List ValueId :=
  plan.finalOutputs.filter fun id => plan.IsLocal rank id

def inputLines (plan : RuntimePlan) (rank : CInt) : Script :=
  (plan.localExternals rank).map (fun id => ⟨{}, .bind id⟩) ++
    [⟨{}, .checkInputs (plan.localExternals rank).length⟩]

/-- The script up to the end of the initialization, its groups finished. -/
def initialScript (plan : RuntimePlan) (rank : CInt) : Script :=
  ((plan.inputLines rank).addPhase plan rank plan.initialization).finishAll

/-- The script up to the last instruction. -/
def instructionScript (plan : RuntimePlan) (rank : CInt) : Script :=
  ((plan.initialScript rank).addPhase plan rank plan.execution).addPhase plan rank plan.finalization

def syncLines (plan : RuntimePlan) (rank : CInt) : Script :=
  (plan.finalsOf rank).map fun id => ⟨{ value := some id }, .sync id⟩

/-- **The script of a rank.** -/
def script (plan : RuntimePlan) (rank : CInt) : Script :=
  (plan.instructionScript rank).finishAll ++ plan.syncLines rank

end RuntimePlan

/-! ## The meaning of a script -/

/-- The state of a script: no value is ever dropped. -/
structure ScriptState (V H : Type) where
  context : Context := {}
  values : ValueId → Option V := fun _ => none
  handles : ℕ → Option H := fun _ => none
  bundleSlots : List (String × List Double) := []
  timing : RuntimeTiming := {}

abbrev ScriptComp (V H : Type) := Comp (ApiOp V H) ApiOp.Ans (ScriptState V H) Failure

namespace ScriptState

variable {V H : Type}

def setValue (e : ScriptState V H) (id : ValueId) (value : V) : ScriptState V H :=
  { e with values := Function.update e.values id (some value) }

def setHandle (e : ScriptState V H) (group : ℕ) (handle : H) : ScriptState V H :=
  { e with handles := Function.update e.handles group (some handle) }

/-- The part of the runtime's state that a diagnostic reads. -/
def diagnostics (e : ScriptState V H) : RuntimeState V H :=
  { current := e.context.current, currentValue := e.context.value }

end ScriptState

namespace SequentialRuntime

variable {V H : Type}

/-- A call to the Api. -/
def scriptApi (op : ApiOp V H) : ScriptComp V H op.Result :=
  Comp.call op fun ans => ans.mapError .api

def readValue (id : ValueId) : ScriptComp V H V := do
  let e ← Comp.get
  match e.values id with
  | some value => return value
  | none => Comp.throw (.runtime (.absent id))

def readValues : List ValueId → ScriptComp V H (List V)
  | [] => pure []
  | id :: ids => do
    let value ← readValue id
    let values ← readValues ids
    return value :: values

def setValue (id : ValueId) (value : V) : ScriptComp V H Unit :=
  Comp.modify fun e => e.setValue id value

section
variable (cfg : RunConfig V)

/-- The outputs of a wait, each with its id. -/
def receiveOutputs : List (ValueId × V) → ScriptComp V H Unit
  | [] => pure ()
  | (id, output) :: outputs => do
    let d ← Comp.ofExcept (desc (plan cfg) id)
    scriptApi (.validateValue output d)
    setValue id output
    receiveOutputs outputs

def Act.exec : Act → ScriptComp V H Unit
  | .bind id => do
    let d ← Comp.ofExcept (desc (plan cfg) id)
    match cfg.localInputs.lookup id with
    | none => Comp.throw (.runtime (.missingInput id))
    | some value => do
      scriptApi (.validateValue value d)
      setValue id value
  | .checkInputs expected =>
    Comp.throwIf (cfg.localInputs.length ≠ expected) (.runtime .unexpectedInputs)
  | .encode op => do
    let d ← Comp.ofExcept (desc (plan cfg) op.output)
    let e ← Comp.get
    let slots ← Comp.ofExcept (payloadSlots e.bundleSlots op.payload)
    let output ← scriptApi (.encodePlaintext d (slots.map Double.normalizeZero))
    scriptApi (.validateValue output d)
    setValue op.output output
  | .compute op => do
    let inputs ← readValues op.inputs
    let output ← scriptApi (.compute op inputs)
    Comp.modify fun e => { e with timing := RuntimeTiming.addCompute e.timing op.kind }
    let d ← Comp.ofExcept (desc (plan cfg) op.output)
    scriptApi (.validateValue output d)
    setValue op.output output
  | .post group action => do
    let inputs ← readValues (action.localInputs cfg.rank)
    let handle ← scriptApi (.communicateAsync action inputs)
    Comp.modify fun e => { e.setHandle group handle with timing := RuntimeTiming.addPost e.timing }
  | .wait group action => do
    let e ← Comp.get
    match e.handles group with
    | none => Comp.throw (.runtime (.noSuchGroup group))
    | some handle => do
      let (outputs, handle) ← scriptApi (.wait handle)
      Comp.modify fun e =>
        { e.setHandle group handle with timing := RuntimeTiming.addWait e.timing }
      Comp.throwIf (outputs.length ≠ (action.localOutputs cfg.rank).length)
        (.runtime .wrongOutputCount)
      receiveOutputs cfg (List.zip (action.localOutputs cfg.rank) outputs)
  | .sync id => do
    let value ← readValue id
    let value' ← scriptApi (.synchronize value)
    setValue id value'

def execLine (line : Line) : ScriptComp V H Unit := do
  Comp.modify fun e => { e with context := line.context }
  Act.exec cfg line.act

def execScript : Script → ScriptComp V H Unit
  | [] => pure ()
  | line :: lines => do
    execLine cfg line
    execScript lines

/-- The values of the artifact: all in the full mode, else the final outputs. -/
def scriptArtifact (e : ScriptState V H) : RunArtifact V where
  values id :=
    if retainAllValues cfg = true ∨ id ∈ (plan cfg).finalOutputs then do
      let d ← (plan cfg).desc? id
      let value ← e.values id
      return (d.place, value)
    else none
  timing := e.timing

/-- What comes before the first line, for a plan that was verified with
    `requirements`. -/
def scriptPrelude (env : Environment) (requirements : PlanRequirements) : ScriptComp V H Unit := do
  let slots ← Comp.ofExcept (bundleSlotsOf cfg env)
  Comp.modify fun e => { e with bundleSlots := slots }
  scriptApi (.preflight cfg.loadedPlan.sourceSha256 cfg.resources.skipArtifactDigestChecks
    (plan cfg).target cfg.resources.operatorSpec.spec requirements)

/-- The body of the `try`. -/
def scriptBody (env : Environment) (requirements : PlanRequirements) :
    ScriptComp V H (RunArtifact V) := do
  scriptPrelude cfg env requirements
  execScript cfg ((plan cfg).script cfg.rank)
  let e ← Comp.get
  return scriptArtifact cfg e

def scriptHandle (r : Except Failure (RunArtifact V) × ScriptState V H) :
    Prog (ApiOp V H) ApiOp.Ans (RunResult V) :=
  handle cfg (r.1, r.2.diagnostics)

/-- The run of a rank. -/
def scriptRun (env : Environment) (requirements : PlanRequirements) :
    Prog (ApiOp V H) ApiOp.Ans (RunResult V) :=
  match openTrace env cfg.rank with
  | .error failure => .ret (.threw failure)
  | .ok () => scriptBody cfg env requirements {} >>= scriptHandle cfg

end

end SequentialRuntime

end CkksRuntime
