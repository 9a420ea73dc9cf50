/-
  ckks-runtime formalization — the Api of an MPI rank (`MpiVecApi` in
  `api/mpi_api.hpp`, `api/mpi_api.cpp`).

  A call of the runtime is carried out by the calls `MpiOp`: the calls of MPI, and a
  record of what is posted, waited for and delivered (`MpiEvent`), which changes
  nothing.  An MPI call that goes wrong ends the job, as the default error handler of
  MPI has it; so `check_mpi` never throws.

  The executor computes in the thread of the rank (`VecExecMode::Sync`), so that every
  value is ready.
-/
import CkksRuntime.MockVecApi
import CkksRuntime.MpiWire

namespace CkksRuntime

open Interaction
open MockVecApi (localSlots)

/-- The two messages of an output: the header and the slots. -/
inductive Part where
  | header | slots
  deriving DecidableEq, Repr

/-- `part` of `MpiVecApi::tag`. -/
def Part.code : Part → CInt
  | header => 0
  | slots => 1

/-- The message about an output slot of an action. -/
structure Origin where
  id : TransferId
  slot : ℕ
  part : Part
  deriving DecidableEq, Repr

inductive WireData where
  | header (header : MpiVecApi.WireHeader)
  | slots (slots : List Double)

/-- What a rank puts into an `MPI_Allgather`. -/
inductive Contribution where
  | flag (skip : Bool)
  | digest (planSourceSha256 : String)
  deriving DecidableEq, Repr

namespace MpiVecApi

/-- The two sends of an output, by their requests. -/
structure SendState where
  header : WireHeader
  slots : List Double
  requests : List ℕ

structure RecvState where
  slot : ℕ
  sourceRank : CInt
  headerRequest : ℕ

structure LocalState where
  slot : ℕ
  value : VecValue
  deriving DecidableEq

structure CommHandle where
  id : TransferId
  localSlots : List ℕ
  sends : List SendState
  receives : List RecvState
  locals : List LocalState
  waited : Bool := false

end MpiVecApi

/-- What is recorded of the communication of a rank. -/
inductive MpiEvent where
  /-- `communicate_async` is called -/
  | posting (action : CommAction) (localInputs : List VecValue)
  /-- `wait` is called -/
  | waiting (handle : MpiVecApi.CommHandle)
  /-- `wait` returns the values of the local slots -/
  | delivered (handle : MpiVecApi.CommHandle) (completed : List MpiVecApi.LocalState)

/-- What a rank does with the rest of the group. -/
inductive MpiOp where
  /-- `MPI_Allgather`: the part of the rank -/
  | contribute (contribution : Contribution)
  /-- `MPI_Allgather` number `round` returns -/
  | collect (round : ℕ)
  | isend (destination tag : CInt) (data : WireData) (origin : Origin)
  | irecv (source tag : CInt) (origin : Origin)
  /-- `MPI_Waitall` on sends -/
  | waitall (requests : List ℕ)
  /-- `MPI_Wait` on a receive -/
  | wait (request : ℕ)
  | record (event : MpiEvent)
  /-- `MPI_Abort` -/
  | abort (reason : String)

namespace MpiOp

@[reducible] def Ans : MpiOp → Type
  | contribute _ | waitall _ | record _ => Unit
  | collect _ => List Contribution
  | isend .. | irecv .. => ℕ
  | wait _ => WireData
  | abort _ => Empty

end MpiOp

/-- Code of the Api, with its member `poly_degree_`. -/
abbrev MpiApi := Comp MpiOp MpiOp.Ans ℕ Fault

namespace MpiVecApi

def prim (op : MpiOp) : MpiApi op.Ans := Comp.call op .ok

/-- A computation of the only thread.  No other thread completes a value. -/
def inThread {α : Type} (x : Blocking α) : Except Fault α :=
  match x.run with
  | some result => result
  | none => .error (.undefined "a value that nobody completes")

/-- The slots of the destinations on other ranks, each with its rank. -/
def remoteSlots (rank : CInt) (destinations : List Place) : List (ℕ × CInt) :=
  (destinations.zipIdx.filter fun p => p.1.rank ≠ rank).map fun p => (p.2, p.1.rank)

/-- The headers of the remote slots. -/
def encodeHeaders (source : VecPayload) (remote : List (ℕ × CInt)) :
    Except Fault (List (ℕ × CInt × WireHeader)) :=
  remote.mapM fun p => do
    let header ← encodeHeader source
    return (p.1, p.2, header)

section
variable (tagUpperBound : CInt) (rank : CInt)

/-- The two `MPI_Isend` of every remote slot. -/
def postSends (id : TransferId) (source : VecPayload) :
    List (ℕ × CInt × WireHeader) → MpiApi (List SendState)
  | [] => pure []
  | (slot, destination, header) :: rest => do
    Comp.throwIf (source.slots.length > CInt.max.toInt.toNat)
      (.runtimeError "MPI slot count exceeds int")
    let headerTag ← Comp.ofExcept (tag tagUpperBound id slot Part.header.code)
    let headerRequest ← prim (.isend destination headerTag (.header header) ⟨id, slot, .header⟩)
    let slotsTag ← Comp.ofExcept (tag tagUpperBound id slot Part.slots.code)
    let slotsRequest ← prim (.isend destination slotsTag (.slots source.slots) ⟨id, slot, .slots⟩)
    let sends ← postSends id source rest
    return ⟨header, source.slots, [headerRequest, slotsRequest]⟩ :: sends

/-- The `MPI_Irecv` for the header of every local slot. -/
def postReceives (id : TransferId) (sourceRank : CInt) : List ℕ → MpiApi (List RecvState)
  | [] => pure []
  | slot :: slots => do
    let headerTag ← Comp.ofExcept (tag tagUpperBound id slot Part.header.code)
    let headerRequest ← prim (.irecv sourceRank headerTag ⟨id, slot, .header⟩)
    let receives ← postReceives id sourceRank slots
    return ⟨slot, sourceRank, headerRequest⟩ :: receives

def communicateAsync (action : CommAction) (localInputs : List VecValue) : MpiApi CommHandle := do
  prim (.record (.posting action localInputs))
  let slots := localSlots rank action.destinations
  let source ← Comp.ofExcept (elemAt action.sources 0)
  if source.rank = rank then
    match localInputs with
    | [value] => do
      let payload ← Comp.ofExcept (inThread (value.materialize fun _ => .waiting))
      let headers ← Comp.ofExcept
        (encodeHeaders payload (remoteSlots rank action.destinations))
      let sends ← postSends tagUpperBound action.id payload headers
      return ⟨action.id, slots, sends, [], slots.map fun slot => ⟨slot, .ready payload⟩, false⟩
    | _ => Comp.throw (.runtimeError "MPI sender requires one local input")
  else do
    Comp.throwIf (localInputs ≠ []) (.runtimeError "MPI non-source supplied a local input")
    let receives ← postReceives tagUpperBound action.id source.rank slots
    return ⟨action.id, slots, [], receives, [], false⟩

def waitSends : List SendState → MpiApi Unit
  | [] => pure ()
  | send :: sends => do
    prim (.waitall send.requests)
    waitSends sends

/-- The buffer of a header after its `MPI_Wait`. -/
def receivedHeader : WireData → Except Fault WireHeader
  | .header header => .ok header
  | .slots _ => .error (.undefined "slots received as a header")

/-- The buffer of `count` slots after its `MPI_Wait`. -/
def receivedSlots (count : ℕ) : WireData → Except Fault (List Double)
  | .slots slots =>
    if slots.length > count then .error (.runtimeError "MPI_Wait(slots) failed: message truncated")
    else .ok (slots ++ List.replicate (count - slots.length) 0#64)
  | .header _ => .error (.undefined "a header received as slots")

/-- A header and then its slots, received one output after the other. -/
def receiveAll (id : TransferId) : List RecvState → MpiApi (List LocalState)
  | [] => pure []
  | recv :: receives => do
    let data ← prim (.wait recv.headerRequest)
    let header ← Comp.ofExcept (receivedHeader data)
    Comp.throwIf (header.slotCount = 0 ∨ header.slotCount > CInt.max.toInt.toNat)
      (.runtimeError "invalid MPI slot count")
    let slotsTag ← Comp.ofExcept (tag tagUpperBound id recv.slot Part.slots.code)
    let slotsRequest ← prim (.irecv recv.sourceRank slotsTag ⟨id, recv.slot, .slots⟩)
    let data ← prim (.wait slotsRequest)
    let slots ← Comp.ofExcept (receivedSlots header.slotCount data)
    let value ← Comp.ofExcept (decodeValue header slots)
    let completed ← receiveAll id receives
    return ⟨recv.slot, value⟩ :: completed

/-- `wait`: the local copies and what is received, by slot. -/
def wait (handle : CommHandle) : MpiApi (List VecValue × CommHandle) := do
  Comp.throwIf (handle.waited = true) (.runtimeError "MPI communication handle waited twice")
  prim (.record (.waiting handle))
  waitSends handle.sends
  let received ← receiveAll tagUpperBound handle.id handle.receives
  let completed := (handle.locals ++ received).mergeSort fun a b => a.slot ≤ b.slot
  prim (.record (.delivered handle completed))
  return (completed.map (·.value), { handle with locals := [], waited := true })

end

/-- `synchronize`: the payload is thrown away, the value stays. -/
def synchronize (value : VecValue) : MpiApi VecValue := do
  let _ ← Comp.ofExcept (inThread (value.materialize fun _ => .waiting))
  return value

/-- `compute`, with `VecExecutor::compute`. -/
def compute [DoubleArith] (op : ComputeOp) (inputs : List VecValue) : MpiApi VecValue := do
  let payload ← Comp.ofExcept (inThread (VecExecutor.computeNow (fun _ => .waiting) op inputs))
  return .ready payload

def preflight (planSourceSha256 : String) (skip : Bool) (target : TargetConfig)
    (operatorSpec : OperatorSpec) : MpiApi Unit := do
  Comp.modify fun _ => operatorSpec.polyDegree
  Comp.throwIf (target.capabilityVersion ≠ 1)
    (.runtimeError "MpiVecApi does not support target capability_version")
  prim (.contribute (.flag skip))
  let flags ← prim (.collect 0)
  Comp.throwIf (∃ flag ∈ flags, flag ≠ .flag skip)
    (.runtimeError "skip_artifact_digest_checks mismatch across MPI ranks")
  if skip then pure ()
  else do
    Comp.throwIf (planSourceSha256.utf8ByteSize ≠ 71)
      (.runtimeError "invalid plan source SHA-256")
    prim (.contribute (.digest planSourceSha256))
    let digests ← prim (.collect 1)
    Comp.throwIf (∃ digest ∈ digests, digest ≠ .digest planSourceSha256)
      (.runtimeError "plan source SHA-256 mismatch across MPI ranks")

variable [DoubleArith]

/-- What a rank does for a call of its runtime. -/
def handle (tagUpperBound rank : CInt) : (op : ApiOp VecValue CommHandle) → MpiApi op.Result
  | .preflight digest skip target spec _ => preflight digest skip target spec
  | .validateValue value expected => do
    let polyDegree ← Comp.get
    Comp.ofExcept (CkksRuntime.validateValue polyDegree value expected)
  | .encodePlaintext outputDesc slots => do
    let polyDegree ← Comp.get
    Comp.ofExcept (CkksRuntime.encodePlaintext polyDegree outputDesc slots)
  | .compute op inputs => compute op inputs
  | .communicateAsync action localInputs =>
    communicateAsync tagUpperBound rank action localInputs
  | .wait handle => wait tagUpperBound handle
  | .synchronize value => synchronize value
  | .abortAll _ reason => prim (.abort reason)

/-- A rank. -/
def rankProgram (tagUpperBound : CInt) (run : RunConfig VecValue) (env : Environment) :
    Prog MpiOp MpiOp.Ans (RunResult VecValue × ℕ) :=
  Prog.interp (handle tagUpperBound run.rank) (SequentialRuntime.run run env) 0

end MpiVecApi

end CkksRuntime
