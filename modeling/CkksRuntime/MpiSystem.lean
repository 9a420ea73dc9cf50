/-
  ckks-runtime formalization — the MPI ranks of a group as a transition system.

  Of MPI it has what the standard guarantees: sends and receives match by source,
  destination and tag, those of one triple in the order they were posted; a receive
  completes once its send is posted; a send completes once its receive is posted, or
  at once where MPI buffers it (`MpiWorld.buffered`); an `MPI_Allgather` returns once
  every rank has called it.

  `MPI_Abort` and undefined behaviour end the job: no step follows (`MpiState.Dead`).
-/
import CkksRuntime.Matching
import CkksRuntime.MpiVecApi
import CkksRuntime.Transitions

namespace CkksRuntime

open Interaction Transitions Matching

/-- A send that was posted. -/
structure MpiSend where
  source : CInt
  destination : CInt
  tag : CInt
  data : WireData
  origin : Origin

/-- A receive that was posted. -/
structure MpiReceive where
  source : CInt
  destination : CInt
  tag : CInt
  origin : Origin

/-- What sends and receives match by. -/
def MpiSend.triple (send : MpiSend) : CInt × CInt × CInt :=
  (send.source, send.destination, send.tag)

def MpiReceive.triple (receive : MpiReceive) : CInt × CInt × CInt :=
  (receive.source, receive.destination, receive.tag)

/-- The communicator. -/
structure MpiWorld where
  worldSize : CInt
  /-- the attribute `MPI_TAG_UB` -/
  tagUpperBound : CInt
  /-- sends complete without their receives -/
  buffered : Bool

/-- The sends and receives in the order they were posted, and of each rank: what it put
    into the gathers, what it has still to do, and what is recorded of it. -/
structure MpiState where
  sends : List MpiSend := []
  receives : List MpiReceive := []
  contributions : CInt → List Contribution := fun _ => []
  progs : CInt → Prog MpiOp MpiOp.Ans (RunResult VecValue × ℕ)
  history : CInt → List MpiEvent := fun _ => []
  aborted : Bool := false

/-- A group of MPI ranks that run one plan. -/
structure MpiGroup where
  world : MpiWorld
  plan : RuntimePlan
  run : CInt → RunConfig VecValue
  env : CInt → Environment
  rank_eq : ∀ r, InWorld world.worldSize r → (run r).rank = r
  plan_eq : ∀ r, InWorld world.worldSize r → SequentialRuntime.plan (run r) = plan
  worldSize_eq : ∀ r, InWorld world.worldSize r → (run r).worldSize = world.worldSize
  /-- The external inputs are ready values. -/
  inputs_ready : ∀ r, InWorld world.worldSize r → ∀ p ∈ (run r).localInputs,
    ∃ payload, p.2 = .ready payload

namespace MpiState

/-- The result of a rank, once it has one. -/
def result? (s : MpiState) (r : CInt) : Option (RunResult VecValue) :=
  match s.progs r with
  | .ret (result, _) => some result
  | .call .. => none

/-- The job has been aborted, or has ended with undefined behaviour. -/
def Dead (s : MpiState) : Prop := s.aborted = true ∨ ∃ r, s.result? r = some .crashed

def sendTriples (s : MpiState) : List (CInt × CInt × CInt) := s.sends.map MpiSend.triple

def receiveTriples (s : MpiState) : List (CInt × CInt × CInt) := s.receives.map MpiReceive.triple

/-- The send is complete. -/
def SendComplete (world : MpiWorld) (s : MpiState) (request : ℕ) : Prop :=
  world.buffered = true ∨ (partner s.sendTriples s.receiveTriples request).isSome

instance (world : MpiWorld) (s : MpiState) (request : ℕ) : Decidable (s.SendComplete world request) :=
  inferInstanceAs (Decidable (_ ∨ _))

/-- Every rank has called `MPI_Allgather` number `round`. -/
def Gathered (world : MpiWorld) (s : MpiState) (round : ℕ) : Prop :=
  ∀ q ∈ worldRanks world.worldSize, round < (s.contributions q).length

instance (world : MpiWorld) (s : MpiState) (round : ℕ) : Decidable (s.Gathered world round) :=
  inferInstanceAs (Decidable (∀ _ ∈ _, _))

def setProg (s : MpiState) (r : CInt) (p : Prog MpiOp MpiOp.Ans (RunResult VecValue × ℕ)) :
    MpiState :=
  { s with progs := Function.update s.progs r p }

/-- A call of a rank, once it need not wait: the answer, and the state after it. -/
def perform (world : MpiWorld) (s : MpiState) (r : CInt) : (op : MpiOp) → Option (op.Ans × MpiState)
  | .contribute contribution => some ((), { s with
      contributions := Function.update s.contributions r (s.contributions r ++ [contribution]) })
  | .collect round =>
    if s.Gathered world round then
      some ((worldRanks world.worldSize).filterMap fun q => (s.contributions q)[round]?, s)
    else none
  | .isend destination tag data origin =>
    some (s.sends.length, { s with sends := s.sends ++ [⟨r, destination, tag, data, origin⟩] })
  | .irecv source tag origin =>
    some (s.receives.length, { s with receives := s.receives ++ [⟨source, r, tag, origin⟩] })
  | .waitall requests =>
    if ∀ request ∈ requests, s.SendComplete world request then some ((), s) else none
  | .wait request => do
    let j ← partner s.receiveTriples s.sendTriples request
    let send ← s.sends[j]?
    return (send.data, s)
  | .record event =>
    some ((), { s with history := Function.update s.history r (s.history r ++ [event]) })
  | .abort _ => none

end MpiState

/-- The steps of the ranks, by their rank. -/
inductive MpiStep (world : MpiWorld) : MpiState → CInt → MpiState → Prop
  | call {s s' : MpiState} {r : CInt} {op : MpiOp} {k} {ans : op.Ans} :
      ¬ s.Dead → s.progs r = .call op k → s.perform world r op = some (ans, s') →
      MpiStep world s r (s'.setProg r (k ans))
  /-- `MPI_Abort` -/
  | abort {s : MpiState} {r : CInt} {reason : String} {k} :
      ¬ s.Dead → s.progs r = .call (.abort reason) k → MpiStep world s r { s with aborted := true }

namespace MpiGroup

variable [DoubleArith]

/-- The start: no rank has called anything.  There are no ranks outside the world. -/
def initial (group : MpiGroup) : MpiState where
  progs r := if InWorld group.world.worldSize r then
      MpiVecApi.rankProgram group.world.tagUpperBound (group.run r) (group.env r)
    else .ret (.threw .access, 0)

def system (group : MpiGroup) : System MpiState CInt :=
  ⟨fun s => s = group.initial, MpiStep group.world⟩

end MpiGroup

end CkksRuntime
