/-
  ckks-runtime formalization — the mock ranks of a group as a transition system.

  The parties are the threads of the ranks, their sender threads and the workers of
  their executors, one a Place with its queue.  They share the cluster, behind its
  mutex, and the values still being computed (`Cell`).

  * a call of a rank is one step, enabled once the call need not wait
    (`MockState.perform`);
  * a sender publishes slot by slot; it holds the mutex while it copies its source;
  * a worker completes the value of the task it has taken from its queue.

  Undefined behaviour, and an exception that leaves a worker, ends the process: no
  step follows (`MockState.Dead`).
-/
import CkksRuntime.MockVecApi
import CkksRuntime.Transitions

namespace CkksRuntime

open Interaction Transitions

variable [DoubleArith]

/-- A queued computation, with the value it is to complete. -/
structure Task where
  op : ComputeOp
  inputs : List VecValue
  metadata : VecMetadata
  cell : ℕ

inductive SenderStatus where
  /-- about to publish a slot -/
  | publishing (slot : ℕ)
  /-- copying the source for a slot, with the mutex held -/
  | copying (slot : ℕ)
  /-- about to call `abort_all` -/
  | aborting (reason : String)
  | done (result : Except Thrown Unit)

structure Sender where
  id : TransferId
  destinations : ℕ
  source : VecValue
  status : SenderStatus := .publishing 0

/-- A rank: what its thread has still to do, the values of its executor, the queues
    of its workers and its senders. -/
structure RankState where
  prog : Prog MockOp MockOp.Ans (RunResult VecValue × ℕ)
  cells : ℕ → Cell := fun _ => .waiting
  allocated : ℕ := 0
  queues : Place → List Task := fun _ => []
  senders : List Sender := []

structure MockState where
  cluster : MockCluster
  /-- the sender that holds the mutex of the cluster -/
  copier : Option (CInt × ℕ)
  ranks : CInt → RankState
  crashed : Bool

/-- A group of mock ranks that run one plan. -/
structure MockGroup where
  cluster : MockClusterConfig
  plan : RuntimePlan
  api : CInt → MockApiConfig
  run : CInt → RunConfig VecValue
  env : CInt → Environment
  rank_eq : ∀ r, InWorld cluster.worldSize r → (run r).rank = r
  plan_eq : ∀ r, InWorld cluster.worldSize r → SequentialRuntime.plan (run r) = plan
  worldSize_eq : ∀ r, InWorld cluster.worldSize r → (run r).worldSize = cluster.worldSize
  /-- The external inputs are ready values. -/
  inputs_ready : ∀ r, InWorld cluster.worldSize r → ∀ p ∈ (run r).localInputs,
    ∃ payload, p.2 = .ready payload

namespace Task

/-- `output.fulfill(…)` inside the `try` of a task, `output.fail(…)` in its handler.
    What leaves the handler ends the process. -/
def complete (task : Task) (cell : Cell) : Except Fault VecPayload → Except Fault Cell
  | .ok payload =>
    match VecValue.fulfill .ciphertext task.metadata cell payload with
    | .ok cell' => .ok cell'
    | .error fault => VecValue.fail cell fault
  | .error fault => if fault.isException then VecValue.fail cell fault else .error fault

end Task

/-- The status of a sender after an exception: `ClusterPanic` goes on, any other calls
    `abort_all`. -/
def SenderStatus.thrown : Thrown → SenderStatus
  | .clusterPanic reason => .done (.error (.clusterPanic reason))
  | .fault fault => .aborting ("mock sender failed: " ++ fault.what)

namespace RankState

/-- The result of the thread, once it has one. -/
def result? (node : RankState) : Option (RunResult VecValue) :=
  match node.prog with
  | .ret (result, _) => some result
  | .call .. => none

def setSender (node : RankState) (k : ℕ) (status : SenderStatus) : RankState :=
  { node with senders := node.senders.modify k fun sender => { sender with status := status } }

/-- The worker of a Place runs the task at the head of its queue, once the task need
    not wait. -/
def runTask (node : RankState) (place : Place) : Option (Except Fault RankState) :=
  match node.queues place with
  | [] => none
  | task :: rest =>
    match (VecExecutor.computeNow node.cells task.op task.inputs).run with
    | none => none
    | some result => some <|
      match task.complete (node.cells task.cell) result with
      | .error fault => .error fault
      | .ok cell => .ok
        { node with
          cells := Function.update node.cells task.cell cell
          queues := Function.update node.queues place rest }

end RankState

namespace MockState

/-- The process has ended with undefined behaviour. -/
def Dead (s : MockState) : Prop :=
  s.crashed = true ∨ ∃ r, (s.ranks r).result? = some .crashed

def setRank (s : MockState) (r : CInt) (node : RankState) : MockState :=
  { s with ranks := Function.update s.ranks r node }

/-- A call of a rank, once it need not wait: the answer, and the state after it. -/
def perform (cfg : MockClusterConfig) (s : MockState) (r : CInt) :
    (op : MockOp) → Option (op.Ans × MockState)
  | .register digest skip =>
    if s.copier = none then
      match s.cluster.register r digest skip with
      | .ok cluster => some (.ok (), { s with cluster := cluster })
      | .error thrown => some (.error thrown.toFault, s)
    else none
  | .awaitPreflight =>
    if s.copier = none ∧ s.cluster.Gathered cfg then
      some (s.cluster.agree.1.mapError Thrown.toFault, { s with cluster := s.cluster.agree.2 })
    else none
  | .computeNow op inputs =>
    (VecExecutor.computeNow (s.ranks r).cells op inputs).run.map fun result => (result, s)
  | .submit op inputs metadata =>
    let node := s.ranks r
    let task : Task := ⟨op, inputs, metadata, node.allocated⟩
    some (.ok (.pending .ciphertext metadata node.allocated), s.setRank r
      { node with
        allocated := node.allocated + 1
        queues := Function.update node.queues op.place (node.queues op.place ++ [task]) })
  | .spawn id destinations source =>
    let node := s.ranks r
    some (.ok node.senders.length, s.setRank r
      { node with senders := node.senders ++ [{ id, destinations, source }] })
  | .join k =>
    match (s.ranks r).senders[k]? with
    | some ⟨_, _, _, .done result⟩ => some (result.mapError Thrown.toFault, s)
    | _ => none
  | .receive id slot =>
    if s.copier = none ∧ s.cluster.Arrived id slot then
      some ((s.cluster.take cfg id slot).mapError Thrown.toFault, s)
    else none
  | .materialize value =>
    (value.materialize (s.ranks r).cells).run.map fun result => (result, s)
  | .abortAll reason =>
    if s.copier = none then
      let cluster := s.cluster.abort reason
      some (.error (.runtimeError (cluster.abortReason.getD reason)), { s with cluster := cluster })
    else none

end MockState

/-- The steps, with what they return to whom. -/
inductive MockLabel where
  | call (rank : CInt) (event : Event MockOp MockOp.Ans)
  /-- `publish` returns -/
  | published (rank : CInt) (sender slot : ℕ)
  | sender (rank : CInt) (sender : ℕ)
  | worker (rank : CInt) (place : Place)

/-- The steps of the parties. -/
inductive MockStep (cfg : MockClusterConfig) : MockState → MockLabel → MockState → Prop
  | call {s s' : MockState} {r : CInt} {op : MockOp} {k} {ans : op.Ans} :
      ¬ s.Dead → (s.ranks r).prog = .call op k → s.perform cfg r op = some (ans, s') →
      MockStep cfg s (.call r ⟨op, ans⟩) (s'.setRank r
        { s'.ranks r with prog := k ans })
  /-- a sender takes the mutex and is admitted -/
  | acquire {s : MockState} {r : CInt} {k slot : ℕ} {sender : Sender} :
      ¬ s.Dead → (s.ranks r).senders[k]? = some sender → sender.status = .publishing slot →
      slot < sender.destinations → s.copier = none →
      s.cluster.admitPublish cfg sender.id = .ok () →
      MockStep cfg s (.sender r k)
        { s.setRank r ((s.ranks r).setSender k (.copying slot)) with
          copier := some (r, k) }
  /-- a sender takes the mutex and is refused -/
  | refuse {s : MockState} {r : CInt} {k slot : ℕ} {sender : Sender} {thrown : Thrown} :
      ¬ s.Dead → (s.ranks r).senders[k]? = some sender → sender.status = .publishing slot →
      slot < sender.destinations → s.copier = none →
      s.cluster.admitPublish cfg sender.id = .error thrown →
      MockStep cfg s (.sender r k) (s.setRank r ((s.ranks r).setSender k (.thrown thrown)))
  /-- the copy is stored, and the mutex released -/
  | store {s : MockState} {r : CInt} {k slot : ℕ} {sender : Sender} {payload : VecPayload}
      {cluster : MockCluster} :
      ¬ s.Dead → (s.ranks r).senders[k]? = some sender → sender.status = .copying slot →
      (sender.source.materialize (s.ranks r).cells).run = some (.ok payload) →
      s.cluster.store sender.id slot payload = .ok cluster →
      MockStep cfg s (.published r k slot)
        { s.setRank r ((s.ranks r).setSender k (.publishing (slot + 1))) with
          cluster := cluster
          copier := none }
  /-- the copy cannot be made or stored, and the mutex is released -/
  | spoil {s : MockState} {r : CInt} {k slot : ℕ} {sender : Sender} {thrown : Thrown} :
      ¬ s.Dead → (s.ranks r).senders[k]? = some sender → sender.status = .copying slot →
      ((∃ fault, (sender.source.materialize (s.ranks r).cells).run = some (.error fault) ∧
          thrown = .fault fault) ∨
        ∃ payload, (sender.source.materialize (s.ranks r).cells).run = some (.ok payload) ∧
          s.cluster.store sender.id slot payload = .error thrown) →
      MockStep cfg s (.sender r k)
        { s.setRank r ((s.ranks r).setSender k (.thrown thrown)) with
          copier := none }
  /-- all slots are published -/
  | finish {s : MockState} {r : CInt} {k slot : ℕ} {sender : Sender} :
      ¬ s.Dead → (s.ranks r).senders[k]? = some sender → sender.status = .publishing slot →
      sender.destinations ≤ slot →
      MockStep cfg s (.sender r k) (s.setRank r ((s.ranks r).setSender k (.done (.ok ()))))
  /-- a sender calls `abort_all` -/
  | abort {s : MockState} {r : CInt} {k : ℕ} {sender : Sender} {reason : String} :
      ¬ s.Dead → (s.ranks r).senders[k]? = some sender → sender.status = .aborting reason →
      s.copier = none →
      MockStep cfg s (.sender r k)
        { s.setRank r ((s.ranks r).setSender k (.done (.error
            (.clusterPanic ((s.cluster.abort reason).abortReason.getD reason))))) with
          cluster := s.cluster.abort reason }
  | worker {s : MockState} {r : CInt} {place : Place} {node : RankState} :
      ¬ s.Dead → (s.ranks r).runTask place = some (.ok node) →
      MockStep cfg s (.worker r place) (s.setRank r node)
  | crash {s : MockState} {r : CInt} {place : Place} {fault : Fault} :
      ¬ s.Dead → (s.ranks r).runTask place = some (.error fault) →
      MockStep cfg s (.worker r place) { s with crashed := true }

namespace MockGroup

/-- The start: no rank has called anything.  There are no ranks outside the world. -/
def initial (group : MockGroup) : MockState where
  cluster := {}
  copier := none
  ranks r :=
    { prog := if InWorld group.cluster.worldSize r then
        MockVecApi.rankProgram group.cluster (group.api r) (group.run r) (group.env r)
      else .ret (.threw .access, 0) }
  crashed := false

def system (group : MockGroup) : System MockState MockLabel :=
  ⟨fun s => s = group.initial, MockStep group.cluster⟩

end MockGroup

/-- A payload of the fan-out plan. -/
def fanoutPayload (kind : ValueKind) (components : CInt) : VecPayload :=
  ⟨kind, [0#64], ⟨"ctx", 8192, 3, 1, true, components⟩⟩

/-- The fan-out plan on one mock rank. -/
def fanoutMockGroup : MockGroup where
  cluster := { worldSize := 1 }
  plan := (fanoutPlan [2] ⟨.device, 0, 0⟩ [⟨.device, 0, 1⟩]).plan
  api _ := { mode := .async }
  run _ := SequentialRuntime.fanoutConfig (.ready (fanoutPayload .ciphertext 2))
    (.ready (fanoutPayload .plaintext 1))
  env _ := SequentialRuntime.bareEnvironment
  rank_eq _ hr := (eq_zero_of_inWorld_one hr).symm
  plan_eq _ _ := rfl
  worldSize_eq _ _ := rfl
  inputs_ready _ _ := by simp [SequentialRuntime.fanoutConfig]

/-- A plan of one rank that returns its only input. -/
def echoPlan : RuntimePlan :=
  { (fanoutPlan [2] ⟨.device, 0, 0⟩ []).plan with
    values := [valueDesc 0 .ciphertext ⟨.host, 0, 0⟩]
    externalInputs := [0]
    initialization := []
    execution := []
    finalization := []
    finalOutputs := [0] }

/-- The plan on one mock rank. -/
def echoGroup : MockGroup where
  cluster := { worldSize := 1 }
  plan := echoPlan
  api _ := { mode := .async }
  run _ :=
    { rank := 0
      worldSize := 1
      localDevices := 2
      apiName := "MockVecApi"
      loadedPlan := ⟨echoPlan, testSpecSha256⟩
      resources := { operatorSpec := makeTestOperatorSpec, plaintextBundleDir := none }
      localInputs := [(0, .ready (fanoutPayload .ciphertext 2))]
      localInputs_nodup := by simp }
  env _ := SequentialRuntime.bareEnvironment
  rank_eq _ hr := (eq_zero_of_inWorld_one hr).symm
  plan_eq _ _ := rfl
  worldSize_eq _ _ := rfl
  inputs_ready _ _ := by simp

end CkksRuntime
