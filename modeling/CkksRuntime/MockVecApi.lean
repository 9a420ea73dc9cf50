/-
  ckks-runtime formalization — the Api of a mock rank (`MockVecApi` in
  `api/mock_api.hpp`, `api/mock_api.cpp`, with `VecExecutor::compute` of
  `api/vec_api.cpp`).

  A call of the runtime is carried out by the calls `MockOp`, which are the points
  where a rank touches what it shares with other threads: the cluster, the workers
  of its executor, its sender threads and the values still being computed.

  The statistics and the delays change no result and are left out.

  The rules at the end (`compute_meets`, `communicateAsync_meets`, `wait_meets`, …) say
  what a protocol of the calls `MockOp` must promise for a call of the runtime.
-/
import CkksRuntime.MockCluster
import CkksRuntime.Protocol
import CkksRuntime.Runtime
import CkksRuntime.VecExecutor

namespace CkksRuntime

open Interaction

inductive VecExecMode where
  | sync | async
  deriving DecidableEq, Repr

/-- The arguments of the constructor of `MockVecApi`. -/
structure MockApiConfig where
  mode : VecExecMode
  failCompute : Option ComputeKind := none
  failCommunicate : List TransferId := []

/-- A communication in progress; `sender` is there if `has_sender` is set. -/
structure CommHandle where
  id : TransferId
  localSlots : List ℕ
  sender : Option ℕ
  waited : Bool := false

/-- What a rank does with the rest of the group. -/
inductive MockOp where
  /-- `MockCluster::preflight`, up to its wait -/
  | register (planSourceSha256 : String) (skip : Bool)
  /-- `MockCluster::preflight`, its wait and the rest -/
  | awaitPreflight
  /-- `compute_now` in the thread of the rank -/
  | computeNow (op : ComputeOp) (inputs : List VecValue)
  /-- `tasks.emplace_back` on the worker of a Place -/
  | submit (op : ComputeOp) (inputs : List VecValue) (metadata : VecMetadata)
  /-- `std::async` of a sender that publishes to `destinations` slots -/
  | spawn (id : TransferId) (destinations : ℕ) (source : VecValue)
  /-- `sender.get()` -/
  | join (sender : ℕ)
  | receive (id : TransferId) (slot : ℕ)
  | materialize (value : VecValue)
  | abortAll (reason : String)

namespace MockOp

@[reducible] def Result : MockOp → Type
  | register .. | awaitPreflight | join .. => Unit
  | computeNow .. | receive .. | materialize .. => VecPayload
  | submit .. => VecValue
  | spawn .. => ℕ
  | abortAll .. => Empty

/-- A call returns, or throws. -/
abbrev Ans (op : MockOp) : Type := Except Fault op.Result

end MockOp

/-- Code of the Api, with its member `poly_degree_`. -/
abbrev MockApi := Comp MockOp MockOp.Ans ℕ Fault

namespace MockVecApi

def prim (op : MockOp) : MockApi op.Result := Comp.call op id

/-- The message about a missing key. -/
def missingKey (key : KeyRequirement) : String :=
  "Api lacks required " ++ key.kind.toString ++ " key at " ++ key.place.toString ++
    match key.rotationStep with
    | some step => " for rotation step " ++ toString step
    | none => ""

/-- The requirements that the cluster was configured to lack. -/
def checkRequirements (cluster : MockClusterConfig) (requirements : PlanRequirements) :
    Except Fault Unit := do
  requirements.capabilities.forM fun capability =>
    throwIf (capability ∈ cluster.missingCapabilities)
      (.runtimeError ("Api lacks required capability: " ++ capability.toString))
  requirements.keys.forM fun key =>
    throwIf (key ∈ cluster.missingKeys) (.runtimeError (missingKey key))

/-- The slots of the destinations on a rank, ascending. -/
def localSlots (rank : CInt) (destinations : List Place) : List ℕ :=
  (destinations.zipIdx.filter fun p => p.1.rank = rank).map (·.2)

/-- The corruption of a type: the other kind, with components to match. -/
def corruptType (payload : VecPayload) : VecPayload :=
  let kind : ValueKind := if payload.kind = .ciphertext then .plaintext else .ciphertext
  { payload with
    kind := kind
    metadata := { payload.metadata with components := if kind = .plaintext then 1 else 2 } }

/-- The injected corruptions of the outputs of an action. -/
def corrupt (cluster : MockClusterConfig) (id : TransferId) (outputs : List VecPayload) :
    Except Fault (List VecPayload) := do
  let outputs := if id ∈ cluster.corruptOutputCount then outputs.dropLast else outputs
  let outputs :=
    if id ∈ cluster.corruptOutputType then outputs.modifyHead corruptType else outputs
  if id ∈ cluster.corruptOutputMetadata then
    match outputs with
    | [] => return []
    | payload :: rest => do
      let level ← CInt.add payload.metadata.level 1
      return { payload with metadata := { payload.metadata with level := level } } :: rest
  else return outputs

section
variable (cluster : MockClusterConfig) (cfg : MockApiConfig) (rank : CInt)

def preflight (planSourceSha256 : String) (skip : Bool) (target : TargetConfig)
    (operatorSpec : OperatorSpec) (requirements : PlanRequirements) : MockApi Unit := do
  Comp.modify fun _ => operatorSpec.polyDegree
  Comp.throwIf (target.capabilityVersion ≠ 1)
    (.runtimeError "MockVecApi does not support target capability_version")
  Comp.ofExcept (checkRequirements cluster requirements)
  prim (.register planSourceSha256 skip)
  prim .awaitPreflight

/-- `compute`, with `VecExecutor::compute`. -/
def compute (op : ComputeOp) (inputs : List VecValue) : MockApi VecValue := do
  Comp.throwIf (cfg.failCompute = some op.kind) (.runtimeError "injected compute failure")
  match cfg.mode with
  | .sync => do
    let payload ← prim (.computeNow op inputs)
    return .ready payload
  | .async => do
    let metadata ← Comp.ofExcept (VecExecutor.computeMetadata op inputs)
    prim (.submit op inputs metadata)

def communicateAsync (action : CommAction) (localInputs : List VecValue) : MockApi CommHandle := do
  Comp.throwIf (action.id ∈ cfg.failCommunicate)
    (.runtimeError "injected communicate_async failure")
  let source ← Comp.ofExcept (elemAt action.sources 0)
  if source.rank = rank then
    match localInputs with
    | [value] => do
      let sender ← prim (.spawn action.id action.destinations.length value)
      return ⟨action.id, localSlots rank action.destinations, some sender, false⟩
    | _ => Comp.throw (.runtimeError "mock sender requires one local input")
  else do
    Comp.throwIf (localInputs ≠ [])
      (.runtimeError "non-source rank supplied communication input")
    return ⟨action.id, localSlots rank action.destinations, none, false⟩

def receiveAll (id : TransferId) : List ℕ → MockApi (List VecPayload)
  | [] => pure []
  | slot :: slots => do
    let output ← prim (.receive id slot)
    let outputs ← receiveAll id slots
    return output :: outputs

/-- `sender.get()`, if there is a sender. -/
def joinSender : Option ℕ → MockApi Unit
  | none => pure ()
  | some sender => prim (.join sender)

def wait (handle : CommHandle) : MockApi (List VecValue × CommHandle) := do
  Comp.throwIf (handle.waited = true) (.runtimeError "communication handle waited twice")
  joinSender handle.sender
  let outputs ← receiveAll handle.id handle.localSlots
  let outputs ← Comp.ofExcept (corrupt cluster handle.id outputs)
  return (outputs.map .ready, { handle with waited := true })

/-- `synchronize`: the payload is thrown away, the value stays. -/
def synchronize (value : VecValue) : MockApi VecValue := do
  let _ ← prim (.materialize value)
  return value

/-- What a rank does for a call of its runtime. -/
def handle : (op : ApiOp VecValue CommHandle) → MockApi op.Result
  | .preflight digest skip target spec requirements =>
    preflight cluster digest skip target spec requirements
  | .validateValue value expected => do
    let polyDegree ← Comp.get
    Comp.ofExcept (CkksRuntime.validateValue polyDegree value expected)
  | .encodePlaintext outputDesc slots => do
    let polyDegree ← Comp.get
    Comp.ofExcept (CkksRuntime.encodePlaintext polyDegree outputDesc slots)
  | .compute op inputs => compute cfg op inputs
  | .communicateAsync action localInputs => communicateAsync cfg rank action localInputs
  | .wait handle => wait cluster handle
  | .synchronize value => synchronize value
  | .abortAll _ reason => prim (.abortAll reason)

/-- The thread of a rank. -/
def rankProgram (run : RunConfig VecValue) (env : Environment) :
    Prog MockOp MockOp.Ans (RunResult VecValue × ℕ) :=
  Prog.interp (handle cluster cfg run.rank) (SequentialRuntime.run run env) 0

end

/-! ## Rules -/

section
variable {W : Type} {P : Protocol MockOp MockOp.Ans W} {E : W → Fault → Prop} {w : W} {n : ℕ}

/-- The end of a call: an answer in `G`, or an exception in `E`; `poly_degree_` stays. -/
def Ends {α : Type} (n : ℕ) (G : W → α → Prop) (E : W → Fault → Prop) (w : W)
    (r : Except Fault α × ℕ) : Prop :=
  r.2 = n ∧ match r.1 with
    | .ok a => G w a
    | .error fault => E w fault

/-- What a protocol promises for a call in the world `w`. -/
def Serves (P : Protocol MockOp MockOp.Ans W) (w : W) (op : MockOp) (G : W → op.Result → Prop)
    (E : W → Fault → Prop) : Prop :=
  P.pre w op ∧ ∀ ans w', P.post w op ans w' →
    match ans with
    | .ok a => G w' a
    | .error fault => E w' fault

theorem prim_bind_meets {α : Type} {op : MockOp} {f : op.Result → MockApi α}
    {G : W → op.Result → Prop} {Q : W → Except Fault α × ℕ → Prop} (h : Serves P w op G E)
    (hf : ∀ w' a, G w' a → Prog.Meets P Q w' (f a n)) (he : ∀ w' fault, E w' fault →
      Q w' (.error fault, n)) : Prog.Meets P Q w ((prim op >>= f) n) := by
  rw [prim, Comp.call_bind]
  refine .call h.1 fun ans w' hpost => ?_
  have hans := h.2 ans w' hpost
  cases ans with
  | ok a => exact hf w' a hans
  | error fault => exact .ret (he w' fault hans)

theorem prim_meets {op : MockOp} {G : W → op.Result → Prop} (h : Serves P w op G E) :
    Prog.Meets P (Ends n G E) w (prim op n) := by
  rw [← Comp.bind_pure (prim op)]
  exact prim_bind_meets h (fun _ _ hg => .ret ⟨rfl, hg⟩) fun _ _ he => ⟨rfl, he⟩

theorem compute_meets {cfg : MockApiConfig} {op : ComputeOp} {inputs : List VecValue}
    {G : W → VecValue → Prop}
    (hinjected : cfg.failCompute = some op.kind →
      E w (.runtimeError "injected compute failure"))
    (hsync : cfg.mode = .sync →
      Serves P w (.computeNow op inputs) (fun w' payload => G w' (.ready payload)) E)
    (hasync : cfg.mode = .async → match VecExecutor.computeMetadata op inputs with
      | .ok metadata => Serves P w (.submit op inputs metadata) G E
      | .error fault => E w fault) :
    Prog.Meets P (Ends n G E) w (compute cfg op inputs n) := by
  rw [compute, Comp.throwIf_bind]
  split_ifs with hfail
  · exact .ret ⟨rfl, hinjected hfail⟩
  · cases hmode : cfg.mode with
    | sync =>
      exact prim_bind_meets (hsync hmode) (fun _ _ hg => .ret ⟨rfl, hg⟩) fun _ _ he => ⟨rfl, he⟩
    | async =>
      have h := hasync hmode
      dsimp only
      cases hm : VecExecutor.computeMetadata op inputs with
      | ok metadata =>
        rw [hm] at h
        rw [Comp.ofExcept_bind_ok]
        exact prim_meets h
      | error fault =>
        rw [hm] at h
        rw [Comp.ofExcept_bind_error]
        exact .ret ⟨rfl, h⟩

/-- The source of an action is known to be local or not, as the runtime knows it. -/
theorem communicateAsync_meets {cfg : MockApiConfig} {rank : CInt} {action : CommAction}
    {source : Place} {localInputs : List VecValue} {G : W → CommHandle → Prop}
    (hsource : action.sources[0]? = some source)
    (hinjected : action.id ∈ cfg.failCommunicate →
      E w (.runtimeError "injected communicate_async failure"))
    (hlocal : source.rank = rank → ∃ value, localInputs = [value] ∧
      Serves P w (.spawn action.id action.destinations.length value)
        (fun w' sender => G w' ⟨action.id, localSlots rank action.destinations, some sender, false⟩)
        E)
    (hremote : source.rank ≠ rank → localInputs = [] ∧
      G w ⟨action.id, localSlots rank action.destinations, none, false⟩) :
    Prog.Meets P (Ends n G E) w (communicateAsync cfg rank action localInputs n) := by
  have hat : elemAt action.sources 0 = .ok source := by rw [elemAt, hsource]
  unfold communicateAsync
  rw [Comp.throwIf_bind, hat]
  by_cases hfail : action.id ∈ cfg.failCommunicate
  · rw [if_pos hfail]
    exact .ret ⟨rfl, hinjected hfail⟩
  · rw [if_neg hfail, Comp.ofExcept_bind_ok]
    by_cases hr : source.rank = rank
    · obtain ⟨value, rfl, hserves⟩ := hlocal hr
      rw [if_pos hr]
      exact prim_bind_meets hserves (fun _ _ hg => .ret ⟨rfl, hg⟩) fun _ _ he => ⟨rfl, he⟩
    · obtain ⟨rfl, hg⟩ := hremote hr
      rw [if_neg hr, Comp.throwIf_bind, if_neg (by simp)]
      exact .ret ⟨rfl, hg⟩

theorem receiveAll_meets {I : W → Prop} {R : ℕ → VecPayload → Prop} {id : TransferId}
    (slots : List ℕ) : ∀ {w : W}, I w →
    (∀ slot ∈ slots, ∀ w, I w →
      Serves P w (.receive id slot) (fun w' payload => I w' ∧ R slot payload) E) →
    Prog.Meets P (Ends n (fun w' payloads => I w' ∧ List.Forall₂ R slots payloads) E) w
      (receiveAll id slots n) := by
  induction slots with
  | nil => intro w hi _; exact .ret ⟨rfl, hi, .nil⟩
  | cons slot slots ih =>
    intro w hi hreceive
    refine prim_bind_meets (hreceive slot List.mem_cons_self w hi) (fun w' payload hr => ?_)
      fun _ _ he => ⟨rfl, he⟩
    rw [Comp.bind_apply]
    refine (ih hr.1 fun slot' hs => hreceive slot' (List.mem_cons_of_mem _ hs)).bind ?_
    rintro w'' ⟨payloads | payloads, l⟩ ⟨rfl, hend⟩
    · exact .ret ⟨rfl, hend⟩
    · exact .ret ⟨rfl, hend.1, .cons hr.2 hend.2⟩

theorem wait_meets {cluster : MockClusterConfig} {handle : CommHandle} {I : W → Prop}
    {R : ℕ → VecPayload → Prop} (hwaited : handle.waited = false)
    (hjoin : ∀ k, handle.sender = some k → Serves P w (.join k) (fun w' _ => I w') E)
    (hnone : handle.sender = none → I w)
    (hreceive : ∀ slot ∈ handle.localSlots, ∀ w, I w →
      Serves P w (.receive handle.id slot) (fun w' payload => I w' ∧ R slot payload) E)
    (hcorrupt : ∀ w outputs fault, I w → corrupt cluster handle.id outputs = .error fault →
      E w fault) :
    Prog.Meets P (Ends n (fun w' (r : List VecValue × CommHandle) => I w' ∧ ∃ payloads outputs,
        List.Forall₂ R handle.localSlots payloads ∧
        corrupt cluster handle.id payloads = .ok outputs ∧ r.1 = outputs.map .ready) E)
      w (wait cluster handle n) := by
  rw [wait, Comp.throwIf_bind, if_neg (by simp [hwaited])]
  have hrest : ∀ w, I w → Prog.Meets P (Ends n (fun w' (r : List VecValue × CommHandle) =>
        I w' ∧ ∃ payloads outputs, List.Forall₂ R handle.localSlots payloads ∧
        corrupt cluster handle.id payloads = .ok outputs ∧ r.1 = outputs.map .ready) E) w
      ((do
        let outputs ← receiveAll handle.id handle.localSlots
        let outputs ← Comp.ofExcept (corrupt cluster handle.id outputs)
        return (outputs.map .ready, { handle with waited := true }) :
          MockApi (List VecValue × CommHandle)) n) := by
    intro w hi
    rw [Comp.bind_apply]
    refine (receiveAll_meets _ hi hreceive).bind ?_
    rintro w' ⟨payloads | payloads, l⟩ ⟨rfl, hend⟩
    · exact .ret ⟨rfl, hend⟩
    · rw [Comp.next_ok]
      cases hc : corrupt cluster handle.id payloads with
      | ok outputs =>
        rw [Comp.ofExcept_bind_ok]
        exact .ret ⟨rfl, hend.1, payloads, outputs, hend.2, hc, rfl⟩
      | error fault =>
        rw [Comp.ofExcept_bind_error]
        exact .ret ⟨rfl, hcorrupt w' payloads fault hend.1 hc⟩
  rcases Option.eq_none_or_eq_some handle.sender with hs | ⟨k, hs⟩
  · have hskip : joinSender handle.sender = pure () := by rw [hs]; rfl
    rw [hskip, Comp.pure_bind]
    exact hrest w (hnone hs)
  · have hcall : joinSender handle.sender = prim (.join k) := by rw [hs]; rfl
    rw [hcall]
    exact prim_bind_meets (hjoin k hs) (fun w' _ hi => hrest w' hi) fun _ _ he => ⟨rfl, he⟩

theorem synchronize_meets {value : VecValue} {G : W → VecValue → Prop}
    (h : Serves P w (.materialize value) (fun w' _ => G w' value) E) :
    Prog.Meets P (Ends n G E) w (synchronize value n) :=
  prim_bind_meets h (fun _ _ hg => .ret ⟨rfl, hg⟩) fun _ _ he => ⟨rfl, he⟩

/-- `preflight`: the agreement of the cluster, if the checks before it pass. -/
theorem preflight_meets {cluster : MockClusterConfig} {digest : String} {skip : Bool}
    {target : TargetConfig} {spec : OperatorSpec} {requirements : PlanRequirements}
    {G : W → Prop} {R : W → Prop}
    (hversion : target.capabilityVersion ≠ 1 →
      E w (.runtimeError "MockVecApi does not support target capability_version"))
    (hcheck : ∀ fault, checkRequirements cluster requirements = .error fault → E w fault)
    (hregister : Serves P w (.register digest skip) (fun w' _ => R w') E)
    (hawait : ∀ w, R w → Serves P w .awaitPreflight (fun w' _ => G w') E) :
    Prog.Meets P (Ends spec.polyDegree (fun w' (_ : Unit) => G w') E) w
      (preflight cluster digest skip target spec requirements n) := by
  rw [preflight, Comp.modify_bind, Comp.throwIf_bind]
  split_ifs with hv
  · exact .ret ⟨rfl, hversion hv⟩
  · cases hc : checkRequirements cluster requirements with
    | error fault =>
      rw [Comp.ofExcept_bind_error]
      exact .ret ⟨rfl, hcheck fault hc⟩
    | ok u =>
      rw [Comp.ofExcept_bind_ok]
      exact prim_bind_meets hregister (fun w' _ hr => prim_meets (hawait w' hr))
        fun _ _ he => ⟨rfl, he⟩

end

end MockVecApi

end CkksRuntime
