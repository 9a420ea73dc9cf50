/-
  ckks-runtime formalization — the sequential evaluation of a plan: what a plan
  means, whoever runs it.

  * `evaluate` goes through the instructions of the three phases in one map from
    values to payloads: an Encode encodes its slots, a compute operation is
    `compute_now` on the payloads, a communication copies its source;
  * `Solution`: a map that satisfies the equation of every instruction;
  * for a plan in which every value has one definition, before its uses, the
    final map of a successful evaluation is a solution (`solution_of_evaluate`),
    and a solution makes the evaluation succeed with the payloads it names
    (`evaluate_of_solution`).

  This is the abstract semantics; it is not translated from the source.
-/
import CkksRuntime.ComputeRules

namespace CkksRuntime

open PlanVerifier

variable [DoubleArith]

/-! ## Operations on payloads -/

namespace VecExecutor

/-- What the executor reads of its operands. -/
def SameOperands (cells cells' : ℕ → Cell) (values values' : List VecValue) : Prop :=
  List.Forall₂ (fun v v' => v.kind = v'.kind ∧ v.materialize cells = v'.materialize cells')
    values values'

omit [DoubleArith] in
theorem unaryCipher_congr {cells cells' : ℕ → Cell} {values values' : List VecValue}
    (h : SameOperands cells cells' values values') :
    unaryCipher cells values = unaryCipher cells' values' := by
  cases h with
  | nil => rfl
  | cons hx hrest =>
    cases hrest with
    | nil => simp only [unaryCipher, hx.1, hx.2]
    | cons _ _ => rfl

omit [DoubleArith] in
theorem binary_congr {cells cells' : ℕ → Cell} {values values' : List VecValue}
    (h : SameOperands cells cells' values values') (rhsKind : ValueKind)
    (fn : Double → Double → Double) (multiply : Bool) :
    binary cells values rhsKind fn multiply = binary cells' values' rhsKind fn multiply := by
  cases h with
  | nil => rfl
  | cons hx hrest =>
    cases hrest with
    | nil => rfl
    | cons hy hrest =>
      cases hrest with
      | nil => simp only [binary, hx.1, hx.2, hy.1, hy.2]
      | cons _ _ => rfl

/-- The result depends on the kinds and the payloads of the operands only. -/
theorem computeNow_congr {cells cells' : ℕ → Cell} {op : ComputeOp} {values values' : List VecValue}
    (h : SameOperands cells cells' values values') :
    computeNow cells op values = computeNow cells' op values' := by
  unfold computeNow
  cases op.kind <;> simp only [binary_congr h, unaryCipher_congr h]

/-- `compute_now` on payloads. -/
def computeReady (op : ComputeOp) (inputs : List VecPayload) : Except Fault VecPayload :=
  ((computeNow (fun _ => .waiting) op (inputs.map .ready)).run).getD (error "blocked")

theorem computeNow_ready (cells : ℕ → Cell) (op : ComputeOp) (inputs : List VecPayload) :
    computeNow cells op (inputs.map .ready) = some (computeReady op inputs) := by
  have hsame : SameOperands cells (fun _ => .waiting) (inputs.map .ready) (inputs.map .ready) :=
    List.forall₂_same.2 fun v hv => by
      obtain ⟨p, -, rfl⟩ := List.mem_map.1 hv
      exact ⟨rfl, rfl⟩
  have hbinary : ∀ rhsKind fn multiply, ∃ r,
      binary (fun _ => .waiting) (inputs.map .ready) rhsKind fn multiply = some r := by
    intro rhsKind fn multiply
    rcases inputs with _ | ⟨x, _ | ⟨y, _ | ⟨z, rest⟩⟩⟩
    · exact ⟨_, rfl⟩
    · exact ⟨_, rfl⟩
    · simp only [binary, List.map_cons, List.map_nil]
      split_ifs
      · exact ⟨_, rfl⟩
      · exact ⟨_, rfl⟩
    · exact ⟨_, rfl⟩
  have hunary : ∃ r, (unaryCipher (fun _ => .waiting) (inputs.map .ready) >>= fun a =>
      (some (unaryPayload op a) : Blocking VecPayload)) = some r := by
    rcases inputs with _ | ⟨x, _ | ⟨y, rest⟩⟩
    · exact ⟨_, rfl⟩
    · simp only [unaryCipher, List.map_cons, List.map_nil]
      split_ifs
      · exact ⟨_, rfl⟩
      · exact ⟨_, rfl⟩
    · exact ⟨_, rfl⟩
  rw [computeNow_congr hsame]
  unfold computeReady
  obtain ⟨r, hr⟩ : ∃ r, computeNow (fun _ => .waiting) op (inputs.map .ready) = some r := by
    unfold computeNow
    cases op.kind <;> first | exact hbinary _ _ _ | exact hunary
  rw [hr]
  rfl

/-- On complete values the executor computes on their payloads. -/
theorem computeNow_completes {cells : ℕ → Cell} {op : ComputeOp} {values : List VecValue}
    {inputs : List VecPayload} (h : List.Forall₂ (fun v p => v.Completes cells p) values inputs) :
    computeNow cells op values = some (computeReady op inputs) := by
  rw [← computeNow_ready cells]
  refine computeNow_congr (List.forall₂_map_right_iff.2 (h.imp fun v p hv => ?_))
  exact ⟨hv.kind, hv.payload⟩

theorem computeReady_pair {op : ComputeOp} {p q : VecPayload} {rhsKind : ValueKind}
    (hk : expectedInputs op.kind = [.ciphertext, rhsKind]) (hp : p.kind = .ciphertext)
    (hq : q.kind = rhsKind) :
    computeReady op [p, q] = binaryPayload p q rhsKind (pairArith op.kind).1 (pairArith op.kind).2 := by
  have hready := computeNow_ready (fun _ => .waiting) op [p, q]
  exact Option.some.inj (hready.symm.trans
    (computeNow_pair hk (VecValue.ready_completes p) (VecValue.ready_completes q) hp hq))

theorem computeReady_unary {op : ComputeOp} {p : VecPayload}
    (hk : expectedInputs op.kind = [.ciphertext]) (hp : p.kind = .ciphertext) :
    computeReady op [p] = unaryPayload op p := by
  have hready := computeNow_ready (fun _ => .waiting) op [p]
  exact Option.some.inj (hready.symm.trans (computeNow_unary hk (VecValue.ready_completes p) hp))

/-- The result does not depend on the identifiers and the place. -/
theorem computeReady_congr {op op' : ComputeOp} (hk : op.kind = op'.kind)
    (ha : op.attrs = op'.attrs) (inputs : List VecPayload) :
    computeReady op inputs = computeReady op' inputs := by
  have hunary : ∀ p, unaryPayload op p = unaryPayload op' p := by
    intro p
    unfold unaryPayload
    rw [hk, ha]
  simp only [computeReady, computeNow, hk, hunary]

end VecExecutor

/-- The payload of an Encode with output `d`; a zero loses its sign. -/
def encodeReady (polyDegree : ℕ) (d : ValueDesc) (slots : List Double) :
    Except Fault VecPayload := do
  match ← encodePlaintext polyDegree d (slots.map Double.normalizeZero) with
  | .ready p => return p
  | .pending .. => .error (.runtimeError "blocked")

/-! ## The evaluation -/

/-- The payloads of the values defined so far. -/
abbrev Payloads := ValueId → Option VecPayload

def Payloads.get (f : Payloads) (id : ValueId) : Except Fault VecPayload :=
  match f id with
  | some p => .ok p
  | none => .error (.runtimeError ("undefined ValueId " ++ toString id))

omit [DoubleArith] in
@[simp] theorem Payloads.get_eq_ok {f : Payloads} {id : ValueId} {p : VecPayload} :
    f.get id = .ok p ↔ f id = some p := by
  unfold Payloads.get
  cases f id <;> simp

/-- The map with `p` at every value of `ids`. -/
def Payloads.put (f : Payloads) (ids : List ValueId) (p : VecPayload) : Payloads :=
  fun id => if id ∈ ids then some p else f id

/-- What an evaluation starts from: the degree of the ring, the contents of the
    bundle and the external inputs. -/
structure EvalContext where
  polyDegree : ℕ
  contents : String → Option (List Double)
  inputs : ValueId → VecPayload

section
variable (plan : RuntimePlan) (env : EvalContext)

/-- The payload that an Encode defines. -/
def EvalContext.encode (op : EncodeOp) : Except Fault VecPayload := do
  match plan.desc? op.output with
  | none => .error (.runtimeError "missing ValueDesc")
  | some d =>
    match op.payload with
    | .inline values => encodeReady env.polyDegree d values
    | .bundle content =>
      match env.contents content with
      | some slots => encodeReady env.polyDegree d slots
      | none => .error (.runtimeError "missing bundle content")

/-- The payload that an instruction gives to each of its outputs. -/
def EvalContext.step (f : Payloads) : InstructionBody → Except Fault VecPayload
  | .encode op => env.encode plan op
  | .compute op => do VecExecutor.computeReady op (← op.inputs.mapM f.get)
  | .comm action => do f.get (← index action.inputs 0)

def evalInstruction (f : Payloads) (i : Instruction) : Except Fault Payloads := do
  return f.put i.body.outputs (← env.step plan f i.body)

/-- The external inputs. -/
def initialPayloads : Payloads :=
  fun id => if id ∈ plan.externalInputs then some (env.inputs id) else none

/-- **The sequential evaluation of a plan.** -/
def RuntimePlan.evaluate : Except Fault Payloads :=
  plan.instructions.foldlM (evalInstruction plan env) (initialPayloads plan env)

/-- A map that satisfies the equation of every instruction. -/
structure Solution (f : Payloads) : Prop where
  input : ∀ id ∈ plan.externalInputs, f id = some (env.inputs id)
  equation : ∀ i ∈ plan.instructions, ∃ p, env.step plan f i.body = .ok p ∧
    ∀ out ∈ i.body.outputs, f out = some p

end

/-! ## Evaluations and solutions -/

section
variable {plan : RuntimePlan} {env : EvalContext} {f g : Payloads}

omit [DoubleArith] in
theorem mapM_get_congr {ids : List ValueId} (h : ∀ id ∈ ids, f id = g id) :
    ids.mapM f.get = ids.mapM g.get := by
  induction ids with
  | nil => rfl
  | cons id ids ih =>
    have hid : f.get id = g.get id := by
      unfold Payloads.get
      rw [h id (by simp)]
    rw [List.mapM_cons, List.mapM_cons, hid, ih fun x hx => h x (by simp [hx])]

/-- An instruction reads its inputs only. -/
theorem step_congr {b : InstructionBody} (h : ∀ id ∈ b.inputs, f id = g id) :
    env.step plan f b = env.step plan g b := by
  cases b with
  | encode op => rfl
  | compute op =>
    have hin : op.inputs.mapM f.get = op.inputs.mapM g.get := mapM_get_congr h
    simp only [EvalContext.step, hin]
  | comm action =>
    simp only [EvalContext.step]
    cases hi : index action.inputs 0 with
    | error fault => rfl
    | ok id =>
      have hmem : id ∈ action.inputs := List.mem_of_getElem? (index_eq_ok.1 hi)
      show f.get id = g.get id
      unfold Payloads.get
      rw [h id hmem]

/-- Every value of the plan has a payload. -/
theorem Solution.isSome (hf : Solution plan env f) {id : ValueId} (hid : id ∈ plan.definitions) :
    ∃ p, f id = some p := by
  rcases List.mem_append.1 hid with hid | hid
  · exact ⟨_, hf.input id hid⟩
  · obtain ⟨i, hi, hout⟩ := List.mem_flatMap.1 hid
    obtain ⟨p, -, ho⟩ := hf.equation i hi
    exact ⟨p, ho id hout⟩

/-- A solution for the instructions `pre`, the first ones of the plan. -/
structure SolvesPrefix (plan : RuntimePlan) (env : EvalContext) (pre : List Instruction)
    (f : Payloads) : Prop where
  input : ∀ id ∈ plan.externalInputs, f id = some (env.inputs id)
  equation : ∀ i ∈ pre, ∃ p, env.step plan f i.body = .ok p ∧ ∀ out ∈ i.body.outputs, f out = some p

section Accepted
variable {spec : OperatorSpec} (h : PlanVerifier.Accepted plan spec)
include h

/-- A new definition leaves the equations of the earlier instructions alone. -/
theorem SolvesPrefix.step {pre b : List Instruction} {i : Instruction}
    (hab : plan.instructions = pre ++ i :: b) (hf : SolvesPrefix plan env pre f) {p : VecPayload}
    (hp : env.step plan f i.body = .ok p) :
    SolvesPrefix plan env (pre ++ [i]) (f.put i.body.outputs p) := by
  have hfresh := (h.outputs_fresh hab).2
  have hkeep : ∀ id ∈ plan.externalInputs ++ definedBy pre, f.put i.body.outputs p id = f id :=
    fun id hid => if_neg fun hout => hfresh id hout hid
  have huses : ∀ {a c : List Instruction} {j : Instruction}, plan.instructions = a ++ j :: c →
      (∀ id ∈ plan.externalInputs ++ definedBy a, f.put i.body.outputs p id = f id) →
      env.step plan (f.put i.body.outputs p) j.body = env.step plan f j.body :=
    fun haj hk => step_congr fun id hid => hk id (h.uses haj hid)
  refine ⟨fun id hid => ?_, fun j hj => ?_⟩
  · rw [hkeep id (by simp [hid])]
    exact hf.input id hid
  · rcases List.mem_append.1 hj with hj | hj
    · obtain ⟨q, hq, hout⟩ := hf.equation j hj
      obtain ⟨a, c, rfl⟩ := List.append_of_mem hj
      refine ⟨q, ?_, fun out ho => ?_⟩
      · rw [huses (by rw [hab, List.append_assoc, List.cons_append]) fun id hid => ?_]
        · exact hq
        · refine hkeep id ?_
          rcases List.mem_append.1 hid with hid | hid
          · simp [hid]
          · simp [definedBy_append, hid]
      · rw [hkeep out ?_]
        · exact hout out ho
        · have : out ∈ definedBy (a ++ j :: c) := List.mem_flatMap.2 ⟨j, hj, ho⟩
          exact List.mem_append_right _ this
    · obtain rfl := List.mem_singleton.1 hj
      refine ⟨p, ?_, fun out ho => if_pos ho⟩
      rw [huses hab hkeep]
      exact hp

theorem solvesPrefix_of_evaluate : ∀ (pre b : List Instruction) (f : Payloads),
    plan.instructions = pre ++ b →
      pre.foldlM (evalInstruction plan env) (initialPayloads plan env) = .ok f →
        SolvesPrefix plan env pre f := by
  intro pre
  induction pre using List.reverseRecOn with
  | nil =>
    intro b f _ hf
    cases hf
    exact ⟨fun id hid => if_pos hid, by simp⟩
  | append_singleton pre i ih =>
    intro b f hab hf
    rw [List.append_assoc, List.singleton_append] at hab
    obtain ⟨g, hg, hi⟩ := foldlM_append_eq_ok.1 hf
    obtain ⟨_, hi, hnil⟩ := foldlM_cons_eq_ok.1 hi
    cases hnil
    simp only [evalInstruction, bind_eq_ok, pure_eq_ok] at hi
    obtain ⟨p, hp, rfl⟩ := hi
    exact (ih _ g hab hg).step h hab hp

/-- **The final map of an evaluation is a solution.** -/
theorem solution_of_evaluate (he : plan.evaluate env = .ok f) : Solution plan env f := by
  have := solvesPrefix_of_evaluate h plan.instructions [] f (by simp) he
  exact ⟨this.input, this.equation⟩

theorem evaluatePrefix_of_solution (hg : Solution plan env g) : ∀ (pre b : List Instruction),
    plan.instructions = pre ++ b → ∃ f,
      pre.foldlM (evalInstruction plan env) (initialPayloads plan env) = .ok f ∧
        ∀ id ∈ plan.externalInputs ++ definedBy pre, f id = g id := by
  intro pre
  induction pre using List.reverseRecOn with
  | nil =>
    intro b _
    refine ⟨_, rfl, fun id hid => ?_⟩
    have hid' : id ∈ plan.externalInputs := by simpa using hid
    rw [hg.input id hid']
    exact if_pos hid'
  | append_singleton pre i ih =>
    intro b hab
    rw [List.append_assoc, List.singleton_append] at hab
    obtain ⟨f, hf, hfg⟩ := ih _ hab
    obtain ⟨p, hp, hout⟩ := hg.equation i (by rw [hab]; simp)
    have hp' : env.step plan f i.body = .ok p := by
      rw [step_congr fun id hid => hfg id (h.uses hab hid)]
      exact hp
    refine ⟨f.put i.body.outputs p, foldlM_append_eq_ok.2 ⟨f, hf, foldlM_cons_eq_ok.2
      ⟨_, ?_, rfl⟩⟩, fun id hid => ?_⟩
    · simp only [evalInstruction, hp', bind_eq_ok, pure_eq_ok]
      exact ⟨p, rfl, rfl⟩
    · by_cases ho : id ∈ i.body.outputs
      · rw [hout id ho]
        exact if_pos ho
      · have : f.put i.body.outputs p id = f id := if_neg ho
        rw [this]
        rw [definedBy_append, definedBy_singleton, ← List.append_assoc] at hid
        exact hfg id ((List.mem_append.1 hid).resolve_right ho)

/-- **A solution makes the evaluation succeed**, with the payloads it names. -/
theorem evaluate_of_solution (hg : Solution plan env g) :
    ∃ f, plan.evaluate env = .ok f ∧ ∀ id ∈ plan.definitions, f id = g id := by
  obtain ⟨f, hf, hfg⟩ := evaluatePrefix_of_solution h hg plan.instructions [] (by simp)
  exact ⟨f, hf, hfg⟩

end Accepted

end

end CkksRuntime
