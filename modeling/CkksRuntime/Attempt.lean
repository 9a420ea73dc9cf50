/-
  ckks-runtime formalization — how far a plan can be evaluated.

  * `RuntimePlan.attempt` goes through the instructions as `evaluate` does, but an
    instruction that fails defines nothing, and an external input that does not match
    its descriptor is left out;
  * `Outcome`: the equations of its result (`outcome_attempt`);
  * where every value has a payload, an outcome is the solution that the evaluation
    finds (`Outcome.solution`, `Solution.outcome`).

  Like `evaluate` it is not translated from the source.
-/
import CkksRuntime.Evaluation

namespace CkksRuntime

open PlanVerifier

variable [DoubleArith]

/-- `validate_value` accepts the external input. -/
def EvalContext.accepts (plan : RuntimePlan) (env : EvalContext) (id : ValueId) : Bool :=
  match plan.desc? id with
  | none => true
  | some d => (validateValue env.polyDegree (.ready (env.inputs id)) d).toBool

/-- The external inputs match their descriptors. -/
def EvalContext.InputsDescribed (plan : RuntimePlan) (env : EvalContext) : Prop :=
  ∀ id ∈ plan.externalInputs, ∀ d, plan.desc? id = some d →
    d.Describes (env.inputs id).kind (env.inputs id).metadata ∧
      (env.inputs id).metadata.degree = env.polyDegree

section
variable (plan : RuntimePlan) (env : EvalContext)

def attemptInstruction (f : Payloads) (i : Instruction) : Payloads :=
  match env.step plan f i.body with
  | .ok p => f.put i.body.outputs p
  | .error _ => f

/-- The external inputs that match their descriptors. -/
def acceptedPayloads : Payloads := fun id =>
  if id ∈ plan.externalInputs ∧ env.accepts plan id = true then some (env.inputs id) else none

/-- The values that can be computed. -/
def RuntimePlan.attempt : Payloads :=
  plan.instructions.foldl (attemptInstruction plan env) (acceptedPayloads plan env)

/-- A map with what each instruction defines, if it can be computed. -/
structure Outcome (f : Payloads) : Prop where
  input : ∀ id ∈ plan.externalInputs,
    f id = if env.accepts plan id = true then some (env.inputs id) else none
  equation : ∀ i ∈ plan.instructions, ∀ out ∈ i.body.outputs,
    f out = (env.step plan f i.body).toOption

end

section
variable {plan : RuntimePlan} {spec : OperatorSpec} {env : EvalContext} {f : Payloads}

omit [DoubleArith] in
theorem EvalContext.accepts_eq_true {id : ValueId} : env.accepts plan id = true ↔
    ∀ d, plan.desc? id = some d → d.Describes (env.inputs id).kind (env.inputs id).metadata ∧
      (env.inputs id).metadata.degree = env.polyDegree := by
  unfold EvalContext.accepts
  cases hd : plan.desc? id with
  | none => simp
  | some d =>
    have hvalid : validateValue env.polyDegree (.ready (env.inputs id)) d = .ok () ↔
        d.Describes (env.inputs id).kind (env.inputs id).metadata ∧
          (env.inputs id).metadata.degree = env.polyDegree := validateValue_eq_ok
    simp only [Option.some.injEq, forall_eq']
    rw [← hvalid]
    cases validateValue env.polyDegree (.ready (env.inputs id)) d with
    | ok u => simp [Except.toBool]
    | error fault => simp [Except.toBool]

/-! ## Outcomes and solutions -/

omit [DoubleArith] in
/-- Every instruction of an accepted plan defines a value. -/
theorem PlanVerifier.Accepted.outputs_ne_nil (hacc : Accepted plan spec) {i : Instruction}
    (hi : i ∈ plan.instructions) : i.body.outputs ≠ [] := by
  obtain ⟨a, b, phase, hab, -, hok⟩ := hacc.split hi
  cases hb : i.body with
  | encode op => simp [InstructionBody.outputs]
  | compute op => simp [InstructionBody.outputs]
  | comm action =>
    rw [hb] at hok
    obtain ⟨id, d, hok⟩ := hok
    intro hnil
    have hlen : action.outputs.length = 0 := congrArg List.length hnil
    cases hkind : action.kind with
    | transfer =>
      have := hok.transfer hkind
      omega
    | replicate =>
      have := hok.replicate hkind
      omega

/-- A solution is an outcome, if the external inputs match their descriptors. -/
theorem Solution.outcome (hf : Solution plan env f) (hinputs : env.InputsDescribed plan) :
    Outcome plan env f where
  input id hid := by
    rw [if_pos (EvalContext.accepts_eq_true.2 (hinputs id hid))]
    exact hf.input id hid
  equation i hi out hout := by
    obtain ⟨p, hp, houtputs⟩ := hf.equation i hi
    rw [houtputs out hout, hp]
    rfl

/-- An outcome that has every value is a solution, and the external inputs match their
    descriptors. -/
theorem Outcome.solution (hacc : Accepted plan spec) (hf : Outcome plan env f)
    (htotal : ∀ id ∈ plan.definitions, (f id).isSome) :
    Solution plan env f ∧ env.InputsDescribed plan := by
  have hinput : ∀ id ∈ plan.externalInputs, env.accepts plan id = true := by
    intro id hid
    have hsome := htotal id (List.mem_append_left _ hid)
    rw [hf.input id hid] at hsome
    by_contra hne
    rw [if_neg hne] at hsome
    cases hsome
  refine ⟨⟨fun id hid => ?_, fun i hi => ?_⟩,
    fun id hid => EvalContext.accepts_eq_true.1 (hinput id hid)⟩
  · rw [hf.input id hid, if_pos (hinput id hid)]
  · obtain ⟨out, hout⟩ := List.exists_mem_of_ne_nil _ (hacc.outputs_ne_nil hi)
    have hsome := htotal out (List.mem_append_right _ (List.mem_flatMap.2 ⟨i, hi, hout⟩))
    rw [hf.equation i hi out hout] at hsome
    cases hstep : env.step plan f i.body with
    | error fault =>
      rw [hstep] at hsome
      cases hsome
    | ok p =>
      refine ⟨p, rfl, fun out hout => ?_⟩
      rw [hf.equation i hi out hout, hstep]
      rfl

/-! ## The attempt -/

/-- An outcome for the instructions `pre`, the first ones of the plan. -/
structure OutcomePrefix (plan : RuntimePlan) (env : EvalContext) (pre : List Instruction)
    (f : Payloads) : Prop where
  input : ∀ id ∈ plan.externalInputs,
    f id = if env.accepts plan id = true then some (env.inputs id) else none
  equation : ∀ i ∈ pre, ∀ out ∈ i.body.outputs, f out = (env.step plan f i.body).toOption
  undefined : ∀ id, id ∉ plan.externalInputs ++ definedBy pre → f id = none

/-- An instruction changes its outputs only. -/
theorem attemptInstruction_apply (i : Instruction) (id : ValueId) :
    attemptInstruction plan env f i id = if id ∈ i.body.outputs then
      (env.step plan f i.body).toOption.or (f id) else f id := by
  unfold attemptInstruction
  cases env.step plan f i.body with
  | ok p => rfl
  | error fault => simp [Except.toOption]

/-- The next instruction defines what it can. -/
theorem OutcomePrefix.step (hacc : Accepted plan spec) {pre b : List Instruction} {i : Instruction}
    (hab : plan.instructions = pre ++ i :: b) (hf : OutcomePrefix plan env pre f) :
    OutcomePrefix plan env (pre ++ [i]) (attemptInstruction plan env f i) := by
  have hfresh := (hacc.outputs_fresh hab).2
  have hkeep : ∀ id ∈ plan.externalInputs ++ definedBy pre,
      attemptInstruction plan env f i id = f id := by
    intro id hid
    rw [attemptInstruction_apply, if_neg fun hout => hfresh id hout hid]
  have hread : ∀ {a c : List Instruction} {j : Instruction}, plan.instructions = a ++ j :: c →
      (∀ id ∈ plan.externalInputs ++ definedBy a, attemptInstruction plan env f i id = f id) →
      env.step plan (attemptInstruction plan env f i) j.body = env.step plan f j.body :=
    fun haj hk => step_congr fun id hid => hk id (hacc.uses haj hid)
  refine ⟨fun id hid => ?_, fun j hj out hout => ?_, fun id hid => ?_⟩
  · rw [hkeep id (List.mem_append_left _ hid)]
    exact hf.input id hid
  · rcases List.mem_append.1 hj with hj | hj
    · obtain ⟨a, c, rfl⟩ := List.append_of_mem hj
      rw [hkeep out (List.mem_append_right _ (List.mem_flatMap.2 ⟨j, hj, hout⟩)),
        hread (by rw [hab, List.append_assoc, List.cons_append]) fun id hid => hkeep id ?_]
      · exact hf.equation j hj out hout
      · rcases List.mem_append.1 hid with hid | hid
        · exact List.mem_append_left _ hid
        · refine List.mem_append_right _ ?_
          rw [definedBy_append]
          exact List.mem_append_left _ hid
    · obtain rfl := List.mem_singleton.1 hj
      rw [hread hab hkeep]
      rw [attemptInstruction_apply, if_pos hout, hf.undefined out (hfresh out hout), Option.or_none]
  · rw [definedBy_append, definedBy_singleton, ← List.append_assoc, List.mem_append, not_or] at hid
    rw [attemptInstruction_apply, if_neg hid.2]
    exact hf.undefined id hid.1

theorem outcomePrefix_attempt (hacc : Accepted plan spec) (pre : List Instruction) :
    ∀ b, plan.instructions = pre ++ b → OutcomePrefix plan env pre
      (pre.foldl (attemptInstruction plan env) (acceptedPayloads plan env)) := by
  induction pre using List.reverseRecOn with
  | nil =>
    intro b _
    refine ⟨fun id hid => ?_, by simp, fun id hid => ?_⟩
    · simp only [List.foldl_nil, acceptedPayloads, hid, true_and]
    · have hid' : id ∉ plan.externalInputs := by simpa using hid
      exact if_neg fun h => hid' h.1
  | append_singleton pre i ih =>
    intro b hab
    rw [List.append_assoc, List.singleton_append] at hab
    rw [List.foldl_append, List.foldl_cons, List.foldl_nil]
    exact (ih _ hab).step hacc hab

/-- **The attempt is an outcome.** -/
theorem outcome_attempt (hacc : Accepted plan spec) : Outcome plan env (plan.attempt env) := by
  have h : OutcomePrefix plan env plan.instructions (plan.attempt env) :=
    outcomePrefix_attempt hacc plan.instructions [] (List.append_nil _).symm
  exact ⟨h.input, h.equation⟩

end

end CkksRuntime
