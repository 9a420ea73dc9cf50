/-
  ckks-runtime formalization — the alignment check of the plan diff tool
  (`PlanAlignment` in `experiments/dacapo_plan_vec_diff.cpp`), as a translation
  validator:

  * `PlanAlignment` is the object with its three tables, `verify` fills and
    checks them in the order of the source;
  * `resolve` follows transfers back to a value of the reference plan;
    `resolve_terminates` bounds the calls it makes, on any table;
  * `verify_sound`: an aligned distributed plan evaluates to the payloads of the
    reference plan.

  The `std::set`s and `std::map`s are ascending lists.
-/
import CkksRuntime.Evaluation

namespace CkksRuntime

/-- `std::isnan(x)`. -/
def Double.isNaN (x : Double) : Bool :=
  x &&& 0x7ff0000000000000#64 == 0x7ff0000000000000#64 && x &&& 0x000fffffffffffff#64 != 0#64

/-- `x == y`. -/
def Double.eq (x y : Double) : Bool :=
  !x.isNaN && !y.isNaN && (x == y || (x.isZero && y.isZero))

/-- `==` of vectors of `double`. -/
def doublesEq (xs ys : List Double) : Bool :=
  xs.length == ys.length && (List.zip xs ys).all fun p => p.1.eq p.2

structure PlanAlignment where
  referenceValues : List ValueId := []
  referenceProducers : List (ValueId × Instruction) := []
  transferSources : List (ValueId × ValueId) := []
  deriving DecidableEq

namespace PlanAlignment

def error {α : Type} (what : String) : Except Fault α := .error (.runtimeError what)

/-! ## Comparisons -/

def valueDesc (plan : RuntimePlan) (id : ValueId) : Except Fault ValueDesc :=
  match plan.desc? id with
  | some value => .ok value
  | none => error ("missing ValueDesc " ++ toString id)

def sameValueMetadata (lhs rhs : ValueDesc) : Bool :=
  lhs.kind = rhs.kind && lhs.context = rhs.context && lhs.level = rhs.level &&
    lhs.scaleLog2 = rhs.scaleLog2 && lhs.ntt = rhs.ntt && lhs.components = rhs.components

def sameComputeAttrs : ComputeAttrs → ComputeAttrs → Bool
  | .monostate, .monostate => true
  | .rotate value, .rotate other => value.steps = other.steps
  | .rescale value, .rescale other =>
    value.targetLevel = other.targetLevel && value.targetScaleLog2 = other.targetScaleLog2
  | .modSwitch value, .modSwitch other => value.targetLevel = other.targetLevel
  | .boot value, .boot other =>
    value.targetLevel = other.targetLevel && value.targetScaleLog2 = other.targetScaleLog2 &&
      value.targetComponents = other.targetComponents &&
      value.operatorProfile = other.operatorProfile && value.implementation = other.implementation
  | _, _ => false

def sameEncodePayload : EncodePayload → EncodePayload → Bool
  | .inline values, .inline other => doublesEq values other
  | .bundle content, .bundle other => content = other
  | _, _ => false

def instructionOutput (instruction : Instruction) : Except Fault ValueId :=
  match instruction.body with
  | .encode encode => .ok encode.output
  | .compute op => .ok op.output
  | .comm action =>
    match action.outputs with
    | [output] => .ok output
    | _ => error "Dacapo point-to-point diff requires one communication output"

/-! ## Lineages -/

/-- `resolve`, with `fuel` calls at most: `none` when they do not suffice. -/
def resolve (referenceValues : List ValueId) (transferSources : List (ValueId × ValueId)) :
    ℕ → ValueId → List ValueId → Option (Except Fault ValueId)
  | 0, _, _ => none
  | fuel + 1, id, active =>
    if id ∈ referenceValues then some (.ok id)
    else match transferSources.lookup id with
      | none => some (error ("ValueId has no reference or transfer lineage: " ++ toString id))
      | some source =>
        if id ∈ active then some (error "cycle in transfer lineage")
        else resolve referenceValues transferSources fuel source (id :: active)

/-- `reference_value`. -/
def referenceValue (a : PlanAlignment) (distributedValue : ValueId) : Except Fault ValueId :=
  (resolve a.referenceValues a.transferSources (a.transferSources.length + 1) distributedValue
    []).getD (error "out of calls")

/-! ## The checks -/

def verifyTargets (reference distributed : RuntimePlan) : Except Fault Unit := do
  throwIf (reference.target.worldSize ≠ 1 ∨ reference.target.deviceCounts ≠ [0])
    (.runtimeError "reference RuntimePlan must be single-rank Host-only")
  throwIf (reference.target.targetId ≠ distributed.target.targetId ∨
      reference.target.capabilityVersion ≠ distributed.target.capabilityVersion ∨
      reference.target.operatorSpec.id ≠ distributed.target.operatorSpec.id ∨
      reference.target.operatorSpec.version ≠ distributed.target.operatorSpec.version ∨
      reference.target.operatorSpec.sourceSha256 ≠ distributed.target.operatorSpec.sourceSha256)
    (.runtimeError "reference and distributed targets use different OperatorSpecs")
  throwIf (reference.externalInputs ≠ distributed.externalInputs)
    (.runtimeError "reference and distributed external inputs differ")
  distributed.externalInputs.forM fun id => do
    let d ← valueDesc distributed id
    throwIf (d.place ≠ ⟨.host, 0, 0⟩)
      (.runtimeError "distributed external inputs must originate on Host rank 0")

/-- `emplace`, refused when the key is there. -/
def emplace {α : Type} (m : List (ValueId × α)) (key : ValueId) (value : α) (message : String) :
    Except Fault (List (ValueId × α)) :=
  if (m.lookup key).isSome then error message
  else .ok (setInsert (fun a b => a.1 < b.1) (key, value) m)

def indexProducer (producers : List (ValueId × Instruction)) (instruction : Instruction) :
    Except Fault (List (ValueId × Instruction)) :=
  match instruction.body with
  | .comm _ => error "reference RuntimePlan must not contain communication"
  | _ => do
    let output ← instructionOutput instruction
    emplace producers output instruction "reference instruction output is defined twice"

def indexReference (reference : RuntimePlan) (a : PlanAlignment) : Except Fault PlanAlignment := do
  let values := (reference.values.map (·.id)).foldl (fun s id => setInsert (fun a b => a < b) id s)
    a.referenceValues
  let producers ← reference.instructions.foldlM indexProducer a.referenceProducers
  return { a with referenceValues := values, referenceProducers := producers }

def indexTransfer (referenceValues : List ValueId) (sources : List (ValueId × ValueId))
    (instruction : Instruction) : Except Fault (List (ValueId × ValueId)) :=
  match instruction.body with
  | .comm action =>
    match action.inputs, action.outputs with
    | [input], [output] => do
      throwIf (action.kind ≠ .transfer ∨ action.hint ≠ .pointToPoint ∨ action.sources.length ≠ 1 ∨
          action.destinations.length ≠ 1 ∨ action.outputTypes.length ≠ 1)
        (.runtimeError "distributed plan contains a non-point-to-point transfer")
      throwIf (output ∈ referenceValues)
        (.runtimeError "transfer output reuses a reference logical ValueId")
      emplace sources output input "transfer output is defined twice"
    | _, _ => error "distributed plan contains a non-point-to-point transfer"
  | _ => .ok sources

def indexTransfers (distributed : RuntimePlan) (a : PlanAlignment) :
    Except Fault PlanAlignment := do
  let sources ← distributed.instructions.foldlM (indexTransfer a.referenceValues) a.transferSources
  let a := { a with transferSources := sources }
  a.transferSources.forM fun entry => do
    let _ ← a.referenceValue entry.1
  return a

def verifyValues (reference distributed : RuntimePlan) (a : PlanAlignment) : Except Fault Unit := do
  a.referenceValues.forM fun id => do
    throwIf (id ∉ distributed.values.map (·.id))
      (.runtimeError ("distributed plan is missing reference ValueId " ++ toString id))
    let lhs ← valueDesc reference id
    let rhs ← valueDesc distributed id
    throwIf (¬ sameValueMetadata lhs rhs)
      (.runtimeError ("logical ValueDesc metadata differs for ValueId " ++ toString id))
  a.transferSources.forM fun entry => do
    let logical ← a.referenceValue entry.2
    let lhs ← valueDesc reference logical
    let rhs ← valueDesc distributed entry.1
    throwIf (¬ sameValueMetadata lhs rhs)
      (.runtimeError "transfer output metadata differs from its logical source")

/-- The operands of a compute instruction have the lineage of the reference. -/
def verifyOperands (a : PlanAlignment) : List ValueId → List ValueId → Except Fault Unit
  | input :: inputs, expected :: rest => do
    let logical ← a.referenceValue input
    throwIf (logical ≠ expected)
      (.runtimeError "distributed compute operand lineage differs from reference")
    verifyOperands a inputs rest
  | _, _ => .ok ()

/-- An Encode or a compute instruction against the one of the reference. -/
def verifyBody (a : PlanAlignment) (expected : Instruction) :
    InstructionBody → Except Fault Unit
  | .encode encode =>
    match expected.body with
    | .encode referenceEncode =>
      throwIf (¬ sameEncodePayload encode.payload referenceEncode.payload)
        (.runtimeError "distributed Encode differs from reference")
    | _ => error "distributed Encode differs from reference"
  | .compute op =>
    match expected.body with
    | .compute referenceOp => do
      throwIf (op.kind ≠ referenceOp.kind ∨ ¬ sameComputeAttrs op.attrs referenceOp.attrs ∨
          op.inputs.length ≠ referenceOp.inputs.length)
        (.runtimeError "distributed compute differs from reference")
      verifyOperands a op.inputs referenceOp.inputs
    | _ => error "distributed compute differs from reference"
  | .comm _ => .ok ()

/-- One instruction; `seen` are the logical outputs before it. -/
def verifyInstruction (a : PlanAlignment) (seen : List ValueId) (instruction : Instruction) :
    Except Fault (List ValueId) :=
  match instruction.body with
  | .comm _ => .ok seen
  | body => do
    let output ← instructionOutput instruction
    match a.referenceProducers.lookup output with
    | none => error "distributed compute/Encode has no reference instruction"
    | some expected => do
      throwIf (output ∈ seen) (.runtimeError "distributed logical output is defined twice")
      verifyBody a expected body
      return setInsert (fun a b => a < b) output seen

def verifyInstructions (distributed : RuntimePlan) (a : PlanAlignment) : Except Fault Unit := do
  let seen ← distributed.instructions.foldlM (verifyInstruction a) []
  throwIf (seen.length ≠ a.referenceProducers.length)
    (.runtimeError "distributed plan does not contain every reference instruction")

/-- The final outputs have the lineage of the reference. -/
def verifyFinals (a : PlanAlignment) : List ValueId → List ValueId → Except Fault Unit
  | expected :: rest, output :: outputs => do
    let logical ← a.referenceValue output
    throwIf (logical ≠ expected)
      (.runtimeError "distributed final output lineage differs from reference")
    verifyFinals a rest outputs
  | _, _ => .ok ()

def verifyOutputs (reference distributed : RuntimePlan) (a : PlanAlignment) :
    Except Fault Unit := do
  throwIf (reference.finalOutputs.length ≠ distributed.finalOutputs.length)
    (.runtimeError "reference and distributed final output counts differ")
  verifyFinals a reference.finalOutputs distributed.finalOutputs

/-- `verify`, on a new object. -/
def verify (reference distributed : RuntimePlan) : Except Fault PlanAlignment := do
  verifyTargets reference distributed
  let a ← indexReference reference {}
  let a ← indexTransfers distributed a
  verifyValues reference distributed a
  verifyInstructions distributed a
  verifyOutputs reference distributed a
  return a

/-! ## Termination of the lineage recursion -/

section Resolve
variable {referenceValues : List ValueId} {transferSources : List (ValueId × ValueId)}

theorem mem_keys_of_lookup {α : Type} {m : List (ValueId × α)} {key : ValueId} {value : α}
    (h : m.lookup key = some value) : (key, value) ∈ m := by
  obtain ⟨front, back, rfl, -⟩ := List.lookup_eq_some_iff.1 h
  simp

/-- The recursion stops: every call but the last one marks a new transfer output. -/
theorem resolve_isSome : ∀ {fuel : ℕ} {id : ValueId} {active : List ValueId}, active.Nodup →
    active ⊆ transferSources.map (·.1) → transferSources.length < fuel + active.length →
      ∃ r, resolve referenceValues transferSources fuel id active = some r
  | 0, id, active, hnodup, hsub, hfuel => by
    have hle := (List.subperm_of_subset hnodup hsub).length_le
    rw [List.length_map] at hle
    omega
  | fuel + 1, id, active, hnodup, hsub, hfuel => by
    rw [resolve]
    by_cases hid : id ∈ referenceValues
    · exact ⟨_, if_pos hid⟩
    · rw [if_neg hid]
      cases hs : transferSources.lookup id with
      | none => exact ⟨_, rfl⟩
      | some source =>
        by_cases ha : id ∈ active
        · exact ⟨_, if_pos ha⟩
        · simp only [ha, if_false]
          refine resolve_isSome (List.nodup_cons.2 ⟨ha, hnodup⟩) ?_ ?_
          · exact List.cons_subset.2 ⟨List.mem_map.2 ⟨_, mem_keys_of_lookup hs, rfl⟩, hsub⟩
          · rw [List.length_cons]
            omega

/-- More calls than needed change nothing. -/
theorem resolve_mono {r : Except Fault ValueId} : ∀ {fuel : ℕ} {id : ValueId} {active : List ValueId},
    resolve referenceValues transferSources fuel id active = some r →
      ∀ more, resolve referenceValues transferSources (fuel + more) id active = some r
  | 0, _, _, h, _ => by cases h
  | fuel + 1, id, active, h, more => by
    rw [Nat.add_right_comm, resolve]
    rw [resolve] at h
    by_cases hid : id ∈ referenceValues
    · rw [if_pos hid] at h ⊢
      exact h
    · rw [if_neg hid] at h ⊢
      cases hs : transferSources.lookup id with
      | none =>
        rw [hs] at h
        exact h
      | some source =>
        rw [hs] at h
        by_cases ha : id ∈ active
        · simpa only [ha, if_true] using h
        · simp only [ha, if_false] at h ⊢
          exact resolve_mono h more

/-- **`resolve` terminates on every transfer table, cyclic ones included**: it makes
    at most one call more than there are transfers. -/
theorem resolve_terminates (referenceValues : List ValueId)
    (transferSources : List (ValueId × ValueId)) (id : ValueId) :
    ∃ r, ∀ fuel, transferSources.length < fuel →
      resolve referenceValues transferSources fuel id [] = some r := by
  obtain ⟨r, hr⟩ := @resolve_isSome referenceValues transferSources (transferSources.length + 1) id []
    .nil (by simp) (by simp)
  refine ⟨r, fun fuel hfuel => ?_⟩
  obtain ⟨more, rfl⟩ := Nat.exists_eq_add_of_lt hfuel
  rw [Nat.add_right_comm]
  exact resolve_mono hr more

/-- `w` is reached from `id` through the transfers. -/
inductive Lineage (referenceValues : List ValueId) (transferSources : List (ValueId × ValueId)) :
    ValueId → ValueId → Prop
  | value {id : ValueId} : id ∈ referenceValues → Lineage referenceValues transferSources id id
  | transfer {id source w : ValueId} : id ∉ referenceValues →
      transferSources.lookup id = some source → Lineage referenceValues transferSources source w →
        Lineage referenceValues transferSources id w

theorem Lineage.unique {id w w' : ValueId} (h : Lineage referenceValues transferSources id w)
    (h' : Lineage referenceValues transferSources id w') : w = w' := by
  induction h with
  | value hid =>
    cases h' with
    | value _ => rfl
    | transfer hn _ _ => exact absurd hid hn
  | transfer hn hs _ ih =>
    cases h' with
    | value hid => exact absurd hid hn
    | transfer _ hs' h' =>
      obtain rfl := Option.some.inj (hs.symm.trans hs')
      exact ih h'

theorem lineage_of_resolve {w : ValueId} : ∀ {fuel : ℕ} {id : ValueId} {active : List ValueId},
    resolve referenceValues transferSources fuel id active = some (.ok w) →
      Lineage referenceValues transferSources id w
  | 0, _, _, h => by cases h
  | fuel + 1, id, active, h => by
    rw [resolve] at h
    by_cases hid : id ∈ referenceValues
    · rw [if_pos hid] at h
      cases h
      exact .value hid
    · rw [if_neg hid] at h
      cases hs : transferSources.lookup id with
      | none =>
        rw [hs] at h
        cases h
      | some source =>
        rw [hs] at h
        by_cases ha : id ∈ active
        · simp only [ha, if_true] at h
          cases h
        · simp only [ha, if_false] at h
          exact .transfer hid hs (lineage_of_resolve h)

end Resolve

variable {a : PlanAlignment}

theorem lineage_of_referenceValue {id w : ValueId} (h : a.referenceValue id = .ok w) :
    Lineage a.referenceValues a.transferSources id w := by
  obtain ⟨r, hr⟩ := resolve_terminates a.referenceValues a.transferSources id
  rw [referenceValue, hr _ (Nat.lt_succ_self _), Option.getD_some] at h
  exact lineage_of_resolve ((hr _ (Nat.lt_succ_self _)).trans (congrArg some h))

theorem referenceValue_of_mem {id : ValueId} (h : id ∈ a.referenceValues) :
    a.referenceValue id = .ok id := by
  rw [referenceValue, resolve, if_pos h]
  rfl

/-- A transfer output has the lineage of its source. -/
theorem referenceValue_transfer {id source w w' : ValueId} (hid : id ∉ a.referenceValues)
    (hs : a.transferSources.lookup id = some source) (h : a.referenceValue id = .ok w)
    (h' : a.referenceValue source = .ok w') : w = w' := by
  cases lineage_of_referenceValue h with
  | value hid' => exact absurd hid' hid
  | transfer _ hs' hl =>
    obtain rfl := Option.some.inj (hs.symm.trans hs')
    exact hl.unique (lineage_of_referenceValue h')

/-! ## The tables -/

theorem lookup_cons_ite {α : Type} {k x : ValueId} {v : α} {m : List (ValueId × α)} :
    List.lookup x ((k, v) :: m) = if x = k then some v else m.lookup x := by
  rw [List.lookup_cons]
  by_cases hx : x = k
  · subst hx
    simp
  · rw [if_neg hx, beq_eq_false_iff_ne.2 hx]

theorem lookup_setInsert {α : Type} {key : ValueId} {value : α} : ∀ {m : List (ValueId × α)},
    m.lookup key = none → ∀ x,
      (setInsert (fun a b => a.1 < b.1) (key, value) m).lookup x =
        if x = key then some value else m.lookup x
  | [], _, x => lookup_cons_ite
  | (k, v) :: m, h, x => by
    rw [lookup_cons_ite] at h
    split_ifs at h with hne
    rw [setInsert]
    by_cases h1 : key < k
    · rw [if_pos (decide_eq_true h1), lookup_cons_ite]
    · have h2 : k < key := Nat.lt_of_le_of_ne (Nat.not_lt.1 h1) (Ne.symm hne)
      rw [if_neg (by simpa using h1), if_pos (decide_eq_true h2), lookup_cons_ite,
        lookup_setInsert h, lookup_cons_ite]
      by_cases hx : x = key
      · rw [if_pos hx, if_pos hx, if_neg fun hk => hne (hx.symm.trans hk)]
      · rw [if_neg hx, if_neg hx]

theorem emplace_eq_ok {α : Type} {m m' : List (ValueId × α)} {key : ValueId} {value : α}
    {message : String} (h : emplace m key value message = .ok m') :
    m.lookup key = none ∧ ∀ x, m'.lookup x = if x = key then some value else m.lookup x := by
  unfold emplace at h
  split_ifs at h with hk
  · cases h
  · cases h
    have hnone : m.lookup key = none := Option.not_isSome_iff_eq_none.1 hk
    exact ⟨hnone, lookup_setInsert hnone⟩

/-- The values of the reference plan, as a set. -/
theorem mem_values {ids : List ValueId} {id : ValueId} : ∀ {s : List ValueId},
    id ∈ ids.foldl (fun s id => setInsert (fun a b => a < b) id s) s ↔ id ∈ ids ∨ id ∈ s := by
  have hlt : ∀ a b : ValueId, decide (a < b) = true ↔ a < b := fun a b => decide_eq_true_iff
  induction ids with
  | nil => simp
  | cons x ids ih =>
    intro s
    rw [List.foldl_cons, ih, mem_setInsert hlt Function.injective_id, List.mem_cons]
    tauto

theorem indexProducers_eq_ok : ∀ {list : List Instruction} {m m' : List (ValueId × Instruction)},
    list.foldlM indexProducer m = .ok m' →
      (∀ i ∈ list, ∀ action, i.body ≠ .comm action) ∧
      ∀ id i, m'.lookup id = some i → m.lookup id = some i ∨ i ∈ list ∧ i.body.outputs = [id]
  | [], _, _, h => by
    cases h
    exact ⟨by simp, fun id i hi => Or.inl hi⟩
  | j :: list, m, m', h => by
    obtain ⟨m₁, hj, h⟩ := foldlM_cons_eq_ok.1 h
    obtain ⟨hcomm, hlook⟩ := indexProducers_eq_ok h
    obtain ⟨out, hout, hno, hm₁⟩ : ∃ out, j.body.outputs = [out] ∧
        (∀ action, j.body ≠ .comm action) ∧
        ∀ x, m₁.lookup x = if x = out then some j else m.lookup x := by
      unfold indexProducer at hj
      cases hb : j.body with
      | comm action => simp [hb, error] at hj
      | encode op =>
        simp only [hb, instructionOutput, bind_eq_ok, Except.ok.injEq, exists_eq_left'] at hj
        exact ⟨_, rfl, by simp, (emplace_eq_ok hj).2⟩
      | compute op =>
        simp only [hb, instructionOutput, bind_eq_ok, Except.ok.injEq, exists_eq_left'] at hj
        exact ⟨_, rfl, by simp, (emplace_eq_ok hj).2⟩
    refine ⟨List.forall_mem_cons.2 ⟨hno, hcomm⟩, fun id i hi => ?_⟩
    rcases hlook id i hi with hi | ⟨hi, ho⟩
    · rw [hm₁] at hi
      split_ifs at hi with hid
      · cases hi
        exact Or.inr ⟨by simp, hid ▸ hout⟩
      · exact Or.inl hi
    · exact Or.inr ⟨by simp [hi], ho⟩

/-- What a transfer of the distributed plan leaves in the table. -/
theorem indexTransfers_eq_ok {values : List ValueId} : ∀ {list : List Instruction}
    {m m' : List (ValueId × ValueId)}, list.foldlM (indexTransfer values) m = .ok m' →
      (∀ id source, m.lookup id = some source → m'.lookup id = some source) ∧
      ∀ i ∈ list, ∀ action, i.body = .comm action → ∃ source output, action.inputs = [source] ∧
        action.outputs = [output] ∧ output ∉ values ∧ m'.lookup output = some source
  | [], _, _, h => by
    cases h
    exact ⟨fun _ _ h => h, by simp⟩
  | j :: list, m, m', h => by
    obtain ⟨m₁, hj, h⟩ := foldlM_cons_eq_ok.1 h
    obtain ⟨hkeep, hall⟩ := indexTransfers_eq_ok h
    cases hb : j.body with
    | comm action =>
      simp only [indexTransfer, hb] at hj
      split at hj
      · rename_i source output hin hout
        simp only [bind_eq_ok, throwIf_eq_ok] at hj
        obtain ⟨_, -, _, hnew, hj⟩ := hj
        obtain ⟨hnone, hm₁⟩ := emplace_eq_ok hj
        refine ⟨fun id s hs => hkeep id s ?_, List.forall_mem_cons.2 ⟨?_, hall⟩⟩
        · rw [hm₁, if_neg]
          · exact hs
          · rintro rfl
            simp [hnone] at hs
        · intro action' hb'
          cases hb.symm.trans hb'
          exact ⟨source, output, hin, hout, hnew, hkeep _ _ (by rw [hm₁, if_pos rfl])⟩
      · cases hj
    | _ =>
      simp only [indexTransfer, hb, Except.ok.injEq] at hj
      subst hj
      refine ⟨hkeep, List.forall_mem_cons.2 ⟨fun action hb' => ?_, hall⟩⟩
      cases hb.symm.trans hb'

/-! ## What an aligned pair satisfies -/

theorem verifyOperands_eq_ok : ∀ {inputs expected : List ValueId},
    verifyOperands a inputs expected = .ok () → inputs.length = expected.length →
      List.Forall₂ (fun input w => a.referenceValue input = .ok w) inputs expected
  | [], [], _, _ => .nil
  | input :: inputs, w :: expected, h, hlen => by
    simp only [verifyOperands, bind_eq_ok, throwIf_eq_ok, not_not] at h
    obtain ⟨w', hw, _, rfl, h⟩ := h
    exact .cons hw (verifyOperands_eq_ok h (Nat.succ.inj hlen))
  | [], _ :: _, _, hlen => by cases hlen
  | _ :: _, [], _, hlen => by cases hlen

theorem verifyFinals_eq_ok : ∀ {expected outputs : List ValueId},
    verifyFinals a expected outputs = .ok () → expected.length = outputs.length →
      List.Forall₂ (fun w output => a.referenceValue output = .ok w) expected outputs
  | [], [], _, _ => .nil
  | w :: expected, output :: outputs, h, hlen => by
    simp only [verifyFinals, bind_eq_ok, throwIf_eq_ok, not_not] at h
    obtain ⟨w', hw, _, rfl, h⟩ := h
    exact .cons hw (verifyFinals_eq_ok h (Nat.succ.inj hlen))
  | [], _ :: _, _, hlen => by cases hlen
  | _ :: _, [], _, hlen => by cases hlen

/-- An Encode or compute instruction passed against its counterpart. -/
theorem verifyInstructions_eq_ok : ∀ {list : List Instruction} {seen seen' : List ValueId},
    list.foldlM (verifyInstruction a) seen = .ok seen' →
      ∀ i ∈ list, (∀ action, i.body ≠ .comm action) → ∃ out expected, i.body.outputs = [out] ∧
        a.referenceProducers.lookup out = some expected ∧ verifyBody a expected i.body = .ok ()
  | [], _, _, _ => by simp
  | j :: list, _, _, h => by
    obtain ⟨seen₁, hj, h⟩ := foldlM_cons_eq_ok.1 h
    refine List.forall_mem_cons.2 ⟨fun hno => ?_, verifyInstructions_eq_ok h⟩
    obtain ⟨out, hout, hj⟩ : ∃ out, j.body.outputs = [out] ∧ ∃ expected,
        a.referenceProducers.lookup out = some expected ∧
          verifyBody a expected j.body = .ok () := by
      unfold verifyInstruction at hj
      cases hb : j.body with
      | comm action => exact absurd hb (hno action)
      | encode op =>
        simp only [hb, instructionOutput, bind_eq_ok, Except.ok.injEq, exists_eq_left'] at hj
        refine ⟨op.output, rfl, ?_⟩
        cases hl : a.referenceProducers.lookup op.output with
        | none => simp [hl, error] at hj
        | some expected =>
          simp only [hl, bind_eq_ok] at hj
          obtain ⟨_, -, _, hbody, -⟩ := hj
          exact ⟨expected, rfl, hbody⟩
      | compute op =>
        simp only [hb, instructionOutput, bind_eq_ok, Except.ok.injEq, exists_eq_left'] at hj
        refine ⟨op.output, rfl, ?_⟩
        cases hl : a.referenceProducers.lookup op.output with
        | none => simp [hl, error] at hj
        | some expected =>
          simp only [hl, bind_eq_ok] at hj
          obtain ⟨_, -, _, hbody, -⟩ := hj
          exact ⟨expected, rfl, hbody⟩
    obtain ⟨expected, hl, hbody⟩ := hj
    exact ⟨out, expected, hout, hl, hbody⟩

/-- **What `verify` establishes.** -/
structure Aligned (reference distributed : RuntimePlan) (a : PlanAlignment) : Prop where
  inputs : reference.externalInputs = distributed.externalInputs
  values : ∀ v ∈ reference.values, v.id ∈ a.referenceValues
  producer : ∀ id i, a.referenceProducers.lookup id = some i →
    i ∈ reference.instructions ∧ i.body.outputs = [id]
  /-- every communication moves one value, whose lineage it passes on -/
  transfer : ∀ i ∈ distributed.instructions, ∀ action, i.body = .comm action →
    ∃ source output w, action.inputs = [source] ∧ action.outputs = [output] ∧
      a.referenceValue output = .ok w ∧ a.referenceValue source = .ok w
  metadata : ∀ id ∈ a.referenceValues, ∃ d d', reference.desc? id = some d ∧
    distributed.desc? id = some d' ∧ sameValueMetadata d d' = true
  body : ∀ i ∈ distributed.instructions, (∀ action, i.body ≠ .comm action) →
    ∃ out expected, i.body.outputs = [out] ∧ a.referenceProducers.lookup out = some expected ∧
      verifyBody a expected i.body = .ok ()
  finals : List.Forall₂ (fun w output => a.referenceValue output = .ok w)
    reference.finalOutputs distributed.finalOutputs

theorem valueDesc_eq_ok {plan : RuntimePlan} {id : ValueId} {d : ValueDesc} :
    valueDesc plan id = .ok d ↔ plan.desc? id = some d := by
  unfold valueDesc
  cases plan.desc? id <;> simp [error]

theorem aligned_of_verify {reference distributed : RuntimePlan}
    (h : verify reference distributed = .ok a) : Aligned reference distributed a := by
  simp only [verify, bind_eq_ok, pure_eq_ok] at h
  obtain ⟨_, htargets, a₁, hreference, a₂, htransfers, _, hvalues, _, hinstr, _, houtputs, rfl⟩ := h
  simp only [verifyTargets, bind_eq_ok, throwIf_eq_ok, not_not] at htargets
  obtain ⟨_, -, _, -, _, hinputs, -⟩ := htargets
  simp only [indexReference, bind_eq_ok, pure_eq_ok] at hreference
  obtain ⟨producers, hproducers, rfl⟩ := hreference
  simp only [indexTransfers, bind_eq_ok, pure_eq_ok, forM_eq_ok] at htransfers
  obtain ⟨sources, hsources, _, hlineage, rfl⟩ := htransfers
  simp only [verifyValues, bind_eq_ok, throwIf_eq_ok, forM_eq_ok, valueDesc_eq_ok] at hvalues
  obtain ⟨_, hmeta, htmeta⟩ := hvalues
  simp only [verifyInstructions, bind_eq_ok] at hinstr
  obtain ⟨seen, hseen, -⟩ := hinstr
  simp only [verifyOutputs, bind_eq_ok, throwIf_eq_ok, not_not] at houtputs
  obtain ⟨_, hlen, hfinals⟩ := houtputs
  refine ⟨hinputs, ?_, ?_, ?_, ?_, verifyInstructions_eq_ok hseen, verifyFinals_eq_ok hfinals hlen⟩
  · intro v hv
    exact mem_values.2 (Or.inl (List.mem_map_of_mem hv))
  · intro id i hi
    exact ((indexProducers_eq_ok hproducers).2 id i hi).resolve_left (by simp)
  · intro i hi action hb
    obtain ⟨source, output, hin, hout, hnew, hs⟩ := (indexTransfers_eq_ok hsources).2 i hi action hb
    obtain ⟨w, hw, -⟩ := hlineage _ (mem_keys_of_lookup hs)
    obtain ⟨w', hw', -⟩ := htmeta _ (mem_keys_of_lookup hs)
    obtain rfl := referenceValue_transfer hnew hs hw hw'
    exact ⟨source, output, w, hin, hout, hw, hw'⟩
  · intro id hid
    obtain ⟨_, -, d, hd, d', hd', hsame⟩ := hmeta id hid
    exact ⟨d, d', hd, hd', not_not.1 hsame⟩

/-! ## Soundness -/

theorem sameComputeAttrs_eq {x y : ComputeAttrs} (h : sameComputeAttrs x y = true) : x = y := by
  cases x <;> cases y <;> simp [sameComputeAttrs] at h
  · rfl
  · rename_i x y
    cases x
    cases y
    simp_all
  · rename_i x y
    cases x
    cases y
    simp_all
  · rename_i x y
    cases x
    cases y
    simp_all
  · rename_i x y
    cases x
    cases y
    simp_all

theorem normalizeZero_eq {x y : Double} (h : x.eq y = true) : x.normalizeZero = y.normalizeZero := by
  simp only [Double.eq, Bool.and_eq_true, Bool.or_eq_true, beq_iff_eq] at h
  rcases h.2 with rfl | ⟨hx, hy⟩
  · rfl
  · rw [Double.normalizeZero, Double.normalizeZero, if_pos hx, if_pos hy]

/-- Equal vectors are the same slots, once zeros have lost their sign. -/
theorem map_normalizeZero_eq : ∀ {xs ys : List Double}, doublesEq xs ys = true →
    xs.map Double.normalizeZero = ys.map Double.normalizeZero
  | [], [], _ => rfl
  | x :: xs, y :: ys, h => by
    simp only [doublesEq, List.length_cons, List.zip_cons_cons, List.all_cons, Bool.and_eq_true,
      beq_iff_eq] at h
    have htail : doublesEq xs ys = true := by
      simp only [doublesEq, Bool.and_eq_true, beq_iff_eq]
      exact ⟨Nat.succ.inj h.1, h.2.2⟩
    rw [List.map_cons, List.map_cons, normalizeZero_eq h.2.1, map_normalizeZero_eq htail]
  | [], _ :: _, h => by simp [doublesEq] at h
  | _ :: _, [], h => by simp [doublesEq] at h

theorem Lineage.mem {rv : List ValueId} {ts : List (ValueId × ValueId)} {id w : ValueId}
    (h : Lineage rv ts id w) : w ∈ rv := by
  induction h with
  | value hid => exact hid
  | transfer _ _ _ ih => exact ih

theorem encodeReady_congr {polyDegree : ℕ} {d d' : ValueDesc} {slots slots' : List Double}
    (hd : sameValueMetadata d d' = true)
    (hs : slots.map Double.normalizeZero = slots'.map Double.normalizeZero) :
    encodeReady polyDegree d slots = encodeReady polyDegree d' slots' := by
  simp only [sameValueMetadata, Bool.and_eq_true, decide_eq_true_eq] at hd
  obtain ⟨⟨⟨⟨⟨-, hc⟩, hl⟩, hsc⟩, hn⟩, -⟩ := hd
  simp only [encodeReady, encodePlaintext, hs, hc, hl, hsc, hn]

/-- The Encodes of two plans define the same payload. -/
theorem encode_congr {plan plan' : RuntimePlan} {env : EvalContext} {op op' : EncodeOp}
    {d d' : ValueDesc} (hd : plan.desc? op.output = some d)
    (hd' : plan'.desc? op'.output = some d') (hsame : sameValueMetadata d d' = true)
    (hpayload : sameEncodePayload op'.payload op.payload = true) :
    env.encode plan op = env.encode plan' op' := by
  unfold EvalContext.encode
  rw [hd, hd']
  cases hp : op.payload with
  | inline values =>
    cases hp' : op'.payload with
    | inline values' =>
      rw [hp, hp'] at hpayload
      exact encodeReady_congr hsame (map_normalizeZero_eq hpayload).symm
    | bundle content => simp [hp, hp', sameEncodePayload] at hpayload
  | bundle content =>
    cases hp' : op'.payload with
    | inline values' => simp [hp, hp', sameEncodePayload] at hpayload
    | bundle content' =>
      rw [hp, hp', sameEncodePayload, decide_eq_true_eq] at hpayload
      dsimp only
      rw [hpayload]
      cases env.contents content with
      | none => rfl
      | some slots => exact encodeReady_congr hsame rfl

/-- The payloads of the reference values, at the values of the distributed plan. -/
def pull (a : PlanAlignment) (f : Payloads) : Payloads := fun id =>
  match a.referenceValue id with
  | .ok w => f w
  | .error _ => none

theorem pull_eq {f : Payloads} {id w : ValueId} (h : a.referenceValue id = .ok w) :
    pull a f id = f w := by
  rw [pull, h]

theorem mapM_pull {f : Payloads} {ids ws : List ValueId}
    (h : List.Forall₂ (fun id w => a.referenceValue id = .ok w) ids ws) :
    ∀ {ps : List VecPayload}, ws.mapM f.get = .ok ps → ids.mapM (pull a f).get = .ok ps := by
  induction h with
  | nil => exact fun hps => hps
  | cons hw _ ih =>
    intro ps hps
    simp only [List.mapM_cons, bind_eq_ok, Payloads.get_eq_ok, pure_eq_ok] at hps ⊢
    obtain ⟨p, hp, ps, hps, rfl⟩ := hps
    exact ⟨p, (pull_eq hw).trans hp, ps, ih hps, rfl⟩

section Sound
variable [DoubleArith]

variable {reference distributed : RuntimePlan} {spec spec' : OperatorSpec}

/-- The reference payloads, pulled back, solve the distributed plan. -/
theorem solution_pull (h : Aligned reference distributed a)
    (hr : PlanVerifier.Accepted reference spec) {env : EvalContext} {f : Payloads}
    (hf : Solution reference env f) : Solution distributed env (pull a f) := by
  have hmem : ∀ id ∈ reference.definitions, id ∈ a.referenceValues := by
    intro id hid
    obtain ⟨v, hv, rfl⟩ := List.mem_map.1 (hr.mem_definitions_iff.1 hid)
    exact h.values v hv
  refine ⟨fun id hid => ?_, fun i hi => ?_⟩
  · rw [← h.inputs] at hid
    rw [pull_eq (referenceValue_of_mem (hmem id (List.mem_append_left _ hid)))]
    exact hf.input id hid
  · by_cases hcomm : ∃ action, i.body = .comm action
    · obtain ⟨action, hb⟩ := hcomm
      obtain ⟨source, output, w, hin, hout, hw, hw'⟩ := h.transfer i hi action hb
      obtain ⟨d, -, hd, -, -⟩ := h.metadata w (lineage_of_referenceValue hw).mem
      have hdef : w ∈ reference.definitions :=
        hr.mem_definitions_iff.2 (RuntimePlan.desc?_isSome.1 (by rw [hd]; rfl))
      obtain ⟨p, hp⟩ := hf.isSome hdef
      refine ⟨p, ?_, fun out ho => ?_⟩
      · rw [hb]
        simp only [EvalContext.step, hin, index, List.getElem?_cons_zero, bind_eq_ok,
          Except.ok.injEq, exists_eq_left', Payloads.get_eq_ok]
        rw [pull_eq hw', hp]
      · rw [hb] at ho
        have ho' : out = output := by simpa [InstructionBody.outputs, hout] using ho
        rw [ho', pull_eq hw, hp]
    · obtain ⟨out, expected, ho, hl, hbody⟩ := h.body i hi fun action hb => hcomm ⟨action, hb⟩
      obtain ⟨hexp, hexpo⟩ := h.producer out expected hl
      obtain ⟨p, hp, hpo⟩ := hf.equation expected hexp
      have hdef : out ∈ reference.definitions :=
        List.mem_append_right _ (List.mem_flatMap.2 ⟨expected, hexp, by rw [hexpo]; simp⟩)
      obtain ⟨d, d', hd, hd', hsame⟩ := h.metadata out (hmem out hdef)
      refine ⟨p, ?_, fun x hx => ?_⟩
      · cases hb : i.body with
        | comm action => exact absurd ⟨action, hb⟩ hcomm
        | encode op =>
          rw [hb] at hbody ho
          cases hb' : expected.body with
          | encode op' =>
            rw [hb'] at hexpo hp
            have hpayload : sameEncodePayload op.payload op'.payload = true := by
              simpa [verifyBody, hb'] using hbody
            obtain rfl : op'.output = out := List.singleton_injective hexpo
            have ho' : op.output = op'.output := List.singleton_injective ho
            have hcongr : env.encode _ op' = env.encode _ op :=
              encode_congr hd (ho' ▸ hd') hsame hpayload
            exact hcongr.symm.trans hp
          | _ => simp [verifyBody, hb', error] at hbody
        | compute op =>
          rw [hb] at hbody ho
          cases hb' : expected.body with
          | compute op' =>
            rw [hb'] at hp
            simp only [verifyBody, hb', bind_eq_ok, throwIf_eq_ok, not_or, not_not] at hbody
            obtain ⟨_, ⟨hk, hattrs, hlen⟩, hoperands⟩ := hbody
            simp only [EvalContext.step, bind_eq_ok] at hp ⊢
            obtain ⟨ps, hps, hp⟩ := hp
            refine ⟨ps, mapM_pull (verifyOperands_eq_ok hoperands hlen) hps, ?_⟩
            rw [VecExecutor.computeReady_congr hk (sameComputeAttrs_eq hattrs)]
            exact hp
          | _ => simp [verifyBody, hb', error] at hbody
      · rw [ho, List.mem_singleton] at hx
        rw [hx, pull_eq (referenceValue_of_mem (hmem out hdef))]
        exact hpo out (by rw [hexpo]; simp)

omit [DoubleArith] in
/-- Every value of the distributed plan stands for a value of the reference plan. -/
theorem referenceValue_isOk (h : Aligned reference distributed a)
    (hr : PlanVerifier.Accepted reference spec) {id : ValueId} (hid : id ∈ distributed.definitions) :
    ∃ w, a.referenceValue id = .ok w ∧ w ∈ reference.definitions := by
  have hself : ∀ w ∈ reference.definitions, a.referenceValue w = .ok w := by
    intro w hw
    obtain ⟨v, hv, rfl⟩ := List.mem_map.1 (hr.mem_definitions_iff.1 hw)
    exact referenceValue_of_mem (h.values v hv)
  rcases List.mem_append.1 hid with hid | hid
  · have hw : id ∈ reference.definitions := List.mem_append_left _ (h.inputs ▸ hid)
    exact ⟨id, hself id hw, hw⟩
  · obtain ⟨i, hi, hout⟩ := List.mem_flatMap.1 hid
    by_cases hcomm : ∃ action, i.body = .comm action
    · obtain ⟨action, hb⟩ := hcomm
      obtain ⟨source, output, w, -, ho, hw, -⟩ := h.transfer i hi action hb
      obtain ⟨d, -, hd, -, -⟩ := h.metadata w (lineage_of_referenceValue hw).mem
      rw [hb] at hout
      have hid' : id = output := by simpa [InstructionBody.outputs, ho] using hout
      exact ⟨w, hid' ▸ hw,
        hr.mem_definitions_iff.2 (RuntimePlan.desc?_isSome.1 (by rw [hd]; rfl))⟩
    · obtain ⟨out, expected, ho, hl, -⟩ := h.body i hi fun action hb => hcomm ⟨action, hb⟩
      obtain ⟨hexp, hexpo⟩ := h.producer out expected hl
      rw [ho, List.mem_singleton] at hout
      have hw : id ∈ reference.definitions :=
        List.mem_append_right _ (List.mem_flatMap.2 ⟨expected, hexp, by rw [hexpo, hout]; simp⟩)
      exact ⟨id, hself id hw, hw⟩

/-- **An alignment that is verified is a sound translation validation**: every value
    of the distributed plan has a reference value, a successful evaluation of the
    reference plan makes that of the distributed plan succeed with the same payloads,
    and the lineage recursion stops on every table. -/
theorem verify_sound {loaded : LoadedOperatorSpec} {skip skip' : Bool} {req req' : PlanRequirements}
    (hr : PlanVerifier.verify reference loaded skip = .ok req)
    (hd : PlanVerifier.verify distributed loaded skip' = .ok req')
    (h : verify reference distributed = .ok a) :
    (∀ v ∈ distributed.values, ∃ w, a.referenceValue v.id = .ok w) ∧
      (∀ (env : EvalContext) (f : Payloads), reference.evaluate env = .ok f →
        ∃ g, distributed.evaluate env = .ok g ∧
          (∀ v ∈ distributed.values, ∃ w p, a.referenceValue v.id = .ok w ∧ f w = some p ∧
            g v.id = some p) ∧
          List.Forall₂ (fun id w => ∃ p, g id = some p ∧ f w = some p)
            distributed.finalOutputs reference.finalOutputs) ∧
      ∀ referenceValues transferSources id, ∃ r, ∀ fuel, transferSources.length < fuel →
        resolve referenceValues transferSources fuel id [] = some r := by
  have hr := PlanVerifier.verify_accepted hr
  have hd := PlanVerifier.verify_accepted hd
  have h := aligned_of_verify h
  refine ⟨fun v hv => ?_, fun env f hf => ?_, resolve_terminates⟩
  · obtain ⟨w, hw, -⟩ := referenceValue_isOk h hr (hd.defined v hv)
    exact ⟨w, hw⟩
  · have hf := solution_of_evaluate hr hf
    obtain ⟨g, hg, hgf⟩ := evaluate_of_solution hd (solution_pull h hr hf)
    have hvalue : ∀ id ∈ distributed.definitions, ∀ w, a.referenceValue id = .ok w →
        ∃ p, f w = some p ∧ g id = some p := by
      intro id hid w hw
      obtain ⟨w', hw', hdef⟩ := referenceValue_isOk h hr hid
      obtain rfl := Except.ok.inj (hw.symm.trans hw')
      obtain ⟨p, hp⟩ := hf.isSome hdef
      exact ⟨p, hp, by rw [hgf id hid, pull_eq hw, hp]⟩
    refine ⟨g, hg, fun v hv => ?_, ?_⟩
    · obtain ⟨w, hw, -⟩ := referenceValue_isOk h hr (hd.defined v hv)
      obtain ⟨p, hp, hgp⟩ := hvalue _ (hd.defined v hv) w hw
      exact ⟨w, p, hw, hp, hgp⟩
    · refine List.forall₂_iff_get.2 ⟨h.finals.length_eq.symm, fun n hn hn' => ?_⟩
      have hw := h.finals.get hn' hn
      obtain ⟨p, hp, hgp⟩ := hvalue _ (hd.final _ (List.get_mem _ _)) _ hw
      exact ⟨p, hgp, hp⟩

end Sound

/-! ### A plan with one transfer -/

/-- One negation on the only host. -/
def referencePlan : RuntimePlan where
  planId := 1
  target := (fanoutPlan [0] ⟨.host, 0, 0⟩ []).plan.target
  plaintextBundle := none
  values := [CkksRuntime.valueDesc 0 .ciphertext ⟨.host, 0, 0⟩,
    CkksRuntime.valueDesc 1 .ciphertext ⟨.host, 0, 0⟩]
  externalInputs := [0]
  initialization := []
  execution := [⟨0, .compute ⟨.negate, [0], 1, ⟨.host, 0, 0⟩, .monostate⟩⟩]
  finalization := []
  finalOutputs := [1]

/-- The negation on the host of a second rank. -/
def distributedPlan : RuntimePlan :=
  { referencePlan with
    target := { referencePlan.target with worldSize := 2, deviceCounts := [0, 0] }
    values := [CkksRuntime.valueDesc 0 .ciphertext ⟨.host, 0, 0⟩,
      CkksRuntime.valueDesc 10 .ciphertext ⟨.host, 1, 0⟩,
      CkksRuntime.valueDesc 1 .ciphertext ⟨.host, 1, 0⟩]
    execution :=
      [⟨0, .comm ⟨7, .transfer, .pointToPoint, [0], [10], [⟨.host, 0, 0⟩], [⟨.host, 1, 0⟩],
          [.ciphertext]⟩⟩,
        ⟨1, .compute ⟨.negate, [10], 1, ⟨.host, 1, 0⟩, .monostate⟩⟩] }

def distributedAlignment : PlanAlignment where
  referenceValues := [0, 1]
  referenceProducers := [(1, ⟨0, .compute ⟨.negate, [0], 1, ⟨.host, 0, 0⟩, .monostate⟩⟩)]
  transferSources := [(10, 0)]

theorem verify_sound_distributedPlan :
    verify referencePlan distributedPlan = .ok distributedAlignment ∧
      distributedAlignment.referenceValue 10 = .ok 0 ∧
      ∀ (env : EvalContext) (f : Payloads),
        @RuntimePlan.evaluate zeroArith referencePlan env = .ok f →
          ∃ g, @RuntimePlan.evaluate zeroArith distributedPlan env = .ok g ∧
            List.Forall₂ (fun id w => ∃ p, g id = some p ∧ f w = some p) [1] [1] := by
  have hr : PlanVerifier.verify referencePlan makeTestOperatorSpec false =
      .ok ⟨[.hostCompute], []⟩ := by decide
  have hd : PlanVerifier.verify distributedPlan makeTestOperatorSpec false =
      .ok ⟨[.transfer, .hostCompute], []⟩ := by decide
  have ha : verify referencePlan distributedPlan = .ok distributedAlignment := by decide
  refine ⟨ha, by decide, fun env f hf => ?_⟩
  obtain ⟨g, hg, -, hfinals⟩ := (@verify_sound _ zeroArith _ _ _ _ _ _ _ hr hd ha).2.1 env f hf
  exact ⟨g, hg, hfinals⟩

end PlanAlignment

end CkksRuntime
