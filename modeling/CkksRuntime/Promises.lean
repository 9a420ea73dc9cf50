/-
  ckks-runtime formalization — the values of a rank and the payloads of the
  sequential evaluation.

  * `VecValue.Promises`: a value that is, or will be, a payload, when the payloads of
    the pending values of the rank are known;
  * `computeNow_promised`: on such values the executor returns what it returns on the
    payloads;
  * `RunConfig.Given`: a rank starts from what the evaluation starts from;
  * `RuntimePlan.Carries`: the payload that a transfer brings;
  * `Payloads.Stands`: a value that stands for the payload of an id.  The values that a
    rank binds, encodes, computes and receives do, and `validate_value` accepts them.
-/
import CkksRuntime.Described
import CkksRuntime.ScriptProtocol
import CkksRuntime.MockVecApi

namespace CkksRuntime

open PlanVerifier SequentialRuntime

/-! ## Values and payloads -/

namespace VecValue

/-- The value is the payload, or will be once the pending values of its rank, with the
    payloads `promises`, are complete. -/
def Promises (promises : List VecPayload) (v : VecValue) (p : VecPayload) : Prop :=
  v.Shows p ∧ match v with
    | ready q => q = p
    | pending _ _ cell => promises[cell]? = some p

variable {promises promises' : List VecPayload} {v : VecValue} {p q : VecPayload}

theorem promises_ready (p : VecPayload) : (ready p).Promises promises p := ⟨⟨rfl, rfl⟩, rfl⟩

theorem promises_ready_iff : (ready q).Promises promises p ↔ q = p := by
  constructor
  · exact fun h => h.2
  · rintro rfl
    exact promises_ready q

theorem Promises.mono (h : v.Promises promises p) (hle : promises <+: promises') :
    v.Promises promises' p := by
  refine ⟨h.1, ?_⟩
  cases v with
  | ready q => exact h.2
  | pending kind metadata cell =>
    obtain ⟨rest, rfl⟩ := hle
    exact (List.getElem?_append_left (List.getElem?_eq_some_iff.1 h.2).1).trans h.2

/-- A value stands for one payload. -/
theorem Promises.unique (h : v.Promises promises p) (h' : v.Promises promises q) : p = q := by
  cases v with
  | ready x => exact h.2.symm.trans h'.2
  | pending kind metadata cell => exact Option.some.inj (h.2.symm.trans h'.2)

theorem promises_unique {values : List VecValue} {payloads payloads' : List VecPayload}
    (h : List.Forall₂ (Promises promises) values payloads)
    (h' : List.Forall₂ (Promises promises) values payloads') : payloads = payloads' := by
  induction h generalizing payloads' with
  | nil => cases h'; rfl
  | cons hv _ ih =>
    cases h' with
    | cons hv' hrest => rw [hv.unique hv', ih hrest]

/-- A new pending value. -/
theorem promises_pending (promises : List VecPayload) (p : VecPayload) :
    (pending p.kind p.metadata promises.length).Promises (promises ++ [p]) p :=
  ⟨⟨rfl, rfl⟩, by simp⟩

/-- A settled value is its payload, where the settled pending values are theirs. -/
theorem Promises.materialize {cells : ℕ → Cell} (h : v.Promises promises p)
    (hcells : ∀ c q, promises[c]? = some q → cells c = .waiting ∨ cells c = .ready q)
    {r : Except Fault VecPayload} (hr : (v.materialize cells).run = some r) : r = .ok p := by
  cases v with
  | ready q =>
    obtain rfl : q = p := h.2
    exact (Option.some.inj hr).symm
  | pending kind metadata cell =>
    simp only [VecValue.materialize] at hr
    rcases hcells cell p h.2 with hc | hc
    · rw [hc] at hr
      cases hr
    · rw [hc] at hr
      exact (Option.some.inj hr).symm

end VecValue

/-! ## The executor on promised operands -/

section
variable [DoubleArith] {promises : List VecPayload} {op : ComputeOp} {values : List VecValue}
  {payloads : List VecPayload} {q : VecPayload}

/-- The cells once every pending value is complete. -/
def settledCells (promises : List VecPayload) : ℕ → Cell := fun c =>
  match promises[c]? with
  | some p => .ready p
  | none => .waiting

omit [DoubleArith] in
theorem VecValue.Promises.completes {v : VecValue} {p : VecPayload} (h : v.Promises promises p) :
    v.Completes (settledCells promises) p := by
  refine ⟨h.1.kind, h.1.metadata, ?_⟩
  cases v with
  | ready q => exact congrArg pure h.2
  | pending kind metadata cell =>
    have hcell : settledCells promises cell = .ready p := by rw [settledCells, h.2]
    simp only [VecValue.materialize, hcell]

omit [DoubleArith] in
theorem materialize_mono {cells cells' : ℕ → Cell}
    (h : ∀ c, cells c = .waiting ∨ cells' c = cells c) {v : VecValue}
    {r : Except Fault VecPayload} (hr : (v.materialize cells).run = some r) :
    v.materialize cells' = some r := by
  cases v with
  | ready p => exact hr
  | pending kind metadata cell =>
    simp only [VecValue.materialize] at hr ⊢
    rcases h cell with hc | hc
    · rw [hc] at hr
      cases hr
    · rw [hc]
      exact hr

/-- What the executor returns does not change when more values are complete. -/
theorem computeNow_mono {cells cells' : ℕ → Cell} (h : ∀ c, cells c = .waiting ∨ cells' c = cells c)
    {r : Except Fault VecPayload} (hr : (VecExecutor.computeNow cells op values).run = some r) :
    (VecExecutor.computeNow cells' op values).run = some r := by
  have hbinary : ∀ rhsKind fn multiply,
      (VecExecutor.binary cells values rhsKind fn multiply).run = some r →
        (VecExecutor.binary cells' values rhsKind fn multiply).run = some r := by
    intro rhsKind fn multiply hr
    rcases values with _ | ⟨x, _ | ⟨y, _ | ⟨z, rest⟩⟩⟩
    · exact hr
    · exact hr
    · unfold VecExecutor.binary at hr ⊢
      dsimp only at hr ⊢
      by_cases hk : x.kind ≠ .ciphertext ∨ y.kind ≠ rhsKind
      · rw [if_pos hk] at hr ⊢
        exact hr
      · rw [if_neg hk] at hr ⊢
        cases hx : (x.materialize cells).run with
        | none =>
          have hx' : x.materialize cells = none := hx
          rw [hx'] at hr
          cases hr
        | some a =>
          have hx' : x.materialize cells = some a := hx
          rw [hx'] at hr
          rw [materialize_mono h hx]
          cases a with
          | error fault => exact hr
          | ok a =>
            cases hy : (y.materialize cells).run with
            | none =>
              have hy' : y.materialize cells = none := hy
              rw [hy'] at hr
              cases hr
            | some b =>
              have hy' : y.materialize cells = some b := hy
              rw [hy'] at hr
              rw [materialize_mono h hy]
              exact hr
    · exact hr
  have hunary : (VecExecutor.unaryCipher cells values >>= fun a =>
      (some (VecExecutor.unaryPayload op a) : Blocking VecPayload)).run = some r →
      (VecExecutor.unaryCipher cells' values >>= fun a =>
        (some (VecExecutor.unaryPayload op a) : Blocking VecPayload)).run = some r := by
    intro hr
    rcases values with _ | ⟨x, _ | ⟨y, rest⟩⟩
    · exact hr
    · unfold VecExecutor.unaryCipher at hr ⊢
      dsimp only at hr ⊢
      by_cases hk : x.kind ≠ .ciphertext
      · rw [if_pos hk] at hr ⊢
        exact hr
      · rw [if_neg hk] at hr ⊢
        cases hx : (x.materialize cells).run with
        | none =>
          have hx' : x.materialize cells = none := hx
          rw [hx'] at hr
          cases hr
        | some a =>
          have hx' : x.materialize cells = some a := hx
          rw [hx'] at hr
          rw [materialize_mono h hx]
          exact hr
    · exact hr
  unfold VecExecutor.computeNow at hr ⊢
  cases hk : op.kind <;> simp only [hk] at hr ⊢ <;> first
    | exact hbinary _ _ _ hr
    | exact hunary hr

/-- **Whatever is complete already, the executor returns the payload of the evaluation.** -/
theorem computeNow_promised {cells : ℕ → Cell}
    (hcells : ∀ c, cells c = .waiting ∨ settledCells promises c = cells c)
    (hvalues : List.Forall₂ (VecValue.Promises promises) values payloads)
    {r : Except Fault VecPayload} (hr : (VecExecutor.computeNow cells op values).run = some r) :
    r = VecExecutor.computeReady op payloads := by
  have hall := computeNow_mono hcells hr
  rw [VecExecutor.computeNow_completes
    (hvalues.imp fun v p hv => VecValue.Promises.completes hv)] at hall
  exact (Option.some.inj hall).symm

end

/-! ## A rank and the evaluation -/

/-- The rank starts from what the evaluation starts from. -/
structure RunConfig.Given (cfg : RunConfig VecValue) (slots : List (String × List Double))
    (env : EvalContext) : Prop where
  contents : ∀ content values, slots.lookup content = some values →
    env.contents content = some values
  inputs : ∀ id ∈ (plan cfg).localExternals cfg.rank,
    cfg.localInputs.lookup id = some (.ready (env.inputs id))
  count : cfg.localInputs.length = ((plan cfg).localExternals cfg.rank).length

/-- The payload that a transfer of the plan brings. -/
def RuntimePlan.Carries (plan : RuntimePlan) (f : Payloads) (id : TransferId) (p : VecPayload) :
    Prop :=
  ∃ a ∈ plan.actions, a.id = id ∧ ∃ src, a.inputs[0]? = some src ∧ f src = some p

/-- The value stands for the payload of an id. -/
def Payloads.Stands (f : Payloads) (promises : List VecPayload) (id : ValueId) (v : VecValue) :
    Prop :=
  ∃ p, f id = some p ∧ v.Promises promises p

theorem Payloads.Stands.mono {f : Payloads} {promises promises' : List VecPayload} {id : ValueId}
    {v : VecValue} (h : f.Stands promises id v) (hle : promises <+: promises') :
    f.Stands promises' id v := by
  obtain ⟨p, hp, hv⟩ := h
  exact ⟨p, hp, hv.mono hle⟩

section
variable {plan : RuntimePlan} {spec : OperatorSpec} {f : Payloads} {promises : List VecPayload}

/-- Actions with one id are one. -/
theorem PlanVerifier.Accepted.action_inj (hacc : Accepted plan spec) {a b : CommAction}
    (ha : a ∈ plan.actions) (hb : b ∈ plan.actions) (h : a.id = b.id) : a = b :=
  List.inj_on_of_nodup_map (hacc.transfers_nodup_prefix plan.instructions [] (by simp)) ha hb h

theorem RuntimePlan.Carries.unique (hacc : Accepted plan spec) {id : TransferId} {p q : VecPayload}
    (h : plan.Carries f id p) (h' : plan.Carries f id q) : p = q := by
  obtain ⟨a, ha, rfl, src, hsrc, hp⟩ := h
  obtain ⟨b, hb, he, src', hsrc', hq⟩ := h'
  obtain rfl := hacc.action_inj hb ha he
  obtain rfl := Option.some.inj (hsrc.symm.trans hsrc')
  exact Option.some.inj (hp.symm.trans hq)

/-- The payloads of some operands. -/
theorem Payloads.Stands.operands {ids : List ValueId} {values : List VecValue}
    (h : List.Forall₂ (f.Stands promises) ids values) :
    ∃ payloads, ids.mapM f.get = .ok payloads ∧
      List.Forall₂ (VecValue.Promises promises) values payloads := by
  induction h with
  | nil => exact ⟨[], rfl, .nil⟩
  | cons hv _ ih =>
    obtain ⟨p, hp, hpromises⟩ := hv
    obtain ⟨payloads, hread, hrest⟩ := ih
    refine ⟨p :: payloads, ?_, .cons hpromises hrest⟩
    simp only [List.mapM_cons, bind_eq_ok, Payloads.get_eq_ok, pure_eq_ok]
    exact ⟨p, hp, payloads, hread, rfl⟩

end

section
variable [DoubleArith] {cfg : RunConfig VecValue} {spec : OperatorSpec} {env : EvalContext}
  {f : Payloads} {promises : List VecPayload} {slots : List (String × List Double)}

/-! ### Values -/

/-- A value that stands for a payload is accepted by `validate_value`. -/
theorem Payloads.Stands.checked (hacc : Accepted (plan cfg) spec) (hf : Outcome (plan cfg) env f)
    {id : ValueId} (hid : id ∈ (plan cfg).definitions) {v : VecValue} (h : f.Stands promises id v)
    {Err : Failure → Prop} : Checked cfg env.polyDegree (f.Stands promises id) Err id v := by
  intro d hd
  obtain ⟨p, hp, hv⟩ := h
  have hdesc := hf.described hacc id hid d p hd hp
  have hok : validateValue env.polyDegree v d = .ok () := by
    rw [validateValue_eq_ok, hv.1.kind, hv.1.metadata]
    exact hdesc
  rw [hok]
  exact ⟨p, hp, hv⟩

/-- An external input stands for itself, once `validate_value` accepts it. -/
theorem Outcome.bound (hf : Outcome (plan cfg) env f) {id : ValueId}
    (hid : id ∈ (plan cfg).localExternals cfg.rank) {Err : Failure → Prop}
    (hnone : f id = none → ∀ failure, Err failure) :
    Checked cfg env.polyDegree (f.Stands promises id) Err id (.ready (env.inputs id)) := by
  intro d hd
  have hinput := hf.input id (List.mem_of_mem_filter hid)
  split_ifs at hinput with haccepts
  · have hok : validateValue env.polyDegree (.ready (env.inputs id)) d = .ok () :=
      validateValue_eq_ok.2 (EvalContext.accepts_eq_true.1 haccepts d hd)
    rw [hok]
    exact ⟨_, hinput, VecValue.promises_ready _⟩
  · split
    next u hok =>
      refine absurd (EvalContext.accepts_eq_true.2 fun d' hd' => ?_) haccepts
      obtain rfl := Option.some.inj (hd.symm.trans hd')
      exact validateValue_eq_ok.1 hok
    next => exact hnone hinput _

variable (promises) in
/-- The value of an Encode. -/
theorem Outcome.encoded (hf : Outcome (plan cfg) env f)
    (hcontents : ∀ content values, slots.lookup content = some values →
      env.contents content = some values) {i : Instruction} (hi : i ∈ (plan cfg).instructions)
    {op : EncodeOp} (hbody : i.body = .encode op) {d : ValueDesc}
    (hd : (plan cfg).desc? op.output = some d) {values : List Double}
    (hvalues : payloadSlots slots op.payload = .ok values) :
    match encodePlaintext env.polyDegree d (values.map Double.normalizeZero) with
    | .ok v => f.Stands promises op.output v
    | .error _ => f op.output = none := by
  have hout : f op.output = (encodeReady env.polyDegree d values).toOption := by
    have hequation := hf.equation i hi
    rw [hbody] at hequation
    rw [hequation op.output (List.mem_singleton.2 rfl)]
    simp only [EvalContext.step, EvalContext.encode, hd]
    cases hpayload : op.payload with
    | inline inline =>
      rw [hpayload] at hvalues
      obtain rfl := Except.ok.inj hvalues
      rfl
    | bundle content =>
      rw [hpayload] at hvalues
      cases hslots : slots.lookup content with
      | none => simp [payloadSlots, hslots] at hvalues
      | some slots' =>
        obtain rfl : slots' = values := by simpa [payloadSlots, hslots] using hvalues
        simp only [hcontents content slots' hslots]
  unfold encodeReady at hout
  cases hv : encodePlaintext env.polyDegree d (values.map Double.normalizeZero) with
  | error fault =>
    rw [hv] at hout
    exact hout
  | ok v =>
    obtain ⟨p, rfl⟩ := encodePlaintext_ready hv
    rw [hv] at hout
    exact ⟨p, hout, VecValue.promises_ready p⟩

/-- The payloads of a compute instruction. -/
theorem Outcome.computed (hf : Outcome (plan cfg) env f) {i : Instruction}
    (hi : i ∈ (plan cfg).instructions) {op : ComputeOp} (hbody : i.body = .compute op)
    {values : List VecValue} (hvalues : List.Forall₂ (f.Stands promises) op.inputs values) :
    ∃ payloads, List.Forall₂ (VecValue.Promises promises) values payloads ∧
      f op.output = (VecExecutor.computeReady op payloads).toOption := by
  obtain ⟨payloads, hread, hpromises⟩ := Payloads.Stands.operands hvalues
  have hequation := hf.equation i hi
  rw [hbody] at hequation
  refine ⟨payloads, hpromises, ?_⟩
  rw [hequation op.output (List.mem_singleton.2 rfl)]
  simp only [EvalContext.step, hread]
  rfl

/-- What a transfer carries is the payload of its outputs. -/
theorem RuntimePlan.Carries.output {plan : RuntimePlan} (hacc : Accepted plan spec)
    (hf : Outcome plan env f) {a : CommAction} (ha : a ∈ plan.actions) {p : VecPayload}
    (h : plan.Carries f a.id p) {id : ValueId} (hid : id ∈ a.outputs) : f id = some p := by
  obtain ⟨b, hb, he, src, hsrc, hp⟩ := h
  obtain rfl := hacc.action_inj hb ha he
  obtain ⟨i, hi, hbody⟩ := mem_actionsOf.1 ha
  have hequation := hf.equation i hi
  rw [hbody] at hequation
  have hstep : env.step plan f (.comm b) = .ok p := by
    simp only [EvalContext.step, bind_eq_ok, index_eq_ok, Payloads.get_eq_ok]
    exact ⟨src, hsrc, hp⟩
  rw [hequation id hid, hstep]
  rfl

end

/-! ### Where values are defined -/

/-- The outputs of an instruction. -/
theorem RuntimePlan.mem_definitions_of_instruction {plan : RuntimePlan} {i : Instruction}
    (hi : i ∈ plan.instructions) {id : ValueId} (hid : id ∈ i.body.outputs) :
    id ∈ plan.definitions := List.mem_append_right _ (List.mem_flatMap.2 ⟨i, hi, hid⟩)

theorem RuntimePlan.mem_definitions_of_action {plan : RuntimePlan} {a : CommAction}
    (ha : a ∈ plan.actions) {id : ValueId} (hid : id ∈ a.outputs) : id ∈ plan.definitions := by
  obtain ⟨i, hi, hbody⟩ := mem_actionsOf.1 ha
  exact mem_definitions_of_instruction hi (by rw [hbody]; exact hid)

/-! ### Local slots -/

namespace MockVecApi

variable {rank : CInt}

theorem mem_localSlots_iff {destinations : List Place} {slot : ℕ} :
    slot ∈ localSlots rank destinations ↔
      ∃ place, destinations[slot]? = some place ∧ place.rank = rank := by
  simp only [localSlots, List.mem_map, List.mem_filter, List.mem_zipIdx_iff_getElem?, Prod.exists,
    decide_eq_true_eq]
  constructor
  · rintro ⟨place, _, ⟨hplace, hrank⟩, rfl⟩
    exact ⟨place, hplace, hrank⟩
  · rintro ⟨place, hplace, hrank⟩
    exact ⟨place, slot, ⟨hplace, hrank⟩, rfl⟩

/-- The local slots are in order. -/
theorem localSlots_sorted (destinations : List Place) :
    (localSlots rank destinations).Pairwise (· < ·) := by
  have hall : (destinations.zipIdx.map (·.2)).Pairwise (· < ·) := by
    rw [List.zipIdx_map_snd]
    exact List.pairwise_lt_range' _
  exact hall.sublist (List.filter_sublist.map _)

theorem localSlots_nodup (destinations : List Place) : (localSlots rank destinations).Nodup :=
  (localSlots_sorted destinations).imp fun h => ne_of_lt h

/-- There is a local slot for every local output. -/
theorem length_localSlots {action : CommAction}
    (h : action.outputs.length = action.destinations.length) :
    (localSlots rank action.destinations).length = (action.localOutputs rank).length := by
  have hcount : ∀ (outputs : List ValueId) (destinations : List Place) (n : ℕ),
      outputs.length = destinations.length →
      ((destinations.zipIdx n).filter fun p => p.1.rank = rank).length =
        ((outputs.zip destinations).filter fun p => p.2.rank = rank).length := by
    intro outputs
    induction outputs with
    | nil =>
      intro destinations n hlen
      obtain rfl := List.length_eq_zero_iff.1 hlen.symm
      rfl
    | cons out outputs ih =>
      intro destinations n hlen
      cases destinations with
      | nil => cases hlen
      | cons place destinations =>
        rw [List.zipIdx_cons, List.zip_cons_cons, List.filter_cons, List.filter_cons]
        have hrest := ih destinations (n + 1) (Nat.succ.inj hlen)
        dsimp only
        split_ifs
        · rw [List.length_cons, List.length_cons, hrest]
        · exact hrest
  rw [localSlots, CommAction.localOutputs, List.length_map, List.length_map]
  exact hcount _ _ 0 h

end MockVecApi

end CkksRuntime
