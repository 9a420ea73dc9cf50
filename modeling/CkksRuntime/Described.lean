/-
  ckks-runtime formalization — a sequential evaluation keeps to the descriptors of
  its plan.

  * `computeMetadata_of_computeReady`: a result has the metadata that the executor
    promises before it computes;
  * `computeMetadata_describes`: what is promised is what the verifier demands of
    the output;
  * `Outcome.described`: whatever can be computed matches its descriptor;
  * `Solution.described`: if the external inputs match their descriptors, so does
    every payload of an evaluation that succeeds.
-/
import CkksRuntime.Attempt
import CkksRuntime.VecStore

namespace CkksRuntime

open PlanVerifier

variable [DoubleArith]

/-- A value with the kind and the metadata of a payload. -/
structure VecValue.Shows (v : VecValue) (p : VecPayload) : Prop where
  kind : v.kind = p.kind
  metadata : v.metadata = p.metadata

namespace VecExecutor

variable {op : ComputeOp} {p q : VecPayload} {x y : VecValue} {m : VecMetadata}

/-! ## What is promised -/

omit [DoubleArith] in
/-- The promise depends on the kinds and the metadata of the operands. -/
theorem computeMetadata_congr {values values' : List VecValue}
    (h : List.Forall₂ (fun v v' => v.kind = v'.kind ∧ v.metadata = v'.metadata) values values') :
    computeMetadata op values = computeMetadata op values' := by
  have hunary : unaryMetadata values = unaryMetadata values' := by
    cases h with
    | nil => rfl
    | cons hx hrest =>
      cases hrest with
      | nil => simp only [unaryMetadata, hx.1, hx.2]
      | cons _ _ => rfl
  have hbinary : ∀ rhsKind multiply,
      binaryMetadata values rhsKind multiply = binaryMetadata values' rhsKind multiply := by
    intro rhsKind multiply
    cases h with
    | nil => rfl
    | cons hx hrest =>
      cases hrest with
      | nil => rfl
      | cons hy hrest =>
        cases hrest with
        | nil => simp only [binaryMetadata, hx.1, hx.2, hy.1, hy.2]
        | cons _ _ => rfl
  unfold computeMetadata
  cases op.kind <;> simp only [hunary, hbinary]

/-- **What the executor returns, it has promised.** -/
theorem computeMetadata_of_computeReady {payloads : List VecPayload} {values : List VecValue}
    (h : computeReady op payloads = .ok q) (hvalues : List.Forall₂ VecValue.Shows values payloads) :
    computeMetadata op values = .ok q.metadata ∧ q.kind = .ciphertext := by
  have hnow : computeNow (fun _ => .waiting) op (payloads.map .ready) = pure q := by
    rw [computeNow_ready, h]
    rfl
  have hsame : List.Forall₂ (fun v v' : VecValue => v.kind = v'.kind ∧ v.metadata = v'.metadata)
      values (payloads.map .ready) :=
    List.forall₂_map_right_iff.2 (hvalues.imp fun v p hv => ⟨hv.kind, hv.metadata⟩)
  rw [computeMetadata_congr hsame]
  refine computeNow_metadata (fun v hv => ?_) hnow
  obtain ⟨p, -, rfl⟩ := List.mem_map.1 hv
  intro p' hp'
  obtain rfl := Except.ok.inj (Option.some.inj hp')
  exact ⟨rfl, rfl⟩

/-! ## What is demanded -/

section
variable {a b out : ValueDesc}

omit [DoubleArith] in
/-- The metadata of a product. -/
theorem multiplyMetadata_eq_ok {m m' m'' : VecMetadata} {rhsKind : ValueKind}
    (h : multiplyMetadata m m' rhsKind = .ok m'') : ∃ scale components,
      m'' = { m with scaleLog2 := scale, components := components } ∧
      scale.toInt = m.scaleLog2.toInt + m'.scaleLog2.toInt ∧
      if rhsKind = .ciphertext then
        components.toInt = m.components.toInt + m'.components.toInt - 1
      else components = m.components := by
  simp only [multiplyMetadata, error, bind_eq_ok] at h
  obtain ⟨room, -, h⟩ := h
  by_cases hroom : m'.scaleLog2 > room
  · rw [if_pos hroom] at h
    cases h
  · rw [if_neg hroom] at h
    simp only [bind_eq_ok, CInt.add_eq_ok] at h
    obtain ⟨scale, hscale, h⟩ := h
    split_ifs at h ⊢ with hk
    · simp only [bind_eq_ok, CInt.add_eq_ok, CInt.sub_eq_ok, pure_eq_ok] at h
      obtain ⟨c, hc, components, hcomponents, rfl⟩ := h
      have hone : (1 : CInt).toInt = 1 := rfl
      exact ⟨scale, components, rfl, hscale, by omega⟩
    · rw [pure_eq_ok] at h
      exact ⟨scale, m.components, h.symm, hscale, rfl⟩

omit [DoubleArith] in
/-- What an accepted operation with one operand promises of a described operand. -/
theorem unary_describes (hrule : RuleOk op [a] out) (ha : a.Describes x.kind x.metadata)
    (h : computeMetadata op [x] = .ok m) :
    out.Describes .ciphertext m ∧ m.degree = x.metadata.degree := by
  obtain ⟨hkinds, hkind, hbase, -, hr⟩ := hrule
  obtain ⟨hc, hn⟩ := hbase a rfl
  obtain ⟨h1, h2, h3, h4, h5, h6⟩ := ha
  have hak : a.kind = .ciphertext := by
    cases hk : op.kind <;> simp [hk, expectedInputs] at hkinds <;> exact hkinds
  have hmeta : unaryMetadata [x] = .ok x.metadata := by simp [unaryMetadata, h1.trans hak]
  rw [hc] at h2
  rw [hn] at h5
  simp only [checkMetadataRule, bind_eq_ok, index_eq_ok, List.getElem?_cons_zero,
    Option.some.injEq, exists_eq_left'] at hr
  cases hk : op.kind with
  | negate =>
    simp only [hk, failIf_eq_ok, not_or, not_not, sameMetadata_iff] at hr
    obtain ⟨-, -, -, hl, hs, -, hco⟩ := hr
    simp only [computeMetadata, hk, hmeta, Except.ok.injEq] at h
    subst h
    exact ⟨⟨hkind.symm, h2, h3.trans hl, h4.trans hs, h5, h6.trans hco⟩, rfl⟩
  | rotate =>
    cases ha : op.attrs with
    | rotate attrs =>
      simp only [hk, ha, failIf_eq_ok, not_or, not_not, sameMetadata_iff] at hr
      obtain ⟨-, -, -, -, hl, hs, -, hco⟩ := hr
      simp only [computeMetadata, hk, hmeta, Except.ok.injEq] at h
      subst h
      exact ⟨⟨hkind.symm, h2, h3.trans hl, h4.trans hs, h5, h6.trans hco⟩, rfl⟩
    | _ => simp [hk, ha] at hr
  | rescale =>
    cases ha : op.attrs with
    | rescale attrs =>
      simp only [hk, ha, failIf_eq_ok, not_or, not_not] at hr
      obtain ⟨hlt, hl, hs, hco⟩ := hr
      rw [← h3] at hlt
      simp only [computeMetadata, hk, ha, hmeta, bind_eq_ok, Except.ok.injEq, exists_eq_left',
        hlt, if_false, pure_eq_ok] at h
      subst h
      exact ⟨⟨hkind.symm, h2, hl.symm, hs.symm, h5, h6.trans hco.symm⟩, rfl⟩
    | _ => simp [hk, ha] at hr
  | modSwitch =>
    cases ha : op.attrs with
    | modSwitch attrs =>
      simp only [hk, ha, failIf_eq_ok, not_or, not_not] at hr
      obtain ⟨hlt, hl, hs, hco⟩ := hr
      rw [← h3] at hlt
      simp only [computeMetadata, hk, ha, hmeta, bind_eq_ok, Except.ok.injEq, exists_eq_left',
        hlt, if_false, pure_eq_ok] at h
      subst h
      exact ⟨⟨hkind.symm, h2, hl.symm, h4.trans hs.symm, h5, h6.trans hco.symm⟩, rfl⟩
    | _ => simp [hk, ha] at hr
  | relinearize =>
    simp only [hk, failIf_eq_ok, not_or, not_not] at hr
    obtain ⟨-, h3c, hl, hs, hco⟩ := hr
    have hgt : ¬ x.metadata.components ≤ 2 := by rw [h6, h3c]; decide
    simp only [computeMetadata, hk, hmeta, bind_eq_ok, Except.ok.injEq, exists_eq_left', hgt,
      if_false, pure_eq_ok] at h
    subst h
    exact ⟨⟨hkind.symm, h2, h3.trans hl.symm, h4.trans hs.symm, h5, hco.symm⟩, rfl⟩
  | boot =>
    cases ha : op.attrs with
    | boot attrs =>
      simp only [hk, ha, bind_eq_ok, failIf_eq_ok, exists_const, not_or, not_not] at hr
      obtain ⟨⟨-, hl, hs, hco⟩, -⟩ := hr
      simp only [computeMetadata, hk, ha, hmeta, bind_eq_ok, Except.ok.injEq, exists_eq_left',
        pure_eq_ok] at h
      subst h
      exact ⟨⟨hkind.symm, h2, hl.symm, hs.symm, h5, hco.symm⟩, rfl⟩
    | _ => simp [hk, ha] at hr
  | _ => simp [hk, expectedInputs] at hkinds

omit [DoubleArith] in
theorem binaryMetadata_eq_ok {rhsKind : ValueKind} {multiply : Bool}
    (h : binaryMetadata [x, y] rhsKind multiply = .ok m) :
    pairMetadata multiply x.metadata y.metadata rhsKind = .ok m := by
  simp only [binaryMetadata, error, bind, Except.bind, pure, Except.pure] at h
  split_ifs at h with _ _ _ hmultiply
  · rw [pairMetadata, if_pos hmultiply]
    exact h
  · rw [pairMetadata, if_neg hmultiply]
    exact h

/-- What an accepted operation with two operands promises of described operands. -/
theorem pair_describes {rhsKind : ValueKind} (hrule : RuleOk op [a, b] out)
    (hk : expectedInputs op.kind = [.ciphertext, rhsKind]) (ha : a.Describes x.kind x.metadata)
    (hb : b.Describes y.kind y.metadata) (h : computeMetadata op [x, y] = .ok m) :
    out.Describes .ciphertext m ∧ m.degree = x.metadata.degree := by
  obtain ⟨-, hkind, hbase, -, hr⟩ := hrule
  obtain ⟨hc, hn⟩ := hbase a rfl
  obtain ⟨-, h2, h3, h4, h5, h6⟩ := ha
  obtain ⟨-, -, -, h4', -, h6'⟩ := hb
  obtain ⟨hl, hr⟩ := pairRule hk hr
  rw [computeMetadata_pair hk] at h
  replace h := binaryMetadata_eq_ok h
  cases hm : (pairArith op.kind).2 with
  | false =>
    simp only [hm, Bool.false_eq_true, if_false] at hr
    obtain ⟨-, hs, hco⟩ := hr
    rw [hm] at h
    obtain rfl := Except.ok.inj h
    exact ⟨⟨hkind.symm, h2.trans hc, h3.trans hl.symm, h4.trans hs.symm, h5.trans hn,
      h6.trans hco.symm⟩, rfl⟩
  | true =>
    simp only [hm, if_true] at hr
    obtain ⟨hs, hco⟩ := hr
    rw [hm, pairMetadata, if_pos rfl] at h
    obtain ⟨scale, components, rfl, hscale, hcomponents⟩ := multiplyMetadata_eq_ok h
    refine ⟨⟨hkind.symm, h2.trans hc, h3.trans hl.symm, ?_, h5.trans hn, ?_⟩, rfl⟩
    · rw [← Int32.toInt_inj, hs, ← h4, ← h4']
      exact hscale
    · split_ifs at hco hcomponents
      · rw [← Int32.toInt_inj, hco, ← h6, ← h6']
        exact hcomponents
      · exact hcomponents.trans (h6.trans hco.symm)

/-- **What is promised is what the verifier demands of the output.** -/
theorem computeMetadata_describes {inputs : List ValueDesc} {values : List VecValue} {degree : ℕ}
    (hrule : RuleOk op inputs out)
    (hvalues : List.Forall₂ (fun v d => d.Describes v.kind v.metadata ∧ v.metadata.degree = degree)
      values inputs) (h : computeMetadata op values = .ok m) :
    out.Describes .ciphertext m ∧ m.degree = degree := by
  have hkinds : expectedInputs op.kind = [.ciphertext] ∨
      ∃ rhsKind, expectedInputs op.kind = [.ciphertext, rhsKind] := by
    cases op.kind <;> simp [expectedInputs]
  have hlen := congrArg List.length hrule.kinds
  rcases hkinds with hk | ⟨rhsKind, hk⟩
  · rw [hk, List.length_map] at hlen
    obtain ⟨a, rfl⟩ := List.length_eq_one_iff.1 hlen
    obtain ⟨x, rest, ⟨ha, hdeg⟩, hrest, rfl⟩ := List.forall₂_cons_right_iff.1 hvalues
    cases hrest
    obtain ⟨hdesc, hmdeg⟩ := unary_describes hrule ha h
    exact ⟨hdesc, hmdeg.trans hdeg⟩
  · rw [hk, List.length_map] at hlen
    obtain ⟨a, b, rfl⟩ := List.length_eq_two.1 hlen
    obtain ⟨x, rest, ⟨ha, hdeg⟩, hrest, rfl⟩ := List.forall₂_cons_right_iff.1 hvalues
    obtain ⟨y, rest', ⟨hb, -⟩, hrest', rfl⟩ := List.forall₂_cons_right_iff.1 hrest
    cases hrest'
    obtain ⟨hdesc, hmdeg⟩ := pair_describes hrule hk ha hb h
    exact ⟨hdesc, hmdeg.trans hdeg⟩

/-- A result matches the descriptor of the output, if the operands match theirs. -/
theorem computeReady_describes {inputs : List ValueDesc} {payloads : List VecPayload} {degree : ℕ}
    (hrule : RuleOk op inputs out)
    (hpayloads : List.Forall₂
      (fun p d => d.Describes p.kind p.metadata ∧ p.metadata.degree = degree) payloads inputs)
    (h : computeReady op payloads = .ok q) :
    out.Describes q.kind q.metadata ∧ q.metadata.degree = degree := by
  have hshows : List.Forall₂ VecValue.Shows (payloads.map .ready) payloads :=
    List.forall₂_map_left_iff.2 (List.forall₂_same.2 fun p _ => ⟨rfl, rfl⟩)
  obtain ⟨hmeta, hkind⟩ := computeMetadata_of_computeReady h hshows
  rw [hkind]
  exact computeMetadata_describes hrule (List.forall₂_map_left_iff.2 hpayloads) hmeta

end

end VecExecutor

/-! ## The evaluation -/

open VecExecutor

omit [DoubleArith] in
/-- What an Encode returns. -/
theorem encodeReady_eq_ok {polyDegree : ℕ} {d : ValueDesc} {slots : List Double} {p : VecPayload}
    (h : encodeReady polyDegree d slots = .ok p) : p.kind = .plaintext ∧
      p.metadata = ⟨d.context, polyDegree, d.level, d.scaleLog2, d.ntt, 1⟩ := by
  simp only [encodeReady, bind_eq_ok] at h
  obtain ⟨v, hv, h⟩ := h
  unfold encodePlaintext makePlain makeValue at hv
  dsimp only at hv
  split_ifs at hv with _ _ _ _ hplain
  · obtain rfl := Except.ok.inj hv
    obtain rfl := pure_eq_ok.1 h
    exact ⟨rfl, rfl⟩
  · exact absurd rfl hplain

section
variable {plan : RuntimePlan} {spec : OperatorSpec} {env : EvalContext} {f : Payloads}

/-- The payload of every value of `ids` matches its descriptor. -/
def Payloads.Described (plan : RuntimePlan) (polyDegree : ℕ) (f : Payloads) (ids : List ValueId) :
    Prop :=
  ∀ id ∈ ids, ∀ d p, plan.desc? id = some d → f id = some p →
    d.Describes p.kind p.metadata ∧ p.metadata.degree = polyDegree

omit [DoubleArith] in
/-- The descriptors and the payloads of the operands. -/
theorem Payloads.Described.operands {ids : List ValueId} {inputs : List ValueDesc}
    {payloads : List VecPayload} {defs : List ValueId}
    (hf : f.Described plan env.polyDegree defs) (hids : ∀ id ∈ ids, id ∈ defs)
    (hdescs : List.Forall₂ (fun id d => plan.desc? id = some d) ids inputs)
    (hread : ids.mapM f.get = .ok payloads) :
    List.Forall₂ (fun p d => d.Describes p.kind p.metadata ∧ p.metadata.degree = env.polyDegree)
      payloads inputs := by
  induction hdescs generalizing payloads with
  | nil =>
    obtain rfl := Except.ok.inj hread
    exact .nil
  | @cons id d ids inputs hd _ ih =>
    simp only [List.mapM_cons, bind_eq_ok, Payloads.get_eq_ok, pure_eq_ok] at hread
    obtain ⟨p, hp, rest, hrest, rfl⟩ := hread
    exact .cons (hf id (hids id List.mem_cons_self) d p hd hp)
      (ih (fun x hx => hids x (List.mem_cons_of_mem _ hx)) hrest)

/-- One instruction keeps to the descriptors of its outputs. -/
theorem step_described {phase : Phase} {pre : List Instruction} {i : Instruction}
    (hok : InstructionOk plan spec phase pre i)
    (hf : f.Described plan env.polyDegree (plan.externalInputs ++ definedBy pre)) {p : VecPayload}
    (hp : env.step plan f i.body = .ok p) {out : ValueId} (hout : out ∈ i.body.outputs)
    {d : ValueDesc} (hd : plan.desc? out = some d) :
    d.Describes p.kind p.metadata ∧ p.metadata.degree = env.polyDegree := by
  obtain ⟨-, hok⟩ := hok
  cases hb : i.body with
  | encode op =>
    rw [hb] at hok hp hout
    obtain rfl := List.mem_singleton.1 hout
    obtain ⟨d', hd', hkind, -, hcomp⟩ := hok.desc
    obtain rfl := Option.some.inj (hd.symm.trans hd')
    have hencode : ∃ slots, encodeReady env.polyDegree d slots = .ok p := by
      simp only [EvalContext.step, EvalContext.encode, hd] at hp
      cases hpayload : op.payload with
      | inline values => exact ⟨values, by simpa only [hpayload] using hp⟩
      | bundle content =>
        simp only [hpayload] at hp
        cases hslots : env.contents content with
        | some slots => exact ⟨slots, by simpa only [hslots] using hp⟩
        | none =>
          rw [hslots] at hp
          cases hp
    obtain ⟨slots, hslots⟩ := hencode
    obtain ⟨hk, hm⟩ := encodeReady_eq_ok hslots
    rw [hk, hm]
    exact ⟨⟨hkind.symm, rfl, rfl, rfl, rfl, hcomp.symm⟩, rfl⟩
  | compute op =>
    rw [hb] at hok hp hout
    obtain rfl := List.mem_singleton.1 hout
    obtain ⟨inputs, output, hdescs, hd', hrule⟩ := verifyComputeMetadata_ruleOk hok.metadata
    obtain rfl := Option.some.inj (hd.symm.trans hd')
    simp only [EvalContext.step, bind_eq_ok] at hp
    obtain ⟨payloads, hread, hresult⟩ := hp
    exact computeReady_describes hrule (hf.operands hok.uses hdescs hread) hresult
  | comm action =>
    rw [hb] at hok hp hout
    obtain ⟨id, d', hok⟩ := hok
    simp only [EvalContext.step, hok.inputs] at hp
    have hget : f id = some p := Payloads.get_eq_ok.1 hp
    obtain ⟨hdesc, hdeg⟩ := hf id hok.uses d' p hok.desc hget
    obtain ⟨place, -, -, ⟨d'', hd'', -, hsame⟩⟩ := forall₂_mem_left hok.outputs hout
    obtain rfl := Option.some.inj (hd.symm.trans hd'')
    obtain ⟨h1, h2, h3, h4, h5, h6⟩ := sameMetadata_iff.1 hsame
    exact ⟨⟨hdesc.kind.trans h1, hdesc.context.trans h2, hdesc.level.trans h3,
      hdesc.scaleLog2.trans h4, hdesc.ntt.trans h5, hdesc.components.trans h6⟩, hdeg⟩

theorem Outcome.described_prefix (hacc : Accepted plan spec) (hf : Outcome plan env f)
    (pre : List Instruction) : ∀ b, plan.instructions = pre ++ b →
      f.Described plan env.polyDegree (plan.externalInputs ++ definedBy pre) := by
  induction pre using List.reverseRecOn with
  | nil =>
    intro b _ id hid d p hd hp
    have hid : id ∈ plan.externalInputs := by simpa using hid
    rw [hf.input id hid] at hp
    split_ifs at hp with haccepts
    obtain rfl := Option.some.inj hp
    exact EvalContext.accepts_eq_true.1 haccepts d hd
  | append_singleton pre i ih =>
    intro b hab id hid d p hd hp
    rw [List.append_assoc, List.singleton_append] at hab
    rw [definedBy_append, definedBy_singleton, ← List.append_assoc] at hid
    rcases List.mem_append.1 hid with hid | hid
    · exact ih _ hab id hid d p hd hp
    · obtain ⟨phase, hok⟩ := hacc.instruction pre i b hab
      rw [hf.equation i (by rw [hab]; simp) id hid] at hp
      cases hstep : env.step plan f i.body with
      | error fault =>
        rw [hstep] at hp
        cases hp
      | ok q =>
        rw [hstep] at hp
        obtain rfl := Option.some.inj hp
        exact step_described hok (ih _ hab) hstep hid hd

/-- **Whatever can be computed keeps to the descriptors.** -/
theorem Outcome.described (hacc : Accepted plan spec) (hf : Outcome plan env f) :
    f.Described plan env.polyDegree plan.definitions :=
  hf.described_prefix hacc plan.instructions [] (List.append_nil _).symm

/-- **An evaluation keeps to the descriptors**: if the external inputs match theirs,
    every payload does. -/
theorem Solution.described (hacc : Accepted plan spec) (hf : Solution plan env f)
    (hinputs : env.InputsDescribed plan) : f.Described plan env.polyDegree plan.definitions :=
  (hf.outcome hinputs).described hacc

/-- **A successful evaluation of an accepted plan gives every value a payload that
    `validate_value` accepts**, if it accepts the external inputs. -/
theorem evaluate_described {loaded : LoadedOperatorSpec} {skip : Bool} {req : PlanRequirements}
    (hv : verify plan loaded skip = .ok req)
    (hinputs : ∀ id ∈ plan.externalInputs, ∀ d, plan.desc? id = some d →
      validateValue env.polyDegree (.ready (env.inputs id)) d = .ok ())
    (he : plan.evaluate env = .ok f) :
    ∀ d ∈ plan.values, ∃ p, f d.id = some p ∧
      validateValue env.polyDegree (.ready p) d = .ok () := by
  have hacc := verify_accepted hv
  have hf := solution_of_evaluate hacc he
  have hinputs' : env.InputsDescribed plan := fun id hid d hd =>
    validateValue_eq_ok.1 (hinputs id hid d hd)
  intro d hd
  have hdef := hacc.defined d hd
  obtain ⟨p, hp⟩ := hf.isSome hdef
  obtain ⟨d', hd'⟩ := Option.isSome_iff_exists.1 (hacc.described d.id hdef)
  obtain rfl : d' = d := List.inj_on_of_nodup_map hacc.ids_nodup (RuntimePlan.desc?_mem hd') hd
    (RuntimePlan.desc?_id hd')
  exact ⟨p, hp, validateValue_eq_ok.2 (hf.described hacc hinputs' d'.id hdef d' p hd' hp)⟩

end

omit [DoubleArith] in
/-- The fan-out plan on one device. -/
theorem evaluate_described_fanoutPlan :
    let plan := (fanoutPlan [1] ⟨.device, 0, 0⟩ []).plan
    let env : EvalContext := ⟨8, fun _ => none, fun id =>
      if id = 0 then ⟨.ciphertext, [0#64], ⟨"ctx", 8, 3, 1, true, 2⟩⟩
      else ⟨.plaintext, [0#64], ⟨"ctx", 8, 3, 1, true, 1⟩⟩⟩
    ∃ f, @RuntimePlan.evaluate zeroArith plan env = .ok f ∧ ∀ d ∈ plan.values,
      ∃ p, f d.id = some p ∧ validateValue 8 (.ready p) d = .ok () := by
  intro plan env
  let := zeroArith
  have hv : verify plan makeTestOperatorSpec false = .ok ⟨[.transfer], []⟩ := by decide
  have hok : (plan.evaluate env).toBool = true := by decide +kernel
  obtain ⟨f, he⟩ : ∃ f, plan.evaluate env = .ok f := by
    cases he : plan.evaluate env with
    | ok f => exact ⟨f, rfl⟩
    | error fault =>
      rw [he] at hok
      cases hok
  refine ⟨f, he, evaluate_described hv ?_ he⟩
  intro id hid d hd
  rcases List.mem_pair.1 hid with rfl | rfl
  · obtain rfl := Option.some.inj hd
    rfl
  · obtain rfl := Option.some.inj hd
    rfl

end CkksRuntime
