/-
  ckks-runtime formalization — what acceptance by the verifier says.

  * `EncodeOk`, `ComputeOk`, `CommOk`: what one accepted instruction satisfies,
    given the values defined before it;
  * `checkList_spec`: a successful pass over an instruction list, by induction
    over the list, with the invariant `Tracks` tying the sets of `check_list` to
    the instructions already passed;
  * `Accepted`: the facts about a whole accepted plan, which every later module
    uses in place of the verifier (`verify_accepted`);
  * `PlanInvariants`: the declarative plan invariants (`verify_planInvariants`).
-/
import CkksRuntime.Verifier
import CkksRuntime.Fanout

namespace CkksRuntime

/-- The values defined by a list of instructions, in order. -/
def definedBy (list : List Instruction) : List ValueId :=
  list.flatMap fun i => i.body.outputs

/-- The communication action of an instruction. -/
def Instruction.action? (i : Instruction) : Option CommAction :=
  match i.body with
  | .comm action => some action
  | _ => none

/-- The compute operation of an instruction. -/
def Instruction.compute? (i : Instruction) : Option ComputeOp :=
  match i.body with
  | .compute op => some op
  | _ => none

/-- The compute operations of a list of instructions, in order. -/
def computesOf (list : List Instruction) : List ComputeOp :=
  list.filterMap Instruction.compute?

/-- The communication actions of a list of instructions, in order. -/
def actionsOf (list : List Instruction) : List CommAction :=
  list.filterMap Instruction.action?

@[simp] theorem definedBy_nil : definedBy [] = [] := rfl

@[simp] theorem definedBy_append (l l' : List Instruction) :
    definedBy (l ++ l') = definedBy l ++ definedBy l' := by simp [definedBy]

@[simp] theorem definedBy_singleton (i : Instruction) : definedBy [i] = i.body.outputs := by
  simp [definedBy]

@[simp] theorem actionsOf_nil : actionsOf [] = [] := rfl

@[simp] theorem actionsOf_append (l l' : List Instruction) :
    actionsOf (l ++ l') = actionsOf l ++ actionsOf l' := by simp [actionsOf]

theorem mem_actionsOf {l : List Instruction} {a : CommAction} :
    a ∈ actionsOf l ↔ ∃ i ∈ l, i.body = .comm a := by
  simp only [actionsOf, List.mem_filterMap]
  refine exists_congr fun i => and_congr_right fun _ => ?_
  unfold Instruction.action?
  cases i.body <;> simp

theorem mem_computesOf {l : List Instruction} {op : ComputeOp} :
    op ∈ computesOf l ↔ ∃ i ∈ l, i.body = .compute op := by
  simp only [computesOf, List.mem_filterMap]
  refine exists_congr fun i => and_congr_right fun _ => ?_
  unfold Instruction.compute?
  cases i.body <;> simp

theorem RuntimePlan.definitions_eq (plan : RuntimePlan) :
    plan.definitions = plan.externalInputs ++ definedBy plan.instructions := rfl

theorem RuntimePlan.actions_eq (plan : RuntimePlan) : plan.actions = actionsOf plan.instructions :=
  rfl

theorem forall₂_mem_left {α β : Type} {R : α → β → Prop} {l : List α} {l' : List β}
    (h : List.Forall₂ R l l') {a : α} (ha : a ∈ l) : ∃ b ∈ l', R a b := by
  induction h with
  | nil => simp at ha
  | cons hab _ ih =>
    rcases List.mem_cons.1 ha with rfl | ha
    · exact ⟨_, by simp, hab⟩
    · obtain ⟨b, hb, hab⟩ := ih ha; exact ⟨b, by simp [hb], hab⟩

theorem map_eq_of_forall₂ {α β γ : Type} {R : α → β → Prop} {f : α → γ} {g : β → γ} {l : List α}
    {l' : List β} (h : List.Forall₂ R l l') (hR : ∀ a b, R a b → f a = g b) :
    l.map f = l'.map g := by
  induction h with
  | nil => rfl
  | cons hab _ ih => rw [List.map_cons, List.map_cons, hR _ _ hab, ih]

/-- An element of a concatenation lies in one of the two parts. -/
theorem append_eq_split {α : Type} {l l' a b : List α} {i : α} (h : l ++ l' = a ++ i :: b) :
    (∃ b', l = a ++ i :: b') ∨ ∃ a', a = l ++ a' ∧ l' = a' ++ i :: b := by
  rcases List.append_eq_append_iff.1 h with ⟨a', rfl, ha'⟩ | ⟨c, rfl, hc⟩
  · exact Or.inr ⟨a', rfl, ha'⟩
  · cases c with
    | nil => exact Or.inr ⟨[], by simp, by simpa using hc.symm⟩
    | cons x c => obtain ⟨rfl, -⟩ := List.cons.inj hc; exact Or.inl ⟨c, rfl⟩

/-! ## Descriptors -/

theorem RuntimePlan.desc?_id {plan : RuntimePlan} {id : ValueId} {d : ValueDesc}
    (h : plan.desc? id = some d) : d.id = id := by
  simpa using List.find?_some h

theorem RuntimePlan.desc?_mem {plan : RuntimePlan} {id : ValueId} {d : ValueDesc}
    (h : plan.desc? id = some d) : d ∈ plan.values := List.mem_of_find?_eq_some h

theorem RuntimePlan.desc?_isSome {plan : RuntimePlan} {id : ValueId} :
    (plan.desc? id).isSome ↔ id ∈ plan.values.map (·.id) := by
  simp [desc?, List.find?_isSome]

namespace PlanVerifier

theorem lookup_eq_ok {descs : DescMap} {id : ValueId} {w : String} {d : ValueDesc} :
    lookup descs id w = .ok d ↔ descs.find id = some d := by
  unfold lookup; cases descs.find id <;> simp

theorem define_eq_ok {st st' : CheckState} {id : ValueId} {m : String} :
    st.define id m = .ok st' ↔ id ∉ st.defined ∧ st' = { st with defined := insert id st.defined } := by
  unfold CheckState.define
  split_ifs with h
  · simp [h]
  · simp [h, eq_comm]

/-- The metadata agreement tested by `same_metadata`. -/
theorem sameMetadata_iff {a b : ValueDesc} :
    sameMetadata a b = true ↔ a.kind = b.kind ∧ a.context = b.context ∧ a.level = b.level ∧
      a.scaleLog2 = b.scaleLog2 ∧ a.ntt = b.ntt ∧ a.components = b.components := by
  simp [sameMetadata, and_assoc]

/-! ## The values -/

/-- What one accepted descriptor satisfies. -/
structure ValueOk (plan : RuntimePlan) (spec : OperatorSpec) (v : ValueDesc) : Prop where
  place : checkPlace plan v.place = .ok ()
  context : v.context = spec.contextId
  level : spec.levelLowerBound ≤ v.level ∧ v.level ≤ spec.levelUpperBound
  scale : ∃ budget, modulusBudget spec v.level = .ok budget ∧ v.scaleLog2.toInt < budget
  plaintext : v.kind = .plaintext → v.components = 1
  ciphertext : v.kind = .ciphertext → 2 ≤ v.components

theorem checkValue_eq_ok {plan : RuntimePlan} {spec : OperatorSpec} {descs descs' : DescMap}
    {v : ValueDesc} (h : checkValue plan spec descs v = .ok descs') :
    descs' = descs ++ [v] ∧ v.id ∉ descs.map (·.id) ∧ ValueOk plan spec v := by
  simp only [checkValue, bind_eq_ok, failIf_eq_ok, exists_and_left, exists_const,
    pure_eq_ok] at h
  obtain ⟨⟨⟩, hp, hd, hc, hl, budget, hb, hs, h1, h2, rfl⟩ := h
  refine ⟨rfl, ?_, hp, by simpa using hc, ?_, ⟨budget, hb, by omega⟩, ?_, ?_⟩
  · simpa [DescMap.find, List.find?_isSome] using hd
  · simpa [not_or, Int32.not_lt] using hl
  · intro hk; by_contra hne; exact h1 ⟨hk, hne⟩
  · intro hk; by_contra hne; exact h2 ⟨hk, Int32.not_le.1 hne⟩

theorem checkValues_eq_ok {plan : RuntimePlan} {spec : OperatorSpec} {vs : List ValueDesc} :
    ∀ {descs descs' : DescMap}, vs.foldlM (checkValue plan spec) descs = .ok descs' →
      (descs.map (·.id)).Nodup →
      descs' = descs ++ vs ∧ ((descs ++ vs).map (·.id)).Nodup ∧ ∀ v ∈ vs, ValueOk plan spec v := by
  induction vs with
  | nil => intro descs descs' h hn; simp_all [pure, Except.pure]
  | cons v vs ih =>
    intro descs descs' h hn
    obtain ⟨d, hv, h⟩ := foldlM_cons_eq_ok.1 h
    obtain ⟨rfl, hid, hok⟩ := checkValue_eq_ok hv
    have hn' : ((descs ++ [v]).map (·.id)).Nodup := by
      rw [List.map_append, List.nodup_append]
      refine ⟨hn, by simp, ?_⟩
      rintro a ha b hb rfl
      rw [List.map_singleton, List.mem_singleton] at hb
      exact hid (hb ▸ ha)
    obtain ⟨rfl, hn'', hall⟩ := ih h hn'
    refine ⟨by simp, by simpa using hn'', ?_⟩
    rintro w (_ | ⟨_, hw⟩)
    · exact hok
    · exact hall w hw

/-! ## One instruction -/

/-- An accepted Encode, when `defs` are the values defined before it. -/
structure EncodeOk (plan : RuntimePlan) (spec : OperatorSpec) (phase : Phase)
    (defs : List ValueId) (op : EncodeOp) : Prop where
  phase_eq : phase = .initialization
  desc : ∃ d, plan.desc? op.output = some d ∧ d.kind = .plaintext ∧ d.place.kind = .host ∧
    d.components = 1
  fresh : op.output ∉ defs
  inline : ∀ values, op.payload = .inline values →
    values ≠ [] ∧ values.length ≤ spec.polyDegree / 2

/-- An accepted compute instruction. -/
structure ComputeOk (plan : RuntimePlan) (spec : OperatorSpec) (defs : List ValueId)
    (op : ComputeOp) : Prop where
  place : checkPlace plan op.place = .ok ()
  uses : ∀ id ∈ op.inputs, id ∈ defs
  fresh : op.output ∉ defs
  metadata : verifyComputeMetadata op plan.values = .ok ()
  support : ∃ s, spec.operator? op.kind = some s ∧ s.supported = true

/-- One output of an accepted communication action with source `d`. -/
structure OutputOk (plan : RuntimePlan) (d : ValueDesc) (out : ValueId) (p : Place) : Prop where
  place : checkPlace plan p = .ok ()
  desc : ∃ d', plan.desc? out = some d' ∧ d'.place = p ∧ sameMetadata d d' = true

/-- An accepted communication action with input `id` described by `d`; `ids`
    are the TransferIds before it. -/
structure CommOk (plan : RuntimePlan) (defs : List ValueId) (ids : List TransferId)
    (action : CommAction) (id : ValueId) (d : ValueDesc) : Prop where
  fresh_id : action.id ∉ ids
  inputs : action.inputs = [id]
  desc : plan.desc? id = some d
  sources : action.sources = [d.place]
  source_place : checkPlace plan d.place = .ok ()
  uses : id ∈ defs
  outputs : List.Forall₂ (OutputOk plan d) action.outputs action.destinations
  types : action.outputTypes = action.outputs.map fun _ => d.kind
  fresh : ∀ out ∈ action.outputs, out ∉ defs
  outputs_nodup : action.outputs.Nodup
  destinations_nodup : action.destinations.Nodup
  away : d.place ∉ action.destinations
  transfer : action.kind = .transfer → action.outputs.length = 1
  replicate : action.kind = .replicate → 2 ≤ action.outputs.length

/-- What one accepted instruction satisfies. -/
def InstructionOk (plan : RuntimePlan) (spec : OperatorSpec) (phase : Phase) (pre : List Instruction)
    (i : Instruction) : Prop :=
  i.ordinal = pre.length ∧
    match i.body with
    | .encode op => EncodeOk plan spec phase (plan.externalInputs ++ definedBy pre) op
    | .compute op => ComputeOk plan spec (plan.externalInputs ++ definedBy pre) op
    | .comm action => ∃ id d, CommOk plan (plan.externalInputs ++ definedBy pre)
        ((actionsOf pre).map (·.id)) action id d

/-- The sets of `check_list` after the instructions `pre`. -/
structure Tracks (plan : RuntimePlan) (pre : List Instruction) (st : CheckState) : Prop where
  ordinal : st.expectedOrdinal = pre.length
  defined : st.defined = (plan.externalInputs ++ definedBy pre).toFinset
  mentioned : st.mentioned ⊆ st.defined
  described : ∀ id ∈ st.defined, (plan.desc? id).isSome
  transfers : st.transfers = ((actionsOf pre).map (·.id)).toFinset
  bundle : st.hasBundleEncode = false →
    ∀ i ∈ pre, ∀ op content, i.body = .encode op → op.payload ≠ .bundle content

variable {plan : RuntimePlan} {spec : OperatorSpec}

/-- The only effect of the checks on one external input. -/
theorem checkExternalInput_eq_ok {descs : DescMap} {st st' : CheckState} {id : ValueId}
    (h : checkExternalInput descs st id = .ok st') :
    (∃ d, descs.find id = some d ∧ d.place.kind = .host) ∧ id ∉ st.defined ∧
      st' = { st with mentioned := insert id st.mentioned, defined := insert id st.defined } := by
  simp only [checkExternalInput, bind_eq_ok, failIf_eq_ok, define_eq_ok, lookup_eq_ok,
    exists_and_left, exists_const] at h
  obtain ⟨d, hd, hh, hid, rfl⟩ := h
  exact ⟨⟨d, hd, not_not.1 hh⟩, hid, rfl⟩

theorem checkExternalInputs_eq_ok {ids : List ValueId} :
    ∀ {st st' : CheckState}, ids.foldlM (checkExternalInput plan.values) st = .ok st' →
      ids.Nodup ∧ (∀ id ∈ ids, id ∉ st.defined) ∧
      (∀ id ∈ ids, ∃ d, plan.desc? id = some d ∧ d.place.kind = .host) ∧
      st' = { st with mentioned := ids.toFinset ∪ st.mentioned,
                      defined := ids.toFinset ∪ st.defined } := by
  induction ids with
  | nil => intro st st' h; simp_all [pure, Except.pure]
  | cons id ids ih =>
    intro st st' h
    obtain ⟨st₁, hid, h⟩ := foldlM_cons_eq_ok.1 h
    obtain ⟨hd, hnew, rfl⟩ := checkExternalInput_eq_ok hid
    obtain ⟨hn, hfresh, hdesc, rfl⟩ := ih h
    simp only [Finset.mem_insert, not_or] at hfresh
    refine ⟨List.nodup_cons.2 ⟨fun hm => (hfresh id hm).1 rfl, hn⟩, ?_, ?_, ?_⟩
    · rintro id' (_ | ⟨_, hm⟩)
      exacts [hnew, (hfresh id' hm).2]
    · rintro id' (_ | ⟨_, hm⟩)
      exacts [hd, hdesc id' hm]
    · simp [Finset.union_insert]

/-! ### Encode -/

theorem checkEncode_eq_ok {phase : Phase} {op : EncodeOp} {st st' : CheckState}
    (h : checkEncode spec plan.values phase op st = .ok st') {defs : List ValueId}
    (hd : st.defined = defs.toFinset) :
    EncodeOk plan spec phase defs op ∧ st'.expectedOrdinal = st.expectedOrdinal ∧
      st'.mentioned = insert op.output st.mentioned ∧
      st'.defined = insert op.output st.defined ∧ st'.transfers = st.transfers ∧
      (st'.hasBundleEncode = false →
        st.hasBundleEncode = false ∧ ∀ content, op.payload ≠ .bundle content) := by
  simp only [checkEncode, bind_eq_ok, failIf_eq_ok, define_eq_ok, lookup_eq_ok,
    exists_and_left, exists_const] at h
  obtain ⟨hphase, d, hdesc, hk, st₁, ⟨hfresh, rfl⟩, h⟩ := h
  have hid : d.id = op.output := RuntimePlan.desc?_id hdesc
  simp only [CheckState.mention, hid] at hfresh h
  have hkind : d.kind = .plaintext ∧ d.place.kind = .host ∧ d.components = 1 := by
    refine ⟨?_, ?_, ?_⟩ <;> by_contra hne <;> exact hk (by simp [hne])
  have hok : ∀ hi, EncodeOk plan spec phase defs op :=
    fun hi => ⟨not_not.1 hphase, ⟨d, hdesc, hkind⟩, by simpa [hd] using hfresh, hi⟩
  cases hp : op.payload with
  | inline values =>
    simp only [hp, bind_eq_ok, failIf_eq_ok, exists_const, pure_eq_ok] at h
    obtain ⟨hne, hle, rfl⟩ := h
    refine ⟨hok fun vs hvs => ?_, rfl, rfl, rfl, rfl, fun hb => ⟨hb, by simp⟩⟩
    cases hp.symm.trans hvs
    exact ⟨by simpa [List.isEmpty_iff] using hne, by omega⟩
  | bundle content =>
    simp only [hp, pure_eq_ok] at h
    subst h
    exact ⟨hok fun vs hvs => by simp [hp] at hvs, rfl, rfl, rfl, rfl, fun hb => by simp at hb⟩

/-! ### Compute -/

theorem checkUses_eq_ok {ids : List ValueId} :
    ∀ {st st' : CheckState}, ids.foldlM checkUse st = .ok st' →
      (∀ id ∈ ids, id ∈ st.defined) ∧ st' = { st with mentioned := ids.toFinset ∪ st.mentioned } := by
  induction ids with
  | nil => intro st st' h; simp_all [pure, Except.pure]
  | cons id ids ih =>
    intro st st' h
    obtain ⟨st₁, hid, h⟩ := foldlM_cons_eq_ok.1 h
    simp only [checkUse, bind_eq_ok, failIf_eq_ok, exists_const, pure_eq_ok, not_not] at hid
    obtain ⟨hdef, rfl⟩ := hid
    obtain ⟨hall, rfl⟩ := ih h
    refine ⟨?_, by simp [CheckState.mention, Finset.union_insert]⟩
    rintro id' (_ | ⟨_, hm⟩)
    exacts [hdef, hall id' hm]

/-- The operation's own requirements only add capabilities and keys. -/
theorem checkOperation_eq_ok {descs : DescMap} {op : ComputeOp} {support : OperatorSupport}
    {st st' : CheckState} (h : checkOperation spec descs op support st = .ok st') :
    st'.expectedOrdinal = st.expectedOrdinal ∧ st'.mentioned = st.mentioned ∧
      st'.defined = st.defined ∧ st'.transfers = st.transfers ∧
      st'.hasBundleEncode = st.hasBundleEncode := by
  cases hk : op.kind with
  | rotate =>
    cases ha : op.attrs with
    | rotate attrs =>
      simp only [checkOperation, hk, ha, bind_eq_ok, pure_eq_ok] at h
      obtain ⟨step, -, rfl⟩ := h; exact ⟨rfl, rfl, rfl, rfl, rfl⟩
    | _ => simp [checkOperation, hk, ha] at h
  | relinearize =>
    simp only [checkOperation, hk, Except.ok.injEq] at h
    subst h; exact ⟨rfl, rfl, rfl, rfl, rfl⟩
  | rescale =>
    cases ha : op.attrs with
    | rescale attrs =>
      simp only [checkOperation, hk, ha, bind_eq_ok] at h
      obtain ⟨_, -, input, -, h⟩ := h
      cases hm : support.maxLevelsPerOp with
      | none => simp [hm] at h
      | some m =>
        simp only [hm, bind_eq_ok, pure_eq_ok] at h
        obtain ⟨_, -, _, -, rfl⟩ := h; exact ⟨rfl, rfl, rfl, rfl, rfl⟩
    | _ => simp [checkOperation, hk, ha] at h
  | boot =>
    cases ha : op.attrs with
    | boot attrs =>
      simp only [checkOperation, hk, ha, bind_eq_ok] at h
      obtain ⟨profile, -, _, -, input, -, _, -, h⟩ := h
      cases hi : attrs.implementation with
      | native => rw [hi] at h; cases h; exact ⟨rfl, rfl, rfl, rfl, rfl⟩
      | decryptReencrypt => rw [hi] at h; cases h; exact ⟨rfl, rfl, rfl, rfl, rfl⟩
    | _ => simp [checkOperation, hk, ha] at h
  | _ =>
    simp only [checkOperation, hk, Except.ok.injEq] at h
    subst h; exact ⟨rfl, rfl, rfl, rfl, rfl⟩

theorem checkCompute_eq_ok {op : ComputeOp} {st st' : CheckState}
    (h : checkCompute plan spec plan.values op st = .ok st') {defs : List ValueId}
    (hd : st.defined = defs.toFinset) :
    ComputeOk plan spec defs op ∧ st'.expectedOrdinal = st.expectedOrdinal ∧
      st'.mentioned = insert op.output (op.inputs.toFinset ∪ st.mentioned) ∧
      st'.defined = insert op.output st.defined ∧ st'.transfers = st.transfers ∧
      st'.hasBundleEncode = st.hasBundleEncode := by
  simp only [checkCompute, bind_eq_ok, define_eq_ok] at h
  obtain ⟨_, hplace, st₁, huses, st₂, ⟨hfresh, rfl⟩, _, hmeta, h⟩ := h
  obtain ⟨hall, rfl⟩ := checkUses_eq_ok huses
  cases hs : spec.operator? op.kind with
  | none => simp [hs] at h
  | some support =>
    simp only [hs, bind_eq_ok, failIf_eq_ok, exists_and_left, exists_const, not_not] at h
    obtain ⟨hsup, h⟩ := h
    obtain ⟨h1, h2, h3, h4, h5⟩ := checkOperation_eq_ok h
    refine ⟨⟨hplace, fun id hid => by simpa [hd] using hall id hid, ?_, hmeta,
      support, hs, hsup⟩, ?_⟩
    · simpa [CheckState.mention, hd] using hfresh
    · rw [h1, h2, h3, h4, h5]
      split_ifs <;> exact ⟨rfl, rfl, rfl, rfl, rfl⟩

/-! ### Communication -/

theorem checkCommOutput_eq_ok {action : CommAction} {d : ValueDesc}
    {st st' : CheckState × Finset Place} {i : ℕ}
    (h : checkCommOutput plan plan.values action d st i = .ok st') :
    ∃ out p, action.outputs[i]? = some out ∧ action.destinations[i]? = some p ∧
      action.outputTypes[i]? = some d.kind ∧ OutputOk plan d out p ∧ p ≠ d.place ∧ p ∉ st.2 ∧
      out ∉ st.1.defined ∧
      st' = ({ st.1 with mentioned := insert out st.1.mentioned,
                         defined := insert out st.1.defined }, insert p st.2) := by
  simp only [checkCommOutput, bind_eq_ok, failIf_eq_ok, exists_and_left, exists_const,
    index_eq_ok, lookup_eq_ok, define_eq_ok, pure_eq_ok] at h
  obtain ⟨p, hp, _, hplace, hne, hseen, out, hout, d', hd', hpl, type, htype, hmeta, st₁,
    ⟨hfresh, rfl⟩, rfl⟩ := h
  have hid : d'.id = out := RuntimePlan.desc?_id hd'
  simp only [not_or, not_not] at hpl hmeta
  refine ⟨out, p, hout, hp, hmeta.1 ▸ htype, ⟨hplace, d', hd', hpl, hmeta.2⟩, hne, hseen, ?_, ?_⟩
  · simpa [hid, CheckState.mention] using hfresh
  · simp [hid, CheckState.mention]

/-- The first `n` rounds of the output loop. -/
theorem checkCommOutputs_eq_ok {action : CommAction} {d : ValueDesc} {st : CheckState}
    {st' : CheckState × Finset Place} (n : ℕ)
    (h : (List.range n).foldlM (checkCommOutput plan plan.values action d) (st, ∅) = .ok st') :
    List.Forall₂ (OutputOk plan d) (action.outputs.take n) (action.destinations.take n) ∧
      action.outputTypes.take n = (action.outputs.take n).map (fun _ => d.kind) ∧
      (∀ out ∈ action.outputs.take n, out ∉ st.defined) ∧
      (action.outputs.take n).Nodup ∧ (action.destinations.take n).Nodup ∧
      d.place ∉ action.destinations.take n ∧
      st' = ({ st with mentioned := (action.outputs.take n).toFinset ∪ st.mentioned,
                       defined := (action.outputs.take n).toFinset ∪ st.defined },
              (action.destinations.take n).toFinset) := by
  induction n generalizing st' with
  | zero => simp_all [pure, Except.pure]
  | succ n ih =>
    rw [List.range_succ, foldlM_append_eq_ok] at h
    obtain ⟨st₁, h₁, h₂⟩ := h
    obtain ⟨hall, htypes, hfresh, hn, hdn, haway, rfl⟩ := ih h₁
    obtain ⟨_, hi, h₃⟩ := foldlM_cons_eq_ok.1 h₂
    cases h₃
    obtain ⟨out, p, hout, hp, htype, hok, hne, hseen, hnew, rfl⟩ := checkCommOutput_eq_ok hi
    simp only [List.take_add_one, hout, hp, htype, Option.toList_some, List.mem_append,
      List.mem_singleton, not_or, List.map_append, List.map_singleton, List.toFinset_append]
    simp only [Finset.mem_union, List.mem_toFinset, not_or] at hseen hnew
    refine ⟨List.rel_append hall (.cons hok .nil), by rw [htypes], ?_, ?_, ?_, ⟨haway, hne.symm⟩, ?_⟩
    · rintro x (hx | rfl)
      exacts [hfresh x hx, hnew.2]
    · exact List.nodup_append.2 ⟨hn, by simp, by rintro a ha b hb rfl; simp_all⟩
    · exact List.nodup_append.2 ⟨hdn, by simp, by rintro a ha b hb rfl; simp_all⟩
    · refine Prod.ext ?_ ?_
      · show CheckState.mk _ _ _ _ _ _ _ = CheckState.mk _ _ _ _ _ _ _
        congr 1 <;> (ext x; simp)
      · ext x; simp

theorem checkComm_eq_ok {action : CommAction} {st st' : CheckState}
    (h : checkComm plan plan.values action st = .ok st') {defs : List ValueId}
    {ids : List TransferId} (hd : st.defined = defs.toFinset) (ht : st.transfers = ids.toFinset) :
    (∃ id d, CommOk plan defs ids action id d ∧ id ∈ st.defined ∧
      st'.mentioned = action.outputs.toFinset ∪ insert id st.mentioned) ∧
      st'.expectedOrdinal = st.expectedOrdinal ∧
      st'.defined = action.outputs.toFinset ∪ st.defined ∧
      st'.transfers = insert action.id st.transfers ∧ st'.hasBundleEncode = st.hasBundleEncode := by
  simp only [checkComm, bind_eq_ok, failIf_eq_ok, exists_and_left, exists_const,
    index_eq_ok, lookup_eq_ok, pure_eq_ok, not_or, not_not] at h
  obtain ⟨hid, ⟨hin, hsrc⟩, id, hid0, hdef, d, hdesc, p, hp0, _, hplace, hpd, ⟨hdl, htl⟩, htr,
    hrep, r, hr, rfl⟩ := h
  subst hpd
  obtain ⟨id', hinputs⟩ := List.length_eq_one_iff.1 hin
  obtain ⟨p', hsources⟩ := List.length_eq_one_iff.1 hsrc
  obtain rfl : id' = id := by simpa [hinputs] using hid0
  obtain rfl : p' = d.place := by simpa [hsources] using hp0
  obtain ⟨hall, htypes, hfresh, hn, hdn, haway, rfl⟩ := checkCommOutputs_eq_ok _ hr
  rw [List.take_of_length_le le_rfl] at htypes hn hfresh
  rw [List.take_of_length_le (by omega)] at hdn haway htypes
  rw [List.take_of_length_le le_rfl, List.take_of_length_le (by omega)] at hall
  rw [List.take_of_length_le (le_refl action.outputs.length)]
  refine ⟨⟨id', d, ⟨?_, hinputs, hdesc, hsources, hplace, ?_, hall, htypes, ?_, hn, hdn, haway,
    ?_, ?_⟩, ?_, rfl⟩, rfl, rfl, rfl, rfl⟩
  · simpa [ht] using hid
  · have : id' ∈ st.defined := hdef
    simpa [hd] using this
  · intro out hout
    have : out ∉ st.defined := hfresh out hout
    simpa [hd] using this
  · intro hk; by_contra hne; exact htr ⟨hk, hne⟩
  · intro hk; by_contra hne; exact hrep ⟨hk, by omega⟩
  · exact hdef

/-! ## The instruction list -/

/-- One instruction keeps the sets of `check_list` in step with the
    instructions passed. -/
theorem Tracks.step {phase : Phase} {pre : List Instruction} {i : Instruction}
    {st st' : CheckState} (ht : Tracks plan pre st)
    (h : checkInstruction plan spec plan.values phase st i = .ok st') :
    InstructionOk plan spec phase pre i ∧ Tracks plan (pre ++ [i]) st' := by
  simp only [checkInstruction, bind_eq_ok, failIf_eq_ok, exists_const, not_not] at h
  obtain ⟨hord, h⟩ := h
  have hlen : (pre ++ [i]).length = pre.length + 1 := by simp
  have hpos : i.ordinal = pre.length := hord.trans ht.ordinal
  have hmem : ∀ {id}, id ∈ st.defined → (plan.desc? id).isSome := fun {id} => ht.described id
  have hact : actionsOf [i] = i.action?.toList := by
    unfold actionsOf; cases hi : i.action? <;> simp [hi]
  cases hb : i.body with
  | encode op =>
    rw [hb] at h
    obtain ⟨hok, h1, h2, h3, h4, h5⟩ := checkEncode_eq_ok h ht.defined
    obtain ⟨d, hdesc, -⟩ := hok.desc
    refine ⟨⟨hpos, by rw [hb]; exact hok⟩, ?_, ?_, ?_, ?_, ?_, ?_⟩
    · rw [h1, hlen, ← ht.ordinal]
    · rw [h3, ht.defined]; ext x; simp [hb, InstructionBody.outputs]
    · rw [h2, h3]; exact Finset.insert_subset_insert _ ht.mentioned
    · rw [h3]; intro id hid
      rcases Finset.mem_insert.1 hid with rfl | hid
      exacts [by simp [hdesc], hmem hid]
    · rw [h4, actionsOf_append, hact]; simpa [Instruction.action?, hb] using ht.transfers
    · intro hbun j hj op' content hjop
      obtain ⟨hbun, hno⟩ := h5 hbun
      rcases List.mem_append.1 hj with hj | hj
      · exact ht.bundle hbun j hj op' content hjop
      · obtain rfl := List.mem_singleton.1 hj
        cases hb.symm.trans hjop; exact hno content
  | compute op =>
    rw [hb] at h
    obtain ⟨hok, h1, h2, h3, h4, h5⟩ := checkCompute_eq_ok h ht.defined
    have hdesc : (plan.desc? op.output).isSome := by
      have := hok.metadata
      simp only [verifyComputeMetadata, bind_eq_ok, lookup_eq_ok] at this
      obtain ⟨_, -, _, -, d, hd, -⟩ := this
      show (plan.desc? op.output).isSome
      rw [show plan.desc? op.output = some d from hd]; rfl
    refine ⟨⟨hpos, by rw [hb]; exact hok⟩, ?_, ?_, ?_, ?_, ?_, ?_⟩
    · rw [h1, hlen, ← ht.ordinal]
    · rw [h3, ht.defined]; ext x; simp [hb, InstructionBody.outputs]
    · rw [h2, h3]
      refine Finset.insert_subset_insert _ (Finset.union_subset (fun id hid => ?_) ht.mentioned)
      have := hok.uses id (List.mem_toFinset.1 hid)
      simpa [ht.defined] using this
    · rw [h3]; intro id hid
      rcases Finset.mem_insert.1 hid with rfl | hid
      exacts [hdesc, hmem hid]
    · rw [h4, actionsOf_append, hact]; simpa [Instruction.action?, hb] using ht.transfers
    · rw [h5]; intro hbun j hj op' content hjop
      rcases List.mem_append.1 hj with hj | hj
      · exact ht.bundle hbun j hj op' content hjop
      · obtain rfl := List.mem_singleton.1 hj
        cases hb.symm.trans hjop
  | comm action =>
    rw [hb] at h
    obtain ⟨⟨id, d, hok, hid, h2⟩, h1, h3, h4, h5⟩ := checkComm_eq_ok h ht.defined ht.transfers
    refine ⟨⟨hpos, by rw [hb]; exact ⟨id, d, hok⟩⟩, ?_, ?_, ?_, ?_, ?_, ?_⟩
    · rw [h1, hlen, ← ht.ordinal]
    · rw [h3, ht.defined]; ext x; simp [hb, InstructionBody.outputs]; tauto
    · rw [h2, h3]
      exact Finset.union_subset_union le_rfl (Finset.insert_subset hid ht.mentioned)
    · rw [h3]; intro out hout
      rcases Finset.mem_union.1 hout with hout | hout
      · obtain ⟨p, -, -, d', hd', -⟩ := forall₂_mem_left hok.outputs (List.mem_toFinset.1 hout)
        simp [hd']
      · exact hmem hout
    · rw [h4, actionsOf_append, hact, ht.transfers]
      ext x; simp [Instruction.action?, hb]
    · rw [h5]; intro hbun j hj op' content hjop
      rcases List.mem_append.1 hj with hj | hj
      · exact ht.bundle hbun j hj op' content hjop
      · obtain rfl := List.mem_singleton.1 hj
        cases hb.symm.trans hjop

/-- **A successful pass over an instruction list**: the sets stay in step, and
    every instruction satisfies `InstructionOk` at its position. -/
theorem checkList_spec {phase : Phase} {list : List Instruction} :
    ∀ {pre : List Instruction} {st st' : CheckState}, Tracks plan pre st →
      checkList plan spec plan.values list phase st = .ok st' →
      Tracks plan (pre ++ list) st' ∧
        ∀ a i b, list = a ++ i :: b → InstructionOk plan spec phase (pre ++ a) i := by
  induction list with
  | nil =>
    intro pre st st' ht h
    cases h
    exact ⟨by simpa using ht, by simp⟩
  | cons j list ih =>
    intro pre st st' ht h
    obtain ⟨st₁, hj, h⟩ := foldlM_cons_eq_ok.1 h
    obtain ⟨hok, ht₁⟩ := ht.step hj
    obtain ⟨ht', hall⟩ := ih ht₁ h
    refine ⟨by simpa using ht', fun a i b hab => ?_⟩
    cases a with
    | nil => cases hab; simpa using hok
    | cons x a =>
      obtain ⟨rfl, hab'⟩ := List.cons.inj hab
      simpa using hall a i b hab'

/-! ## The whole plan -/

/-- The final outputs that passed. -/
theorem checkFinalOutputs_eq_ok {ids : List ValueId} :
    ∀ {st st' : CheckState × Finset ValueId},
      ids.foldlM (checkFinalOutput plan.values) st = .ok st' →
      ids.Nodup ∧ (∀ id ∈ ids, id ∉ st.2) ∧ (∀ id ∈ ids, id ∈ st.1.defined) ∧
      st'.1.mentioned = ids.toFinset ∪ st.1.mentioned := by
  induction ids with
  | nil => intro st st' h; simp_all [pure, Except.pure]
  | cons id ids ih =>
    intro st st' h
    obtain ⟨st₁, hid, h⟩ := foldlM_cons_eq_ok.1 h
    simp only [checkFinalOutput, bind_eq_ok, failIf_eq_ok, exists_const, pure_eq_ok, not_not]
      at hid
    obtain ⟨_, -, hdef, hnew, rfl⟩ := hid
    obtain ⟨hn, hfresh, hdefs, hm⟩ := ih h
    simp only [Finset.mem_insert, not_or] at hfresh
    refine ⟨List.nodup_cons.2 ⟨fun hmem => (hfresh id hmem).1 rfl, hn⟩, ?_, ?_, ?_⟩
    · rintro id' (_ | ⟨_, hmem⟩)
      exacts [hnew, (hfresh id' hmem).2]
    · rintro id' (_ | ⟨_, hmem⟩)
      exacts [hdef, hdefs id' hmem]
    · rw [hm]; ext x; simp [CheckState.mention]

/-- **What acceptance says about the whole plan.** -/
structure Accepted (plan : RuntimePlan) (spec : OperatorSpec) : Prop where
  world : 0 < plan.target.worldSize
  counts : plan.target.deviceCounts.length = plan.target.worldSize.toInt.toNat
  version : 0 < plan.target.capabilityVersion
  ids_nodup : (plan.values.map (·.id)).Nodup
  value : ∀ v ∈ plan.values, ValueOk plan spec v
  inputs_nodup : plan.externalInputs.Nodup
  input : ∀ id ∈ plan.externalInputs, ∃ d, plan.desc? id = some d ∧ d.place.kind = .host
  instruction : ∀ a i b, plan.instructions = a ++ i :: b → ∃ phase, InstructionOk plan spec phase a i
  encode_phase : ∀ i ∈ plan.execution ++ plan.finalization, ∀ op, i.body ≠ .encode op
  bundle : plan.plaintextBundle = none →
    ∀ i ∈ plan.instructions, ∀ op content, i.body = .encode op → op.payload ≠ .bundle content
  finals_ne : plan.finalOutputs ≠ []
  finals_nodup : plan.finalOutputs.Nodup
  final : ∀ id ∈ plan.finalOutputs, id ∈ plan.definitions
  described : ∀ id ∈ plan.definitions, (plan.desc? id).isSome
  defined : ∀ v ∈ plan.values, v.id ∈ plan.definitions

theorem not_encode_of_instructionOk {phase : Phase} {pre : List Instruction} {i : Instruction}
    (h : InstructionOk plan spec phase pre i) (hp : phase ≠ .initialization) (op : EncodeOp) :
    i.body ≠ .encode op := by
  intro hb
  have := h.2
  rw [hb] at this
  exact hp this.phase_eq

theorem checkHeader_eq_ok {loaded : LoadedOperatorSpec} {skip : Bool} {u : Unit}
    (h : checkHeader plan loaded skip = .ok u) :
    0 < plan.target.worldSize ∧
      plan.target.deviceCounts.length = plan.target.worldSize.toInt.toNat ∧
      0 < plan.target.capabilityVersion := by
  simp only [checkHeader, bind_eq_ok, failIf_eq_ok, exists_const, not_not] at h
  obtain ⟨-, -, -, hv, hw, hc, -⟩ := h
  exact ⟨Int32.not_le.1 hw, hc, Int32.not_le.1 hv⟩

/-- **Acceptance implies `Accepted`.** -/
theorem verify_accepted {loaded : LoadedOperatorSpec} {skip : Bool} {req : PlanRequirements}
    (h : verify plan loaded skip = .ok req) : Accepted plan loaded.spec := by
  simp only [verify, bind_eq_ok, failIf_eq_ok, exists_const, pure_eq_ok] at h
  obtain ⟨_, hheader, descs, hvalues, st₀, hinputs, st₁, hinit, st₂, hexec, st₃, hfin, hbundle,
    hne, r, hfinals, hcard, hall, -⟩ := h
  obtain ⟨rfl, hnodup, hvalue⟩ := checkValues_eq_ok hvalues (by simp)
  rw [List.nil_append] at *
  obtain ⟨hin, -, hdesc, rfl⟩ := checkExternalInputs_eq_ok hinputs
  have ht₀ : Tracks plan [] { ({} : CheckState) with
      mentioned := plan.externalInputs.toFinset ∪ ∅,
      defined := plan.externalInputs.toFinset ∪ ∅ } := by
    refine ⟨rfl, by simp, le_rfl, ?_, rfl, by simp⟩
    intro id hid
    obtain ⟨d, hd, -⟩ := hdesc id (by simpa using hid)
    simp [hd]
  obtain ⟨ht₁, hok₁⟩ := checkList_spec ht₀ hinit
  obtain ⟨ht₂, hok₂⟩ := checkList_spec ht₁ hexec
  obtain ⟨ht₃, hok₃⟩ := checkList_spec ht₂ hfin
  obtain ⟨hfn, -, hfd, hfm⟩ := checkFinalOutputs_eq_ok hfinals
  simp only [List.nil_append] at ht₁ ht₂ ht₃ hok₁ hok₂ hok₃
  have hinstr : plan.instructions = plan.initialization ++ plan.execution ++ plan.finalization := rfl
  have hdef : ∀ id, id ∈ st₃.defined ↔ id ∈ plan.definitions := by
    intro id; rw [ht₃.defined, RuntimePlan.definitions_eq, hinstr, List.mem_toFinset]
  obtain ⟨h1, h2, h3⟩ := checkHeader_eq_ok hheader
  refine ⟨h1, h2, h3, hnodup, hvalue, hin, hdesc, ?_, ?_, ?_, ?_, hfn, ?_, ?_, ?_⟩
  · intro a i b hab
    rw [hinstr, List.append_assoc] at hab
    rcases append_eq_split hab with ⟨b', hb'⟩ | ⟨a', rfl, hab'⟩
    · exact ⟨_, hok₁ a i b' hb'⟩
    rcases append_eq_split hab' with ⟨b', hb'⟩ | ⟨a'', rfl, hab''⟩
    · exact ⟨_, hok₂ a' i b' hb'⟩
    · exact ⟨_, by rw [← List.append_assoc]; exact hok₃ a'' i b hab''⟩
  · intro i hi op
    rcases List.mem_append.1 hi with hi | hi
    · obtain ⟨a, b, hab⟩ := List.append_of_mem hi
      exact not_encode_of_instructionOk (hok₂ a i b hab) (by decide) op
    · obtain ⟨a, b, hab⟩ := List.append_of_mem hi
      exact not_encode_of_instructionOk (hok₃ a i b hab) (by decide) op
  · intro hnone
    exact ht₃.bundle (by simpa [hnone] using hbundle)
  · simpa [List.isEmpty_iff] using hne
  · intro id hid; exact (hdef id).1 (hfd id hid)
  · intro id hid; exact ht₃.described id ((hdef id).2 hid)
  · intro v hv
    by_contra hnd
    refine hall ⟨v, hv, fun hm => hnd ?_⟩
    rw [hfm] at hm
    rcases Finset.mem_union.1 hm with hm | hm
    · exact (hdef _).1 (hfd _ (List.mem_toFinset.1 hm))
    · exact (hdef _).1 (ht₃.mentioned hm)

end PlanVerifier

/-! ## The plan invariants -/

/-- **The plan invariants**, over the concatenation of the three phases. -/
structure PlanInvariants (plan : RuntimePlan) : Prop where
  /-- the ordinals are `0, 1, …, n - 1` in order -/
  ordinals : plan.instructions.map (·.ordinal) = List.range plan.instructions.length
  ids_nodup : (plan.values.map (·.id)).Nodup
  /-- one definition for every descriptor, and no other definition -/
  definitions : ∀ id, plan.definitions.count id = if id ∈ plan.values.map (·.id) then 1 else 0
  /-- every use is an external input or the output of an earlier instruction -/
  dominance : ∀ i ∈ plan.instructions, ∀ id ∈ i.body.inputs, id ∈ plan.externalInputs ∨
    ∃ j ∈ plan.instructions, j.ordinal < i.ordinal ∧ id ∈ j.body.outputs
  finals_defined : ∀ id ∈ plan.finalOutputs, id ∈ plan.externalInputs ∨
    ∃ j ∈ plan.instructions, id ∈ j.body.outputs
  transfers_nodup : (plan.actions.map (·.id)).Nodup
  /-- operands and output of a compute instruction lie at its Place -/
  compute_place : ∀ i ∈ plan.instructions, ∀ op, i.body = .compute op →
    ∀ id ∈ op.output :: op.inputs, ∃ d, plan.desc? id = some d ∧ d.place = op.place
  /-- outputs of a communication lie at distinct Places away from the source
      and have its kind and metadata -/
  comm : ∀ i ∈ plan.instructions, ∀ action, i.body = .comm action →
    ∀ src ∈ action.inputs, ∃ d, plan.desc? src = some d ∧
      (action.outputs.map fun out => (plan.desc? out).map (·.place)).Nodup ∧
      ∀ out ∈ action.outputs, ∃ d', plan.desc? out = some d' ∧ d'.place ≠ d.place ∧
        d'.kind = d.kind ∧ d'.context = d.context ∧ d'.level = d.level ∧
        d'.scaleLog2 = d.scaleLog2 ∧ d'.ntt = d.ntt ∧ d'.components = d.components
  finals_ne : plan.finalOutputs ≠ []
  finals_nodup : plan.finalOutputs.Nodup

namespace PlanVerifier

variable {plan : RuntimePlan} {spec : OperatorSpec}

namespace Accepted
variable (h : Accepted plan spec)
include h

/-- The position of an instruction in the plan. -/
theorem split {i : Instruction} (hi : i ∈ plan.instructions) :
    ∃ a b phase, plan.instructions = a ++ i :: b ∧ InstructionOk plan spec phase a i := by
  obtain ⟨a, b, hab⟩ := List.append_of_mem hi
  obtain ⟨phase, hok⟩ := h.instruction a i b hab
  exact ⟨a, b, phase, hab, hok⟩

theorem ordinals : plan.instructions.map (·.ordinal) = List.range plan.instructions.length := by
  refine List.ext_getElem (by simp) fun n hn hn' => ?_
  simp only [List.length_map] at hn
  have hab : plan.instructions = plan.instructions.take n ++
      plan.instructions[n] :: plan.instructions.drop (n + 1) := by
    rw [← List.drop_eq_getElem_cons hn, List.take_append_drop]
  obtain ⟨phase, hpos, -⟩ := h.instruction _ _ _ hab
  rw [List.getElem_map, hpos, List.getElem_range, List.length_take, min_eq_left hn.le]

/-- The outputs of one instruction are new and distinct. -/
theorem outputs_fresh {a b : List Instruction} {i : Instruction}
    (hab : plan.instructions = a ++ i :: b) :
    i.body.outputs.Nodup ∧ ∀ out ∈ i.body.outputs, out ∉ plan.externalInputs ++ definedBy a := by
  obtain ⟨phase, -, hok⟩ := h.instruction a i b hab
  cases hb : i.body with
  | encode op => rw [hb] at hok; simpa [InstructionBody.outputs] using hok.fresh
  | compute op => rw [hb] at hok; simpa [InstructionBody.outputs] using hok.fresh
  | comm action =>
    rw [hb] at hok
    obtain ⟨id, d, hok⟩ := hok
    exact ⟨hok.outputs_nodup, hok.fresh⟩

/-- Every value has one definition, also over a prefix of the plan. -/
theorem definitions_nodup_prefix : ∀ (a b : List Instruction), plan.instructions = a ++ b →
    (plan.externalInputs ++ definedBy a).Nodup := by
  intro a
  induction a using List.reverseRecOn with
  | nil => intro b _; simpa using h.inputs_nodup
  | append_singleton a i ih =>
    intro b hab
    rw [List.append_assoc, List.singleton_append] at hab
    obtain ⟨hn, hfresh⟩ := h.outputs_fresh hab
    rw [definedBy_append, definedBy_singleton, ← List.append_assoc]
    refine List.nodup_append.2 ⟨ih _ hab, hn, ?_⟩
    rintro x hx y hy rfl
    exact hfresh x hy hx

theorem definitions_nodup : plan.definitions.Nodup :=
  h.definitions_nodup_prefix plan.instructions [] (by simp)

theorem mem_definitions_iff {id : ValueId} :
    id ∈ plan.definitions ↔ id ∈ plan.values.map (·.id) := by
  constructor
  · intro hid; exact RuntimePlan.desc?_isSome.1 (h.described id hid)
  · intro hid
    obtain ⟨v, hv, rfl⟩ := List.mem_map.1 hid
    exact h.defined v hv

/-- The values an instruction reads are defined before it. -/
theorem uses {a b : List Instruction} {i : Instruction} (hab : plan.instructions = a ++ i :: b)
    {id : ValueId} (hid : id ∈ i.body.inputs) : id ∈ plan.externalInputs ++ definedBy a := by
  obtain ⟨phase, -, hok⟩ := h.instruction a i b hab
  cases hb : i.body with
  | encode op => rw [hb] at hid; simp [InstructionBody.inputs] at hid
  | compute op => rw [hb] at hok hid; exact hok.uses id hid
  | comm action =>
    rw [hb] at hok hid
    obtain ⟨id', d, hok⟩ := hok
    rw [InstructionBody.inputs, hok.inputs, List.mem_singleton] at hid
    exact hid ▸ hok.uses

theorem transfers_nodup_prefix : ∀ (a b : List Instruction), plan.instructions = a ++ b →
    ((actionsOf a).map (·.id)).Nodup := by
  intro a
  induction a using List.reverseRecOn with
  | nil => intro b _; simp
  | append_singleton a i ih =>
    intro b hab
    rw [List.append_assoc, List.singleton_append] at hab
    obtain ⟨phase, -, hok⟩ := h.instruction a i b hab
    cases hb : i.body with
    | encode op => simpa [actionsOf, Instruction.action?, hb] using ih _ hab
    | compute op => simpa [actionsOf, Instruction.action?, hb] using ih _ hab
    | comm action =>
      rw [hb] at hok
      obtain ⟨id, d, hok⟩ := hok
      have ha : actionsOf [i] = [action] := by simp [actionsOf, Instruction.action?, hb]
      rw [actionsOf_append, ha, List.map_append]
      refine List.nodup_append.2 ⟨ih _ hab, by simp, ?_⟩
      rintro x hx y hy rfl
      rw [List.map_singleton, List.mem_singleton] at hy
      exact hok.fresh_id (hy ▸ hx)

end Accepted

/-- The operands checked by `verify_compute_metadata`. -/
theorem checkOperands_eq_ok {op : ComputeOp} : ∀ {ids : List ValueId} {types : List ValueKind}
    {ds : List ValueDesc}, checkOperands op plan.values ids types = .ok ds →
      ids.length = types.length →
      List.Forall₂ (fun id d => plan.desc? id = some d ∧ d.place = op.place) ids ds ∧
        ds.map (·.kind) = types
  | [], [], ds, h, _ => by cases h; exact ⟨.nil, rfl⟩
  | id :: ids, type :: types, ds, h, hl => by
    simp only [checkOperands, checkOperand, bind_eq_ok, failIf_eq_ok, exists_const, pure_eq_ok,
      lookup_eq_ok, not_not] at h
    obtain ⟨d, ⟨_, hd, hk, hp, rfl⟩, ds', hds, rfl⟩ := h
    obtain ⟨h1, h2⟩ := checkOperands_eq_ok hds (by simpa using hl)
    exact ⟨.cons ⟨hd, hp⟩ h1, by simp [hk, h2]⟩
  | [], _ :: _, _, _, hl => by simp at hl
  | _ :: _, [], _, _, hl => by simp at hl

theorem verifyComputeMetadata_place {op : ComputeOp} {u : Unit}
    (h : verifyComputeMetadata op plan.values = .ok u) :
    ∀ id ∈ op.output :: op.inputs, ∃ d, plan.desc? id = some d ∧ d.place = op.place := by
  simp only [verifyComputeMetadata, bind_eq_ok, failIf_eq_ok, exists_const, lookup_eq_ok,
    not_not] at h
  obtain ⟨hl, ds, hds, out, hout, -, hplace, -⟩ := h
  obtain ⟨hall, -⟩ := checkOperands_eq_ok hds hl
  intro id hid
  rcases List.mem_cons.1 hid with rfl | hid
  · exact ⟨out, hout, hplace⟩
  · obtain ⟨d, -, hd⟩ := forall₂_mem_left hall hid
    exact ⟨d, hd⟩

/-- **Acceptance implies the plan invariants.** -/
theorem verify_planInvariants {loaded : LoadedOperatorSpec} {skip : Bool} {req : PlanRequirements}
    (hv : verify plan loaded skip = .ok req) : PlanInvariants plan := by
  have h := verify_accepted hv
  have hmem : ∀ {a : List Instruction} {b : List Instruction} {id : ValueId},
      plan.instructions = a ++ b → id ∈ plan.externalInputs ++ definedBy a →
      id ∈ plan.externalInputs ∨ ∃ j ∈ a, id ∈ j.body.outputs := by
    intro a b id _ hid
    simpa [definedBy] using hid
  refine ⟨h.ordinals, h.ids_nodup, ?_, ?_, ?_, ?_, ?_, ?_, h.finals_ne, h.finals_nodup⟩
  · intro id
    rw [List.Nodup.count h.definitions_nodup]
    simp only [h.mem_definitions_iff]
  · intro i hi id hid
    obtain ⟨a, b, phase, hab, hpos, -⟩ := h.split hi
    refine (hmem hab (h.uses hab hid)).imp_right ?_
    rintro ⟨j, hj, hout⟩
    obtain ⟨c, d, hcd⟩ := List.append_of_mem hj
    have hj' : plan.instructions = c ++ j :: (d ++ i :: b) := by rw [hab, hcd]; simp
    obtain ⟨_, hjpos, -⟩ := h.instruction _ _ _ hj'
    refine ⟨j, by rw [hab]; simp [hj], ?_, hout⟩
    rw [hpos, hjpos, hcd]; simp
  · intro id hid
    exact hmem (List.append_nil _).symm (h.final id hid)
  · exact h.transfers_nodup_prefix plan.instructions [] (by simp)
  · intro i hi op hb
    obtain ⟨a, b, phase, hab, -, hok⟩ := h.split hi
    rw [hb] at hok
    exact verifyComputeMetadata_place hok.metadata
  · intro i hi action hb src hsrc
    obtain ⟨a, b, phase, hab, -, hok⟩ := h.split hi
    rw [hb] at hok
    obtain ⟨id, d, hok⟩ := hok
    rw [hok.inputs, List.mem_singleton] at hsrc
    subst hsrc
    refine ⟨d, hok.desc, ?_, fun out hout => ?_⟩
    · have : (action.outputs.map fun out => (plan.desc? out).map (·.place)) =
          action.destinations.map some :=
        map_eq_of_forall₂ hok.outputs fun out p ⟨_, d', hd', hp, _⟩ => by simp [hd', hp]
      rw [this]
      exact hok.destinations_nodup.map (Option.some_injective _)
    · obtain ⟨p, hp, -, d', hd', hpl, hm⟩ := forall₂_mem_left hok.outputs hout
      obtain ⟨h1, h2, h3, h4, h5, h6⟩ := sameMetadata_iff.1 hm
      refine ⟨d', hd', ?_, h1.symm, h2.symm, h3.symm, h4.symm, h5.symm, h6.symm⟩
      rw [hpl]; rintro rfl; exact hok.away hp

/-- The fan-out plan over two ranks with one device each. -/
theorem fanoutPlan_planInvariants :
    PlanInvariants (fanoutPlan [1, 1] ⟨.device, 0, 0⟩ [⟨.device, 1, 0⟩]).plan := by
  have hv : verify (fanoutPlan [1, 1] ⟨.device, 0, 0⟩ [⟨.device, 1, 0⟩]).plan makeTestOperatorSpec
      false = .ok ⟨[.transfer, .replicate], []⟩ := by decide
  exact verify_planInvariants hv

end PlanVerifier

end CkksRuntime
