/-
  ckks-runtime formalization — the plans that the verifier accepts.

  `Acceptance` reads off what an accepted plan satisfies; here is the converse,
  function by function, up to `verify_of_admitted`: a plan with the properties of
  `Admitted` is accepted.

  * `checkList_ok`: the pass over a list whose instructions satisfy
    `InstructionOk` at their positions
  * `Noted`: what the pass has collected for the last checks
-/
import CkksRuntime.ComputeRules

namespace CkksRuntime

namespace PlanVerifier

variable {plan : RuntimePlan} {spec : OperatorSpec}

/-! ## The values and the external inputs -/

theorem bind_ok {α β : Type} {x : Except Fault α} {f : α → Except Fault β} {a : α} {b : β}
    (hx : x = .ok a) (hf : f a = .ok b) : (x >>= f) = .ok b :=
  bind_eq_ok.2 ⟨a, hx, hf⟩

theorem exists_bind_ok {α β : Type} {x : Except Fault α} {f : α → Except Fault β} {a : α}
    (hx : x = .ok a) (hf : ∃ b, f a = .ok b) : ∃ b, (x >>= f) = .ok b := by
  obtain ⟨b, hb⟩ := hf
  exact ⟨b, bind_ok hx hb⟩

theorem failIf_ok {c : Prop} [Decidable c] {message : String} (h : ¬ c) :
    failIf c message = .ok () :=
  failIf_eq_ok.2 h

theorem checkValue_ok {descs : DescMap} {v : ValueDesc} (h : ValueOk plan spec v)
    (hid : v.id ∉ descs.map (·.id)) : checkValue plan spec descs v = .ok (descs ++ [v]) := by
  obtain ⟨hplace, hcontext, hlevel, ⟨budget, hbudget, hscale⟩, hplain, hcipher⟩ := h
  have hnew : ¬ (descs.find v.id).isSome := by
    simpa [DescMap.find, List.find?_isSome] using hid
  refine bind_ok hplace (bind_ok (failIf_ok hnew) (bind_ok (failIf_ok (not_not.2 hcontext)) ?_))
  refine bind_ok (failIf_ok ?_) (bind_ok hbudget (bind_ok (failIf_ok ?_) ?_))
  · rw [not_or, Int32.not_lt, gt_iff_lt, Int32.not_lt]
    exact hlevel
  · exact Int.not_le.2 hscale
  · refine bind_ok (failIf_ok fun hbad => ?_) (bind_ok (failIf_ok fun hbad => ?_) rfl)
    · exact hbad.2 (hplain hbad.1)
    · exact Int32.not_le.2 hbad.2 (hcipher hbad.1)

theorem checkValues_ok {vs : List ValueDesc} : ∀ (descs : DescMap),
    (∀ v ∈ vs, ValueOk plan spec v) → ((descs ++ vs).map (·.id)).Nodup →
      vs.foldlM (checkValue plan spec) descs = .ok (descs ++ vs) := by
  induction vs with
  | nil =>
    intro descs _ _
    rw [List.append_nil]
    rfl
  | cons v vs ih =>
    intro descs hall hnodup
    obtain ⟨hv, hvs⟩ := List.forall_mem_cons.1 hall
    have hid : v.id ∉ descs.map (·.id) := by
      rw [List.map_append, List.nodup_append] at hnodup
      exact fun hmem => hnodup.2.2 _ hmem _ (by simp) rfl
    have happ : descs ++ [v] ++ vs = descs ++ v :: vs := by simp
    refine foldlM_cons_eq_ok.2 ⟨descs ++ [v], checkValue_ok hv hid, ?_⟩
    rw [ih (descs ++ [v]) hvs (by rwa [happ]), happ]

theorem checkExternalInputs_ok {ids : List ValueId} : ∀ (st : CheckState), ids.Nodup →
    (∀ id ∈ ids, id ∉ st.defined) →
    (∀ id ∈ ids, ∃ d, plan.desc? id = some d ∧ d.place.kind = .host) →
      ids.foldlM (checkExternalInput plan.values) st =
        .ok { st with mentioned := ids.toFinset ∪ st.mentioned,
                      defined := ids.toFinset ∪ st.defined } := by
  induction ids with
  | nil =>
    intro st _ _ _
    simp [pure, Except.pure]
  | cons id ids ih =>
    intro st hnodup hfresh hdesc
    obtain ⟨hnotin, hnodup⟩ := List.nodup_cons.1 hnodup
    obtain ⟨hid, hfresh⟩ := List.forall_mem_cons.1 hfresh
    obtain ⟨⟨d, hd, hhost⟩, hdesc⟩ := List.forall_mem_cons.1 hdesc
    have hstep : checkExternalInput plan.values st id =
        .ok { st with mentioned := insert id st.mentioned, defined := insert id st.defined } := by
      refine bind_ok (lookup_eq_ok.2 hd) (bind_ok (failIf_ok (not_not.2 hhost)) ?_)
      exact define_eq_ok.2 ⟨hid, rfl⟩
    refine foldlM_cons_eq_ok.2 ⟨_, hstep, ?_⟩
    have hfresh' : ∀ x ∈ ids, x ∉ insert id st.defined := fun x hx hmem => by
      rcases Finset.mem_insert.1 hmem with rfl | hmem
      · exact hnotin hx
      · exact hfresh x hx hmem
    rw [ih _ hnodup hfresh' hdesc]
    simp [Finset.union_insert]

/-! ## One instruction -/

theorem checkEncode_ok {phase : Phase} {op : EncodeOp} {st : CheckState} {defs : List ValueId}
    (hd : st.defined = defs.toFinset) (h : EncodeOk plan spec phase defs op) :
    ∃ st', checkEncode spec plan.values phase op st = .ok st' := by
  obtain ⟨hphase, ⟨d, hdesc, hkind, hhost, hcomponents⟩, hfresh, hinline⟩ := h
  have hid : d.id = op.output := RuntimePlan.desc?_id hdesc
  have hnew : d.id ∉ (st.mention d.id).defined := by
    show d.id ∉ st.defined
    rw [hd, hid, List.mem_toFinset]
    exact hfresh
  have hkinds : ¬ (d.kind ≠ .plaintext ∨ d.place.kind ≠ .host ∨ d.components ≠ 1) := by
    simp [hkind, hhost, hcomponents]
  refine exists_bind_ok (failIf_ok (not_not.2 hphase)) ?_
  refine exists_bind_ok (lookup_eq_ok.2 hdesc) ?_
  refine exists_bind_ok (failIf_ok hkinds) ?_
  refine exists_bind_ok (define_eq_ok.2 ⟨hnew, rfl⟩) ?_
  cases hp : op.payload with
  | inline values =>
    obtain ⟨hne, hle⟩ := hinline values hp
    refine exists_bind_ok (failIf_ok ?_) (exists_bind_ok (failIf_ok ?_) ⟨_, rfl⟩)
    · simpa [List.isEmpty_iff] using hne
    · omega
  | bundle content => exact ⟨_, rfl⟩

theorem checkUses_ok {ids : List ValueId} : ∀ (st : CheckState), (∀ id ∈ ids, id ∈ st.defined) →
    ids.foldlM checkUse st = .ok { st with mentioned := ids.toFinset ∪ st.mentioned } := by
  induction ids with
  | nil =>
    intro st _
    simp [pure, Except.pure]
  | cons id ids ih =>
    intro st hall
    obtain ⟨hid, hids⟩ := List.forall_mem_cons.1 hall
    have hstep : checkUse st id = .ok (st.mention id) := by
      exact bind_ok (failIf_ok (not_not.2 hid)) rfl
    refine foldlM_cons_eq_ok.2 ⟨_, hstep, ?_⟩
    rw [ih (st.mention id) hids]
    simp [CheckState.mention, Finset.union_insert]

theorem checkOperands_ok {op : ComputeOp} {ids : List ValueId} {ds : List ValueDesc}
    (h : List.Forall₂ (fun id d => plan.desc? id = some d ∧ d.place = op.place) ids ds) :
    checkOperands op plan.values ids (ds.map (·.kind)) = .ok ds := by
  induction h with
  | nil => rfl
  | cons hd _ ih =>
    refine bind_ok (bind_ok (lookup_eq_ok.2 hd.1) ?_) (bind_ok ih rfl)
    exact bind_ok (failIf_ok (not_not.2 rfl)) (bind_ok (failIf_ok (not_not.2 hd.2)) rfl)

/-- Operands and an output of the place of the operation that obey its rule. -/
theorem verifyComputeMetadata_ok {op : ComputeOp} {inputs : List ValueDesc} {output : ValueDesc}
    (hin : List.Forall₂ (fun id d => plan.desc? id = some d ∧ d.place = op.place) op.inputs inputs)
    (hout : plan.desc? op.output = some output) (hplace : output.place = op.place)
    (h : RuleOk op inputs output) : verifyComputeMetadata op plan.values = .ok () := by
  obtain ⟨hkinds, hkind, hbase, hpair, hrule⟩ := h
  have hlen : op.inputs.length = (expectedInputs op.kind).length := by
    rw [hin.length_eq, ← hkinds, List.length_map]
  have hoperands : checkOperands op plan.values op.inputs (expectedInputs op.kind) = .ok inputs :=
    hkinds ▸ checkOperands_ok hin
  obtain ⟨a, rest, rfl⟩ : ∃ a rest, inputs = a :: rest := by
    rcases inputs with _ | ⟨a, rest⟩
    · cases hk : op.kind <;> simp [hk, expectedInputs] at hkinds
    · exact ⟨a, rest, rfl⟩
  obtain ⟨hcontext, hntt⟩ := hbase a rfl
  refine bind_ok (failIf_ok (not_not.2 hlen)) (bind_ok hoperands ?_)
  refine bind_ok (lookup_eq_ok.2 hout) (bind_ok (failIf_ok (not_not.2 hkind)) ?_)
  refine bind_ok (failIf_ok (not_not.2 hplace)) (bind_ok (a := a) rfl ?_)
  refine bind_ok (failIf_ok (by simp [hcontext, hntt])) ?_
  by_cases htwo : (a :: rest).length = 2
  · obtain ⟨b, rfl⟩ := List.length_eq_one_iff.1 (Nat.succ.inj htwo)
    obtain ⟨hcb, hnb, hlb⟩ := hpair a b rfl
    refine (if_pos htwo).trans (bind_ok (a := b) rfl (bind_ok (failIf_ok ?_) hrule))
    simp [hcb, hnb, hlb]
  · exact (if_neg htwo).trans hrule

/-- The requirements of the operation can be met. -/
def OperationOk (plan : RuntimePlan) (spec : OperatorSpec) (op : ComputeOp) : Prop :=
  ∀ support st, spec.operator? op.kind = some support →
    ∃ st', checkOperation spec plan.values op support st = .ok st'

theorem checkCompute_ok {op : ComputeOp} {st : CheckState} {defs : List ValueId}
    (hd : st.defined = defs.toFinset) (h : ComputeOk plan spec defs op)
    (hop : OperationOk plan spec op) :
    ∃ st', checkCompute plan spec plan.values op st = .ok st' := by
  obtain ⟨hplace, huses, hfresh, hmeta, support, hsupport, hsupported⟩ := h
  have hdefs : ∀ id ∈ op.inputs, id ∈ st.defined := fun id hid => by
    rw [hd, List.mem_toFinset]
    exact huses id hid
  have hnew : op.output ∉ st.defined := by
    rw [hd, List.mem_toFinset]
    exact hfresh
  refine exists_bind_ok hplace (exists_bind_ok (checkUses_ok st hdefs) ?_)
  refine exists_bind_ok (define_eq_ok.2 ⟨hnew, rfl⟩) (exists_bind_ok hmeta ?_)
  rw [hsupport]
  exact exists_bind_ok (failIf_ok (not_not.2 hsupported)) (hop support _ hsupport)

/-- An element of a list without duplicates does not occur before its position. -/
theorem not_mem_take {α : Type} {l : List α} (h : l.Nodup) {n : ℕ} {a : α} (ha : l[n]? = some a) :
    a ∉ l.take n := by
  obtain ⟨hn, rfl⟩ := List.getElem?_eq_some_iff.1 ha
  rw [← List.take_append_drop n l, List.nodup_append] at h
  intro hmem
  exact h.2.2 _ hmem _ (List.mem_drop_iff_getElem.2 ⟨0, by simpa using hn, by simp⟩) rfl

/-- The first `n` rounds of the output loop. -/
theorem checkCommOutputs_ok {action : CommAction} {d : ValueDesc} (st : CheckState)
    (hall : List.Forall₂ (OutputOk plan d) action.outputs action.destinations)
    (htypes : action.outputTypes = action.outputs.map fun _ => d.kind)
    (hfresh : ∀ out ∈ action.outputs, out ∉ st.defined) (hnodup : action.outputs.Nodup)
    (hdest : action.destinations.Nodup) (haway : d.place ∉ action.destinations) :
    ∀ n ≤ action.outputs.length, ∃ st',
      (List.range n).foldlM (checkCommOutput plan plan.values action d) (st, ∅) = .ok st' := by
  intro n
  induction n with
  | zero => exact fun _ => ⟨_, rfl⟩
  | succ n ih =>
    intro hn
    obtain ⟨st₁, hst₁⟩ := ih (by omega)
    obtain ⟨-, -, -, -, -, -, rfl⟩ := checkCommOutputs_eq_ok n hst₁
    have hlen := hall.length_eq
    have hout : action.outputs[n]? = some action.outputs[n] := List.getElem?_eq_getElem hn
    have hdst : action.destinations[n]? = some action.destinations[n] :=
      List.getElem?_eq_getElem (by omega)
    have htype : action.outputTypes[n]? = some d.kind := by
      rw [htypes, List.getElem?_map, hout]
      rfl
    obtain ⟨hplace, d', hd', hplace', hmeta⟩ := hall.get hn (by omega)
    have hid : d'.id = action.outputs[n] := RuntimePlan.desc?_id hd'
    -- neither the destination nor the output was seen in an earlier round
    have hseen : action.destinations[n] ∉ (action.destinations.take n).toFinset := by
      rw [List.mem_toFinset]
      exact fun hmem => not_mem_take hdest hdst hmem
    have hdefined : d'.id ∉ (action.outputs.take n).toFinset ∪ st.defined := by
      rw [hid, Finset.mem_union, List.mem_toFinset, not_or]
      exact ⟨fun hmem => not_mem_take hnodup hout hmem,
        hfresh _ (List.getElem_mem hn)⟩
    have hne : action.destinations[n] ≠ d.place := fun heq =>
      haway (heq ▸ List.getElem_mem _)
    have hround : ∃ st', checkCommOutput plan plan.values action d
        ({ st with mentioned := (action.outputs.take n).toFinset ∪ st.mentioned,
                   defined := (action.outputs.take n).toFinset ∪ st.defined },
          (action.destinations.take n).toFinset) n = .ok st' := by
      refine exists_bind_ok (index_eq_ok.2 hdst) (exists_bind_ok hplace ?_)
      refine exists_bind_ok (failIf_ok hne) (exists_bind_ok (failIf_ok hseen) ?_)
      refine exists_bind_ok (index_eq_ok.2 hout) (exists_bind_ok (lookup_eq_ok.2 hd') ?_)
      refine exists_bind_ok (failIf_ok (not_not.2 hplace')) ?_
      refine exists_bind_ok (index_eq_ok.2 htype) (exists_bind_ok (failIf_ok ?_) ?_)
      · exact not_or.2 ⟨not_not.2 rfl, not_not.2 hmeta⟩
      · exact exists_bind_ok (define_eq_ok.2 ⟨hdefined, rfl⟩) ⟨_, rfl⟩
    obtain ⟨st₂, hst₂⟩ := hround
    refine ⟨st₂, ?_⟩
    rw [List.range_succ, foldlM_append_eq_ok]
    exact ⟨_, hst₁, foldlM_cons_eq_ok.2 ⟨_, hst₂, rfl⟩⟩

theorem checkComm_ok {action : CommAction} {st : CheckState} {defs : List ValueId}
    {ids : List TransferId} {id : ValueId} {d : ValueDesc} (hd : st.defined = defs.toFinset)
    (ht : st.transfers = ids.toFinset) (h : CommOk plan defs ids action id d) :
    ∃ st', checkComm plan plan.values action st = .ok st' := by
  have hid : action.id ∉ st.transfers := by
    rw [ht, List.mem_toFinset]
    exact h.fresh_id
  have hone : ¬ (action.inputs.length ≠ 1 ∨ action.sources.length ≠ 1) := by
    simp [h.inputs, h.sources]
  have hinput : index action.inputs 0 = .ok id := by
    rw [h.inputs]
    rfl
  have hsource : index action.sources 0 = .ok d.place := by
    rw [h.sources]
    rfl
  have hdef : id ∈ st.defined := by
    rw [hd, List.mem_toFinset]
    exact h.uses
  have htables : ¬ (action.destinations.length ≠ action.outputs.length ∨
      action.outputTypes.length ≠ action.outputs.length) := by
    simp [h.outputs.length_eq, h.types]
  have hfresh : ∀ out ∈ action.outputs, out ∉ st.defined := fun out hout => by
    rw [hd, List.mem_toFinset]
    exact h.fresh out hout
  refine exists_bind_ok (failIf_ok hid) (exists_bind_ok (failIf_ok hone) ?_)
  refine exists_bind_ok hinput (exists_bind_ok (failIf_ok (not_not.2 hdef)) ?_)
  refine exists_bind_ok (lookup_eq_ok.2 h.desc) (exists_bind_ok hsource ?_)
  refine exists_bind_ok h.source_place (exists_bind_ok (failIf_ok (not_not.2 rfl)) ?_)
  refine exists_bind_ok (failIf_ok htables) ?_
  refine exists_bind_ok (failIf_ok fun hbad => hbad.2 (h.transfer hbad.1)) ?_
  refine exists_bind_ok (failIf_ok fun hbad => ?_) ?_
  · have := h.replicate hbad.1
    omega
  · let st₁ := (({ st with transfers := insert action.id st.transfers }).require
      (commCapability action.kind)).mention id
    obtain ⟨r, hr⟩ := checkCommOutputs_ok st₁ h.outputs h.types hfresh h.outputs_nodup
      h.destinations_nodup h.away action.outputs.length le_rfl
    exact exists_bind_ok hr ⟨_, rfl⟩

/-! ## The instruction list -/

theorem checkInstruction_ok {phase : Phase} {pre : List Instruction} {i : Instruction}
    {st : CheckState} (ht : Tracks plan pre st) (h : InstructionOk plan spec phase pre i)
    (hop : ∀ op, i.body = .compute op → OperationOk plan spec op) :
    ∃ st', checkInstruction plan spec plan.values phase st i = .ok st' := by
  obtain ⟨hord, hbody⟩ := h
  refine exists_bind_ok (failIf_ok (not_not.2 (hord.trans ht.ordinal.symm))) ?_
  cases hb : i.body with
  | encode op =>
    rw [hb] at hbody
    exact checkEncode_ok ht.defined hbody
  | compute op =>
    rw [hb] at hbody
    exact checkCompute_ok ht.defined hbody (hop op hb)
  | comm action =>
    rw [hb] at hbody
    obtain ⟨id, d, hok⟩ := hbody
    exact checkComm_ok ht.defined ht.transfers hok

/-- The instructions of the list, which follow `pre`, satisfy `InstructionOk`. -/
def ListOk (plan : RuntimePlan) (spec : OperatorSpec) (phase : Phase) :
    List Instruction → List Instruction → Prop
  | _, [] => True
  | pre, i :: list => InstructionOk plan spec phase pre i ∧
      (∀ op, i.body = .compute op → OperationOk plan spec op) ∧ ListOk plan spec phase (pre ++ [i]) list

theorem listOk_append {phase : Phase} {list list' : List Instruction} :
    ∀ {pre : List Instruction}, ListOk plan spec phase pre (list ++ list') ↔
      ListOk plan spec phase pre list ∧ ListOk plan spec phase (pre ++ list) list' := by
  induction list with
  | nil =>
    intro pre
    rw [List.append_nil]
    exact (iff_of_eq (true_and _)).symm
  | cons i list ih =>
    intro pre
    rw [List.cons_append, ListOk, ListOk, ih, List.append_assoc, List.singleton_append, and_assoc,
      and_assoc]

/-- What the last checks need: all that is defined is mentioned, and the bundle
    is only noted for an Encode from it. -/
structure Noted (pre : List Instruction) (st : CheckState) : Prop where
  mentioned : st.defined ⊆ st.mentioned
  bundle : st.hasBundleEncode = true →
    ∃ i ∈ pre, ∃ op content, i.body = .encode op ∧ op.payload = .bundle content

theorem checkEncode_bundle {phase : Phase} {op : EncodeOp} {st st' : CheckState}
    (h : checkEncode spec plan.values phase op st = .ok st')
    (hbundle : st'.hasBundleEncode = true) :
    st.hasBundleEncode = true ∨ ∃ content, op.payload = .bundle content := by
  simp only [checkEncode, bind_eq_ok, failIf_eq_ok, define_eq_ok, exists_and_left,
    exists_const] at h
  obtain ⟨-, d, -, -, _, ⟨-, rfl⟩, h⟩ := h
  cases hp : op.payload with
  | inline values =>
    simp only [hp, bind_eq_ok, failIf_eq_ok, exists_const, pure_eq_ok] at h
    obtain ⟨-, -, rfl⟩ := h
    exact Or.inl hbundle
  | bundle content => exact Or.inr ⟨content, rfl⟩

theorem Noted.step {phase : Phase} {pre : List Instruction} {i : Instruction}
    {st st' : CheckState} (hn : Noted pre st) (ht : Tracks plan pre st)
    (h : checkInstruction plan spec plan.values phase st i = .ok st') : Noted (pre ++ [i]) st' := by
  simp only [checkInstruction, bind_eq_ok, failIf_eq_ok, exists_const] at h
  obtain ⟨-, h⟩ := h
  have hpre : st.hasBundleEncode = true → ∃ j ∈ pre ++ [i], ∃ op content,
      j.body = .encode op ∧ op.payload = .bundle content := fun hb => by
    obtain ⟨j, hj, hrest⟩ := hn.bundle hb
    exact ⟨j, List.mem_append_left _ hj, hrest⟩
  cases hb : i.body with
  | encode op =>
    rw [hb] at h
    obtain ⟨-, -, hm, hd, -, -⟩ := checkEncode_eq_ok h ht.defined
    refine ⟨?_, fun hbundle => ?_⟩
    · rw [hm, hd]
      exact Finset.insert_subset_insert _ hn.mentioned
    · rcases checkEncode_bundle h hbundle with hold | ⟨content, hc⟩
      · exact hpre hold
      · exact ⟨i, by simp, op, content, hb, hc⟩
  | compute op =>
    rw [hb] at h
    obtain ⟨-, -, hm, hd, -, hbundle⟩ := checkCompute_eq_ok h ht.defined
    refine ⟨?_, fun hnew => hpre (hbundle ▸ hnew)⟩
    rw [hm, hd]
    exact Finset.insert_subset_insert _ (hn.mentioned.trans Finset.subset_union_right)
  | comm action =>
    rw [hb] at h
    obtain ⟨⟨id, d, -, -, hm⟩, -, hd, -, hbundle⟩ := checkComm_eq_ok h ht.defined ht.transfers
    refine ⟨?_, fun hnew => hpre (hbundle ▸ hnew)⟩
    rw [hm, hd]
    exact Finset.union_subset_union le_rfl (hn.mentioned.trans (Finset.subset_insert _ _))

/-- **The pass over a list** whose instructions satisfy `InstructionOk`. -/
theorem checkList_ok {phase : Phase} {list : List Instruction} :
    ∀ {pre : List Instruction} {st : CheckState}, Tracks plan pre st → Noted pre st →
      ListOk plan spec phase pre list → ∃ st', checkList plan spec plan.values list phase st = .ok st' ∧
        Tracks plan (pre ++ list) st' ∧ Noted (pre ++ list) st' := by
  induction list with
  | nil =>
    intro pre st ht hn _
    rw [List.append_nil]
    exact ⟨st, rfl, ht, hn⟩
  | cons i list ih =>
    intro pre st ht hn h
    obtain ⟨hi, hop, hlist⟩ := h
    obtain ⟨st₁, hst₁⟩ := checkInstruction_ok ht hi hop
    obtain ⟨st', hst', ht', hn'⟩ := ih (ht.step hst₁).2 (hn.step ht hst₁) hlist
    rw [List.append_assoc, List.singleton_append] at ht' hn'
    exact ⟨st', foldlM_cons_eq_ok.2 ⟨st₁, hst₁, hst'⟩, ht', hn'⟩

/-! ## The whole plan -/

theorem checkFinalOutputs_ok {ids : List ValueId} : ∀ (st : CheckState × Finset ValueId),
    (∀ id ∈ st.1.defined, (plan.desc? id).isSome) → ids.Nodup → (∀ id ∈ ids, id ∉ st.2) →
    (∀ id ∈ ids, id ∈ st.1.defined) →
      ∃ st', ids.foldlM (checkFinalOutput plan.values) st = .ok st' := by
  induction ids with
  | nil => exact fun st _ _ _ _ => ⟨st, rfl⟩
  | cons id ids ih =>
    intro st hdesc hnodup hfresh hdef
    obtain ⟨hnotin, hnodup⟩ := List.nodup_cons.1 hnodup
    obtain ⟨hid, hfresh⟩ := List.forall_mem_cons.1 hfresh
    obtain ⟨hidef, hdef⟩ := List.forall_mem_cons.1 hdef
    obtain ⟨d, hd⟩ := Option.isSome_iff_exists.1 (hdesc id hidef)
    have hstep : checkFinalOutput plan.values st id =
        .ok (st.1.mention id, insert id st.2) :=
      bind_ok (lookup_eq_ok.2 hd) (bind_ok (failIf_ok (not_not.2 hidef)) (bind_ok (failIf_ok hid) rfl))
    obtain ⟨st', hst'⟩ := ih (st.1.mention id, insert id st.2) hdesc hnodup (fun x hx hmem => by
      rcases Finset.mem_insert.1 hmem with rfl | hmem
      · exact hnotin hx
      · exact hfresh x hx hmem) hdef
    exact ⟨st', foldlM_cons_eq_ok.2 ⟨_, hstep, hst'⟩⟩

/-- The properties that make `verify` accept a plan. -/
structure Admitted (plan : RuntimePlan) (loaded : LoadedOperatorSpec) (skip : Bool) : Prop where
  header : checkHeader plan loaded skip = .ok ()
  ids_nodup : (plan.values.map (·.id)).Nodup
  value : ∀ v ∈ plan.values, ValueOk plan loaded.spec v
  inputs_nodup : plan.externalInputs.Nodup
  input : ∀ id ∈ plan.externalInputs, ∃ d, plan.desc? id = some d ∧ d.place.kind = .host
  initialization : ListOk plan loaded.spec .initialization [] plan.initialization
  execution : ListOk plan loaded.spec .execution plan.initialization plan.execution
  finalization : ListOk plan loaded.spec .finalization (plan.initialization ++ plan.execution)
    plan.finalization
  bundle : plan.plaintextBundle.isSome = true ↔
    ∃ i ∈ plan.instructions, ∃ op content, i.body = .encode op ∧ op.payload = .bundle content
  finals_ne : plan.finalOutputs ≠ []
  finals_nodup : plan.finalOutputs.Nodup
  final : ∀ id ∈ plan.finalOutputs, id ∈ plan.definitions
  defined : ∀ v ∈ plan.values, v.id ∈ plan.definitions

/-- **An admitted plan is accepted.** -/
theorem verify_of_admitted {loaded : LoadedOperatorSpec} {skip : Bool}
    (h : Admitted plan loaded skip) : ∃ requirements, verify plan loaded skip = .ok requirements := by
  have hvalues : plan.values.foldlM (checkValue plan loaded.spec) [] = .ok plan.values :=
    checkValues_ok [] h.value h.ids_nodup
  have hinputs := checkExternalInputs_ok {} h.inputs_nodup (by simp) h.input
  have ht₀ : Tracks plan [] { ({} : CheckState) with
      mentioned := plan.externalInputs.toFinset ∪ ∅,
      defined := plan.externalInputs.toFinset ∪ ∅ } := by
    refine ⟨rfl, by simp, le_rfl, fun id hid => ?_, rfl, by simp⟩
    obtain ⟨d, hd, -⟩ := h.input id (by simpa using hid)
    simp [hd]
  have hn₀ : Noted [] { ({} : CheckState) with
      mentioned := plan.externalInputs.toFinset ∪ ∅,
      defined := plan.externalInputs.toFinset ∪ ∅ } := ⟨le_rfl, by simp⟩
  obtain ⟨st₁, hinit, ht₁, hn₁⟩ := checkList_ok ht₀ hn₀ h.initialization
  obtain ⟨st₂, hexec, ht₂, hn₂⟩ := checkList_ok ht₁ hn₁ h.execution
  obtain ⟨st₃, hfin, ht₃, hn₃⟩ := checkList_ok ht₂ hn₂ h.finalization
  have hdef : ∀ id, id ∈ st₃.defined ↔ id ∈ plan.definitions := by
    intro id
    rw [ht₃.defined, RuntimePlan.definitions_eq, List.mem_toFinset]
    rfl
  have hbundle : st₃.hasBundleEncode = plan.plaintextBundle.isSome := by
    rw [Bool.eq_iff_iff, h.bundle]
    refine ⟨hn₃.bundle, ?_⟩
    rintro ⟨i, hi, op, content, hb, hc⟩
    by_contra hno
    exact ht₃.bundle (Bool.not_eq_true _ ▸ hno) i hi op content hb hc
  obtain ⟨r, hfinals⟩ := checkFinalOutputs_ok (st₃, ∅) ht₃.described h.finals_nodup (by simp)
    fun id hid => (hdef id).2 (h.final id hid)
  -- the values mentioned are the values defined, which are all values
  have hmentioned : r.1.mentioned = (plan.values.map (·.id)).toFinset := by
    obtain ⟨-, -, hfd, hm⟩ := checkFinalOutputs_eq_ok hfinals
    have hall : st₃.mentioned = st₃.defined := Finset.Subset.antisymm ht₃.mentioned hn₃.mentioned
    rw [hm, hall]
    ext id
    rw [Finset.mem_union, List.mem_toFinset, List.mem_toFinset]
    constructor
    · rintro (hid | hid)
      · exact RuntimePlan.desc?_isSome.1 (ht₃.described id (hfd id hid))
      · exact RuntimePlan.desc?_isSome.1 (ht₃.described id hid)
    · intro hid
      obtain ⟨v, hv, rfl⟩ := List.mem_map.1 hid
      exact Or.inr ((hdef _).2 (h.defined v hv))
  refine exists_bind_ok h.header (exists_bind_ok hvalues (exists_bind_ok hinputs ?_))
  refine exists_bind_ok hinit (exists_bind_ok hexec (exists_bind_ok hfin ?_))
  refine exists_bind_ok (failIf_ok (not_not.2 hbundle)) (exists_bind_ok (failIf_ok ?_) ?_)
  · simpa [List.isEmpty_iff] using h.finals_ne
  refine exists_bind_ok hfinals (exists_bind_ok (failIf_ok ?_) (exists_bind_ok (failIf_ok ?_) ⟨_, rfl⟩))
  · rw [hmentioned, List.toFinset_card_of_nodup h.ids_nodup, List.length_map, not_not]
  · rintro ⟨d, hd, hnot⟩
    rw [hmentioned, List.mem_toFinset] at hnot
    exact hnot (List.mem_map_of_mem hd)

end PlanVerifier

end CkksRuntime
