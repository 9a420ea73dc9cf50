/-
  ckks-runtime formalization — the metadata rules of the verifier are those of
  the executor.

  `verify_compute_metadata`, `compute_metadata` and `compute_now` are three
  independent case analyses over the twelve operations.  On operands described
  by the plan they coincide: the last two succeed, and the result is described
  by the output descriptor (`compute_describes`).
-/
import CkksRuntime.Acceptance
import CkksRuntime.VecExecutor

namespace CkksRuntime

variable {cells : ℕ → Cell}

/-- A value that is complete, with payload `p`. -/
structure VecValue.Completes (cells : ℕ → Cell) (v : VecValue) (p : VecPayload) : Prop where
  kind : v.kind = p.kind
  metadata : v.metadata = p.metadata
  payload : v.materialize cells = pure p

theorem VecValue.ready_completes (p : VecPayload) : (VecValue.ready p).Completes cells p :=
  ⟨rfl, rfl, rfl⟩

/-! ## The rule of the verifier -/

namespace PlanVerifier

/-- What an accepted operation says about its operands and its output. -/
structure RuleOk (op : ComputeOp) (inputs : List ValueDesc) (output : ValueDesc) : Prop where
  kinds : inputs.map (·.kind) = expectedInputs op.kind
  kind : output.kind = .ciphertext
  base : ∀ a, inputs[0]? = some a → a.context = output.context ∧ a.ntt = output.ntt
  pair : ∀ a b, inputs = [a, b] → a.context = b.context ∧ a.ntt = b.ntt ∧ a.level = b.level
  rule : checkMetadataRule op inputs output = .ok ()

theorem verifyComputeMetadata_ruleOk {plan : RuntimePlan} {op : ComputeOp}
    (h : verifyComputeMetadata op plan.values = .ok ()) :
    ∃ inputs output, List.Forall₂ (fun id d => plan.desc? id = some d) op.inputs inputs ∧
      plan.desc? op.output = some output ∧ RuleOk op inputs output := by
  simp only [verifyComputeMetadata, requireSameBase, bind_eq_ok, failIf_eq_ok, exists_const,
    lookup_eq_ok, index_eq_ok, not_not, not_or] at h
  obtain ⟨hl, inputs, hin, output, hout, hkind, -, a, ha, ⟨hc, hn⟩, h⟩ := h
  obtain ⟨hall, hkinds⟩ := checkOperands_eq_ok hin hl
  refine ⟨inputs, output, hall.imp fun _ _ h => h.1, hout, hkinds, hkind, ?_, ?_, ?_⟩
  · intro a' ha'
    obtain rfl : a = a' := Option.some.inj (ha.symm.trans ha')
    exact ⟨hc, hn⟩
  · rintro a b rfl
    simp only [List.length_cons, List.length_nil, if_true, bind_eq_ok, index_eq_ok,
      failIf_eq_ok, exists_const, not_or, not_not] at h
    obtain ⟨b', hb', ⟨h1, h2, h3⟩, -⟩ := h
    obtain rfl : a = _ := Option.some.inj ha
    obtain rfl : b = b' := Option.some.inj hb'
    exact ⟨h1, h2, h3⟩
  · split_ifs at h with h2
    · obtain ⟨b, -, -, -, h⟩ := by simpa only [bind_eq_ok] using h
      exact h
    · exact h

end PlanVerifier

open PlanVerifier

/-! ## The executor -/

variable [DoubleArith]

namespace VecExecutor

variable {op : ComputeOp} {out a b : ValueDesc} {x y : VecValue}

theorem computeNow_unary {p : VecPayload} (hk : expectedInputs op.kind = [.ciphertext])
    (hx : x.Completes cells p) (hc : p.kind = .ciphertext) :
    computeNow cells op [x] = some (unaryPayload op p) := by
  have hu : unaryCipher cells [x] = pure p := by
    simp only [unaryCipher, hx.kind, hc, ne_eq, not_true_eq_false, if_false, hx.payload]
  unfold computeNow
  cases h : op.kind <;> simp only [h, expectedInputs] at hk ⊢ <;> first
    | exact absurd hk (by decide)
    | rw [hu]; rfl

omit [DoubleArith] in
theorem unaryMetadata_eq {p : VecPayload} (hx : x.Completes cells p) (hc : p.kind = .ciphertext) :
    unaryMetadata [x] = .ok p.metadata := by
  simp [unaryMetadata, hx.kind, hx.metadata, hc]

omit [DoubleArith] in
theorem unaryPayload_rotate {p : VecPayload} {attrs : RotateAttrs} (hk : op.kind = .rotate)
    (ha : op.attrs = .rotate attrs) (hn : p.slots ≠ []) :
    ∃ n, unaryPayload op p = .ok { p with slots := p.slots.rotate n } := by
  simp only [unaryPayload, hk, ha, List.isEmpty_iff, hn, if_false]
  exact ⟨_, rfl⟩

omit [DoubleArith] in
/-- An accepted operation with one operand succeeds on the described operand,
    and its result is described by the output. -/
theorem unaryPayload_ok {p : VecPayload} (hrule : RuleOk op [a] out)
    (hd : a.Describes p.kind p.metadata) (hn : p.slots ≠ [])
    (hattrs : ∀ attrs, op.attrs = .rescale attrs → 0 ≤ attrs.targetScaleLog2) :
    ∃ q, unaryPayload op p = .ok q ∧ out.Describes q.kind q.metadata ∧
      q.metadata.degree = p.metadata.degree ∧ q.slots.length = p.slots.length ∧
      ∀ x : VecValue, x.Completes cells p → computeMetadata op [x] = .ok q.metadata := by
  obtain ⟨hkinds, hkind, hbase, -, hr⟩ := hrule
  obtain ⟨hc, hntt⟩ := hbase a rfl
  obtain ⟨h1, h2, h3, h4, h5, h6⟩ := hd
  have hak : a.kind = .ciphertext := by
    cases hk : op.kind <;> simp [hk, expectedInputs] at hkinds <;> exact hkinds
  have hmeta : ∀ x : VecValue, x.Completes cells p → unaryMetadata [x] = .ok p.metadata :=
    fun x hx => unaryMetadata_eq hx (h1.trans hak)
  rw [hak, ← hkind] at h1
  rw [hc] at h2
  rw [hntt] at h5
  simp only [checkMetadataRule, bind_eq_ok, index_eq_ok, List.getElem?_cons_zero,
    Option.some.injEq, exists_eq_left'] at hr
  cases hk : op.kind with
  | negate =>
    simp only [hk, failIf_eq_ok, not_or, not_not, sameMetadata_iff] at hr
    obtain ⟨-, -, -, hl, hs, -, hco⟩ := hr
    refine ⟨{ p with slots := p.slots.map Double.neg }, by simp only [unaryPayload, hk],
      ⟨h1, h2, h3.trans hl, h4.trans hs, h5, h6.trans hco⟩, rfl, by simp, fun x hx => ?_⟩
    simp only [computeMetadata, hk, hmeta x hx]
  | rotate =>
    cases ha : op.attrs with
    | rotate attrs =>
      simp only [hk, ha, failIf_eq_ok, not_or, not_not, sameMetadata_iff] at hr
      obtain ⟨-, -, -, -, hl, hs, -, hco⟩ := hr
      obtain ⟨n, hq⟩ := unaryPayload_rotate hk ha hn
      refine ⟨_, hq, ⟨h1, h2, h3.trans hl, h4.trans hs, h5, h6.trans hco⟩, rfl, by simp,
        fun x hx => ?_⟩
      simp only [computeMetadata, hk, hmeta x hx]
    | _ => simp [hk, ha] at hr
  | rescale =>
    cases ha : op.attrs with
    | rescale attrs =>
      simp only [hk, ha, failIf_eq_ok, not_or, not_not] at hr
      obtain ⟨hlt, hl, hs, hco⟩ := hr
      rw [← h3] at hlt
      refine ⟨{ p with metadata := { p.metadata with
          level := attrs.targetLevel, scaleLog2 := attrs.targetScaleLog2 } }, ?_,
        ⟨h1, h2, hl.symm, hs.symm, h5, h6.trans hco.symm⟩, rfl, rfl, fun x hx => ?_⟩
      · simp only [unaryPayload, hk, ha, hlt, if_false, Int32.not_lt.2 (hattrs attrs ha)]
      · simp only [computeMetadata, hk, ha, hmeta x hx, bind_eq_ok, Except.ok.injEq,
          exists_eq_left', hlt, if_false, pure_eq_ok]
    | _ => simp [hk, ha] at hr
  | modSwitch =>
    cases ha : op.attrs with
    | modSwitch attrs =>
      simp only [hk, ha, failIf_eq_ok, not_or, not_not] at hr
      obtain ⟨hlt, hl, hs, hco⟩ := hr
      rw [← h3] at hlt
      refine ⟨{ p with metadata := { p.metadata with level := attrs.targetLevel } }, ?_,
        ⟨h1, h2, hl.symm, h4.trans hs.symm, h5, h6.trans hco.symm⟩, rfl, rfl, fun x hx => ?_⟩
      · simp only [unaryPayload, hk, ha, hlt, if_false]
      · simp only [computeMetadata, hk, ha, hmeta x hx, bind_eq_ok, Except.ok.injEq,
          exists_eq_left', hlt, if_false, pure_eq_ok]
    | _ => simp [hk, ha] at hr
  | relinearize =>
    simp only [hk, failIf_eq_ok, not_or, not_not] at hr
    obtain ⟨-, h3c, hl, hs, hco⟩ := hr
    have hgt : ¬ p.metadata.components ≤ 2 := by rw [h6, h3c]; decide
    refine ⟨{ p with metadata := { p.metadata with components := 2 } }, ?_,
      ⟨h1, h2, h3.trans hl.symm, h4.trans hs.symm, h5, hco.symm⟩, rfl, rfl, fun x hx => ?_⟩
    · simp only [unaryPayload, hk, hgt, if_false]
    · simp only [computeMetadata, hk, hmeta x hx, bind_eq_ok, Except.ok.injEq,
        exists_eq_left', hgt, if_false, pure_eq_ok]
  | boot =>
    cases ha : op.attrs with
    | boot attrs =>
      simp only [hk, ha, bind_eq_ok, failIf_eq_ok, exists_const, not_or, not_not] at hr
      obtain ⟨⟨-, hl, hs, hco⟩, -⟩ := hr
      refine ⟨{ p with metadata := { p.metadata with
          level := attrs.targetLevel, scaleLog2 := attrs.targetScaleLog2,
          components := attrs.targetComponents } }, ?_,
        ⟨h1, h2, hl.symm, hs.symm, h5, hco.symm⟩, rfl, rfl, fun x hx => ?_⟩
      · simp only [unaryPayload, hk, ha]
      · simp only [computeMetadata, hk, ha, hmeta x hx]; rfl
    | _ => simp [hk, ha] at hr
  | _ => simp [hk, expectedInputs] at hkinds

/-! ### Two operands -/

omit [DoubleArith] in
/-- No `int` operation of a multiplication overflows when the metadata of the
    product exist. -/
theorem multiplyMetadata_ok {m m' : VecMetadata} {rhsKind : ValueKind} {scale components : CInt}
    (h0 : 0 ≤ m.scaleLog2) (hs : scale.toInt = m.scaleLog2.toInt + m'.scaleLog2.toInt)
    (hc : if rhsKind = .ciphertext then
        0 ≤ m'.components ∧ components.toInt = m.components.toInt + m'.components.toInt - 1
      else components = m.components) :
    multiplyMetadata m m' rhsKind = .ok { m with scaleLog2 := scale, components := components } := by
  have h0' : 0 ≤ m.scaleLog2.toInt := Int32.le_iff_toInt_le.1 h0
  have hroom : ∃ room, CInt.sub CInt.max m.scaleLog2 = .ok room := by
    have hlt := m.scaleLog2.toInt_lt
    refine ⟨Int32.ofInt (2 ^ 31 - 1 - m.scaleLog2.toInt), CInt.sub_eq_ok.2 ?_⟩
    rw [CInt.toInt_max, Int32.toInt_ofInt_of_le (by omega) (by omega)]
  obtain ⟨room, hroom⟩ := hroom
  have hle : ¬ m'.scaleLog2 > room := by
    have := CInt.sub_eq_ok.1 hroom
    have hlt := scale.toInt_lt
    rw [CInt.toInt_max] at this
    rw [gt_iff_lt, Int32.lt_iff_toInt_lt]
    omega
  have hadd : CInt.add m.scaleLog2 m'.scaleLog2 = .ok scale := CInt.add_eq_ok.2 hs
  rw [multiplyMetadata]
  split_ifs at hc with hk
  · obtain ⟨hpos, hc⟩ := hc
    have hpos' : 0 ≤ m'.components.toInt := Int32.le_iff_toInt_le.1 hpos
    have hone : ∃ c, CInt.sub m'.components 1 = .ok c := by
      refine ⟨Int32.ofInt (m'.components.toInt - 1), CInt.sub_eq_ok.2 ?_⟩
      have hlt := m'.components.toInt_lt
      rw [Int32.toInt_ofInt_of_le (by omega) (by omega)]; rfl
    obtain ⟨c, hone⟩ := hone
    have hsum : CInt.add m.components c = .ok components := by
      rw [CInt.add_eq_ok, CInt.sub_eq_ok.1 hone, hc]
      have : (1 : CInt).toInt = 1 := rfl
      omega
    simp only [hroom, hadd, hone, hsum, hle, hk, bind_eq_ok, Except.ok.injEq, exists_eq_left',
      if_false, if_true, pure_eq_ok]
  · subst hc
    simp only [hroom, hadd, hle, hk, bind_eq_ok, Except.ok.injEq, exists_eq_left', if_false,
      pure_eq_ok]

/-- The arithmetic of an operation with two operands, and whether it is a
    multiplication. -/
def pairArith (kind : ComputeKind) : (Double → Double → Double) × Bool :=
  match kind with
  | .addCC | .addCP => (DoubleArith.add, false)
  | .subCC | .subCP => (DoubleArith.sub, false)
  | _ => (DoubleArith.mul, true)

theorem computeNow_pair {p q : VecPayload} {rhsKind : ValueKind}
    (hk : expectedInputs op.kind = [.ciphertext, rhsKind]) (hx : x.Completes cells p)
    (hy : y.Completes cells q) (hp : p.kind = .ciphertext) (hq : q.kind = rhsKind) :
    computeNow cells op [x, y] =
      some (binaryPayload p q rhsKind (pairArith op.kind).1 (pairArith op.kind).2) := by
  have hb : ∀ fn multiply, binary cells [x, y] rhsKind fn multiply =
      some (binaryPayload p q rhsKind fn multiply) := by
    intro fn multiply
    simp only [binary, hx.kind, hy.kind, hp, hq, ne_eq, not_true_eq_false, or_self, if_false,
      hx.payload, hy.payload]
    rfl
  unfold computeNow
  cases h : op.kind <;> simp [h, expectedInputs] at hk ⊢ <;> subst hk <;> exact hb _ _

theorem computeMetadata_pair {rhsKind : ValueKind}
    (hk : expectedInputs op.kind = [.ciphertext, rhsKind]) (inputs : List VecValue) :
    computeMetadata op inputs = binaryMetadata inputs rhsKind (pairArith op.kind).2 := by
  unfold computeMetadata
  cases h : op.kind <;> simp [h, expectedInputs] at hk ⊢ <;> subst hk <;> rfl

/-- The metadata of the result of an operation with two operands. -/
def pairMetadata (multiply : Bool) (m m' : VecMetadata) (rhsKind : ValueKind) :
    Except Fault VecMetadata :=
  if multiply then multiplyMetadata m m' rhsKind else .ok m

/-- The agreement of two operands that `require_compatible` and
    `compute_metadata` both test. -/
structure Compatible (multiply : Bool) (m m' : VecMetadata) : Prop where
  context : m.context = m'.context
  degree : m.degree = m'.degree
  level : m.level = m'.level
  ntt : m.ntt = m'.ntt
  scale : multiply = false → m.scaleLog2 = m'.scaleLog2

omit [DoubleArith] in
theorem binaryMetadata_eq {rhsKind : ValueKind} {multiply : Bool} (hx : x.kind = .ciphertext)
    (hy : y.kind = rhsKind) (h : Compatible multiply x.metadata y.metadata) :
    binaryMetadata [x, y] rhsKind multiply =
      pairMetadata multiply x.metadata y.metadata rhsKind := by
  obtain ⟨h1, h2, h3, h4, h5⟩ := h
  cases multiply
  · simp [binaryMetadata, hx, hy, h1, h2, h3, h4, h5 rfl, pairMetadata, pure, Except.pure]
  · simp [binaryMetadata, hx, hy, h1, h2, h3, h4, pairMetadata]

omit [DoubleArith] in
theorem binaryPayload_eq {p q : VecPayload} {rhsKind : ValueKind} {multiply : Bool}
    {fn : Double → Double → Double} {m : VecMetadata} (hl : p.slots.length = q.slots.length)
    (h : Compatible multiply p.metadata q.metadata)
    (hm : pairMetadata multiply p.metadata q.metadata rhsKind = .ok m) :
    binaryPayload p q rhsKind fn multiply =
      .ok { p with slots := List.zipWith fn p.slots q.slots, metadata := m } := by
  obtain ⟨h1, h2, h3, h4, h5⟩ := h
  cases multiply
  · cases hm
    simp [binaryPayload, requireCompatible, hl, h1, h2, h3, h4, h5 rfl, bind, Except.bind, pure,
      Except.pure]
  · rw [pairMetadata, if_pos rfl] at hm
    simp [binaryPayload, requireCompatible, hl, h1, h2, h3, h4, hm, bind, Except.bind, pure,
      Except.pure]

/-- The rule of an addition or subtraction, and the rule of a multiplication. -/
theorem pairRule {rhsKind : ValueKind} (hk : expectedInputs op.kind = [.ciphertext, rhsKind])
    (hr : checkMetadataRule op [a, b] out = .ok ()) :
    out.level = a.level ∧
      if (pairArith op.kind).2 then
        out.scaleLog2.toInt = a.scaleLog2.toInt + b.scaleLog2.toInt ∧
          if rhsKind = .ciphertext then
            out.components.toInt = a.components.toInt + b.components.toInt - 1
          else out.components = a.components
      else a.scaleLog2 = b.scaleLog2 ∧ out.scaleLog2 = a.scaleLog2 ∧
        out.components = a.components := by
  simp only [checkMetadataRule, bind_eq_ok, index_eq_ok, List.getElem?_cons_zero,
    Option.some.injEq, exists_eq_left'] at hr
  cases h : op.kind <;> simp [h, expectedInputs] at hk <;> subst hk <;>
    simp [h, pairArith, bind_eq_ok, index_eq_ok, sameMetadata_iff, LongLong.add_eq_ok,
      LongLong.sub_eq_ok] at hr ⊢ <;> grind

/-- The metadata of an accepted operation with two operands exist and are those
    of the output. -/
theorem pairMetadata_ok {p q : VecPayload} {rhsKind : ValueKind} (hrule : RuleOk op [a, b] out)
    (hk : expectedInputs op.kind = [.ciphertext, rhsKind])
    (hp : a.Describes p.kind p.metadata) (hq : b.Describes q.kind q.metadata)
    (hdeg : p.metadata.degree = q.metadata.degree) (hscale : 0 ≤ a.scaleLog2)
    (hcomp : b.kind = .ciphertext → 2 ≤ b.components) :
    p.kind = .ciphertext ∧ q.kind = rhsKind ∧
      Compatible (pairArith op.kind).2 p.metadata q.metadata ∧
      ∃ m, pairMetadata (pairArith op.kind).2 p.metadata q.metadata rhsKind = .ok m ∧
        out.Describes p.kind m ∧ m.degree = p.metadata.degree := by
  obtain ⟨hkinds, hkind, hbase, hpair, hr⟩ := hrule
  obtain ⟨hc, hn⟩ := hbase a rfl
  obtain ⟨hcb, hnb, hlb⟩ := hpair a b rfl
  obtain ⟨h1, h2, h3, h4, h5, h6⟩ := hp
  obtain ⟨h1', h2', h3', h4', h5', h6'⟩ := hq
  rw [hk] at hkinds
  simp only [List.map_cons, List.map_nil, List.cons.injEq, and_true] at hkinds
  obtain ⟨hak, hbk⟩ := hkinds
  obtain ⟨hl, hr⟩ := pairRule hk hr
  have hcompat : ((pairArith op.kind).2 = false → a.scaleLog2 = b.scaleLog2) →
      Compatible (pairArith op.kind).2 p.metadata q.metadata := fun hs =>
    ⟨by rw [h2, h2', hcb], hdeg, by rw [h3, h3', hlb], by rw [h5, h5', hnb],
      fun h => by rw [h4, h4', hs h]⟩
  have hdesc : ∀ {s c : CInt}, s = out.scaleLog2 → c = out.components →
      out.Describes p.kind { p.metadata with scaleLog2 := s, components := c } := fun hs hc' =>
    ⟨by rw [h1, hak, hkind], by rw [h2, hc], by rw [h3, hl], hs, by rw [h5, hn], hc'⟩
  refine ⟨h1.trans hak, h1'.trans hbk, ?_⟩
  cases hm : (pairArith op.kind).2 with
  | false =>
    simp only [hm, Bool.false_eq_true, if_false] at hr
    obtain ⟨hs, hos, hoc⟩ := hr
    refine ⟨hm ▸ hcompat fun _ => hs, p.metadata, rfl, ?_, rfl⟩
    exact hdesc (h4.trans hos.symm) (h6.trans hoc.symm)
  | true =>
    simp only [hm, if_true] at hr
    obtain ⟨hs, hcc⟩ := hr
    refine ⟨hm ▸ hcompat fun h => by simp [hm] at h, _, ?_, hdesc rfl rfl, rfl⟩
    rw [pairMetadata, if_pos rfl]
    refine multiplyMetadata_ok (h4 ▸ hscale) (by rw [h4, h4', hs]) ?_
    split_ifs at hcc ⊢ with hrk
    · exact ⟨h6' ▸ Int32.le_trans (by decide) (hcomp (hbk.trans hrk)), by rw [h6, h6', hcc]⟩
    · rw [h6, hcc]

/-- **The executor follows an accepted rule.** -/
theorem compute_ruleOk {inputs : List ValueDesc} {values : List VecValue} {degree slotCount : ℕ}
    (hrule : RuleOk op inputs out)
    (hvalues : List.Forall₂ (fun v d => ∃ p, v.Completes cells p ∧
      d.Describes p.kind p.metadata ∧ p.metadata.degree = degree ∧ p.slots.length = slotCount)
      values inputs) (hn : slotCount ≠ 0)
    (hscale : ∀ d ∈ inputs, 0 ≤ d.scaleLog2)
    (hcomp : ∀ d ∈ inputs, d.kind = .ciphertext → 2 ≤ d.components)
    (hattrs : ∀ attrs, op.attrs = .rescale attrs → 0 ≤ attrs.targetScaleLog2) :
    ∃ q, computeNow cells op values = some (.ok q) ∧ computeMetadata op values = .ok q.metadata ∧
      out.Describes q.kind q.metadata ∧ q.metadata.degree = degree ∧
      q.slots.length = slotCount := by
  have hkinds : expectedInputs op.kind = [.ciphertext] ∨
      ∃ rhsKind, expectedInputs op.kind = [.ciphertext, rhsKind] := by
    cases op.kind <;> simp [expectedInputs]
  have hlen := congrArg List.length hrule.kinds
  rcases hkinds with hk | ⟨rhsKind, hk⟩
  · rw [hk, List.length_map] at hlen
    obtain ⟨a, rfl⟩ := List.length_eq_one_iff.1 hlen
    cases hvalues with
    | cons hx hnil =>
      cases hnil
      obtain ⟨p, hx, hd, rfl, rfl⟩ := hx
      have hc : p.kind = .ciphertext := by
        have := hrule.kinds
        rw [hk] at this
        exact hd.kind.trans (List.cons.inj this).1
      have hne : p.slots ≠ [] := fun h => hn (by rw [h]; rfl)
      obtain ⟨q, hq, hdesc, hdeg, hl, hmeta⟩ := unaryPayload_ok hrule hd hne hattrs
      exact ⟨q, by rw [computeNow_unary hk hx hc, hq], hmeta _ hx, hdesc, hdeg, hl⟩
  · rw [hk, List.length_map] at hlen
    obtain ⟨a, b, rfl⟩ := List.length_eq_two.1 hlen
    cases hvalues with
    | cons hx hrest =>
      cases hrest with
      | cons hy hnil =>
        cases hnil
        obtain ⟨p, hx, hd, rfl, rfl⟩ := hx
        obtain ⟨q, hy, hd', hdeg, hl⟩ := hy
        obtain ⟨hpk, hqk, hcompat, m, hm, hdesc, hmdeg⟩ := pairMetadata_ok hrule hk hd hd' hdeg.symm
          (hscale a (by simp)) (hcomp b (by simp))
        refine ⟨{ p with
          slots := List.zipWith (pairArith op.kind).1 p.slots q.slots, metadata := m },
          ?_, ?_, hdesc, hmdeg, ?_⟩
        · rw [computeNow_pair hk hx hy hpk hqk, binaryPayload_eq hl.symm hcompat hm]
        · rw [computeMetadata_pair hk, binaryMetadata_eq (hx.kind.trans hpk) (hy.kind.trans hqk)
            (by rw [hx.metadata, hy.metadata]; exact hcompat), hx.metadata, hy.metadata, hm]
        · simp [hl]

/-- **The metadata rules of the verifier are what the executor produces.**  On
    complete operands of one degree and slot count that match their descriptors,
    both functions succeed, without overflow, and agree; the result is a
    ciphertext that `validate_value` accepts for the output descriptor. -/
theorem compute_describes {plan : RuntimePlan} {loaded : LoadedOperatorSpec} {skip : Bool}
    {req : PlanRequirements} (hv : verify plan loaded skip = .ok req)
    (hvalues : ∀ d ∈ plan.values, 0 ≤ d.level ∧ 0 ≤ d.scaleLog2)
    (hrescale : ∀ op ∈ computesOf plan.instructions, ∀ attrs, op.attrs = .rescale attrs →
      0 ≤ attrs.targetLevel ∧ 0 ≤ attrs.targetScaleLog2)
    {op : ComputeOp} (hop : op ∈ computesOf plan.instructions) (cells : ℕ → Cell)
    {values : List VecValue} {degree slotCount : ℕ} (hn : slotCount ≠ 0)
    (hin : List.Forall₂ (fun id v => ∃ d p, plan.desc? id = some d ∧ v.Completes cells p ∧
      d.Describes p.kind p.metadata ∧ p.metadata.degree = degree ∧ p.slots.length = slotCount)
      op.inputs values) :
    ∃ d q, plan.desc? op.output = some d ∧ computeNow cells op values = some (.ok q) ∧
      computeMetadata op values = .ok q.metadata ∧ q.kind = .ciphertext ∧
      d.Describes q.kind q.metadata ∧ q.metadata.degree = degree ∧
      validateValue degree (.ready q) d = .ok () := by
  have h := verify_accepted hv
  obtain ⟨i, hi, hb⟩ := mem_computesOf.1 hop
  obtain ⟨a, b, phase, hab, -, hok⟩ := h.split hi
  rw [hb] at hok
  obtain ⟨inputs, out, hall, hout, hrule⟩ := verifyComputeMetadata_ruleOk hok.metadata
  have hmem : ∀ d ∈ inputs, d ∈ plan.values := by
    intro d hd
    obtain ⟨id, -, hid⟩ := forall₂_mem_left hall.flip hd
    exact RuntimePlan.desc?_mem hid
  have hpairs : List.Forall₂ (fun v d => ∃ p, v.Completes cells p ∧
      d.Describes p.kind p.metadata ∧ p.metadata.degree = degree ∧ p.slots.length = slotCount)
      values inputs := by
    clear hok hrule
    generalize op.inputs = ids at hin hall
    clear hmem
    induction hin generalizing inputs with
    | nil => cases hall; exact .nil
    | cons hv _ ih =>
      cases hall with
      | cons hd hall =>
        obtain ⟨d, p, hd', hp⟩ := hv
        obtain rfl : d = _ := Option.some.inj (hd'.symm.trans hd)
        exact .cons ⟨p, hp⟩ (ih _ hall)
  obtain ⟨q, hq, hmeta, hdesc, hdeg, -⟩ := compute_ruleOk hrule hpairs hn
    (fun d hd => (hvalues d (hmem d hd)).2) (fun d hd => (h.value d (hmem d hd)).ciphertext)
    fun attrs hattrs => (hrescale op hop attrs hattrs).2
  exact ⟨out, q, hout, hq, hmeta, hdesc.kind.trans hrule.kind, hdesc, hdeg,
    validateValue_eq_ok.2 ⟨hdesc, hdeg⟩⟩

omit [DoubleArith] in
/-- The product of the fan-out plan on one device. -/
theorem compute_describes_fanoutPlan :
    let plan := (fanoutPlan [1] ⟨.device, 0, 0⟩ []).plan
    let op : ComputeOp := ⟨.mulCP, [2, 3], 4, ⟨.device, 0, 0⟩, .monostate⟩
    let values := [VecValue.ready ⟨.ciphertext, [0#64], ⟨"ctx", 8, 3, 1, true, 2⟩⟩,
      .ready ⟨.plaintext, [0#64], ⟨"ctx", 8, 3, 1, true, 1⟩⟩]
    ∃ d q, plan.desc? op.output = some d ∧
      @computeNow zeroArith (fun _ => .waiting) op values = some (.ok q) ∧
      computeMetadata op values = .ok q.metadata ∧ q.kind = .ciphertext ∧
      d.Describes q.kind q.metadata ∧ q.metadata.degree = 8 ∧
      validateValue 8 (.ready q) d = .ok () := by
  intro plan op values
  have hv : verify plan makeTestOperatorSpec false = .ok ⟨[.transfer], []⟩ := by decide
  have hattrs : ∀ op ∈ computesOf plan.instructions, op.attrs = .monostate := by decide
  have hop : op ∈ computesOf plan.instructions := by decide
  let := zeroArith
  refine compute_describes hv (by decide) ?_ hop _ Nat.one_ne_zero ?_
  · intro op hop attrs ha
    rw [hattrs op hop] at ha
    cases ha
  · exact .cons ⟨_, _, rfl, VecValue.ready_completes _, by constructor <;> rfl, rfl, rfl⟩
      (.cons ⟨_, _, rfl, VecValue.ready_completes _, by constructor <;> rfl, rfl, rfl⟩ .nil)

end VecExecutor

end CkksRuntime
