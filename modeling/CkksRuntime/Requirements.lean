/-
  ckks-runtime formalization — the requirements that the verifier derives.

  * `KeyRequirement.lt` and the order of the capabilities are orders by a key
    (`lt_iff_key`), so that the `std::set`s stay strictly increasing;
  * `InstructionBody.Needs`, `InstructionBody.NeedsKey`: what one instruction
    needs of a deployment;
  * `Collected`: the sets of `check_list` hold the needs of the instructions
    passed, by induction over the list;
  * `verify_exact`: the requirements of an accepted plan are the needs of its
    instructions, and a rotation is the one of its Galois key.
-/
import CkksRuntime.ComputeRules

namespace CkksRuntime

/-! ## The orders of the requirements -/

theorem RequiredCapability.toNat_injective : RequiredCapability.toNat.Injective := by
  intro a b h
  cases a <;> cases b <;> first | rfl | cases h

/-- Kind, rank and index of a place, in the order of comparison. -/
def Place.key (p : Place) : ℕ ×ₗ ℤ ×ₗ ℤ := toLex (p.kind.toNat, toLex (p.rank.toInt, p.index.toInt))

theorem PlaceKind.toNat_inj {a b : PlaceKind} : a.toNat = b.toNat ↔ a = b := by
  cases a <;> cases b <;> decide

theorem KeyKind.toNat_inj {a b : KeyKind} : a.toNat = b.toNat ↔ a = b := by
  cases a <;> cases b <;> decide

theorem Place.key_injective : Place.key.Injective := by
  intro a b h
  have h1 := congrArg (fun k => (ofLex k).1) h
  have h2 := congrArg (fun k => (ofLex (ofLex k).2).1) h
  have h3 := congrArg (fun k => (ofLex (ofLex k).2).2) h
  obtain ⟨kind, rank, index⟩ := a
  obtain ⟨kind', rank', index'⟩ := b
  obtain rfl := PlaceKind.toNat_inj.1 h1
  obtain rfl := Int32.toInt_inj.1 h2
  obtain rfl := Int32.toInt_inj.1 h3
  rfl

/-- A comparison that looks at a second component only when the first ones are equal. -/
theorem lex_ite_iff {α β : Type} [LinearOrder α] [LinearOrder β] {a a' : α} {b b' : β} {c : Prop}
    [Decidable c] (hc : c ↔ a ≠ a') :
    (if c then decide (a < a') else decide (b < b')) = true ↔ toLex (a, b) < toLex (a', b') := by
  rw [Prod.Lex.toLex_lt_toLex]
  by_cases h : a = a'
  · rw [if_neg (by simp [hc, h])]
    simp [h]
  · rw [if_pos (hc.2 h)]
    simp [h]

theorem Place.lt_iff_key (a b : Place) : a.lt b = true ↔ a.key < b.key := by
  have hinner : (if a.rank ≠ b.rank then decide (a.rank < b.rank) else decide (a.index < b.index)) =
      decide (toLex (a.rank.toInt, a.index.toInt) < toLex (b.rank.toInt, b.index.toInt)) := by
    rw [Bool.eq_iff_iff, decide_eq_true_eq, ← lex_ite_iff (c := a.rank ≠ b.rank)]
    · simp only [Int32.lt_iff_toInt_lt]
    · rw [ne_eq, ne_eq, Int32.toInt_inj]
  unfold Place.lt
  rw [hinner]
  exact lex_ite_iff (by rw [ne_eq, ne_eq, PlaceKind.toNat_inj])

/-- A rotation step in the order of `std::optional`: no step first. -/
def stepKey : Option CInt → WithBot ℤ
  | none => ⊥
  | some s => (s.toInt : WithBot ℤ)

theorem stepKey_injective : stepKey.Injective := by
  intro a b h
  cases a with
  | none =>
    cases b with
    | none => rfl
    | some b => exact absurd h (WithBot.bot_ne_coe)
  | some a =>
    cases b with
    | none => exact absurd h (WithBot.coe_ne_bot)
    | some b => rw [Int32.toInt_inj.1 (WithBot.coe_inj.1 h)]

theorem optionalLt_iff_key (a b : Option CInt) : optionalLt a b = true ↔ stepKey a < stepKey b := by
  cases a <;> cases b <;> simp [optionalLt, stepKey, Int32.lt_iff_toInt_lt]

/-- Kind, place and step of a key, in the order of comparison. -/
def KeyRequirement.key (k : KeyRequirement) : ℕ ×ₗ (ℕ ×ₗ ℤ ×ₗ ℤ) ×ₗ WithBot ℤ :=
  toLex (k.kind.toNat, toLex (k.place.key, stepKey k.rotationStep))

theorem KeyRequirement.key_injective : KeyRequirement.key.Injective := by
  intro a b h
  have h1 := congrArg (fun k => (ofLex k).1) h
  have h2 := congrArg (fun k => (ofLex (ofLex k).2).1) h
  have h3 := congrArg (fun k => (ofLex (ofLex k).2).2) h
  obtain ⟨kind, place, step⟩ := a
  obtain ⟨kind', place', step'⟩ := b
  obtain rfl := KeyKind.toNat_inj.1 h1
  obtain rfl := Place.key_injective h2
  obtain rfl := stepKey_injective h3
  rfl

theorem KeyRequirement.lt_iff_key (a b : KeyRequirement) : a.lt b = true ↔ a.key < b.key := by
  have hplace : ∀ p q : Place, p.lt q = decide (p.key < q.key) :=
    fun p q => by rw [Bool.eq_iff_iff, decide_eq_true_eq, Place.lt_iff_key]
  have hstep : ∀ s t : Option CInt, optionalLt s t = decide (stepKey s < stepKey t) :=
    fun s t => by rw [Bool.eq_iff_iff, decide_eq_true_eq, optionalLt_iff_key]
  have hinner : (if a.place ≠ b.place then a.place.lt b.place
      else optionalLt a.rotationStep b.rotationStep) =
      decide (toLex (a.place.key, stepKey a.rotationStep) <
        toLex (b.place.key, stepKey b.rotationStep)) := by
    rw [hplace, hstep, Bool.eq_iff_iff, decide_eq_true_eq]
    exact lex_ite_iff (by rw [ne_eq, ne_eq, Place.key_injective.eq_iff])
  unfold KeyRequirement.lt
  rw [hinner]
  exact lex_ite_iff (by rw [ne_eq, ne_eq, KeyKind.toNat_inj])

/-! ## What an instruction needs -/

/-- A Boot of the given implementation. -/
def ComputeOp.Boots (op : ComputeOp) (implementation : BootImplementation) : Prop :=
  op.kind = .boot ∧ ∃ attrs, op.attrs = .boot attrs ∧ attrs.implementation = implementation

/-- The capabilities an instruction needs. -/
def InstructionBody.Needs : InstructionBody → RequiredCapability → Prop
  | encode _, c => c = .encode
  | comm action, c => c = PlanVerifier.commCapability action.kind
  | compute op, .hostCompute => op.place.kind = .host
  | compute op, .bootNative => op.Boots .native
  | compute op, .bootDecryptReencrypt => op.Boots .decryptReencrypt
  | compute _, _ => False

/-- A rotation whose steps are the key step modulo the `n` slots. -/
def ComputeOp.RotatesBy (op : ComputeOp) (n : ℕ) (step : CInt) : Prop :=
  op.kind = .rotate ∧ ∃ attrs, op.attrs = .rotate attrs ∧
    attrs.steps.toInt ≡ step.toInt [ZMOD n] ∧ 1 ≤ step.toInt ∧ step.toInt < n

/-- The keys a compute instruction needs at its place, with `n` slots. -/
def ComputeOp.NeedsKey (op : ComputeOp) (n : ℕ) (k : KeyRequirement) : Prop :=
  k.place = op.place ∧
    match k.kind with
    | .relin => op.kind = .relinearize ∧ k.rotationStep = none
    | .secret => op.Boots .decryptReencrypt ∧ k.rotationStep = none
    | .galois => ∃ step, k.rotationStep = some step ∧ op.RotatesBy n step

def InstructionBody.NeedsKey (b : InstructionBody) (n : ℕ) (k : KeyRequirement) : Prop :=
  ∃ op, b = .compute op ∧ op.NeedsKey n k

/-- The C++ remainder, shifted up when it is negative, is the Euclidean one. -/
theorem normalized_remainder (a : ℤ) {n : ℕ} (hn : 0 < n) :
    (if a.tmod n < 0 then a.tmod n + n else a.tmod n) = a % n := by
  have h0 : 0 ≤ a % n := Int.emod_nonneg _ (by omega)
  have hlt : a % n < n := Int.emod_lt_of_pos _ (by omega)
  have he := Int.emod_eq_tmod (a := a) (b := n)
  split_ifs at he with hc
  · rw [if_neg (by omega)]
    omega
  · rw [if_pos (by omega)]
    omega

namespace PlanVerifier

/-- The normalized step: the representative of the steps between `1` and `n - 1`. -/
theorem normalizedRotationStep_eq_ok {steps step : CInt} {n : ℕ}
    (h : normalizedRotationStep steps n = .ok step) (other : CInt) :
    other = step ↔ steps.toInt ≡ other.toInt [ZMOD n] ∧ 1 ≤ other.toInt ∧ other.toInt < n := by
  simp only [normalizedRotationStep, bind_eq_ok, failIf_eq_ok, pure_eq_ok, not_or,
    LongLong.rem_eq_ok] at h
  obtain ⟨-, ⟨hn0, hnmax⟩, _, ⟨-, rfl⟩, normalized, hshift, -, hne, rfl⟩ := h
  have hmax : CInt.max.toInt.toNat = 2 ^ 31 - 1 := by decide
  have hnorm : normalized = steps.toInt % n := by
    rw [← normalized_remainder _ (Nat.pos_of_ne_zero hn0)]
    split_ifs at hshift ⊢
    · exact (LongLong.add_eq_ok.1 hshift).2.symm
    · exact (Except.ok.inj hshift).symm
  subst hnorm
  have h0 : 0 ≤ steps.toInt % n := Int.emod_nonneg _ (by omega)
  have hlt : steps.toInt % n < n := Int.emod_lt_of_pos _ (by omega)
  have hval : (Int32.ofInt (steps.toInt % n)).toInt = steps.toInt % n :=
    Int32.toInt_ofInt_of_le (by omega) (by omega)
  rw [← Int32.toInt_inj, hval]
  constructor
  · intro he
    rw [he]
    exact ⟨(Int.mod_modEq _ _).symm, by omega, hlt⟩
  · rintro ⟨he, h1, h2⟩
    rw [he.eq]
    exact (Int.emod_eq_of_lt (by omega) h2).symm

/-! ## The sets of `check_list` -/

/-- The requirements collected so far are, in order, those of `C` and `K`. -/
structure Collected (C : RequiredCapability → Prop) (K : KeyRequirement → Prop) (st : CheckState) :
    Prop where
  capabilities_sorted : st.capabilities.Pairwise fun a b => decide (a.toNat < b.toNat) = true
  keys_sorted : st.keys.Pairwise fun a b => a.lt b = true
  capability : ∀ c, c ∈ st.capabilities ↔ C c
  key : ∀ k, k ∈ st.keys ↔ K k

namespace Collected
variable {C : RequiredCapability → Prop} {K : KeyRequirement → Prop} {st st' : CheckState}

theorem congr (h : Collected C K st) (hc : st'.capabilities = st.capabilities)
    (hk : st'.keys = st.keys) : Collected C K st' :=
  ⟨hc ▸ h.capabilities_sorted, hk ▸ h.keys_sorted, hc ▸ h.capability, hk ▸ h.key⟩

theorem require (h : Collected C K st) (c : RequiredCapability) :
    Collected (fun x => C x ∨ x = c) K (st.require c) := by
  have hlt : ∀ a b : RequiredCapability, decide (a.toNat < b.toNat) = true ↔ a.toNat < b.toNat :=
    fun a b => decide_eq_true_iff
  refine ⟨pairwise_setInsert hlt RequiredCapability.toNat_injective h.capabilities_sorted,
    h.keys_sorted, fun x => ?_, h.key⟩
  have hmem : x ∈ (st.require c).capabilities ↔ x = c ∨ x ∈ st.capabilities :=
    mem_setInsert hlt RequiredCapability.toNat_injective
  rw [hmem, h.capability, or_comm]

theorem requireKey (h : Collected C K st) (k : KeyRequirement) :
    Collected C (fun x => K x ∨ x = k) (st.requireKey k) := by
  refine ⟨h.capabilities_sorted, pairwise_setInsert KeyRequirement.lt_iff_key
    KeyRequirement.key_injective h.keys_sorted, h.capability, fun x => ?_⟩
  have hmem : x ∈ (st.requireKey k).keys ↔ x = k ∨ x ∈ st.keys :=
    mem_setInsert KeyRequirement.lt_iff_key KeyRequirement.key_injective
  rw [hmem, h.key, or_comm]

/-- The same sets, described in another way. -/
theorem iff {C' : RequiredCapability → Prop} {K' : KeyRequirement → Prop} (h : Collected C K st)
    (hC : ∀ c, C c ↔ C' c) (hK : ∀ k, K k ↔ K' k) : Collected C' K' st :=
  ⟨h.capabilities_sorted, h.keys_sorted, fun c => (h.capability c).trans (hC c),
    fun k => (h.key k).trans (hK k)⟩

theorem requireIf (h : Collected C K st) (c : RequiredCapability) (p : Prop) [Decidable p] :
    Collected (fun x => C x ∨ (x = c ∧ p)) K (if p then st.require c else st) := by
  split_ifs with hp
  · exact (h.require c).iff (fun x => by rw [and_iff_left hp]) fun k => Iff.rfl
  · refine h.iff (fun x => ?_) fun k => Iff.rfl
    rw [or_iff_left fun hx => hp hx.2]

end Collected

section Instructions
variable {plan : RuntimePlan} {spec : OperatorSpec} {op : ComputeOp} {n : ℕ} {k : KeyRequirement}
  {C : RequiredCapability → Prop} {K : KeyRequirement → Prop} {st st' : CheckState}

theorem boots_iff {attrs : BootAttrs} (hk : op.kind = .boot) (ha : op.attrs = .boot attrs)
    (b : BootImplementation) : op.Boots b ↔ attrs.implementation = b := by
  simp [ComputeOp.Boots, hk, ha]

theorem not_boots (hk : op.kind ≠ .boot) (b : BootImplementation) : ¬ op.Boots b :=
  fun h => hk h.1

/-- The keys of a rotation: the normalized step and no other. -/
theorem needsKey_rotate {attrs : RotateAttrs} {step : CInt} (hk : op.kind = .rotate)
    (ha : op.attrs = .rotate attrs) (hstep : normalizedRotationStep attrs.steps n = .ok step) :
    op.NeedsKey n k ↔ k = ⟨.galois, op.place, some step⟩ := by
  obtain ⟨kind, place, rotationStep⟩ := k
  have huniq := normalizedRotationStep_eq_ok hstep
  cases kind with
  | galois =>
    simp only [ComputeOp.NeedsKey, ComputeOp.RotatesBy, hk, ha, true_and, ComputeAttrs.rotate.injEq,
      exists_eq_left', ← huniq, KeyRequirement.mk.injEq, exists_eq_right]
  | relin => simp [ComputeOp.NeedsKey, hk]
  | secret => simp [ComputeOp.NeedsKey, ComputeOp.Boots, hk]

theorem needsKey_relinearize (hk : op.kind = .relinearize) :
    op.NeedsKey n k ↔ k = ⟨.relin, op.place, none⟩ := by
  obtain ⟨kind, place, rotationStep⟩ := k
  cases kind <;> simp [ComputeOp.NeedsKey, ComputeOp.Boots, ComputeOp.RotatesBy, hk]

theorem needsKey_boot (hk : op.kind = .boot) :
    op.NeedsKey n k ↔ op.Boots .decryptReencrypt ∧ k = ⟨.secret, op.place, none⟩ := by
  obtain ⟨kind, place, rotationStep⟩ := k
  cases kind <;> simp [ComputeOp.NeedsKey, ComputeOp.RotatesBy, hk]
  tauto

theorem not_needsKey (hrotate : op.kind ≠ .rotate) (hrelin : op.kind ≠ .relinearize)
    (hboot : op.kind ≠ .boot) : ¬ op.NeedsKey n k := by
  obtain ⟨kind, place, rotationStep⟩ := k
  cases kind <;> simp [ComputeOp.NeedsKey, ComputeOp.Boots, ComputeOp.RotatesBy, hrotate, hrelin, hboot]

/-- An operation collects its own capability and its own key. -/
theorem checkOperation_collected {descs : DescMap} {support : OperatorSupport}
    (hst : Collected C K st) (h : checkOperation spec descs op support st = .ok st') :
    Collected
      (fun c => C c ∨ (c = .bootNative ∧ op.Boots .native) ∨
        (c = .bootDecryptReencrypt ∧ op.Boots .decryptReencrypt))
      (fun k => K k ∨ op.NeedsKey (spec.polyDegree / 2) k) st' := by
  cases hk : op.kind with
  | rotate =>
    cases ha : op.attrs with
    | rotate attrs =>
      simp only [checkOperation, hk, ha, bind_eq_ok, pure_eq_ok] at h
      obtain ⟨step, hstep, rfl⟩ := h
      refine (hst.requireKey _).iff (fun c => ?_) fun k => ?_
      · simp [not_boots, hk]
      · rw [needsKey_rotate hk ha hstep]
    | _ => simp [checkOperation, hk, ha] at h
  | relinearize =>
    simp only [checkOperation, hk, Except.ok.injEq] at h
    subst h
    refine (hst.requireKey _).iff (fun c => ?_) fun k => ?_
    · simp [not_boots, hk]
    · rw [needsKey_relinearize hk]
  | rescale =>
    have hst' : st' = st := by
      cases ha : op.attrs with
      | rescale attrs =>
        simp only [checkOperation, hk, ha, bind_eq_ok] at h
        obtain ⟨_, -, input, -, h⟩ := h
        cases hm : support.maxLevelsPerOp with
        | none => simp [hm] at h
        | some m =>
          simp only [hm, bind_eq_ok, pure_eq_ok] at h
          obtain ⟨_, -, _, -, rfl⟩ := h
          rfl
      | _ => simp [checkOperation, hk, ha] at h
    subst hst'
    exact hst.iff (fun c => by simp [not_boots, hk]) fun k => by simp [not_needsKey, hk]
  | boot =>
    cases ha : op.attrs with
    | boot attrs =>
      simp only [checkOperation, hk, ha, bind_eq_ok] at h
      obtain ⟨profile, -, _, -, input, -, _, -, h⟩ := h
      have hboots := boots_iff hk ha
      cases hi : attrs.implementation with
      | native =>
        rw [hi] at h
        cases h
        refine (hst.require _).iff (fun c => ?_) fun k => ?_
        · simp [hboots, hi]
        · simp [needsKey_boot hk, hboots, hi]
      | decryptReencrypt =>
        rw [hi] at h
        cases h
        refine ((hst.require _).requireKey _).iff (fun c => ?_) fun k => ?_
        · simp [hboots, hi]
        · simp [needsKey_boot hk, hboots, hi]
    | _ => simp [checkOperation, hk, ha] at h
  | _ =>
    simp only [checkOperation, hk, Except.ok.injEq] at h
    subst h
    exact hst.iff (fun c => by simp [not_boots, hk]) fun k => by simp [not_needsKey, hk]

theorem checkEncode_collected {phase : Phase} {encode : EncodeOp} (hst : Collected C K st)
    (h : checkEncode spec plan.values phase encode st = .ok st') :
    Collected (fun c => C c ∨ c = .encode) K st' := by
  simp only [checkEncode, bind_eq_ok, define_eq_ok] at h
  obtain ⟨_, -, d, -, _, -, st₁, ⟨-, rfl⟩, h⟩ := h
  have hst₁ : Collected C K { st with
      mentioned := insert d.id st.mentioned
      defined := insert d.id st.defined } := hst.congr rfl rfl
  cases hp : encode.payload with
  | inline values =>
    simp only [hp, bind_eq_ok, pure_eq_ok] at h
    obtain ⟨_, -, _, -, rfl⟩ := h
    exact hst₁.require .encode
  | bundle content =>
    simp only [hp, pure_eq_ok] at h
    subst h
    exact (hst₁.require .encode).congr rfl rfl

theorem checkComm_collected {action : CommAction} (hst : Collected C K st)
    (h : checkComm plan plan.values action st = .ok st') :
    Collected (fun c => C c ∨ c = commCapability action.kind) K st' := by
  simp only [checkComm, bind_eq_ok, pure_eq_ok] at h
  obtain ⟨_, -, _, -, id, -, _, -, d, -, _, -, _, -, _, -, _, -, _, -, _, -, r, hr, rfl⟩ := h
  obtain ⟨-, -, -, -, -, -, rfl⟩ := checkCommOutputs_eq_ok _ hr
  have hst₁ : Collected C K { st with transfers := insert action.id st.transfers } :=
    hst.congr rfl rfl
  exact (hst₁.require (commCapability action.kind)).congr rfl rfl

theorem checkCompute_collected (hst : Collected C K st)
    (h : checkCompute plan spec plan.values op st = .ok st') :
    Collected (fun c => C c ∨ (InstructionBody.compute op).Needs c)
      (fun k => K k ∨ op.NeedsKey (spec.polyDegree / 2) k) st' := by
  simp only [checkCompute, bind_eq_ok, define_eq_ok] at h
  obtain ⟨_, -, st₁, huses, st₂, ⟨-, rfl⟩, _, -, h⟩ := h
  obtain ⟨-, rfl⟩ := checkUses_eq_ok huses
  cases hs : spec.operator? op.kind with
  | none => simp [hs] at h
  | some support =>
    simp only [hs, bind_eq_ok] at h
    obtain ⟨_, -, h⟩ := h
    obtain ⟨s, h, hc, hk⟩ : ∃ s : CheckState, checkOperation spec plan.values op support
        (if op.place.kind = .host then s.require .hostCompute else s) = .ok st' ∧
          s.capabilities = st.capabilities ∧ s.keys = st.keys := ⟨_, h, rfl, rfl⟩
    have hst₁ := (hst.congr hc hk).requireIf .hostCompute (op.place.kind = .host)
    refine (checkOperation_collected hst₁ h).iff (fun c => ?_) fun k => Iff.rfl
    cases c <;> simp [InstructionBody.Needs]

/-- One instruction adds its needs. -/
theorem checkInstruction_collected {phase : Phase} {i : Instruction} (hst : Collected C K st)
    (h : checkInstruction plan spec plan.values phase st i = .ok st') :
    Collected (fun c => C c ∨ i.body.Needs c)
      (fun k => K k ∨ i.body.NeedsKey (spec.polyDegree / 2) k) st' := by
  simp only [checkInstruction, bind_eq_ok] at h
  obtain ⟨_, -, h⟩ := h
  have hst₁ : Collected C K { st with expectedOrdinal := st.expectedOrdinal + 1 } :=
    hst.congr rfl rfl
  cases hb : i.body with
  | encode encode =>
    rw [hb] at h
    refine (checkEncode_collected hst₁ h).iff (fun c => ?_) fun k => ?_
    · cases c <;> simp [InstructionBody.Needs]
    · simp [InstructionBody.NeedsKey]
  | compute op =>
    rw [hb] at h
    refine (checkCompute_collected hst₁ h).iff (fun c => Iff.rfl) fun k => ?_
    simp [InstructionBody.NeedsKey]
  | comm action =>
    rw [hb] at h
    refine (checkComm_collected hst₁ h).iff (fun c => ?_) fun k => ?_
    · cases c <;> simp [InstructionBody.Needs]
    · simp [InstructionBody.NeedsKey]

theorem checkList_collected {phase : Phase} : ∀ {list : List Instruction} {st : CheckState}
    {C : RequiredCapability → Prop} {K : KeyRequirement → Prop}, Collected C K st →
    checkList plan spec plan.values list phase st = .ok st' →
      Collected (fun c => C c ∨ ∃ i ∈ list, i.body.Needs c)
        (fun k => K k ∨ ∃ i ∈ list, i.body.NeedsKey (spec.polyDegree / 2) k) st'
  | [], _, _, _, hst, h => by
    cases h
    exact hst.iff (fun c => by simp) fun k => by simp
  | i :: list, _, _, _, hst, h => by
    obtain ⟨st₁, hi, h⟩ := foldlM_cons_eq_ok.1 h
    refine (checkList_collected (checkInstruction_collected hst hi) h).iff (fun c => ?_) fun k => ?_
    · simp [or_assoc]
    · simp [or_assoc]

theorem checkFinalOutputs_requirements {ids : List ValueId} :
    ∀ {s s' : CheckState × Finset ValueId}, ids.foldlM (checkFinalOutput plan.values) s = .ok s' →
      s'.1.capabilities = s.1.capabilities ∧ s'.1.keys = s.1.keys := by
  induction ids with
  | nil =>
    intro s s' h
    cases h
    exact ⟨rfl, rfl⟩
  | cons id ids ih =>
    intro s s' h
    obtain ⟨s₁, hid, h⟩ := foldlM_cons_eq_ok.1 h
    simp only [checkFinalOutput, bind_eq_ok, pure_eq_ok] at hid
    obtain ⟨_, -, _, -, _, -, rfl⟩ := hid
    have := ih h
    exact this

end Instructions

/-! ## The requirements of a plan -/

/-- The executor rotates by the key step. -/
theorem computeNow_rotate [DoubleArith] {cells : ℕ → Cell} {op : ComputeOp} {n : ℕ} {step : CInt}
    (hop : op.RotatesBy n step) {x : VecValue} {p : VecPayload} (hx : x.Completes cells p)
    (hc : p.kind = .ciphertext) (hn : p.slots.length = n) :
    VecExecutor.computeNow cells op [x] =
      pure { p with slots := p.slots.rotate step.toInt.toNat } := by
  obtain ⟨hk, attrs, ha, hmod, h1, hlt⟩ := hop
  have hpos : 0 < n := by omega
  have hne : p.slots ≠ [] := by
    rintro he
    simp [he] at hn
    omega
  have hshift : attrs.steps.toInt % n = step.toInt := by
    rw [hmod.eq, Int.emod_eq_of_lt (by omega) hlt]
  have hpayload : VecExecutor.unaryPayload op p =
      .ok { p with slots := p.slots.rotate step.toInt.toNat } := by
    simp only [VecExecutor.unaryPayload, hk, ha, List.isEmpty_iff, hne, if_false, hn,
      normalized_remainder _ hpos, hshift]
  rw [VecExecutor.computeNow_unary (by rw [hk]; rfl) hx hc, hpayload]
  rfl

/-- **The requirements of a plan are exact.** -/
structure Exact [DoubleArith] (plan : RuntimePlan) (spec : OperatorSpec) (req : PlanRequirements) :
    Prop where
  capabilities_sorted : req.capabilities.Pairwise fun a b => a.toNat < b.toNat
  keys_sorted : req.keys.Pairwise fun a b => a.lt b = true
  capability : ∀ c, c ∈ req.capabilities ↔ ∃ i ∈ plan.instructions, i.body.Needs c
  key : ∀ k, k ∈ req.keys ↔ ∃ i ∈ plan.instructions, i.body.NeedsKey (spec.polyDegree / 2) k
  /-- every rotation has one key step, and is the rotation by it -/
  rotation : ∀ i ∈ plan.instructions, ∀ op, i.body = .compute op → op.kind = .rotate →
    ∃ step, ⟨.galois, op.place, some step⟩ ∈ req.keys ∧
      (∀ other, op.RotatesBy (spec.polyDegree / 2) other ↔ other = step) ∧
      ∀ (cells : ℕ → Cell) (x : VecValue) (p : VecPayload), x.Completes cells p →
        p.kind = .ciphertext → p.slots.length = spec.polyDegree / 2 →
          ∃ q, VecExecutor.computeNow cells op [x] = pure q ∧ q.kind = p.kind ∧
            q.metadata = p.metadata ∧ q.slots.length = p.slots.length ∧
            ∀ i < p.slots.length,
              q.slots[i]? = p.slots[(i + step.toInt.toNat) % p.slots.length]?

/-- Every instruction of a list that passes is checked in some state. -/
theorem checkList_mem {plan : RuntimePlan} {spec : OperatorSpec} {phase : Phase}
    {i : Instruction} : ∀ {list : List Instruction} {st st' : CheckState},
      checkList plan spec plan.values list phase st = .ok st' → i ∈ list →
        ∃ s s', checkInstruction plan spec plan.values phase s i = .ok s'
  | j :: list, _, _, h, hi => by
    obtain ⟨st₁, hj, h⟩ := foldlM_cons_eq_ok.1 h
    rcases List.mem_cons.1 hi with rfl | hi
    · exact ⟨_, _, hj⟩
    · exact checkList_mem h hi

/-- A rotation that passes has a normalized step. -/
theorem checkInstruction_step {plan : RuntimePlan} {spec : OperatorSpec} {phase : Phase}
    {i : Instruction} {st st' : CheckState} {op : ComputeOp}
    (h : checkInstruction plan spec plan.values phase st i = .ok st') (hb : i.body = .compute op)
    (hk : op.kind = .rotate) : ∃ attrs step, op.attrs = .rotate attrs ∧
      normalizedRotationStep attrs.steps (spec.polyDegree / 2) = .ok step := by
  simp only [checkInstruction, hb, checkCompute, bind_eq_ok] at h
  obtain ⟨_, -, _, -, _, -, _, -, _, -, h⟩ := h
  cases hs : spec.operator? op.kind with
  | none => simp [hs] at h
  | some support =>
    simp only [hs, bind_eq_ok] at h
    obtain ⟨_, -, h⟩ := h
    cases ha : op.attrs with
    | rotate attrs =>
      simp only [checkOperation, hk, ha, bind_eq_ok] at h
      obtain ⟨step, hstep, -⟩ := h
      exact ⟨attrs, step, rfl, hstep⟩
    | _ => simp [checkOperation, hk, ha] at h

/-- **The derived requirements are exact**, and the derived Galois keys are the ones
    that the rotations use. -/
theorem verify_exact [DoubleArith] {plan : RuntimePlan} {loaded : LoadedOperatorSpec} {skip : Bool}
    {req : PlanRequirements} (h : verify plan loaded skip = .ok req) :
    Exact plan loaded.spec req := by
  simp only [verify, bind_eq_ok, pure_eq_ok] at h
  obtain ⟨_, -, descs, hvalues, st₀, hinputs, st₁, hinit, st₂, hexec, st₃, hfin, _, -, _, -, r,
    hfinals, _, -, _, -, rfl⟩ := h
  obtain ⟨rfl, -, -⟩ := checkValues_eq_ok hvalues (by simp)
  rw [List.nil_append] at *
  obtain ⟨-, -, -, rfl⟩ := checkExternalInputs_eq_ok hinputs
  obtain ⟨hcaps, hkeys⟩ := checkFinalOutputs_requirements hfinals
  have hst : Collected (fun _ => False) (fun _ => False) { ({} : CheckState) with
      mentioned := plan.externalInputs.toFinset ∪ ∅
      defined := plan.externalInputs.toFinset ∪ ∅ } :=
    ⟨.nil, .nil, fun c => by simp, fun k => by simp⟩
  have hall : Collected (fun c => ∃ i ∈ plan.instructions, i.body.Needs c)
      (fun k => ∃ i ∈ plan.instructions, i.body.NeedsKey (loaded.spec.polyDegree / 2) k) r.1 := by
    have := checkList_collected (checkList_collected (checkList_collected hst hinit) hexec) hfin
    refine (this.congr hcaps hkeys).iff (fun c => ?_) fun k => ?_
    · simp [RuntimePlan.instructions, or_and_right, exists_or, or_assoc]
    · simp [RuntimePlan.instructions, or_and_right, exists_or, or_assoc]
  refine ⟨hall.capabilities_sorted.imp fun h => of_decide_eq_true h, hall.keys_sorted,
    hall.capability, hall.key, fun i hi op hb hk => ?_⟩
  have hchecked : ∃ phase s s',
      checkInstruction plan loaded.spec plan.values phase s i = .ok s' := by
    rcases List.mem_append.1 hi with hi | hi
    · rcases List.mem_append.1 hi with hi | hi
      · exact ⟨_, checkList_mem hinit hi⟩
      · exact ⟨_, checkList_mem hexec hi⟩
    · exact ⟨_, checkList_mem hfin hi⟩
  obtain ⟨phase, s, s', hs⟩ := hchecked
  obtain ⟨attrs, step, ha, hstep⟩ := checkInstruction_step hs hb hk
  have huniq : ∀ other, op.RotatesBy (loaded.spec.polyDegree / 2) other ↔ other = step := by
    intro other
    rw [normalizedRotationStep_eq_ok hstep]
    simp [ComputeOp.RotatesBy, hk, ha]
  refine ⟨step, ?_, huniq, fun cells x p hx hc hn => ?_⟩
  · exact (hall.key _).2 ⟨i, hi, op, hb, (needsKey_rotate hk ha hstep).2 rfl⟩
  · refine ⟨_, computeNow_rotate ((huniq step).2 rfl) hx hc hn, rfl, rfl, by simp, fun j hj => ?_⟩
    exact List.getElem?_rotate hj

/-- One rotation on the host, by the least number of steps but one. -/
def rotatePlan : RuntimePlan where
  planId := 1
  target := (fanoutPlan [1] ⟨.device, 0, 0⟩ []).plan.target
  plaintextBundle := none
  values := [valueDesc 0 .ciphertext ⟨.host, 0, 0⟩, valueDesc 1 .ciphertext ⟨.host, 0, 0⟩]
  externalInputs := [0]
  initialization := []
  execution := [⟨0, .compute ⟨.rotate, [0], 1, ⟨.host, 0, 0⟩, .rotate ⟨-2147483647⟩⟩⟩]
  finalization := []
  finalOutputs := [1]

theorem verify_exact_rotatePlan :
    @Exact zeroArith rotatePlan makeTestOperatorSpec.spec
      ⟨[.hostCompute], [⟨.galois, ⟨.host, 0, 0⟩, some 1⟩]⟩ :=
  @verify_exact zeroArith _ _ false _ (by decide)

end PlanVerifier

end CkksRuntime
