/-
  ckks-runtime formalization — verification is safe on every plan.

  The verifier reads the tables of the specification and of the plan unchecked,
  or by `at`, on the strength of earlier checks.  None of these accesses fails
  (`verify_safe`): on a specification that the reader accepts, and on any plan
  whatever, `verify` returns or throws what `fail` throws.

  * `Throws`: the faults of a computation, with the rules of its constructs
  * `SpecSafe`: the facts of the specification that the verifier rests on
  * `Described`: the facts of the values that the instructions rest on
-/
import CkksRuntime.ComputeRules
import CkksRuntime.SpecInvariants

namespace CkksRuntime

/-! ## The faults of a computation -/

section Throws

variable {ε α β σ : Type} {Q : ε → Prop}

/-- Every fault of the computation is one of `Q`. -/
def Throws (Q : ε → Prop) (x : Except ε α) : Prop :=
  ∀ fault, x = .error fault → Q fault

theorem throws_ok (a : α) : Throws Q (.ok a : Except ε α) := nofun

theorem throws_pure (a : α) : Throws Q (pure a : Except ε α) := nofun

theorem throws_of_ok {x : Except ε α} {a : α} (h : x = .ok a) : Throws Q x := by
  subst h
  exact throws_ok a

theorem Throws.bind {x : Except ε α} {f : α → Except ε β} (hx : Throws Q x)
    (hf : ∀ a, x = .ok a → Throws Q (f a)) : Throws Q (x >>= f) := by
  intro fault h
  cases hres : x with
  | error e =>
    rw [hres] at h
    cases h
    exact hx _ hres
  | ok a =>
    rw [hres] at h
    exact hf a hres fault h

theorem throws_ite {c : Prop} [Decidable c] {x y : Except ε α} (hx : c → Throws Q x)
    (hy : ¬ c → Throws Q y) : Throws Q (if c then x else y) := by
  split_ifs with h
  · exact hx h
  · exact hy h

/-- A loop throws what its rounds throw. -/
theorem throws_foldlM {f : σ → α → Except ε σ} {xs : List α}
    (h : ∀ x ∈ xs, ∀ s, Throws Q (f s x)) (s : σ) : Throws Q (xs.foldlM f s) := by
  induction xs generalizing s with
  | nil => exact throws_pure s
  | cons x xs ih =>
    rw [List.foldlM_cons]
    refine (h x List.mem_cons_self s).bind fun s' _ => ?_
    exact ih (fun y hy => h y (List.mem_cons_of_mem x hy)) s'

end Throws

namespace PlanVerifier

/-! ## `fail` -/

/-- What `fail` throws. -/
def Failure (fault : Fault) : Prop :=
  ∃ message, fault = .runtimeError ("plan verification failed: " ++ message)

theorem throws_fail {α : Type} (message : String) :
    Throws Failure (fail message : Except Fault α) := by
  intro fault h
  exact ⟨message, (Except.error.inj h).symm⟩

theorem throws_failIf {c : Prop} [Decidable c] (message : String) :
    Throws Failure (failIf c message) :=
  throws_ite (fun _ => throws_fail message) fun _ => throws_ok ()

theorem throws_lookup (descs : DescMap) (id : ValueId) (w : String) :
    Throws Failure (lookup descs id w) := by
  unfold lookup
  cases descs.find id with
  | some d => exact throws_ok d
  | none => exact throws_fail _

theorem throws_define (st : CheckState) (id : ValueId) (message : String) :
    Throws Failure (st.define id message) :=
  throws_ite (fun _ => throws_fail message) fun _ => throws_ok _

theorem throws_index {α : Type} {xs : List α} {i : ℕ} (h : i < xs.length) :
    Throws Failure (index xs i) :=
  throws_of_ok (index_eq_ok.2 (List.getElem?_eq_getElem h))

theorem throws_elemAt {α : Type} {xs : List α} {i : ℕ} (h : i < xs.length) :
    Throws Failure (elemAt xs i) :=
  throws_of_ok (elemAt_eq_ok.2 (List.getElem?_eq_getElem h))

/-- The sum of two `int`s is a `long long`. -/
theorem throws_addInts (a b : CInt) : Throws Failure (LongLong.add a.toInt b.toInt) := by
  have ha := a.toInt_lt
  have ha' := a.le_toInt
  have hb := b.toInt_lt
  have hb' := b.le_toInt
  exact throws_of_ok (LongLong.add_eq_ok.2 ⟨by omega, rfl⟩)

/-! ## The specification -/

/-- What the verifier relies on: a value in range has its moduli, and the loop
    over them does not leave the `int`s. -/
structure SpecSafe (spec : OperatorSpec) : Prop where
  lower : 0 ≤ spec.levelLowerBound
  moduli : spec.levelUpperBound.toInt < spec.rnsModuliLog2.length
  upper : spec.levelUpperBound.toInt + 1 < 2 ^ 31

/-- The levels that pass the range check of the values. -/
def InRange (spec : OperatorSpec) (level : CInt) : Prop :=
  spec.levelLowerBound ≤ level ∧ level ≤ spec.levelUpperBound

theorem readText_specSafe [DoubleArith] {sax : Sax} {text : Bytes} {loaded : LoadedOperatorSpec}
    (h : OperatorSpecReader.readText sax text = .ok loaded) : SpecSafe loaded.spec := by
  have hwf := OperatorSpecReader.readText_wellFormed h
  simp only [OperatorSpecReader.readText, bind_eq_ok, pure_eq_ok] at h
  obtain ⟨root, -, spec, hspec, _, -, rfl⟩ := h
  exact ⟨hwf.lower, hwf.upper, OperatorSpecReader.readDocument_upper_lt hspec⟩

variable {plan : RuntimePlan} {spec : OperatorSpec}

/-- A level in range is a small nonnegative number. -/
theorem InRange.bounds {level : CInt} (hs : SpecSafe spec) (h : InRange spec level) :
    0 ≤ level.toInt ∧ level.toInt < spec.rnsModuliLog2.length ∧ level.toInt + 1 < 2 ^ 31 := by
  obtain ⟨hlower, hmoduli, hupper⟩ := hs
  have h0 := Int32.le_iff_toInt_le.1 hlower
  have h1 := Int32.le_iff_toInt_le.1 h.1
  have h2 := Int32.le_iff_toInt_le.1 h.2
  have hzero : (0 : CInt).toInt = 0 := rfl
  refine ⟨by omega, by omega, by omega⟩

/-- **The budget loop.** After `n` rounds the sum is at most `n` times the
    largest `int`, so a `long long` holds it. -/
theorem addModulus_ok : ∀ {n : ℕ}, n ≤ spec.rnsModuliLog2.length → n < 2 ^ 31 →
    ∃ budget, (List.range n).foldlM (addModulus spec) 0 = .ok budget ∧
      -(n * 2 ^ 31 : ℤ) ≤ budget ∧ budget ≤ n * 2 ^ 31 := by
  intro n
  induction n with
  | zero => exact fun _ _ => ⟨0, rfl, by simp, by simp⟩
  | succ n ih =>
    intro hn hmax
    obtain ⟨budget, hfold, hlo, hhi⟩ := ih (by omega) (by omega)
    have hget : spec.rnsModuliLog2[n]? = some spec.rnsModuliLog2[n] := List.getElem?_eq_getElem hn
    have hm := spec.rnsModuliLog2[n].toInt_lt
    have hm' := spec.rnsModuliLog2[n].le_toInt
    have hround : addModulus spec budget n = .ok (budget + spec.rnsModuliLog2[n].toInt) := by
      simp only [addModulus, bind_eq_ok, pure_eq_ok, elemAt_eq_ok, LongLong.add_eq_ok,
        CInt.ofInt?_eq_ok]
      have hlevel : (Int32.ofInt (n + 1)).toInt = n + 1 :=
        Int32.toInt_ofInt_of_le (by omega) (by omega)
      exact ⟨_, hget, _, ⟨by omega, rfl⟩, _, hlevel, rfl⟩
    refine ⟨budget + spec.rnsModuliLog2[n].toInt, ?_, ?_, ?_⟩
    · rw [List.range_succ, foldlM_append_eq_ok]
      exact ⟨budget, hfold, foldlM_cons_eq_ok.2 ⟨_, hround, rfl⟩⟩
    · push_cast
      omega
    · push_cast
      omega

theorem throws_modulusBudget {level : CInt} (hs : SpecSafe spec) (h : InRange spec level) :
    Throws Failure (modulusBudget spec level) := by
  obtain ⟨h0, hlen, hmax⟩ := h.bounds hs
  have hn : (level.toInt + 1).toNat ≤ spec.rnsModuliLog2.length := by omega
  obtain ⟨budget, hfold, -⟩ := addModulus_ok hn (by omega)
  exact throws_of_ok hfold

/-! ## Places and values -/

/-- The table of devices has an entry for every rank. -/
def Tabled (plan : RuntimePlan) : Prop :=
  plan.target.deviceCounts.length = plan.target.worldSize.toInt.toNat

theorem throws_checkPlace (ht : Tabled plan) (place : Place) :
    Throws Failure (checkPlace plan place) := by
  unfold checkPlace
  refine (throws_failIf _).bind fun _ hrank => ?_
  cases place.kind with
  | host => exact throws_failIf _
  | device =>
    refine throws_ite (fun _ => throws_fail _) fun _ => ?_
    have hlt : place.rank.toInt.toNat < plan.target.deviceCounts.length := by
      rw [failIf_eq_ok, not_or] at hrank
      have h0 := Int32.le_iff_toInt_le.1 (Int32.not_lt.1 hrank.1)
      have h1 := Int32.lt_iff_toInt_lt.1 (Int32.not_le.1 hrank.2)
      have hzero : (0 : CInt).toInt = 0 := rfl
      rw [ht]
      omega
    exact (throws_elemAt hlt).bind fun _ _ => throws_failIf _

theorem throws_checkValue (ht : Tabled plan) (hs : SpecSafe spec) (descs : DescMap)
    (value : ValueDesc) : Throws Failure (checkValue plan spec descs value) := by
  unfold checkValue
  refine (throws_checkPlace ht _).bind fun _ _ => ?_
  refine (throws_failIf _).bind fun _ _ => ?_
  refine (throws_failIf _).bind fun _ _ => ?_
  refine (throws_failIf _).bind fun _ hlevel => ?_
  rw [failIf_eq_ok, not_or] at hlevel
  have hrange : InRange spec value.level := ⟨Int32.not_lt.1 hlevel.1, Int32.not_lt.1 hlevel.2⟩
  refine (throws_modulusBudget hs hrange).bind fun _ _ => ?_
  refine (throws_failIf _).bind fun _ _ => ?_
  refine (throws_failIf _).bind fun _ _ => ?_
  exact (throws_failIf _).bind fun _ _ => throws_pure _

theorem throws_checkExternalInput (descs : DescMap) (st : CheckState) (id : ValueId) :
    Throws Failure (checkExternalInput descs st id) := by
  unfold checkExternalInput
  refine (throws_lookup _ _ _).bind fun _ _ => ?_
  exact (throws_failIf _).bind fun _ _ => throws_define _ _ _

/-! ## Encode -/

theorem throws_checkEncode (descs : DescMap) (phase : Phase) (encode : EncodeOp)
    (st : CheckState) : Throws Failure (checkEncode spec descs phase encode st) := by
  unfold checkEncode
  refine (throws_failIf _).bind fun _ _ => ?_
  refine (throws_lookup _ _ _).bind fun _ _ => ?_
  refine (throws_failIf _).bind fun _ _ => ?_
  refine (throws_define _ _ _).bind fun _ _ => ?_
  cases encode.payload with
  | inline values =>
    refine (throws_failIf _).bind fun _ _ => ?_
    exact (throws_failIf _).bind fun _ _ => throws_pure _
  | bundle content => exact throws_pure _

/-! ## Compute -/

theorem throws_checkUse (st : CheckState) (id : ValueId) : Throws Failure (checkUse st id) :=
  (throws_failIf _).bind fun _ _ => throws_pure _

theorem throws_checkOperands (op : ComputeOp) (descs : DescMap) :
    ∀ (ids : List ValueId) (types : List ValueKind),
      Throws Failure (checkOperands op descs ids types) := by
  intro ids
  induction ids with
  | nil => exact fun _ => throws_ok _
  | cons id ids ih =>
    intro types
    rcases types with _ | ⟨type, types⟩
    · exact throws_ok _
    · have hoperand : Throws Failure (checkOperand op descs id type) := by
        unfold checkOperand
        refine (throws_lookup _ _ _).bind fun _ _ => ?_
        refine (throws_failIf _).bind fun _ _ => ?_
        exact (throws_failIf _).bind fun _ _ => throws_pure _
      unfold checkOperands
      refine hoperand.bind fun _ _ => ?_
      exact (ih types).bind fun _ _ => throws_pure _

theorem expectedInputs_pos (kind : ComputeKind) : 0 < (expectedInputs kind).length := by
  cases kind <;> decide

/-- The rules read as many operands as the operation has. -/
theorem throws_checkMetadataRule {op : ComputeOp} {inputs : List ValueDesc} {output : ValueDesc}
    (h : inputs.length = (expectedInputs op.kind).length) :
    Throws Failure (checkMetadataRule op inputs output) := by
  have hpos : 0 < inputs.length := h ▸ expectedInputs_pos op.kind
  unfold checkMetadataRule
  refine (throws_index hpos).bind fun a _ => ?_
  cases hk : op.kind with
  | addCC | subCC | addCP | subCP =>
    have hone : 1 < inputs.length := by rw [h, hk]; decide
    refine (throws_failIf _).bind fun _ _ => ?_
    exact (throws_index hone).bind fun _ _ => throws_failIf _
  | mulCC =>
    have hone : 1 < inputs.length := by rw [h, hk]; decide
    refine (throws_failIf _).bind fun _ _ => ?_
    refine (throws_index hone).bind fun b _ => ?_
    refine (throws_addInts _ _).bind fun _ _ => ?_
    refine (throws_addInts _ _).bind fun components hsum => ?_
    have hlt := a.components.toInt_lt
    have hlt' := b.components.toInt_lt
    have hle := a.components.le_toInt
    have hle' := b.components.le_toInt
    obtain ⟨-, rfl⟩ := LongLong.add_eq_ok.1 hsum
    have hsub := throws_of_ok (Q := Failure)
      (LongLong.sub_eq_ok (a := a.components.toInt + b.components.toInt) (b := 1).2
        ⟨by omega, rfl⟩)
    exact hsub.bind fun _ _ => throws_failIf _
  | mulCP =>
    have hone : 1 < inputs.length := by rw [h, hk]; decide
    refine (throws_failIf _).bind fun _ _ => ?_
    refine (throws_index hone).bind fun _ _ => ?_
    exact (throws_addInts _ _).bind fun _ _ => throws_failIf _
  | negate | relinearize => exact throws_failIf _
  | rotate | rescale | modSwitch =>
    cases op.attrs <;> first | exact throws_failIf _ | exact throws_fail _
  | boot =>
    cases op.attrs with
    | boot attrs => exact (throws_failIf _).bind fun _ _ => throws_failIf _
    | _ => exact throws_fail _

theorem checkOperands_length {op : ComputeOp} {descs : DescMap} :
    ∀ {ids : List ValueId} {types : List ValueKind} {inputs : List ValueDesc},
      checkOperands op descs ids types = .ok inputs → ids.length = types.length →
        inputs.length = types.length := by
  intro ids
  induction ids with
  | nil =>
    rintro types inputs h hlen
    cases h
    exact hlen
  | cons id ids ih =>
    rintro types inputs h hlen
    rcases types with _ | ⟨type, types⟩
    · cases hlen
    · simp only [checkOperands, bind_eq_ok, pure_eq_ok] at h
      obtain ⟨input, -, rest, hrest, rfl⟩ := h
      rw [List.length_cons, List.length_cons, ih hrest (Nat.succ.inj hlen)]

theorem throws_verifyComputeMetadata (op : ComputeOp) (descs : DescMap) :
    Throws Failure (verifyComputeMetadata op descs) := by
  unfold verifyComputeMetadata
  refine (throws_failIf _).bind fun _ hcount => ?_
  refine (throws_checkOperands _ _ _ _).bind fun inputs hinputs => ?_
  have hlen := checkOperands_length hinputs (not_not.1 (failIf_eq_ok.1 hcount))
  refine (throws_lookup _ _ _).bind fun _ _ => ?_
  refine (throws_failIf _).bind fun _ _ => ?_
  refine (throws_failIf _).bind fun _ _ => ?_
  refine (throws_index (hlen ▸ expectedInputs_pos op.kind)).bind fun _ _ => ?_
  refine (throws_failIf _).bind fun _ _ => ?_
  refine throws_ite (fun htwo => ?_) fun _ => throws_checkMetadataRule hlen
  refine (throws_index (by omega)).bind fun _ _ => ?_
  exact (throws_failIf _).bind fun _ _ => throws_checkMetadataRule hlen

/-- An operation whose metadata were checked holds the attributes of its kind. -/
theorem RuleOk.attrs {op : ComputeOp} {inputs : List ValueDesc} {output : ValueDesc}
    (h : RuleOk op inputs output) :
    (op.kind = .rotate → ∃ attrs, op.attrs = .rotate attrs) ∧
      (op.kind = .rescale → ∃ attrs, op.attrs = .rescale attrs ∧
        attrs.targetLevel = output.level) ∧
      (op.kind = .boot → ∃ attrs, op.attrs = .boot attrs) := by
  have hrule := h.rule
  simp only [checkMetadataRule, bind_eq_ok] at hrule
  obtain ⟨a, -, hrule⟩ := hrule
  refine ⟨fun hk => ?_, fun hk => ?_, fun hk => ?_⟩
  · rw [hk] at hrule
    cases ha : op.attrs <;> simp [ha] at hrule ⊢
  · rw [hk] at hrule
    cases ha : op.attrs with
    | rescale attrs =>
      simp only [ha, failIf_eq_ok, not_or, not_not] at hrule
      exact ⟨attrs, rfl, hrule.2.1.symm⟩
    | _ => simp [ha] at hrule
  · rw [hk] at hrule
    cases ha : op.attrs <;> simp [ha] at hrule ⊢

/-- The descriptors have levels in range. -/
def Described (plan : RuntimePlan) (spec : OperatorSpec) : Prop :=
  ∀ d ∈ plan.values, InRange spec d.level

theorem Described.find (hd : Described plan spec) {id : ValueId} {d : ValueDesc}
    (h : plan.desc? id = some d) : InRange spec d.level :=
  hd d (RuntimePlan.desc?_mem h)

theorem throws_normalizedRotationStep (steps : CInt) (slotCount : ℕ) :
    Throws Failure (normalizedRotationStep steps slotCount) := by
  unfold normalizedRotationStep
  refine (throws_failIf _).bind fun _ hslots => ?_
  rw [failIf_eq_ok, not_or] at hslots
  obtain ⟨hzero, hmax⟩ := hslots
  have hint : CInt.max.toInt.toNat = 2 ^ 31 - 1 := by decide
  have hrem : LongLong.rem steps.toInt slotCount = .ok (steps.toInt.tmod slotCount) :=
    LongLong.rem_eq_ok.2 ⟨by omega, rfl⟩
  refine (throws_of_ok hrem).bind fun remainder hr => ?_
  obtain rfl : steps.toInt.tmod slotCount = remainder := Except.ok.inj (hrem.symm.trans hr)
  have hshift : Throws Failure (if steps.toInt.tmod slotCount < 0 then
      LongLong.add (steps.toInt.tmod slotCount) slotCount
    else .ok (steps.toInt.tmod slotCount)) := by
    refine throws_ite (fun hneg => ?_) fun _ => throws_ok _
    have habs : -(slotCount : ℤ) < steps.toInt.tmod slotCount := by
      have := Int.lt_tmod_of_pos steps.toInt (b := slotCount) (by omega)
      exact this
    exact throws_of_ok (LongLong.add_eq_ok.2 ⟨by omega, rfl⟩)
  exact hshift.bind fun _ _ => (throws_failIf _).bind fun _ _ => throws_pure _

theorem throws_findBootProfile (id : String) : Throws Failure (findBootProfile spec id) := by
  unfold findBootProfile
  cases spec.bootProfiles.find? fun p => p.profileId == id with
  | some profile => exact throws_ok profile
  | none => exact throws_fail _

/-- The requirements of an operation whose metadata were checked. -/
theorem throws_checkOperation (hs : SpecSafe spec) (hd : Described plan spec) {op : ComputeOp}
    (hmeta : verifyComputeMetadata op plan.values = .ok ()) (support : OperatorSupport)
    (st : CheckState) : Throws Failure (checkOperation spec plan.values op support st) := by
  obtain ⟨inputs, output, hinputs, houtput, hrule⟩ := verifyComputeMetadata_ruleOk hmeta
  obtain ⟨hrotate, hrescale, hboot⟩ := hrule.attrs
  have hpos : 0 < op.inputs.length := by
    rw [hinputs.length_eq, ← List.length_map (·.kind), hrule.kinds]
    exact expectedInputs_pos op.kind
  unfold checkOperation
  cases hk : op.kind with
  | rotate =>
    obtain ⟨attrs, ha⟩ := hrotate hk
    rw [ha]
    exact (throws_normalizedRotationStep _ _).bind fun _ _ => throws_pure _
  | rescale =>
    obtain ⟨attrs, ha, hlevel⟩ := hrescale hk
    rw [ha]
    refine (throws_index hpos).bind fun id _ => ?_
    refine (throws_lookup _ _ _).bind fun input hinput => ?_
    cases support.maxLevelsPerOp with
    | none => exact throws_fail _
    | some maxLevels =>
      -- both levels are in range, so the difference is an `int`
      have hin := (hd.find (lookup_eq_ok.1 hinput)).bounds hs
      have hout := (hd.find houtput).bounds hs
      have hdiff : (Int32.ofInt (input.level.toInt - attrs.targetLevel.toInt)).toInt =
          input.level.toInt - attrs.targetLevel.toInt := by
        rw [hlevel]
        exact Int32.toInt_ofInt_of_le (by omega) (by omega)
      refine (throws_of_ok (CInt.sub_eq_ok.2 hdiff)).bind fun _ _ => ?_
      exact (throws_failIf _).bind fun _ _ => throws_pure _
  | boot =>
    obtain ⟨attrs, ha⟩ := hboot hk
    rw [ha]
    refine (throws_findBootProfile _).bind fun _ _ => ?_
    refine (throws_index hpos).bind fun _ _ => ?_
    refine (throws_lookup _ _ _).bind fun _ _ => ?_
    refine (throws_failIf _).bind fun _ _ => ?_
    cases attrs.implementation <;> exact throws_pure _
  | _ => exact throws_ok _

theorem throws_checkCompute (ht : Tabled plan) (hs : SpecSafe spec) (hd : Described plan spec)
    (op : ComputeOp) (st : CheckState) :
    Throws Failure (checkCompute plan spec plan.values op st) := by
  unfold checkCompute
  refine (throws_checkPlace ht _).bind fun _ _ => ?_
  refine (throws_foldlM (fun id _ st => throws_checkUse st id) _).bind fun _ _ => ?_
  refine (throws_define _ _ _).bind fun _ _ => ?_
  refine (throws_verifyComputeMetadata _ _).bind fun _ hmeta => ?_
  cases spec.operator? op.kind with
  | none => exact throws_fail _
  | some support =>
    refine (throws_failIf _).bind fun _ _ => ?_
    exact throws_checkOperation hs hd hmeta support _

/-! ## Communication -/

/-- One output: the tables of the action are as long as its outputs. -/
theorem throws_checkCommOutput (ht : Tabled plan) (descs : DescMap) {action : CommAction}
    (hdest : action.destinations.length = action.outputs.length)
    (htypes : action.outputTypes.length = action.outputs.length) (source : ValueDesc) {i : ℕ}
    (hi : i < action.outputs.length) (st : CheckState × Finset Place) :
    Throws Failure (checkCommOutput plan descs action source st i) := by
  unfold checkCommOutput
  refine (throws_index (by omega)).bind fun _ _ => ?_
  refine (throws_checkPlace ht _).bind fun _ _ => ?_
  refine (throws_failIf _).bind fun _ _ => ?_
  refine (throws_failIf _).bind fun _ _ => ?_
  refine (throws_index hi).bind fun _ _ => ?_
  refine (throws_lookup _ _ _).bind fun _ _ => ?_
  refine (throws_failIf _).bind fun _ _ => ?_
  refine (throws_index (by omega)).bind fun _ _ => ?_
  refine (throws_failIf _).bind fun _ _ => ?_
  exact (throws_define _ _ _).bind fun _ _ => throws_pure _

theorem throws_checkComm (ht : Tabled plan) (descs : DescMap) (action : CommAction)
    (st : CheckState) : Throws Failure (checkComm plan descs action st) := by
  unfold checkComm
  refine (throws_failIf _).bind fun _ _ => ?_
  refine (throws_failIf _).bind fun _ hone => ?_
  rw [failIf_eq_ok, not_or, not_not, not_not] at hone
  refine (throws_index (by omega)).bind fun _ _ => ?_
  refine (throws_failIf _).bind fun _ _ => ?_
  refine (throws_lookup _ _ _).bind fun source _ => ?_
  refine (throws_index (by omega)).bind fun _ _ => ?_
  refine (throws_checkPlace ht _).bind fun _ _ => ?_
  refine (throws_failIf _).bind fun _ _ => ?_
  refine (throws_failIf _).bind fun _ htables => ?_
  rw [failIf_eq_ok, not_or, not_not, not_not] at htables
  refine (throws_failIf _).bind fun _ _ => ?_
  refine (throws_failIf _).bind fun _ _ => ?_
  have hround : ∀ i ∈ List.range action.outputs.length, ∀ st,
      Throws Failure (checkCommOutput plan descs action source st i) := fun i hi =>
    throws_checkCommOutput ht descs htables.1 htables.2 source (List.mem_range.1 hi)
  exact (throws_foldlM hround _).bind fun _ _ => throws_pure _

/-! ## The plan -/

theorem throws_checkInstruction (ht : Tabled plan) (hs : SpecSafe spec)
    (hd : Described plan spec) (phase : Phase) (instruction : Instruction) (st : CheckState) :
    Throws Failure (checkInstruction plan spec plan.values phase st instruction) := by
  unfold checkInstruction
  refine (throws_failIf _).bind fun _ _ => ?_
  cases instruction.body with
  | encode encode => exact throws_checkEncode _ _ _ _
  | compute op => exact throws_checkCompute ht hs hd op _
  | comm action => exact throws_checkComm ht _ action _

theorem throws_checkList (ht : Tabled plan) (hs : SpecSafe spec) (hd : Described plan spec)
    (list : List Instruction) (phase : Phase) (st : CheckState) :
    Throws Failure (checkList plan spec plan.values list phase st) :=
  throws_foldlM (fun instruction _ => throws_checkInstruction ht hs hd phase instruction) st

theorem throws_checkFinalOutput (descs : DescMap) (st : CheckState × Finset ValueId)
    (id : ValueId) : Throws Failure (checkFinalOutput descs st id) := by
  unfold checkFinalOutput
  refine (throws_lookup _ _ _).bind fun _ _ => ?_
  refine (throws_failIf _).bind fun _ _ => ?_
  exact (throws_failIf _).bind fun _ _ => throws_pure _

theorem throws_checkHeader (plan : RuntimePlan) (loaded : LoadedOperatorSpec) (skip : Bool) :
    Throws Failure (checkHeader plan loaded skip) := by
  unfold checkHeader
  refine (throws_failIf _).bind fun _ _ => ?_
  refine (throws_failIf _).bind fun _ _ => ?_
  refine (throws_failIf _).bind fun _ _ => ?_
  refine (throws_failIf _).bind fun _ _ => ?_
  refine (throws_failIf _).bind fun _ _ => ?_
  refine (throws_failIf _).bind fun _ _ => ?_
  refine (throws_failIf _).bind fun _ _ => ?_
  refine (throws_failIf _).bind fun _ _ => ?_
  exact (throws_failIf _).bind fun _ _ => throws_failIf _

/-- The verifier on a specification that has the tables its bounds promise. -/
theorem throws_verify {loaded : LoadedOperatorSpec} (hs : SpecSafe loaded.spec)
    (plan : RuntimePlan) (skip : Bool) : Throws Failure (verify plan loaded skip) := by
  unfold verify
  refine (throws_checkHeader plan loaded skip).bind fun _ hheader => ?_
  have ht : Tabled plan := (checkHeader_eq_ok hheader).2.1
  have hvalues : ∀ value ∈ plan.values, ∀ descs,
      Throws Failure (checkValue plan loaded.spec descs value) :=
    fun value _ descs => throws_checkValue ht hs descs value
  refine (throws_foldlM hvalues _).bind fun descs hdescs => ?_
  -- the instructions are checked against the descriptors of the plan
  obtain ⟨rfl, -, hok⟩ := checkValues_eq_ok hdescs (by simp)
  have hd : Described plan loaded.spec := fun d hd => (hok d hd).level
  rw [List.nil_append]
  refine (throws_foldlM (fun id _ st => throws_checkExternalInput _ st id) _).bind fun _ _ => ?_
  refine (throws_checkList ht hs hd _ _ _).bind fun _ _ => ?_
  refine (throws_checkList ht hs hd _ _ _).bind fun _ _ => ?_
  refine (throws_checkList ht hs hd _ _ _).bind fun _ _ => ?_
  refine (throws_failIf _).bind fun _ _ => ?_
  refine (throws_failIf _).bind fun _ _ => ?_
  refine (throws_foldlM (fun id _ st => throws_checkFinalOutput _ st id) _).bind fun _ _ => ?_
  refine (throws_failIf _).bind fun _ _ => ?_
  exact (throws_failIf _).bind fun _ _ => throws_pure _

/-- **Verification is safe.** On a specification that the reader accepts, and on
    every plan whatever, `verify` returns, or throws what `fail` throws: no
    access is out of range, no attribute is of another kind, no arithmetic
    overflows. -/
theorem verify_safe [DoubleArith] {sax : Sax} {text : Bytes} {loaded : LoadedOperatorSpec}
    (h : OperatorSpecReader.readText sax text = .ok loaded) (plan : RuntimePlan) (skip : Bool) :
    (∃ requirements, verify plan loaded skip = .ok requirements) ∨
      ∃ message, verify plan loaded skip =
        .error (.runtimeError ("plan verification failed: " ++ message)) := by
  cases hres : verify plan loaded skip with
  | ok requirements => exact Or.inl ⟨requirements, rfl⟩
  | error fault =>
    obtain ⟨message, rfl⟩ := throws_verify (readText_specSafe h) plan skip fault hres
    exact Or.inr ⟨message, rfl⟩

open OperatorSpecReader in
theorem verify_safe_noiseSpec :
    ∃ loaded, @readText zeroArith (fun _ => ([], .ok noiseSpecJson)) [] = .ok loaded ∧
      ((∃ requirements, verify zeroVersionPlan loaded false = .ok requirements) ∨
        ∃ message, verify zeroVersionPlan loaded false =
          .error (.runtimeError ("plan verification failed: " ++ message))) := by
  obtain ⟨loaded, hread⟩ := readText_noiseSpec
  exact ⟨loaded, hread, @verify_safe zeroArith _ _ _ hread zeroVersionPlan false⟩

end PlanVerifier

end CkksRuntime
