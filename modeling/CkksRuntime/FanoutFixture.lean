/-
  ckks-runtime formalization — the fan-out fixture for every topology
  (`testing/testing.cpp`).

  * `runFanoutReference` is `run_fanout_reference`, through
    `SequentialReferenceExecutor::run` on the default, synchronous `VecExecutor`;
  * `BuiltPlan.Correct`: what the fixture promises to the tests that compare a
    distributed run with the reference;
  * `Fanout.Topology.admitted`: the plan meets every demand of the verifier;
  * `Fanout.agrees`: every point of the map agrees with the reference, by one
    solution for the plans of all topologies;
  * `Fanout.ordinal_iff`: which ordinals of the map are those of the plan.
-/
import CkksRuntime.Admission
import CkksRuntime.Evaluation

namespace CkksRuntime

/-! ## The reference -/

namespace SequentialReferenceExecutor

/-- `values.at(id)`. -/
def lookup (values : Payloads) (id : ValueId) : Except Fault VecPayload :=
  match values id with
  | some p => .ok p
  | none => .error (.outOfRange "unordered_map::at")

/-- One round of `run`. -/
def step [DoubleArith] (values : Payloads) (op : ComputeOp) : Except Fault Payloads := do
  let operands ← op.inputs.mapM (lookup values)
  let result ← VecExecutor.computeReady op operands
  if (values op.output).isSome then
    .error (.runtimeError "reference executor duplicate ValueId")
  else return values.put [op.output] result

def run [DoubleArith] (ops : List ComputeOp) (inputs : Payloads) : Except Fault Payloads :=
  ops.foldlM step inputs

end SequentialReferenceExecutor

/-- The two operations of `run_fanout_reference`. -/
def referenceOps : List ComputeOp :=
  let place : Place := ⟨.device, 0, 0⟩
  [⟨.mulCP, [0, 1], 2, place, .monostate⟩, ⟨.negate, [2], 3, place, .monostate⟩]

def runFanoutReference [DoubleArith] (cipher plain : VecPayload) : Except Fault Payloads :=
  SequentialReferenceExecutor.run referenceOps fun id =>
    if id = 0 then some cipher else if id = 1 then some plain else none

/-! ## What the fixture promises -/

/-- The instruction with this ordinal defines the value. -/
def RuntimePlan.DefinesAt (plan : RuntimePlan) (ordinal : ℕ) (id : ValueId) : Prop :=
  ∃ i ∈ plan.instructions, i.ordinal = ordinal ∧ id ∈ i.body.outputs

namespace BuiltPlan

/-- Inputs that match the descriptors, with as many slots each. -/
structure Inputs (built : BuiltPlan) (cipher plain : VecPayload) : Prop where
  ciphertext : ∃ d, built.plan.desc? 0 = some d ∧
    validateValue built.operatorSpec.spec.polyDegree (.ready cipher) d = .ok ()
  plaintext : ∃ d, built.plan.desc? 1 = some d ∧
    validateValue built.operatorSpec.spec.polyDegree (.ready plain) d = .ok ()
  slots : cipher.slots.length = plain.slots.length

/-- The two external inputs. -/
def context (built : BuiltPlan) (cipher plain : VecPayload) : EvalContext :=
  ⟨built.operatorSpec.spec.polyDegree, fun _ => none, fun id => if id = 0 then cipher else plain⟩

/-- The sequential evaluation of the plan gives the value what the reference
    gives its counterpart. -/
def Agrees [DoubleArith] (built : BuiltPlan) (point : DiffPoint) : Prop :=
  ∀ cipher plain, built.Inputs cipher plain →
    ∃ values reference p, built.plan.evaluate (built.context cipher plain) = .ok values ∧
      runFanoutReference cipher plain = .ok reference ∧
      values point.distributedValue = some p ∧ reference point.referenceValue = some p

/-- **The fixture is right**: its plan is accepted, and its map names for every
    output the instruction that defines it and a value of the reference. -/
structure Correct [DoubleArith] (built : BuiltPlan) : Prop where
  accepted : ∃ requirements, PlanVerifier.verify built.plan built.operatorSpec false = .ok requirements
  ordinals : ∀ point ∈ built.diffMap, built.plan.DefinesAt point.opOrdinal point.distributedValue
  values : ∀ point ∈ built.diffMap, built.Agrees point
  covered : ∀ i ∈ built.plan.instructions, ∀ id ∈ i.body.outputs,
    ∃ point ∈ built.diffMap, point.distributedValue = id

end BuiltPlan

/-! ## The devices of a topology -/

/-- The number of devices. -/
def deviceTotal (counts : List CInt) : ℕ := (counts.map (·.toInt.toNat)).sum

/-- A device of the topology whose first rank is `rank`. -/
def IsDevice (rank : ℕ) (counts : List CInt) (p : Place) : Prop :=
  ∃ r count index, counts[r]? = some count ∧ index < count.toInt.toNat ∧
    p = ⟨.device, Int32.ofNat (rank + r), Int32.ofNat index⟩

theorem ofNat_inj_of_lt {a b : ℕ} (ha : a < 2 ^ 31) (hb : b < 2 ^ 31)
    (h : Int32.ofNat a = Int32.ofNat b) : a = b := by
  have hint := congrArg Int32.toInt h
  rw [Int32.toInt_ofNat_of_lt ha, Int32.toInt_ofNat_of_lt hb] at hint
  omega

theorem fanoutDevices_ok {counts : List CInt} : ∀ (rank : ℕ), (∀ c ∈ counts, 0 ≤ c) →
    ∃ devices, fanoutDevices rank counts = .ok devices ∧ devices.length = deviceTotal counts ∧
      (∀ p ∈ devices, IsDevice rank counts p) ∧
      (rank + counts.length ≤ 2 ^ 31 → devices.Nodup) := by
  induction counts with
  | nil => exact fun _ _ => ⟨[], rfl, rfl, by simp, fun _ => List.nodup_nil⟩
  | cons count counts ih =>
    intro rank hneg
    obtain ⟨hcount, hneg⟩ := List.forall_mem_cons.1 hneg
    obtain ⟨rest, hrest, hlen, hdevice, hnodup⟩ := ih (rank + 1) hneg
    have hlt : count.toInt.toNat < 2 ^ 31 := by
      have := count.toInt_lt
      omega
    refine ⟨(List.range count.toInt.toNat).map (fun index =>
      ⟨.device, Int32.ofNat rank, Int32.ofNat index⟩) ++ rest, ?_, ?_, ?_, fun hrank => ?_⟩
    · simp only [fanoutDevices, hrest, if_neg (Int32.not_lt.2 hcount)]
      rfl
    · simp [hlen, deviceTotal]
    · intro p hp
      rcases List.mem_append.1 hp with hp | hp
      · obtain ⟨index, hindex, rfl⟩ := List.mem_map.1 hp
        exact ⟨0, count, index, rfl, List.mem_range.1 hindex, rfl⟩
      · obtain ⟨r, c, index, hc, hindex, rfl⟩ := hdevice p hp
        exact ⟨r + 1, c, index, hc, hindex, by rw [Nat.add_right_comm, Nat.add_assoc]⟩
    · rw [List.length_cons] at hrank
      refine List.nodup_append.2 ⟨?_, hnodup (by omega), ?_⟩
      · refine List.Nodup.map_on ?_ List.nodup_range
        intro a ha b hb hab
        rw [List.mem_range] at ha hb
        exact ofNat_inj_of_lt (by omega) (by omega) (Place.mk.inj hab).2.2
      · intro p hp q hq hpq
        obtain ⟨index, -, rfl⟩ := List.mem_map.1 hp
        obtain ⟨r, c, index', hc, -, rfl⟩ := hdevice q hq
        have hr := (List.getElem?_eq_some_iff.1 hc).1
        have := ofNat_inj_of_lt (by omega) (by omega) (Place.mk.inj hpq).2.1
        omega

/-! ## The plan, by the position of the device -/

theorem zipWith_range {α β : Type} (f : ℕ → α → β) (c : ℕ) {l : List α} {n : ℕ}
    (hn : n = l.length) :
    List.zipWith f ((List.range n).map (· + c)) l = l.mapIdx fun i a => f (i + c) a := by
  subst hn
  refine List.ext_getElem? fun i => ?_
  rw [List.getElem?_zipWith, List.getElem?_mapIdx, List.getElem?_map]
  by_cases hi : i < l.length
  · rw [List.getElem?_eq_getElem hi, List.getElem?_range hi]
    rfl
  · rw [List.getElem?_eq_none (Nat.not_lt.1 hi), List.getElem?_eq_none (by simpa using hi)]
    rfl

theorem map_mapIdx_id {α β : Type} (f : ℕ → α → β) (g : β → ℕ) (c : ℕ) (l : List α)
    (h : ∀ i a, g (f i a) = i + c) : (l.mapIdx f).map g = (List.range l.length).map (· + c) := by
  refine List.ext_getElem? fun i => ?_
  rw [List.getElem?_map, List.getElem?_mapIdx, List.getElem?_map]
  by_cases hi : i < l.length
  · rw [List.getElem?_eq_getElem hi, List.getElem?_range hi]
    exact congrArg some (h i _)
  · rw [List.getElem?_eq_none (Nat.not_lt.1 hi), List.getElem?_eq_none (by simpa using hi)]
    rfl

theorem zip_range {α β : Type} (f : ℕ → β) {l : List α} {n : ℕ} (hn : n = l.length) :
    List.zip l ((List.range n).map f) = l.mapIdx fun i a => (a, f i) := by
  subst hn
  refine List.ext_getElem? fun i => ?_
  rw [List.getElem?_mapIdx, List.zip, List.getElem?_zipWith, List.getElem?_map]
  by_cases hi : i < l.length
  · rw [List.getElem?_eq_getElem hi, List.getElem?_range hi]
    rfl
  · rw [List.getElem?_eq_none (Nat.not_lt.1 hi)]
    rfl

theorem mem_mapIdx_of_getElem? {α β : Type} {f : ℕ → α → β} {l : List α} {i : ℕ} {a : α}
    (h : l[i]? = some a) : f i a ∈ l.mapIdx f := by
  obtain ⟨hi, rfl⟩ := List.getElem?_eq_some_iff.1 h
  exact List.mem_mapIdx.2 ⟨i, hi, rfl⟩

theorem range_append (m k : ℕ) :
    List.range m ++ (List.range k).map (· + m) = List.range (m + k) := by
  rw [List.range_add]
  simp only [Nat.add_comm]

open PlanVerifier

namespace Fanout

section
variable (counts : List CInt) (first : Place) (others : List Place)

def host : Place := ⟨.host, 0, 0⟩

/-- The Place of the final output. -/
def outputHost : Place := ⟨.host, ((first :: others).getLastD first).rank, 0⟩

theorem values_eq :
    (fanoutPlan counts first others).plan.values =
      [valueDesc 0 .ciphertext host, valueDesc 1 .plaintext host,
        valueDesc 2 .ciphertext first] ++
      (first :: others).mapIdx (fun i p => valueDesc (i + 3) .plaintext p) ++
      [valueDesc (others.length + 4) .ciphertext first 2] ++
      others.mapIdx (fun i p => valueDesc (i + (others.length + 5)) .ciphertext p 2) ++
      (first :: others).mapIdx
        (fun i p => valueDesc (i + (2 * others.length + 5)) .ciphertext p 2) ++
      [valueDesc (3 * others.length + 6) .ciphertext (outputHost first others) 2] := by
  have hcopies : others.length + 1 + 4 = others.length + 5 := by omega
  have hbranches : others.length + 5 + others.length = 2 * others.length + 5 := by omega
  have hfinal : 2 * others.length + 5 + (others.length + 1) = 3 * others.length + 6 := by omega
  simp only [fanoutPlan, List.length_cons, hcopies, hbranches, hfinal]
  have hdevices : others.length + 1 = (first :: others).length := rfl
  have hothers : others.length = others.length := rfl
  rw [zipWith_range _ 3 hdevices, zipWith_range _ _ hothers, zipWith_range _ _ hdevices]
  rfl

/-- The ids are the numbers up to that of the final output. -/
theorem ids_eq :
    (fanoutPlan counts first others).plan.values.map (·.id) = List.range (3 * others.length + 7) := by
  have hids : ∀ (l : List Place) (c : ℕ) (kind : ValueKind) (scale : CInt),
      (l.mapIdx fun i p => valueDesc (i + c) kind p scale).map (·.id) =
        (List.range l.length).map (· + c) :=
    fun l c kind scale => map_mapIdx_id _ _ c l fun _ _ => rfl
  have hproduct : 3 + (others.length + 1) = others.length + 4 := by omega
  have hbranches : others.length + 5 + others.length = 2 * others.length + 5 := by omega
  have hfinal : 2 * others.length + 5 + (others.length + 1) = 3 * others.length + 6 := by omega
  rw [values_eq]
  simp only [List.map_append, List.map_cons, List.map_nil, hids, List.length_cons]
  show List.range 3 ++ _ ++ [others.length + 4] ++ _ ++ _ ++ [3 * others.length + 6] = _
  rw [range_append, hproduct, ← List.range_succ, range_append, hbranches, range_append, hfinal,
    ← List.range_succ]

/-! ### The instructions -/

/-- The ciphertext goes to the first device. -/
def cipherAction : CommAction :=
  ⟨100, .transfer, .pointToPoint, [0], [2], [host], [first], [.ciphertext]⟩

/-- The plaintext goes to every device. -/
def plainAction : CommAction :=
  ⟨101, if 0 < others.length then .replicate else .transfer,
    if 0 < others.length then .broadcast else .pointToPoint, [1],
    (List.range (others.length + 1)).map (· + 3), [host], first :: others,
    (first :: others).map fun _ => .plaintext⟩

def productOp : ComputeOp := ⟨.mulCP, [2, 3], others.length + 4, first, .monostate⟩

/-- The product goes to the other devices. -/
def productAction : CommAction :=
  ⟨102, if others.length = 1 then .transfer else .replicate, .broadcast, [others.length + 4],
    (List.range others.length).map (· + (others.length + 5)), [first], others,
    others.map fun _ => .ciphertext⟩

/-- The branch on the device at position `i`. -/
def branchOp (i : ℕ) (place : Place) : ComputeOp :=
  ⟨.negate, [i + (others.length + 4)], i + (2 * others.length + 5), place, .monostate⟩

/-- The ordinal of the first branch. -/
def firstBranch : ℕ := if 0 < others.length then 4 else 3

def finalAction : CommAction :=
  ⟨if 0 < others.length then 103 else 102, .transfer, .auto, [3 * others.length + 5],
    [3 * others.length + 6], [(first :: others).getLastD first], [outputHost first others],
    [.ciphertext]⟩

theorem initialization_eq : (fanoutPlan counts first others).plan.initialization =
    [⟨0, .comm (cipherAction first)⟩, ⟨1, .comm (plainAction first others)⟩] := by
  have hpos : others.length + 1 > 1 ↔ 0 < others.length := by omega
  simp only [fanoutPlan, List.length_cons, hpos]
  rfl

theorem execution_eq : (fanoutPlan counts first others).plan.execution =
    [⟨2, .compute (productOp first others)⟩] ++
      (if 0 < others.length then [⟨3, .comm (productAction first others)⟩] else []) ++
      (first :: others).mapIdx
        (fun i p => ⟨firstBranch others + i, .compute (branchOp others i p)⟩) := by
  have hpos : others.length + 1 > 1 ↔ 0 < others.length := by omega
  have hbranches : others.length + 5 + others.length = 2 * others.length + 5 := by omega
  have hlength : ((List.range others.length).map (· + (others.length + 5))).length =
    others.length := by simp
  -- the product and its copies have consecutive ids
  have hproducts : (others.length + 4) :: (List.range others.length).map (· + (others.length + 5)) =
      (List.range (others.length + 1)).map (· + (others.length + 4)) := by
    rw [List.range_succ_eq_map, List.map_cons, List.map_map, Nat.zero_add]
    congr 1
    exact List.map_congr_left fun i _ => by simp only [Function.comp]; omega
  have hdevices : others.length + 1 = (first :: others).length := rfl
  have hzip : List.zip (first :: others) (List.zip
      ((others.length + 4) :: (List.range others.length).map (· + (others.length + 5)))
      ((List.range (others.length + 1)).map (· + (2 * others.length + 5)))) =
      (first :: others).mapIdx fun i p => (p, i + (others.length + 4), i + (2 * others.length + 5)) := by
    rw [hproducts, List.zip_map', zip_range _ hdevices]
  have hcopies : others.length + 1 + 4 = others.length + 5 := by omega
  have hproduct : others.length + 1 + 3 = others.length + 4 := by omega
  have hplain : ((List.range (others.length + 1)).map (· + 3)).headD 0 = 3 := by
    rw [List.range_succ_eq_map]
    rfl
  simp only [fanoutPlan, List.length_cons, hpos, hcopies, hproduct, hbranches, hlength, hzip,
    hplain, List.mapIdx_mapIdx]
  rfl

theorem finalization_eq : (fanoutPlan counts first others).plan.finalization =
    [⟨firstBranch others + (others.length + 1), .comm (finalAction first others)⟩] := by
  have hpos : others.length + 1 > 1 ↔ 0 < others.length := by omega
  have hcopies : others.length + 1 + 4 = others.length + 5 := by omega
  have hbranches : others.length + 5 + others.length = 2 * others.length + 5 := by omega
  have hfinal : 2 * others.length + 5 + (others.length + 1) = 3 * others.length + 6 := by omega
  have hlast : ((List.range (others.length + 1)).map (· + (2 * others.length + 5))).getLastD 0 =
      3 * others.length + 5 := by
    rw [List.range_succ, List.map_append, List.map_singleton, List.getLastD_concat]
    omega
  simp only [fanoutPlan, List.length_cons, hpos, hcopies, hbranches, hfinal, hlast]
  rfl

/-! ### The descriptors -/

variable {counts first others}

theorem desc_of_mem {d : ValueDesc} (hd : d ∈ (fanoutPlan counts first others).plan.values) :
    (fanoutPlan counts first others).plan.desc? d.id = some d := by
  have hnodup : ((fanoutPlan counts first others).plan.values.map (·.id)).Nodup := by
    rw [ids_eq]
    exact List.nodup_range
  have hsome : ((fanoutPlan counts first others).plan.desc? d.id).isSome :=
    RuntimePlan.desc?_isSome.2 (List.mem_map_of_mem hd)
  obtain ⟨d', hd'⟩ := Option.isSome_iff_exists.1 hsome
  rw [hd', List.inj_on_of_nodup_map hnodup (RuntimePlan.desc?_mem hd') hd (RuntimePlan.desc?_id hd')]

theorem desc_cipher : (fanoutPlan counts first others).plan.desc? 0 =
    some (valueDesc 0 .ciphertext host) :=
  desc_of_mem (d := valueDesc 0 .ciphertext host) (by simp [values_eq])

theorem desc_plain : (fanoutPlan counts first others).plan.desc? 1 =
    some (valueDesc 1 .plaintext host) :=
  desc_of_mem (d := valueDesc 1 .plaintext host) (by simp [values_eq])

theorem desc_cipherCopy : (fanoutPlan counts first others).plan.desc? 2 =
    some (valueDesc 2 .ciphertext first) :=
  desc_of_mem (d := valueDesc 2 .ciphertext first) (by simp [values_eq])

theorem desc_plainCopy {i : ℕ} {p : Place} (h : (first :: others)[i]? = some p) :
    (fanoutPlan counts first others).plan.desc? (i + 3) = some (valueDesc (i + 3) .plaintext p) := by
  have hmem : valueDesc (i + 3) .plaintext p ∈
      (first :: others).mapIdx fun i p => valueDesc (i + 3) .plaintext p :=
    mem_mapIdx_of_getElem? h
  refine desc_of_mem (d := valueDesc (i + 3) .plaintext p) ?_
  rw [values_eq]
  simp only [List.mem_append, hmem, true_or, or_true]

theorem desc_product : (fanoutPlan counts first others).plan.desc? (others.length + 4) =
    some (valueDesc (others.length + 4) .ciphertext first 2) := by
  refine desc_of_mem (d := valueDesc (others.length + 4) .ciphertext first 2) ?_
  rw [values_eq]
  simp only [List.mem_append, List.mem_singleton, true_or, or_true]

theorem desc_copy {i : ℕ} {p : Place} (h : others[i]? = some p) :
    (fanoutPlan counts first others).plan.desc? (i + (others.length + 5)) =
      some (valueDesc (i + (others.length + 5)) .ciphertext p 2) := by
  have hmem : valueDesc (i + (others.length + 5)) .ciphertext p 2 ∈
      others.mapIdx fun i p => valueDesc (i + (others.length + 5)) .ciphertext p 2 :=
    mem_mapIdx_of_getElem? h
  refine desc_of_mem (d := valueDesc (i + (others.length + 5)) .ciphertext p 2) ?_
  rw [values_eq]
  simp only [List.mem_append, hmem, true_or, or_true]

theorem desc_branch {i : ℕ} {p : Place} (h : (first :: others)[i]? = some p) :
    (fanoutPlan counts first others).plan.desc? (i + (2 * others.length + 5)) =
      some (valueDesc (i + (2 * others.length + 5)) .ciphertext p 2) := by
  have hmem : valueDesc (i + (2 * others.length + 5)) .ciphertext p 2 ∈
      (first :: others).mapIdx fun i p => valueDesc (i + (2 * others.length + 5)) .ciphertext p 2 :=
    mem_mapIdx_of_getElem? h
  refine desc_of_mem (d := valueDesc (i + (2 * others.length + 5)) .ciphertext p 2) ?_
  rw [values_eq]
  simp only [List.mem_append, hmem, true_or, or_true]

theorem desc_final : (fanoutPlan counts first others).plan.desc? (3 * others.length + 6) =
    some (valueDesc (3 * others.length + 6) .ciphertext (outputHost first others) 2) := by
  refine desc_of_mem
    (d := valueDesc (3 * others.length + 6) .ciphertext (outputHost first others) 2) ?_
  rw [values_eq]
  simp only [List.mem_append, List.mem_singleton, or_true]

/-- The device and the kind of every value. -/
theorem values_cases {v : ValueDesc} (h : v ∈ (fanoutPlan counts first others).plan.values) :
    ∃ id kind p scale, v = valueDesc id kind p scale ∧ (scale = 1 ∨ scale = 2) ∧
      (p = host ∨ p = outputHost first others ∨ p ∈ first :: others) := by
  rw [values_eq] at h
  simp only [List.mem_append, List.mem_cons, List.not_mem_nil, or_false, List.mem_mapIdx] at h
  rcases h with (((((rfl | rfl | rfl) | ⟨i, hi, rfl⟩) | rfl) | ⟨i, hi, rfl⟩) | ⟨i, hi, rfl⟩) | rfl
  · exact ⟨_, _, _, _, rfl, Or.inl rfl, Or.inl rfl⟩
  · exact ⟨_, _, _, _, rfl, Or.inl rfl, Or.inl rfl⟩
  · exact ⟨_, _, _, _, rfl, Or.inl rfl, Or.inr (Or.inr (by simp))⟩
  · exact ⟨_, _, _, _, rfl, Or.inl rfl, Or.inr (Or.inr (List.getElem_mem _))⟩
  · exact ⟨_, _, _, _, rfl, Or.inr rfl, Or.inr (Or.inr (by simp))⟩
  · exact ⟨_, _, _, _, rfl, Or.inr rfl, Or.inr (Or.inr (List.mem_cons_of_mem _ (List.getElem_mem _)))⟩
  · exact ⟨_, _, _, _, rfl, Or.inr rfl, Or.inr (Or.inr (List.getElem_mem _))⟩
  · exact ⟨_, _, _, _, rfl, Or.inr rfl, Or.inr (Or.inl rfl)⟩

theorem last_mem (first : Place) (others : List Place) :
    (first :: others).getLastD first ∈ first :: others := by
  rw [List.getLastD_eq_getLast?, List.getLast?_eq_some_getLast (List.cons_ne_nil _ _)]
  exact List.getLast_mem _

/-! ### The places -/

/-- The devices are those of a topology whose ranks are `int`s. -/
structure Topology (counts : List CInt) (first : Place) (others : List Place) : Prop where
  short : counts.length < 2 ^ 31
  nonneg : ∀ c ∈ counts, 0 ≤ c
  device : ∀ p ∈ first :: others, IsDevice 0 counts p
  nodup : (first :: others).Nodup

variable (ht : Topology counts first others)
include ht

theorem Topology.worldSize :
    (fanoutPlan counts first others).plan.target.worldSize.toInt = counts.length :=
  Int32.toInt_ofNat_of_lt ht.short

theorem Topology.rank {p : Place} (h : IsDevice 0 counts p) :
    0 ≤ p.rank.toInt ∧ p.rank.toInt < counts.length := by
  obtain ⟨r, count, index, hr, -, rfl⟩ := h
  have hlt := (List.getElem?_eq_some_iff.1 hr).1
  have hshort := ht.short
  have hrank : (Int32.ofNat (0 + r)).toInt = (0 + r : ℕ) := Int32.toInt_ofNat_of_lt (by omega)
  show 0 ≤ (Int32.ofNat (0 + r)).toInt ∧ (Int32.ofNat (0 + r)).toInt < counts.length
  omega

theorem Topology.rank_ok {p : Place} (hrank : 0 ≤ p.rank.toInt ∧ p.rank.toInt < counts.length) :
    ¬ (p.rank < 0 ∨ p.rank ≥ (fanoutPlan counts first others).plan.target.worldSize) := by
  have hzero : (0 : CInt).toInt = 0 := rfl
  rintro (hneg | hge)
  · have := Int32.lt_iff_toInt_lt.1 hneg
    omega
  · have := Int32.le_iff_toInt_le.1 hge
    rw [ht.worldSize] at this
    omega

theorem Topology.device_ok {p : Place} (hp : p ∈ first :: others) :
    checkPlace (fanoutPlan counts first others).plan p = .ok () := by
  have hdevice := ht.device p hp
  have hrank := ht.rank hdevice
  refine bind_ok (failIf_ok (ht.rank_ok hrank)) ?_
  obtain ⟨r, count, index, hr, hindex, rfl⟩ := hdevice
  have hcount := count.toInt_lt
  have hi : (Int32.ofNat index).toInt = index := Int32.toInt_ofNat_of_lt (by omega)
  have hlt := (List.getElem?_eq_some_iff.1 hr).1
  have hr' : (Int32.ofNat (0 + r)).toInt.toNat = r := by
    rw [Int32.toInt_ofNat_of_lt (by have := ht.short; omega)]
    omega
  have hneg : ¬ (Int32.ofNat index < 0) := by
    rw [Int32.not_lt, Int32.le_iff_toInt_le, hi]
    exact Int.natCast_nonneg index
  have hget : elemAt counts (Int32.ofNat (0 + r)).toInt.toNat = .ok count := by
    rw [hr']
    exact elemAt_eq_ok.2 hr
  have hbound : ¬ (Int32.ofNat index ≥ count) := by
    rw [ge_iff_le, Int32.not_le, Int32.lt_iff_toInt_lt, hi]
    omega
  show (if Int32.ofNat index < 0 then fail _ else _) = _
  rw [if_neg hneg]
  exact bind_ok hget (failIf_ok hbound)

theorem Topology.host_ok {p : Place} (hkind : p.kind = .host) (hindex : p.index = 0)
    (hrank : 0 ≤ p.rank.toInt ∧ p.rank.toInt < counts.length) :
    checkPlace (fanoutPlan counts first others).plan p = .ok () := by
  refine bind_ok (failIf_ok (ht.rank_ok hrank)) ?_
  rw [hkind]
  exact failIf_ok (not_not.2 hindex)

/-- Every place that the plan names is one of the target. -/
theorem Topology.place_ok {p : Place}
    (h : p = host ∨ p = outputHost first others ∨ p ∈ first :: others) :
    checkPlace (fanoutPlan counts first others).plan p = .ok () := by
  have hfirst := ht.rank (ht.device first List.mem_cons_self)
  rcases h with rfl | rfl | hp
  · have hzero : host.rank.toInt = 0 := rfl
    exact ht.host_ok rfl rfl (by omega)
  · have hlast := ht.rank (ht.device _ (last_mem first others))
    exact ht.host_ok rfl rfl hlast
  · exact ht.device_ok hp

omit ht

/-! ### What is defined before an instruction -/

theorem externalInputs_eq : (fanoutPlan counts first others).plan.externalInputs = [0, 1] := rfl

theorem definedBy_mapIdx {f : ℕ → Place → Instruction} {c : ℕ} (l : List Place)
    (h : ∀ i p, (f i p).body.outputs = [i + c]) :
    definedBy (l.mapIdx f) = (List.range l.length).map (· + c) := by
  induction l using List.reverseRecOn with
  | nil => rfl
  | append_singleton l p ih =>
    rw [List.mapIdx_append, definedBy_append, ih, List.length_append, List.length_singleton,
      List.range_succ, List.map_append]
    simp [definedBy, h]

/-- The instructions before the branches. -/
def prelude (first : Place) (others : List Place) : List Instruction :=
  [⟨0, .comm (cipherAction first)⟩, ⟨1, .comm (plainAction first others)⟩] ++
    ([⟨2, .compute (productOp first others)⟩] ++
      if 0 < others.length then [⟨3, .comm (productAction first others)⟩] else [])

theorem inputs_defined : [0, 1] ++ definedBy [⟨0, .comm (cipherAction first)⟩] = List.range 3 := by
  rw [definedBy_singleton]
  rfl

theorem initialization_defined : [0, 1] ++ definedBy [⟨0, .comm (cipherAction first)⟩,
    ⟨1, .comm (plainAction first others)⟩] = List.range (others.length + 4) := by
  have hproduct : 3 + (others.length + 1) = others.length + 4 := by omega
  show [0, 1] ++ definedBy ([⟨0, .comm (cipherAction first)⟩] ++
    [⟨1, .comm (plainAction first others)⟩]) = _
  rw [definedBy_append, ← List.append_assoc, inputs_defined, definedBy_singleton, ← hproduct]
  exact range_append 3 (others.length + 1)

theorem product_defined : [0, 1] ++ definedBy ([⟨0, .comm (cipherAction first)⟩,
    ⟨1, .comm (plainAction first others)⟩] ++ [⟨2, .compute (productOp first others)⟩]) =
      List.range (others.length + 5) := by
  rw [definedBy_append, ← List.append_assoc, initialization_defined, definedBy_singleton]
  exact List.range_succ.symm

theorem prelude_defined :
    [0, 1] ++ definedBy (prelude first others) = List.range (2 * others.length + 5) := by
  have hcopies : definedBy (if 0 < others.length then [(⟨3, .comm (productAction first others)⟩ :
      Instruction)] else []) = (List.range others.length).map (· + (others.length + 5)) := by
    split_ifs with hpos
    · exact definedBy_singleton _
    · obtain rfl : others = [] := List.length_eq_zero_iff.1 (by omega)
      rfl
  have hbranches : others.length + 5 + others.length = 2 * others.length + 5 := by omega
  rw [prelude, ← List.append_assoc, definedBy_append, hcopies, ← List.append_assoc,
    product_defined, range_append, hbranches]

theorem prelude_length : (prelude first others).length = firstBranch others := by
  unfold prelude firstBranch
  split_ifs <;> rfl

/-- The branches on the first devices. -/
def branches (others l : List Place) : List Instruction :=
  l.mapIdx fun i p => ⟨firstBranch others + i, .compute (branchOp others i p)⟩

theorem branches_defined (first : Place) (others l : List Place) :
    [0, 1] ++ definedBy (prelude first others ++ branches others l) =
      List.range (2 * others.length + 5 + l.length) := by
  rw [definedBy_append, ← List.append_assoc, prelude_defined, branches,
    definedBy_mapIdx l fun _ _ => rfl, range_append]

theorem branches_length (first : Place) (others l : List Place) :
    (prelude first others ++ branches others l).length = firstBranch others + l.length := by
  rw [List.length_append, prelude_length, branches, List.length_mapIdx]

theorem instructions_eq : (fanoutPlan counts first others).plan.instructions =
    prelude first others ++ branches others (first :: others) ++
      [⟨firstBranch others + (others.length + 1), .comm (finalAction first others)⟩] := by
  rw [RuntimePlan.instructions, initialization_eq, execution_eq, finalization_eq, prelude, branches]
  simp only [List.append_assoc]

theorem definitions_eq :
    (fanoutPlan counts first others).plan.definitions = List.range (3 * others.length + 7) := by
  have hfinal : 2 * others.length + 5 + (first :: others).length = 3 * others.length + 6 := by
    rw [List.length_cons]
    omega
  rw [RuntimePlan.definitions_eq, instructions_eq, definedBy_append, ← List.append_assoc,
    externalInputs_eq, branches_defined, hfinal, definedBy_singleton]
  exact List.range_succ.symm

/-- The instructions, one by one. -/
theorem mem_instructions {i : Instruction} : i ∈ (fanoutPlan counts first others).plan.instructions ↔
    i = ⟨0, .comm (cipherAction first)⟩ ∨ i = ⟨1, .comm (plainAction first others)⟩ ∨
    i = ⟨2, .compute (productOp first others)⟩ ∨
    (0 < others.length ∧ i = ⟨3, .comm (productAction first others)⟩) ∨
    (∃ k p, (first :: others)[k]? = some p ∧
      i = ⟨firstBranch others + k, .compute (branchOp others k p)⟩) ∨
    i = ⟨firstBranch others + (others.length + 1), .comm (finalAction first others)⟩ := by
  have hbranch : i ∈ branches others (first :: others) ↔ ∃ k p, (first :: others)[k]? = some p ∧
      i = ⟨firstBranch others + k, .compute (branchOp others k p)⟩ := by
    rw [branches, List.mem_mapIdx]
    constructor
    · rintro ⟨k, hk, rfl⟩
      exact ⟨k, _, List.getElem?_eq_getElem hk, rfl⟩
    · rintro ⟨k, p, hget, rfl⟩
      obtain ⟨hk, rfl⟩ := List.getElem?_eq_some_iff.1 hget
      exact ⟨k, hk, rfl⟩
  have hcopies : i ∈ (if 0 < others.length then [(⟨3, .comm (productAction first others)⟩ :
      Instruction)] else []) ↔ 0 < others.length ∧ i = ⟨3, .comm (productAction first others)⟩ := by
    split_ifs with hpos
    · simp [hpos]
    · simp [hpos]
  rw [instructions_eq, List.mem_append, List.mem_append, prelude, List.mem_append, List.mem_append,
    hbranch, hcopies]
  simp only [List.mem_cons, List.not_mem_nil, or_false, or_assoc]

/-! ### Every instruction passes -/

/-- A communication to the places `places`, whose outputs have the ids from `c` on. -/
theorem commOk_fan (places : List Place) (c : ℕ) {plan : RuntimePlan} {ids : List TransferId}
    {action : CommAction} {id : ℕ} {kind : ValueKind} {scale : CInt} {source : Place}
    (hid : action.id ∉ ids) (hin : action.inputs = [id])
    (hdesc : plan.desc? id = some (valueDesc id kind source scale)) (hsrc : action.sources = [source])
    (hsource : checkPlace plan source = .ok ()) (huse : id < c)
    (hout : action.outputs = (List.range places.length).map (· + c))
    (hdest : action.destinations = places) (htypes : action.outputTypes = places.map fun _ => kind)
    (hplaces : ∀ p ∈ places, checkPlace plan p = .ok ())
    (hdescs : ∀ i p, places[i]? = some p →
      plan.desc? (i + c) = some (valueDesc (i + c) kind p scale))
    (hnodup : places.Nodup) (haway : source ∉ places)
    (htransfer : action.kind = .transfer → places.length = 1)
    (hreplicate : action.kind = .replicate → 2 ≤ places.length) :
    CommOk plan (List.range c) ids action id (valueDesc id kind source scale) := by
  have hlength : action.outputs.length = places.length := by simp [hout]
  refine ⟨hid, hin, hdesc, hsrc, hsource, List.mem_range.2 huse, ?_, ?_, ?_, ?_, hdest ▸ hnodup,
    hdest ▸ haway, fun h => hlength.trans (htransfer h), fun h => hlength ▸ hreplicate h⟩
  · rw [hout, hdest, List.forall₂_iff_get]
    refine ⟨by simp, fun i h1 h2 => ?_⟩
    have hp : places[i]? = some places[i] := List.getElem?_eq_getElem h2
    refine ⟨hplaces _ (List.getElem_mem h2), valueDesc (i + c) kind places[i] scale, ?_, rfl, ?_⟩
    · simpa using hdescs i _ hp
    · simp [sameMetadata, valueDesc]
  · rw [htypes, hout]
    refine List.ext_getElem (by simp) fun i _ _ => ?_
    simp [valueDesc]
  · rw [hout]
    intro out hmem hold
    obtain ⟨i, -, rfl⟩ := List.mem_map.1 hmem
    have := List.mem_range.1 hold
    omega
  · rw [hout]
    exact List.nodup_range.map fun a b h => Nat.add_right_cancel h

variable {spec : OperatorSpec}

/-- An operation whose kind has no requirements of its own. -/
theorem operationOk_of_plain {plan : RuntimePlan} {op : ComputeOp}
    (h : op.kind = .mulCP ∨ op.kind = .negate) : OperationOk plan spec op := by
  intro support st _
  rcases h with h | h
  · exact ⟨st, by simp only [checkOperation, h]⟩
  · exact ⟨st, by simp only [checkOperation, h]⟩

theorem productOp_metadata :
    verifyComputeMetadata (productOp first others) (fanoutPlan counts first others).plan.values =
      .ok () := by
  refine verifyComputeMetadata_ok (.cons ⟨desc_cipherCopy, rfl⟩
    (.cons ⟨desc_plainCopy (i := 0) rfl, rfl⟩ .nil)) desc_product rfl ⟨rfl, rfl, ?_, ?_, ?_⟩
  · rintro a ⟨⟩
    exact ⟨rfl, rfl⟩
  · rintro a b ⟨⟩
    exact ⟨rfl, rfl, rfl⟩
  · -- the scales add up
    have hscale : LongLong.add (1 : CInt).toInt (1 : CInt).toInt = .ok 2 :=
      LongLong.add_eq_ok.2 ⟨by decide, by decide⟩
    refine bind_ok (a := valueDesc 2 .ciphertext first) rfl (bind_ok (failIf_ok (not_not.2 rfl)) ?_)
    refine bind_ok (a := valueDesc 3 .plaintext first) rfl (bind_ok hscale (failIf_ok ?_))
    rintro (h | h | h)
    · exact h rfl
    · exact h (show (2 : CInt).toInt = 2 by decide)
    · exact h rfl

/-- The product, or its copy, on the device at position `i`. -/
theorem desc_factor {i : ℕ} {p : Place} (h : (first :: others)[i]? = some p) :
    (fanoutPlan counts first others).plan.desc? (i + (others.length + 4)) =
      some (valueDesc (i + (others.length + 4)) .ciphertext p 2) := by
  rcases i with _ | i
  · obtain rfl : first = p := Option.some.inj h
    rw [Nat.zero_add]
    exact desc_product
  · have hid : i + 1 + (others.length + 4) = i + (others.length + 5) := by omega
    rw [hid]
    exact desc_copy h

theorem branchOp_metadata {i : ℕ} {p : Place} (h : (first :: others)[i]? = some p) :
    verifyComputeMetadata (branchOp others i p) (fanoutPlan counts first others).plan.values =
      .ok () := by
  refine verifyComputeMetadata_ok (.cons ⟨desc_factor h, rfl⟩ .nil) (desc_branch h) rfl
    ⟨rfl, rfl, ?_, ?_, ?_⟩
  · rintro a ⟨⟩
    exact ⟨rfl, rfl⟩
  · rintro a b ⟨⟩
  · refine bind_ok (a := valueDesc (i + (others.length + 4)) .ciphertext p 2) rfl (failIf_ok ?_)
    rintro (h | h)
    · exact h rfl
    · exact h (by simp [sameMetadata, valueDesc])

theorem branches_snoc (l : List Place) (p : Place) : branches others (l ++ [p]) =
    branches others l ++ [⟨firstBranch others + l.length, .compute (branchOp others l.length p)⟩] := by
  rw [branches, List.mapIdx_append]
  simp [branches]

theorem actions_branches (l : List Place) : actionsOf (branches others l) = [] := by
  induction l using List.reverseRecOn with
  | nil => rfl
  | append_singleton l p ih =>
    rw [branches_snoc, actionsOf_append, ih]
    rfl

theorem modulusBudget_eq : modulusBudget makeTestOperatorSpec.spec 3 = .ok 180 := by
  have hlevel : ((3 : CInt).toInt + 1).toNat = 4 := by decide
  rw [modulusBudget, hlevel]
  rfl

include ht

theorem Topology.value_ok {v : ValueDesc} (h : v ∈ (fanoutPlan counts first others).plan.values) :
    ValueOk (fanoutPlan counts first others).plan makeTestOperatorSpec.spec v := by
  obtain ⟨id, kind, p, scale, rfl, hscale, hp⟩ := values_cases h
  have hlevel : (0 : CInt) ≤ 3 ∧ (3 : CInt) ≤ 4 := by decide
  refine ⟨ht.place_ok hp, rfl, hlevel, ⟨180, modulusBudget_eq, ?_⟩, ?_, ?_⟩
  · rcases hscale with rfl | rfl
    · exact (by decide : (1 : CInt).toInt < 180)
    · exact (by decide : (2 : CInt).toInt < 180)
  · rintro rfl
    rfl
  · rintro rfl
    exact (by decide : (2 : CInt) ≤ 2)

theorem Topology.branch_ok {l rest : List Place} {p : Place}
    (hl : first :: others = l ++ p :: rest) :
    InstructionOk (fanoutPlan counts first others).plan makeTestOperatorSpec.spec .execution
      (prelude first others ++ branches others l)
      ⟨firstBranch others + l.length, .compute (branchOp others l.length p)⟩ := by
  have hget : (first :: others)[l.length]? = some p := by
    rw [hl, List.getElem?_append_right le_rfl, Nat.sub_self]
    rfl
  have hlen : l.length < others.length + 1 := (List.getElem?_eq_some_iff.1 hget).1
  have hdefs := branches_defined first others l
  refine ⟨(branches_length first others l).symm, ?_⟩
  show ComputeOk _ _ ([0, 1] ++ definedBy _) _
  rw [hdefs]
  have hp : p ∈ first :: others := List.mem_of_getElem? hget
  refine ⟨ht.device_ok hp, ?_, ?_, branchOp_metadata hget, _, rfl, rfl⟩
  · intro id hid
    obtain rfl := List.mem_singleton.1 hid
    exact List.mem_range.2 (by omega)
  · intro hmem
    have := List.mem_range.1 hmem
    show False
    simp only [branchOp] at this
    omega

theorem Topology.branches_ok (l : List Place) : ∀ rest, first :: others = l ++ rest →
    ListOk (fanoutPlan counts first others).plan makeTestOperatorSpec.spec .execution
      (prelude first others) (branches others l) := by
  induction l using List.reverseRecOn with
  | nil => exact fun _ _ => trivial
  | append_singleton l p ih =>
    intro rest hl
    rw [List.append_assoc, List.singleton_append] at hl
    rw [branches_snoc, listOk_append]
    refine ⟨ih _ hl, ht.branch_ok hl, ?_, trivial⟩
    rintro op ⟨⟩
    exact operationOk_of_plain (Or.inr rfl)

theorem Topology.kind {p : Place} (hp : p ∈ first :: others) : p.kind = .device := by
  obtain ⟨r, count, index, -, -, rfl⟩ := ht.device p hp
  rfl

theorem Topology.cipher_ok : InstructionOk (fanoutPlan counts first others).plan
    makeTestOperatorSpec.spec .initialization [] ⟨0, .comm (cipherAction first)⟩ := by
  refine ⟨rfl, 0, valueDesc 0 .ciphertext host, ?_⟩
  refine commOk_fan [first] 2 (List.not_mem_nil) rfl desc_cipher rfl
    (ht.place_ok (Or.inl rfl)) (by omega) rfl rfl rfl ?_ ?_ (List.nodup_singleton _) ?_
    (fun _ => rfl) (by rintro ⟨⟩)
  · intro p hp
    obtain rfl := List.mem_singleton.1 hp
    exact ht.device_ok List.mem_cons_self
  · intro i p hi
    rcases i with _ | i
    · obtain rfl := Option.some.inj hi
      exact desc_cipherCopy
    · simp at hi
  · intro hmem
    have hkind := ht.kind (p := first) List.mem_cons_self
    rw [← List.mem_singleton.1 hmem] at hkind
    cases hkind

theorem Topology.plain_ok : InstructionOk (fanoutPlan counts first others).plan
    makeTestOperatorSpec.spec .initialization [⟨0, .comm (cipherAction first)⟩]
    ⟨1, .comm (plainAction first others)⟩ := by
  refine ⟨rfl, 1, valueDesc 1 .plaintext host, ?_⟩
  show CommOk _ ([0, 1] ++ _) _ _ _ _
  rw [inputs_defined]
  refine commOk_fan (first :: others) 3 (by decide : 101 ∉ [100]) rfl desc_plain rfl
    (ht.place_ok (Or.inl rfl)) (by omega) rfl rfl rfl (fun p hp => ht.device_ok hp)
    (fun i p hi => desc_plainCopy hi) ht.nodup ?_ ?_ ?_
  · intro hmem
    cases ht.kind hmem
  · intro hkind
    simp only [plainAction] at hkind
    split_ifs at hkind with hpos
    rw [List.length_cons]
    omega
  · intro hkind
    simp only [plainAction] at hkind
    split_ifs at hkind with hpos
    rw [List.length_cons]
    omega

theorem Topology.product_ok : InstructionOk (fanoutPlan counts first others).plan
    makeTestOperatorSpec.spec .execution
    [⟨0, .comm (cipherAction first)⟩, ⟨1, .comm (plainAction first others)⟩]
    ⟨2, .compute (productOp first others)⟩ := by
  refine ⟨rfl, ?_⟩
  show ComputeOk _ _ ([0, 1] ++ definedBy _) _
  rw [initialization_defined]
  refine ⟨ht.device_ok List.mem_cons_self, ?_, ?_, productOp_metadata, _, rfl, rfl⟩
  · intro id hid
    rcases List.mem_cons.1 hid with rfl | hid
    · exact List.mem_range.2 (by omega)
    · obtain rfl := List.mem_singleton.1 hid
      exact List.mem_range.2 (by omega)
  · intro hmem
    exact absurd (List.mem_range.1 hmem) (lt_irrefl _)

theorem Topology.copies_ok (hpos : 0 < others.length) : InstructionOk
    (fanoutPlan counts first others).plan makeTestOperatorSpec.spec .execution
    ([⟨0, .comm (cipherAction first)⟩, ⟨1, .comm (plainAction first others)⟩] ++
      [⟨2, .compute (productOp first others)⟩])
    ⟨3, .comm (productAction first others)⟩ := by
  refine ⟨rfl, others.length + 4, valueDesc (others.length + 4) .ciphertext first 2, ?_⟩
  show CommOk _ ([0, 1] ++ _) _ _ _ _
  rw [product_defined]
  refine commOk_fan others _ (by decide : 102 ∉ [100, 101]) rfl desc_product rfl
    (ht.device_ok List.mem_cons_self) (by omega) rfl rfl rfl
    (fun p hp => ht.device_ok (List.mem_cons_of_mem _ hp)) (fun i p hi => desc_copy hi)
    (List.nodup_cons.1 ht.nodup).2 (List.nodup_cons.1 ht.nodup).1 ?_ ?_
  · intro hkind
    simp only [productAction] at hkind
    split_ifs at hkind with hone
    exact hone
  · intro hkind
    simp only [productAction] at hkind
    split_ifs at hkind with hone
    omega

omit ht in
theorem last_get (first : Place) (others : List Place) :
    (first :: others)[others.length]? = some ((first :: others).getLastD first) := by
  rw [List.getLastD_eq_getLast?, List.getLast?_eq_some_getLast (List.cons_ne_nil _ _),
    List.getLast_eq_getElem]
  exact List.getElem?_eq_getElem _

omit ht in
theorem prelude_transfers : (actionsOf (prelude first others ++ branches others (first :: others))).map
    (·.id) = if 0 < others.length then [100, 101, 102] else [100, 101] := by
  rw [actionsOf_append, actions_branches, List.append_nil, prelude]
  split_ifs <;> rfl

theorem Topology.final_ok : InstructionOk (fanoutPlan counts first others).plan
    makeTestOperatorSpec.spec .finalization (prelude first others ++ branches others (first :: others))
    ⟨firstBranch others + (others.length + 1), .comm (finalAction first others)⟩ := by
  have hdefs := branches_defined first others (first :: others)
  have hfinal : 2 * others.length + 5 + (first :: others).length = 3 * others.length + 6 := by
    rw [List.length_cons]
    omega
  have hid : others.length + (2 * others.length + 5) = 3 * others.length + 5 := by omega
  have hlast := ht.kind (last_mem first others)
  have hdesc : (fanoutPlan counts first others).plan.desc? (others.length + (2 * others.length + 5)) =
    some (valueDesc _ .ciphertext _ 2) := desc_branch (last_get first others)
  rw [hid] at hdesc
  refine ⟨(branches_length first others (first :: others)).symm, 3 * others.length + 5,
    valueDesc (3 * others.length + 5) .ciphertext ((first :: others).getLastD first) 2, ?_⟩
  show CommOk _ ([0, 1] ++ _) _ _ _ _
  rw [hdefs, hfinal, prelude_transfers]
  refine commOk_fan [outputHost first others] _ ?_ rfl hdesc rfl
    (ht.device_ok (last_mem first others)) (by omega) ?_ rfl rfl ?_ ?_ (List.nodup_singleton _) ?_
    (fun _ => rfl) (by rintro ⟨⟩)
  · simp only [finalAction]
    split_ifs <;> decide
  · simp [finalAction]
  · intro p hp
    obtain rfl := List.mem_singleton.1 hp
    exact ht.place_ok (Or.inr (Or.inl rfl))
  · intro i p hi
    rcases i with _ | i
    · obtain rfl := Option.some.inj hi
      rw [Nat.zero_add]
      exact desc_final
    · simp at hi
  · intro hmem
    rw [List.mem_singleton.1 hmem] at hlast
    cases hlast

theorem Topology.header_ok : checkHeader (fanoutPlan counts first others).plan
    makeTestOperatorSpec false = .ok () := by
  have hworld := ht.worldSize
  have hrank := ht.rank (ht.device first List.mem_cons_self)
  have hpos : ¬ (fanoutPlan counts first others).plan.target.worldSize ≤ 0 := by
    rw [Int32.le_iff_toInt_le, hworld]
    show ¬ ((counts.length : ℤ) ≤ 0)
    omega
  have htable : (fanoutPlan counts first others).plan.target.deviceCounts.length =
      (fanoutPlan counts first others).plan.target.worldSize.toInt.toNat := by
    rw [hworld]
    rfl
  have hcounts : ¬ ∃ count ∈ (fanoutPlan counts first others).plan.target.deviceCounts, count < 0 := by
    rintro ⟨count, hmem, hneg⟩
    exact Int32.not_lt.2 (ht.nonneg count hmem) hneg
  refine bind_ok (failIf_ok (not_not.2 rfl)) (bind_ok (failIf_ok (by decide)) ?_)
  refine bind_ok (failIf_ok (by decide : ¬ "vec-fixed-target".isEmpty = true)) ?_
  refine bind_ok (failIf_ok (by decide : ¬ (1 : CInt) ≤ 0)) (bind_ok (failIf_ok hpos) ?_)
  refine bind_ok (failIf_ok (not_not.2 htable)) (bind_ok (failIf_ok hcounts) ?_)
  refine bind_ok (failIf_ok ?_) (bind_ok (failIf_ok ?_) (failIf_ok (not_not.2 rfl)))
  · rintro (h | h)
    · exact h rfl
    · exact h rfl
  · exact fun h => h.2 rfl

theorem Topology.admitted :
    Admitted (fanoutPlan counts first others).plan makeTestOperatorSpec false where
  header := ht.header_ok
  ids_nodup := by
    rw [ids_eq]
    exact List.nodup_range
  value := fun v hv => ht.value_ok hv
  inputs_nodup := (by decide : ([0, 1] : List ℕ).Nodup)
  input := by
    intro id hid
    rcases List.mem_cons.1 hid with rfl | hid
    · exact ⟨_, desc_cipher, rfl⟩
    · obtain rfl := List.mem_singleton.1 hid
      exact ⟨_, desc_plain, rfl⟩
  initialization := by
    rw [initialization_eq]
    exact ⟨ht.cipher_ok, by rintro _ ⟨⟩, ht.plain_ok, by rintro _ ⟨⟩, trivial⟩
  execution := by
    rw [initialization_eq, execution_eq, listOk_append, listOk_append]
    refine ⟨⟨⟨ht.product_ok, ?_, trivial⟩, ?_⟩, ?_⟩
    · rintro op ⟨⟩
      exact operationOk_of_plain (Or.inl rfl)
    · split_ifs with hpos
      · exact ⟨ht.copies_ok hpos, by rintro _ ⟨⟩, trivial⟩
      · trivial
    · exact ht.branches_ok (first :: others) [] (List.append_nil _).symm
  finalization := by
    rw [initialization_eq, execution_eq, finalization_eq]
    exact ⟨ht.final_ok, by rintro _ ⟨⟩, trivial⟩
  bundle := by
    refine ⟨by rintro ⟨⟩, ?_⟩
    rintro ⟨i, hi, op, content, hbody, -⟩
    rcases mem_instructions.1 hi with rfl | rfl | rfl | ⟨-, rfl⟩ | ⟨k, p, -, rfl⟩ | rfl <;>
      cases hbody
  finals_ne := List.cons_ne_nil _ _
  finals_nodup := List.nodup_singleton _
  final := by
    intro id hid
    obtain rfl : id = 3 * others.length + 6 := by
      have hfinal : others.length + 1 + 4 + others.length + (others.length + 1) =
        3 * others.length + 6 := by omega
      exact (List.mem_singleton.1 hid).trans hfinal
    rw [definitions_eq]
    exact List.mem_range.2 (by omega)
  defined := by
    intro v hv
    rw [definitions_eq, ← ids_eq counts first others]
    exact List.mem_map_of_mem hv

omit ht in
/-- The plan is accepted as long as its ranks are `int`s. -/
theorem accepted_short {requirements : PlanRequirements}
    (h : verify (fanoutPlan counts first others).plan makeTestOperatorSpec false =
      .ok requirements) : counts.length < 2 ^ 31 := by
  have hcounts : counts.length =
    (fanoutPlan counts first others).plan.target.worldSize.toInt.toNat := (verify_accepted h).counts
  have := (fanoutPlan counts first others).plan.target.worldSize.toInt_lt
  omega

/-! ### The map -/

omit ht in
theorem mem_diffMap {point : DiffPoint} : point ∈ (fanoutPlan counts first others).diffMap ↔
    point = ⟨0, 2, 0⟩ ∨ (∃ i < others.length + 1, point = ⟨1, i + 3, 1⟩) ∨
    point = ⟨2, others.length + 4, 2⟩ ∨
    (∃ i < others.length, point = ⟨3, i + (others.length + 5), 2⟩) ∨
    (∃ i < others.length + 1, point = ⟨4, i + (2 * others.length + 5), 3⟩) ∨
    point = ⟨firstBranch others + (others.length + 1), 3 * others.length + 6, 3⟩ := by
  have hpos : others.length + 1 > 1 ↔ 0 < others.length := by omega
  have hproduct : others.length + 1 + 3 = others.length + 4 := by omega
  have hcopies : others.length + 1 + 4 = others.length + 5 := by omega
  have hbranches : others.length + 5 + others.length = 2 * others.length + 5 := by omega
  have hfinal : 2 * others.length + 5 + (others.length + 1) = 3 * others.length + 6 := by omega
  simp only [fanoutPlan, List.length_cons, hpos, hproduct, hcopies, hbranches, hfinal,
    List.mem_append, List.mem_map, List.mem_range, List.mem_singleton, or_assoc,
    exists_exists_and_eq_and, eq_comm (a := point)]
  rfl

omit ht in
theorem covered {i : Instruction} (hi : i ∈ (fanoutPlan counts first others).plan.instructions)
    {id : ValueId} (hid : id ∈ i.body.outputs) :
    ∃ point ∈ (fanoutPlan counts first others).diffMap, point.distributedValue = id := by
  rcases mem_instructions.1 hi with rfl | rfl | rfl | ⟨-, rfl⟩ | ⟨k, p, hk, rfl⟩ | rfl
  · obtain rfl := List.mem_singleton.1 hid
    exact ⟨⟨0, 2, 0⟩, mem_diffMap.2 (Or.inl rfl), rfl⟩
  · obtain ⟨k, hk, rfl⟩ := List.mem_map.1 hid
    exact ⟨⟨1, k + 3, 1⟩, mem_diffMap.2 (Or.inr (Or.inl ⟨k, List.mem_range.1 hk, rfl⟩)), rfl⟩
  · obtain rfl := List.mem_singleton.1 hid
    exact ⟨⟨2, others.length + 4, 2⟩, mem_diffMap.2 (Or.inr (Or.inr (Or.inl rfl))), rfl⟩
  · obtain ⟨k, hk, rfl⟩ := List.mem_map.1 hid
    exact ⟨⟨3, k + (others.length + 5), 2⟩, mem_diffMap.2
      (Or.inr (Or.inr (Or.inr (Or.inl ⟨k, List.mem_range.1 hk, rfl⟩)))), rfl⟩
  · obtain rfl := List.mem_singleton.1 hid
    have hlt := (List.getElem?_eq_some_iff.1 hk).1
    exact ⟨⟨4, k + (2 * others.length + 5), 3⟩, mem_diffMap.2
      (Or.inr (Or.inr (Or.inr (Or.inr (Or.inl ⟨k, hlt, rfl⟩))))), rfl⟩
  · obtain rfl := List.mem_singleton.1 hid
    exact ⟨_, mem_diffMap.2 (Or.inr (Or.inr (Or.inr (Or.inr (Or.inr rfl))))), rfl⟩

omit ht in
/-- A branch is defined by one instruction, whose ordinal counts on from that of
    the first branch. -/
theorem branch_ordinal {k ordinal : ℕ} (hk : k < others.length + 1) :
    (fanoutPlan counts first others).plan.DefinesAt ordinal (k + (2 * others.length + 5)) ↔
      ordinal = firstBranch others + k := by
  constructor
  · rintro ⟨i, hi, rfl, hout⟩
    rcases mem_instructions.1 hi with rfl | rfl | rfl | ⟨-, rfl⟩ | ⟨k', p, -, rfl⟩ | rfl
    · have : k + (2 * others.length + 5) = 2 := List.mem_singleton.1 hout
      omega
    · obtain ⟨j, hj, hid⟩ := List.mem_map.1 hout
      have hlt : @LT.lt ℕ _ j (others.length + 1) := List.mem_range.1 hj
      have heq : @Eq ℕ (j + 3) (k + (2 * others.length + 5)) := hid
      omega
    · have : k + (2 * others.length + 5) = others.length + 4 := List.mem_singleton.1 hout
      omega
    · obtain ⟨j, hj, hid⟩ := List.mem_map.1 hout
      have hlt : @LT.lt ℕ _ j others.length := List.mem_range.1 hj
      have heq : @Eq ℕ (j + (others.length + 5)) (k + (2 * others.length + 5)) := hid
      omega
    · have : k + (2 * others.length + 5) = k' + (2 * others.length + 5) := List.mem_singleton.1 hout
      obtain rfl : k = k' := by omega
      rfl
    · have : k + (2 * others.length + 5) = 3 * others.length + 6 := List.mem_singleton.1 hout
      omega
  · rintro rfl
    have hget : (first :: others)[k]? = some (first :: others)[k] := List.getElem?_eq_getElem hk
    refine ⟨_, mem_instructions.2 (Or.inr (Or.inr (Or.inr (Or.inr (Or.inl ⟨k, _, hget, rfl⟩))))),
      rfl, List.mem_singleton_self _⟩

omit ht in
/-- **Which ordinals are right**: all but those of the branches, and of these the
    first, when there are two devices or more. -/
theorem ordinal_iff {point : DiffPoint} (h : point ∈ (fanoutPlan counts first others).diffMap) :
    (fanoutPlan counts first others).plan.DefinesAt point.opOrdinal point.distributedValue ↔
      ∀ k < others.length + 1, point.distributedValue = k + (2 * others.length + 5) →
        2 ≤ others.length + 1 ∧ k = 0 := by
  have hnot : ∀ {ordinal id : ℕ}, (fanoutPlan counts first others).plan.DefinesAt ordinal id →
      (id < 2 * others.length + 5 ∨ 3 * others.length + 5 < id) →
      ((fanoutPlan counts first others).plan.DefinesAt ordinal id ↔
        ∀ k < others.length + 1, id = k + (2 * others.length + 5) →
          2 ≤ others.length + 1 ∧ k = 0) := fun hdef hid =>
    ⟨fun _ k hk heq => by omega, fun _ => hdef⟩
  rcases mem_diffMap.1 h with rfl | ⟨i, hi, rfl⟩ | rfl | ⟨i, hi, rfl⟩ | ⟨i, hi, rfl⟩ | rfl
  · refine hnot ⟨_, mem_instructions.2 (Or.inl rfl), rfl, List.mem_singleton_self _⟩ (Or.inl ?_)
    show 2 < _
    omega
  · refine hnot ⟨_, mem_instructions.2 (Or.inr (Or.inl rfl)), rfl,
      List.mem_map_of_mem (List.mem_range.2 hi)⟩ (Or.inl ?_)
    show i + 3 < _
    omega
  · refine hnot ⟨_, mem_instructions.2 (Or.inr (Or.inr (Or.inl rfl))), rfl,
      List.mem_singleton_self _⟩ (Or.inl ?_)
    show others.length + 4 < _
    omega
  · refine hnot ⟨_, mem_instructions.2 (Or.inr (Or.inr (Or.inr (Or.inl ⟨by omega, rfl⟩)))), rfl,
      List.mem_map_of_mem (List.mem_range.2 hi)⟩ (Or.inl ?_)
    show i + (others.length + 5) < _
    omega
  · show (fanoutPlan counts first others).plan.DefinesAt 4 (i + (2 * others.length + 5)) ↔
      ∀ k < others.length + 1, i + (2 * others.length + 5) = k + (2 * others.length + 5) →
        2 ≤ others.length + 1 ∧ k = 0
    rw [branch_ordinal hi, firstBranch]
    constructor
    · intro heq k hk hid
      split_ifs at heq <;> omega
    · intro hall
      obtain ⟨htwo, rfl⟩ := hall i hi rfl
      rw [if_pos (by omega)]
  · refine hnot ⟨_, mem_instructions.2 (Or.inr (Or.inr (Or.inr (Or.inr (Or.inr rfl))))), rfl,
      List.mem_singleton_self _⟩ (Or.inr ?_)
    show _ < 3 * others.length + 6
    omega

omit ht in
/-- Some branch has a wrong ordinal: the only one, or the second. -/
theorem not_ordinals : ¬ ∀ point ∈ (fanoutPlan counts first others).diffMap,
    (fanoutPlan counts first others).plan.DefinesAt point.opOrdinal point.distributedValue := by
  intro hall
  by_cases htwo : 2 ≤ others.length + 1
  · have hmem : (⟨4, 1 + (2 * others.length + 5), 3⟩ : DiffPoint) ∈
        (fanoutPlan counts first others).diffMap :=
      mem_diffMap.2 (Or.inr (Or.inr (Or.inr (Or.inr (Or.inl ⟨1, by omega, rfl⟩)))))
    have := (ordinal_iff hmem).1 (hall _ hmem) 1 (by omega) rfl
    omega
  · have hmem : (⟨4, 0 + (2 * others.length + 5), 3⟩ : DiffPoint) ∈
        (fanoutPlan counts first others).diffMap :=
      mem_diffMap.2 (Or.inr (Or.inr (Or.inr (Or.inr (Or.inl ⟨0, by omega, rfl⟩)))))
    exact htwo ((ordinal_iff hmem).1 (hall _ hmem) 0 (by omega) rfl).1

/-! ### The evaluation -/

omit ht

variable [DoubleArith] {cipher plain : VecPayload}

open VecExecutor

/-- What the reference computes of its inputs. -/
structure Computed (cipher plain product result : VecPayload) : Prop where
  multiply : ∀ op : ComputeOp, op.kind = .mulCP → computeReady op [cipher, plain] = .ok product
  negate : ∀ op : ComputeOp, op.kind = .negate → computeReady op [product] = .ok result

/-- Matching inputs can be multiplied, and the product negated. -/
theorem computed_of_inputs (h : (fanoutPlan counts first others).Inputs cipher plain) :
    ∃ product result, Computed cipher plain product result := by
  obtain ⟨⟨d, hd, hcipher⟩, ⟨d', hd', hplain⟩, hslots⟩ := h
  obtain rfl := Option.some.inj (desc_cipher.symm.trans hd)
  obtain rfl := Option.some.inj (desc_plain.symm.trans hd')
  obtain ⟨⟨hk, hc, hl, hs, hn, -⟩, hdeg⟩ := validateValue_eq_ok.1 hcipher
  obtain ⟨⟨hk', hc', hl', hs', hn', -⟩, hdeg'⟩ := validateValue_eq_ok.1 hplain
  have hcompat : Compatible true cipher.metadata plain.metadata :=
    ⟨hc.trans hc'.symm, hdeg.trans hdeg'.symm, hl.trans hl'.symm, hn.trans hn'.symm,
      by rintro ⟨⟩⟩
  have hscale : cipher.metadata.scaleLog2 = 1 := hs
  have hscale' : plain.metadata.scaleLog2 = 1 := hs'
  have hzero : (0 : CInt) ≤ 1 := by decide
  have hsum : (2 : CInt).toInt = (1 : CInt).toInt + (1 : CInt).toInt := by decide
  have hmeta : pairMetadata true cipher.metadata plain.metadata .plaintext =
      .ok { cipher.metadata with scaleLog2 := 2, components := cipher.metadata.components } := by
    rw [pairMetadata, if_pos rfl]
    refine multiplyMetadata_ok (hscale ▸ hzero) ?_ rfl
    rw [hscale, hscale', hsum]
  let product : VecPayload := { cipher with
    slots := List.zipWith DoubleArith.mul cipher.slots plain.slots
    metadata := { cipher.metadata with scaleLog2 := 2 } }
  have hkind : cipher.kind = .ciphertext := hk
  have hkind' : plain.kind = .plaintext := hk'
  refine ⟨product, { product with slots := product.slots.map Double.neg }, fun op hop => ?_,
    fun op hop => ?_⟩
  · have hinputs : expectedInputs op.kind = [.ciphertext, .plaintext] := by rw [hop]; rfl
    rw [computeReady_pair hinputs hkind hkind', hop]
    exact binaryPayload_eq hslots hcompat hmeta
  · have hinputs : expectedInputs op.kind = [.ciphertext] := by rw [hop]; rfl
    have hproduct : product.kind = .ciphertext := hk
    rw [computeReady_unary hinputs hproduct, unaryPayload, hop]

variable {product result : VecPayload}

/-- The reference holds the inputs and the two results. -/
theorem reference_eq (h : Computed cipher plain product result) :
    ∃ reference, runFanoutReference cipher plain = .ok reference ∧ reference 0 = some cipher ∧
      reference 1 = some plain ∧ reference 2 = some product ∧ reference 3 = some result := by
  let inputs : Payloads := fun id => if id = 0 then some cipher else if id = 1 then some plain else none
  have hmultiply : SequentialReferenceExecutor.step inputs
      ⟨.mulCP, [0, 1], 2, ⟨.device, 0, 0⟩, .monostate⟩ = .ok (inputs.put [2] product) :=
    bind_ok (a := [cipher, plain]) rfl (bind_ok (h.multiply _ rfl) rfl)
  have hnegate : SequentialReferenceExecutor.step (inputs.put [2] product)
      ⟨.negate, [2], 3, ⟨.device, 0, 0⟩, .monostate⟩ =
        .ok ((inputs.put [2] product).put [3] result) :=
    bind_ok (a := [product]) rfl (bind_ok (h.negate _ rfl) rfl)
  exact ⟨_, foldlM_cons_eq_ok.2 ⟨_, hmultiply, foldlM_cons_eq_ok.2 ⟨_, hnegate, rfl⟩⟩,
    rfl, rfl, rfl, rfl⟩

/-- The payload of every value of the plan. -/
def payloads (others : List Place) (cipher plain product result : VecPayload) : Payloads := fun id =>
  if id = 0 ∨ id = 2 then some cipher
  else if id < others.length + 4 then some plain
  else if id < 2 * others.length + 5 then some product
  else some result

omit [DoubleArith] in
theorem payloads_plain {id : ℕ} (hid : id = 1 ∨ 3 ≤ id) (hlt : id < others.length + 4) :
    payloads others cipher plain product result id = some plain :=
  (if_neg (show ¬ (id = 0 ∨ id = 2) by omega)).trans (if_pos hlt)

omit [DoubleArith] in
theorem payloads_product {id : ℕ} (hid : others.length + 4 ≤ id) (hlt : id < 2 * others.length + 5) :
    payloads others cipher plain product result id = some product :=
  (if_neg (show ¬ (id = 0 ∨ id = 2) by omega)).trans
    ((if_neg (Nat.not_lt.2 hid)).trans (if_pos hlt))

omit [DoubleArith] in
theorem payloads_result {id : ℕ} (hid : 2 * others.length + 5 ≤ id) :
    payloads others cipher plain product result id = some result :=
  (if_neg (show ¬ (id = 0 ∨ id = 2) by omega)).trans
    ((if_neg (show ¬ id < others.length + 4 by omega)).trans (if_neg (Nat.not_lt.2 hid)))

omit [DoubleArith] in
theorem get_payloads {f : Payloads} {id : ValueId} {p : VecPayload} (h : f id = some p) :
    f.get id = .ok p :=
  Payloads.get_eq_ok.2 h

/-- **These payloads satisfy the equation of every instruction.** -/
theorem solution (h : Computed cipher plain product result) :
    Solution (fanoutPlan counts first others).plan
      ((fanoutPlan counts first others).context cipher plain)
      (payloads others cipher plain product result) := by
  constructor
  · intro id hid
    rcases List.mem_cons.1 hid with rfl | hid
    · rfl
    · obtain rfl := List.mem_singleton.1 hid
      exact payloads_plain (Or.inl rfl) (by omega)
  · intro i hi
    rcases mem_instructions.1 hi with rfl | rfl | rfl | ⟨hpos, rfl⟩ | ⟨k, p, hk, rfl⟩ | rfl
    · refine ⟨cipher, bind_ok (a := 0) rfl (get_payloads rfl), fun out hout => ?_⟩
      obtain rfl := List.mem_singleton.1 hout
      rfl
    · refine ⟨plain, bind_ok (a := 1) rfl
        (get_payloads (payloads_plain (Or.inl rfl) (by omega))), fun out hout => ?_⟩
      obtain ⟨j, hj, rfl⟩ := List.mem_map.1 hout
      have hlt := List.mem_range.1 hj
      exact payloads_plain (Or.inr (by omega)) (by omega)
    · have hcipher : (payloads others cipher plain product result).get 2 = .ok cipher :=
        get_payloads rfl
      have hplain : (payloads others cipher plain product result).get 3 = .ok plain :=
        get_payloads (payloads_plain (Or.inr le_rfl) (by omega))
      have hread : [2, 3].mapM (payloads others cipher plain product result).get =
          .ok [cipher, plain] := by
        simp only [List.mapM_cons, List.mapM_nil, hcipher, hplain]
        rfl
      refine ⟨product, bind_ok hread (h.multiply _ rfl), fun out hout => ?_⟩
      obtain rfl : out = others.length + 4 := List.mem_singleton.1 hout
      exact payloads_product le_rfl (by omega)
    · refine ⟨product, bind_ok (a := others.length + 4) rfl
        (get_payloads (payloads_product le_rfl (by omega))), fun out hout => ?_⟩
      obtain ⟨j, hj, rfl⟩ := List.mem_map.1 hout
      have hlt := List.mem_range.1 hj
      exact payloads_product (by omega) (by omega)
    · have hlt := (List.getElem?_eq_some_iff.1 hk).1
      rw [List.length_cons] at hlt
      have hfactor : (payloads others cipher plain product result).get (k + (others.length + 4)) =
          .ok product := get_payloads (payloads_product (by omega) (by omega))
      have hread : [k + (others.length + 4)].mapM (payloads others cipher plain product result).get =
          .ok [product] := by
        simp only [List.mapM_cons, List.mapM_nil, hfactor]
        rfl
      refine ⟨result, bind_ok hread (h.negate _ rfl), fun out hout => ?_⟩
      obtain rfl : out = k + (2 * others.length + 5) := List.mem_singleton.1 hout
      exact payloads_result (by omega)
    · refine ⟨result, bind_ok (a := 3 * others.length + 5) rfl
        (get_payloads (payloads_result (by omega))), fun out hout => ?_⟩
      obtain rfl := List.mem_singleton.1 hout
      exact payloads_result (by omega)

/-- **Every point of the map agrees with the reference.** -/
theorem agrees (ht : Topology counts first others) {point : DiffPoint}
    (hpoint : point ∈ (fanoutPlan counts first others).diffMap) :
    (fanoutPlan counts first others).Agrees point := by
  intro cipher plain hinputs
  obtain ⟨product, result, hcomputed⟩ := computed_of_inputs hinputs
  obtain ⟨_, hverify⟩ := verify_of_admitted ht.admitted
  obtain ⟨values, hvalues, hmatch⟩ := evaluate_of_solution (verify_accepted hverify)
    (solution hcomputed)
  obtain ⟨reference, href, hr0, hr1, hr2, hr3⟩ := reference_eq hcomputed
  have hat : ∀ {d : ℕ} {p : VecPayload}, d < 3 * others.length + 7 →
      payloads others cipher plain product result d = some p → values d = some p := by
    intro d p hd hp
    rw [hmatch d (by rw [definitions_eq]; exact List.mem_range.2 hd)]
    exact hp
  rcases mem_diffMap.1 hpoint with rfl | ⟨i, hi, rfl⟩ | rfl | ⟨i, hi, rfl⟩ | ⟨i, hi, rfl⟩ | rfl
  · exact ⟨values, reference, cipher, hvalues, href, hat (d := 2) (by omega) rfl, hr0⟩
  · exact ⟨values, reference, plain, hvalues, href,
      hat (d := i + 3) (by omega) (payloads_plain (Or.inr (by omega)) (by omega)), hr1⟩
  · exact ⟨values, reference, product, hvalues, href,
      hat (d := others.length + 4) (by omega) (payloads_product le_rfl (by omega)), hr2⟩
  · exact ⟨values, reference, product, hvalues, href,
      hat (d := i + (others.length + 5)) (by omega)
        (payloads_product (by omega) (by omega)), hr2⟩
  · exact ⟨values, reference, result, hvalues, href,
      hat (d := i + (2 * others.length + 5)) (by omega) (payloads_result (by omega)), hr3⟩
  · exact ⟨values, reference, result, hvalues, href,
      hat (d := 3 * others.length + 6) (by omega) (payloads_result (by omega)), hr3⟩

end

end Fanout

end CkksRuntime
