/-
  ckks-runtime formalization — what the reader of operator specifications promises:

  - `OperatorSpec.WellFormed`, the structural facts that the verifier relies on
    (ring degree, modulus chain, levels, tables, boot profiles);
  - `readText_wellFormed`: every specification that is read has them.

  The readers of the parts are taken one by one, in the order of the record; the
  boot profiles go through an induction over the ones already accepted.
-/
import CkksRuntime.OperatorSpecReader
import CkksRuntime.IntegerBounds

namespace CkksRuntime

/-! ## Well-formed specifications -/

/-- A table has one entry a level, and the noise is finite and nonnegative. -/
structure TablesOk (length : ℕ) (latency : Option (List ℕ)) (noise : Option (List Double)) :
    Prop where
  latency_length : ∀ table ∈ latency, table.length = length
  noise_length : ∀ table ∈ noise, table.length = length
  noise_value : ∀ table ∈ noise, ∀ x ∈ table, x.isFinite ∧ ¬ x.isNegative

/-- The host requirements that the implementation of a boot profile asks for. -/
def BootImplementation.needsHost : BootImplementation → Bool
  | native => false
  | decryptReencrypt => true

/-- A boot profile inside the levels and the modulus budget of its specification. -/
structure BootProfile.WellFormed (spec : OperatorSpec) (p : BootProfile) : Prop where
  range : p.inputLevelMin ≤ p.inputLevelMax
  input_lower : spec.levelLowerBound ≤ p.inputLevelMin
  input_upper : p.inputLevelMax ≤ spec.levelUpperBound
  output_lower : spec.levelLowerBound ≤ p.outputLevel
  output_upper : p.outputLevel ≤ spec.levelUpperBound
  input_components : 2 ≤ p.inputComponents
  output_components : 2 ≤ p.outputComponents
  scale : p.outputScaleLog2.toInt <
    ((spec.rnsModuliLog2.take (p.outputLevel.toInt.toNat + 1)).map Int32.toInt).sum
  secret_key : p.needsSecretKey = p.implementation.needsHost
  host_compute : p.needsHostCompute = p.implementation.needsHost
  tables : TablesOk (spec.levelUpperBound.toInt.toNat + 1) p.latencyUsByInputLevel
    p.noiseByInputLevel

/-- Some noise table is present. -/
def OperatorSpec.HasNoise (spec : OperatorSpec) : Prop :=
  (∃ entry ∈ spec.operators, entry.2.noiseByLevel.isSome) ∨
    ∃ p ∈ spec.bootProfiles, p.noiseByInputLevel.isSome

/-- The ring, the modulus chain and the levels. -/
structure OperatorSpec.ContextOk (spec : OperatorSpec) : Prop where
  two_le_degree : 2 ≤ spec.polyDegree
  degree : spec.polyDegree.isPowerOfTwo
  moduli : spec.rnsModuliLog2 ≠ []
  modulus_le : ∀ bits ∈ spec.rnsModuliLog2, bits ≤ spec.maxModulusLog2
  max_modulus : spec.maxModulusLog2 ≤ 64
  lower : 0 ≤ spec.levelLowerBound
  lower_le_upper : spec.levelLowerBound ≤ spec.levelUpperBound
  upper : spec.levelUpperBound.toInt < spec.rnsModuliLog2.length

/-- **The structural invariants of an operator specification.** -/
structure OperatorSpec.WellFormed (spec : OperatorSpec) : Prop extends spec.ContextOk where
  format : spec.formatVersion = 1 ∨ spec.formatVersion = 2
  operators : ∀ kind, ∃ support, spec.operator? kind = some support
  rescale : ∃ support, spec.operator? .rescale = some support ∧ support.maxLevelsPerOp.isSome
  tables : ∀ entry ∈ spec.operators, TablesOk (spec.levelUpperBound.toInt.toNat + 1)
    entry.2.latencyUsByLevel entry.2.noiseByLevel
  no_noise : spec.formatVersion = 1 → ¬ spec.HasNoise
  noise_unit : spec.formatVersion = 2 → (spec.noiseUnit.isSome ↔ spec.HasNoise)
  profile_ids : (spec.bootProfiles.map (·.profileId)).Nodup
  profiles : ∀ p ∈ spec.bootProfiles, p.WellFormed spec
  boot : ∀ support, spec.operator? .boot = some support →
    (support.supported ↔ spec.bootProfiles ≠ [])

namespace OperatorSpecReader

open JsonUtils

/-! ## Tables -/

theorem readFiniteDouble_isFinite [DoubleArith] {value : Json} {document path : String}
    {x : Double} (h : readFiniteDouble value document path = .ok x) : x.isFinite := by
  have hcheck : ∀ {r : Double}, (if !r.isFinite then fail document path "number must be finite float64"
      else .ok r.normalizeZero) = .ok x → x.isFinite := by
    intro r hr
    split_ifs at hr with hfin
    · simp at hr
    · cases hr
      unfold Double.normalizeZero
      split_ifs
      · decide
      · simpa using hfin
  cases value with
  | unsigned n => exact hcheck h
  | integer n => exact hcheck h
  | float r => exact hcheck h
  | _ => simp [readFiniteDouble] at h

/-- A table is absent, or has the expected length and entries from its reader. -/
theorem readTable_eq_ok {α : Type} {read : Json → String → Except Fault α} {value : Json}
    {path : String} {length : CInt} {table : Option (List α)} (hlen : 0 ≤ length)
    (h : readTable read value path length = .ok table) :
    ∀ xs ∈ table, xs.length = length.toInt.toNat ∧ ∀ x ∈ xs, ∃ item p, read item p = .ok x := by
  cases value with
  | null => cases h; simp
  | array items =>
    simp only [readTable, bind_eq_ok, failIf_eq_ok, not_not, pure_eq_ok] at h
    obtain ⟨-, hitems, results, hresults, rfl⟩ := h
    obtain ⟨hl, hmem⟩ := readItems_eq_ok hresults
    rintro _ ⟨⟩
    have hcast := CInt.toNat_toUInt64 hlen
    exact ⟨by omega, hmem⟩
  | _ => simp [readTable] at h

theorem readTables_ok [DoubleArith] {value value' : Json} {path path' : String} {length : CInt}
    {latency : Option (List UInt64)} {noise : Option (List Double)} (hlen : 0 ≤ length)
    (hlatency : readLatency value path length = .ok latency)
    (hnoise : readNoise value' path' length = .ok noise) :
    TablesOk length.toInt.toNat (latency.map (·.map (·.toNat))) noise := by
  have hl := readTable_eq_ok hlen hlatency
  have hn := readTable_eq_ok hlen hnoise
  refine ⟨?_, fun table ht => (hn table ht).1, fun table ht x hx => ?_⟩
  · intro table ht
    obtain ⟨entries, he, rfl⟩ := Option.map_eq_some_iff.1 ht
    rw [List.length_map]
    exact (hl entries he).1
  · obtain ⟨item, p, hread⟩ := (hn table ht).2 x hx
    simp only [bind_eq_ok, failIf_eq_ok, pure_eq_ok] at hread
    obtain ⟨y, hy, -, hneg, rfl⟩ := hread
    exact ⟨readFiniteDouble_isFinite hy, hneg⟩

/-! ## Operators -/

/-- The facts about one operator's entry. -/
structure SupportOk (formatVersion : CInt) (length : ℕ) (kind : ComputeKind)
    (s : OperatorSupport) : Prop where
  tables : TablesOk length s.latencyUsByLevel s.noiseByLevel
  no_noise : formatVersion = 1 → s.noiseByLevel = none
  rescale : kind = .rescale → s.maxLevelsPerOp.isSome

theorem readOperator_ok [DoubleArith] {value : Json} {path : String} {length formatVersion : CInt}
    {kind : ComputeKind} {s : OperatorSupport} (hlen : 0 ≤ length)
    (h : readOperator value path length (kind = .rescale) formatVersion = .ok s) :
    SupportOk formatVersion length.toInt.toNat kind s := by
  simp only [readOperator, bind_eq_ok, pure_eq_ok] at h
  obtain ⟨_, -, _, -, supported, -, _, -, latency, hlatency, w, -, noise, hnoise, levels,
    hlevels, rfl⟩ := h
  have hrescale : kind = .rescale → levels.isSome := by
    intro hk
    simp only [hk, decide_true, if_true, bind_eq_ok, pure_eq_ok] at hlevels
    obtain ⟨_, -, n, -, rfl⟩ := hlevels
    rfl
  unfold readOperatorNoise at hnoise
  split_ifs at hnoise with hv1
  · -- format 1 has the latency table only
    have hnone : noise = none := by
      cases w with
      | null => cases hnoise; rfl
      | _ => simp at hnoise
    subst hnone
    have hnull : readNoise .null path length = .ok none := rfl
    exact ⟨readTables_ok hlen hlatency hnull, fun _ => rfl, hrescale⟩
  · exact ⟨readTables_ok hlen hlatency hnoise, fun h => absurd h hv1, hrescale⟩

theorem readOrdinary_ok [DoubleArith] {operators : Json} {length formatVersion : CInt}
    (hlen : 0 ≤ length) : ∀ {entries : List (String × ComputeKind)}
      {supports : List (ComputeKind × OperatorSupport)},
      readOrdinary operators length formatVersion entries = .ok supports →
        supports.map (·.1) = entries.map (·.2) ∧
          ∀ e ∈ supports, SupportOk formatVersion length.toInt.toNat e.1 e.2
  | [], _, h => by cases h; simp
  | entry :: entries, _, h => by
    simp only [readOrdinary, bind_eq_ok, pure_eq_ok] at h
    obtain ⟨_, -, support, hsupport, supports, hsupports, rfl⟩ := h
    obtain ⟨hkinds, hmem⟩ := readOrdinary_ok hlen hsupports
    refine ⟨by simp [hkinds], fun e he => ?_⟩
    rcases List.mem_cons.1 he with rfl | he
    · exact readOperator_ok hlen hsupport
    · exact hmem e he

/-! ## Boot profiles -/

theorem readBootTables_ok [DoubleArith] {value : Json} {path : String}
    {formatVersion length : CInt}
    {t : Option UInt64 × Option (List UInt64) × Option (List Double)} (hlen : 0 ≤ length)
    (h : readBootTables value path formatVersion length = .ok t) :
    TablesOk length.toInt.toNat (t.2.1.map (·.map (·.toNat))) t.2.2 ∧
      (formatVersion = 1 → t.2.2 = none) := by
  unfold readBootTables at h
  split_ifs at h with hv1
  · simp only [bind_eq_ok, pure_eq_ok] at h
    obtain ⟨_, -, latency, -, rfl⟩ := h
    exact ⟨⟨by simp, by simp, by simp⟩, fun _ => rfl⟩
  · simp only [bind_eq_ok, pure_eq_ok] at h
    obtain ⟨_, -, latency, hlatency, _, -, noise, hnoise, rfl⟩ := h
    exact ⟨readTables_ok hlen hlatency hnoise, fun h => absurd h hv1⟩

theorem readBootProfile_ok [DoubleArith] {value : Json} {path : String}
    {formatVersion length : CInt} {p : BootProfile} (hlen : 0 ≤ length)
    (h : readBootProfile value path formatVersion length = .ok p) :
    TablesOk length.toInt.toNat p.latencyUsByInputLevel p.noiseByInputLevel ∧
      (formatVersion = 1 → p.noiseByInputLevel = none) := by
  simp only [readBootProfile, bind_eq_ok, pure_eq_ok] at h
  obtain ⟨_, -, _, -, _, -, _, -, _, -, _, -, _, -, _, -, _, -, _, -, _, -, _, -, _, -, _, -, _, -,
    _, -, _, -, _, -, _, -, t, ht, h⟩ := h
  obtain ⟨htables, hnone⟩ := readBootTables_ok hlen ht
  obtain ⟨latencyUs, latencyTable, noiseTable⟩ := t
  obtain ⟨_, -, _, -, _, -, _, -, rfl⟩ := h
  exact ⟨htables, hnone⟩

theorem budget_eq {moduli : List CInt} : ∀ {n : ℕ} {b : ℤ},
    (List.range n).foldlM (fun budget l => do return budget + (← elemAt moduli l).toInt) 0 =
        .ok b →
      b = ((moduli.take n).map Int32.toInt).sum
  | 0, b, h => by
    cases h
    rfl
  | n + 1, b, h => by
    rw [List.range_succ, foldlM_append_eq_ok] at h
    obtain ⟨b', hb', h⟩ := h
    simp only [List.foldlM_cons, List.foldlM_nil, bind_eq_ok, pure_eq_ok, elemAt_eq_ok] at h
    obtain ⟨_, ⟨m, hm, rfl⟩, rfl⟩ := h
    rw [budget_eq hb', List.take_add_one, hm]
    simp

/-- A profile that passes the checks is well-formed and has a new identifier. -/
theorem checkBootProfile_ok {spec : OperatorSpec} {profiles : List BootProfile} {p : BootProfile}
    {path : String} (hlower : 0 ≤ spec.levelLowerBound)
    (htables : TablesOk (spec.levelUpperBound.toInt.toNat + 1) p.latencyUsByInputLevel
      p.noiseByInputLevel)
    (h : checkBootProfile spec profiles p path = .ok ()) :
    p.WellFormed spec ∧ p.profileId ∉ profiles.map (·.profileId) := by
  simp only [checkBootProfile, outputBudget, bind_eq_ok, failIf_eq_ok] at h
  obtain ⟨-, hid, -, hrange, -, hlevels, -, hcomponents, budget, hbudget, -, hscale, -, hreencrypt,
    hnative⟩ := h
  simp only [not_or, gt_iff_lt, Int32.not_lt] at hrange hlevels hcomponents
  obtain ⟨hil, hiu, hol, hou⟩ := hlevels
  have h0 : 0 ≤ p.outputLevel.toInt := by
    have := Int32.le_iff_toInt_le.1 (Int32.le_trans hlower hol)
    simpa using this
  have hlen : (p.outputLevel.toInt + 1).toNat = p.outputLevel.toInt.toNat + 1 := by omega
  have hneeds : p.needsSecretKey = p.implementation.needsHost ∧
      p.needsHostCompute = p.implementation.needsHost := by
    cases hi : p.implementation <;> simp [hi, BootImplementation.needsHost] at hreencrypt hnative ⊢
    · exact hnative
    · exact hreencrypt
  refine ⟨⟨hrange, hil, hiu, hol, hou, hcomponents.1, hcomponents.2, ?_, hneeds.1, hneeds.2, htables⟩,
    hid⟩
  rw [← hlen, ← budget_eq hbudget]
  exact Int.not_le.1 hscale

theorem readBootProfiles_ok [DoubleArith] {spec : OperatorSpec} {length : CInt}
    (hlower : 0 ≤ spec.levelLowerBound) (hlen : 0 ≤ length)
    (htoNat : length.toInt.toNat = spec.levelUpperBound.toInt.toNat + 1) :
    ∀ {profiles : List BootProfile} {values : List Json} {result : List BootProfile},
      readBootProfiles spec length profiles values = .ok result →
      (profiles.map (·.profileId)).Nodup → (∀ p ∈ profiles, p.WellFormed spec) →
      (∀ p ∈ profiles, spec.formatVersion = 1 → p.noiseByInputLevel = none) →
        (result.map (·.profileId)).Nodup ∧ (∀ p ∈ result, p.WellFormed spec) ∧
          ∀ p ∈ result, spec.formatVersion = 1 → p.noiseByInputLevel = none
  | profiles, [], result, h, hids, hwf, hnoise => by
    cases h
    exact ⟨hids, hwf, hnoise⟩
  | profiles, value :: values, result, h, hids, hwf, hnoise => by
    simp only [readBootProfiles, bind_eq_ok] at h
    obtain ⟨p, hp, _, hcheck, h⟩ := h
    obtain ⟨htables, hnone⟩ := readBootProfile_ok hlen hp
    rw [htoNat] at htables
    obtain ⟨hpwf, hnew⟩ := checkBootProfile_ok hlower htables hcheck
    refine readBootProfiles_ok hlower hlen htoNat h ?_ ?_ ?_
    · rw [List.map_append, List.map_singleton, List.nodup_append]
      refine ⟨hids, by simp, fun a ha b hb => ?_⟩
      rw [List.mem_singleton.1 hb]
      rintro rfl
      exact hnew ha
    · exact List.forall_mem_append.2 ⟨hwf, List.forall_mem_singleton.2 hpwf⟩
    · exact List.forall_mem_append.2 ⟨hnoise, List.forall_mem_singleton.2 hnone⟩

/-! ## The document -/

theorem readPolyDegree_ok {context : Json} {n : UInt64} (h : readPolyDegree context = .ok n) :
    2 ≤ n.toNat ∧ n.toNat.isPowerOfTwo := by
  simp only [readPolyDegree, bind_eq_ok, failIf_eq_ok, not_not, pure_eq_ok] at h
  obtain ⟨_, -, m, hm, -, hand, rfl⟩ := h
  have hle : 2 ≤ m.toNat := UInt64.le_iff_toNat_le.1 (readSafeUint_eq_ok hm).2.1
  refine ⟨hle, (Nat.and_sub_one_eq_zero_iff_isPowerOfTwo (by omega)).1 ?_⟩
  have h1 : (1 : UInt64) ≤ m := UInt64.le_iff_toNat_le.2 (by simp; omega)
  have hnat := congrArg UInt64.toNat hand
  rwa [UInt64.toNat_and, UInt64.toNat_sub_of_le _ _ h1] at hnat

theorem readModuli_ne_nil {context : Json} {moduli : List CInt}
    (h : readModuli context = .ok moduli) : moduli ≠ [] := by
  simp only [readModuli, bind_eq_ok] at h
  obtain ⟨w, -, h⟩ := h
  split at h
  · have hlen := (readItems_eq_ok h).1
    rintro rfl
    simp at hlen
  · simp at h

theorem readNonnegativeInt_ok {value : Json} {document path : String} {n : CInt}
    (h : readNonnegativeInt value document path = .ok n) : 0 ≤ n := by
  obtain ⟨hval, -, hmin⟩ := (readInt_eq_ok (by decide)).1 h
  cases value with
  | unsigned u =>
    have hu : (u.toNat : ℤ) = n.toInt := Option.some.inj hval
    exact Int32.le_iff_toInt_le.2 (by simp; omega)
  | _ => exact hmin (by simp)

/-- The length of a vector as an `int` is at most its length. -/
theorem lt_length_of_lt_ofNat {n : CInt} {length : ℕ} (h : n < Int32.ofNat length) :
    n.toInt < length := by
  have hlt := Int32.lt_iff_toInt_lt.1 h
  have hn := n.toInt_lt
  by_cases hl : length < 2 ^ 31
  · rwa [Int32.toInt_ofNat_of_lt hl] at hlt
  · omega

theorem readContext_ok {root : Json} {spec spec' : OperatorSpec}
    (h : readContext root spec = .ok spec') :
    spec'.ContextOk ∧ spec'.formatVersion = spec.formatVersion ∧
      spec'.noiseUnit = spec.noiseUnit := by
  simp only [readContext, bind_eq_ok, failIf_eq_ok, pure_eq_ok] at h
  obtain ⟨context, -, _, -, _, -, _, -, degree, hdegree, moduli, hmoduli, _, -, maxModulus, hmax, -,
    hle, _, -, _, -, levels, -, _, -, _, -, lower, hlower, _, -, upper, hupper, -, hrange, -,
    hchain, rfl⟩ := h
  obtain ⟨htwo, hpow⟩ := readPolyDegree_ok hdegree
  refine ⟨⟨htwo, hpow, readModuli_ne_nil hmoduli, ?_, ?_, readNonnegativeInt_ok hlower, Int32.not_lt.1 hrange, ?_⟩, rfl,
    rfl⟩
  · intro bits hbits
    exact Int32.not_lt.1 fun hlt => hle ⟨bits, hbits, hlt⟩
  · exact ((readInt_eq_ok (by decide)).1 hmax).2.1
  · exact lt_length_of_lt_ofNat (Int32.not_le.1 hchain)

theorem checkRoot_ok {root : Json} {formatVersion : CInt}
    (h : checkRoot root = .ok formatVersion) : formatVersion = 1 ∨ formatVersion = 2 := by
  cases root with
  | object members =>
    simp only [checkRoot, bind_eq_ok] at h
    obtain ⟨_, -, _, -, version, -, h⟩ := h
    split_ifs at h with hv
    · simp only [bind_eq_ok, pure_eq_ok] at h
      obtain ⟨-, -, rfl⟩ := h
      exact hv
    · simp at h
  | _ => simp [checkRoot] at h

theorem mem_of_lookup {supports : List (ComputeKind × OperatorSupport)} {kind : ComputeKind}
    {s : OperatorSupport} (h : supports.lookup kind = some s) : (kind, s) ∈ supports := by
  obtain ⟨front, back, rfl, -⟩ := List.lookup_eq_some_iff.1 h
  simp

theorem exists_lookup {supports : List (ComputeKind × OperatorSupport)} {kind : ComputeKind}
    (h : kind ∈ supports.map (·.1)) : ∃ s, supports.lookup kind = some s := by
  rw [← Option.isSome_iff_exists, List.lookup_isSome_iff]
  obtain ⟨entry, hentry, rfl⟩ := List.mem_map.1 h
  exact ⟨entry, hentry, beq_self_eq_true _⟩

/-- **A document that is read is a well-formed specification.** -/
theorem readDocument_wellFormed [DoubleArith] {root : Json} {spec : OperatorSpec}
    (h : readDocument root = .ok spec) : spec.WellFormed := by
  simp only [readDocument, bind_eq_ok, failIf_eq_ok, pure_eq_ok] at h
  obtain ⟨formatVersion, hroot, _, -, _, -, _, -, _, -, _, -, _, -, ⟨noiseUnit, provenance⟩, -, _, -,
    _, -, _, -, mode, -, base, hcontext, length, hadd, _, -, -, -, supports, hsupports, _, -, -, -,
    _, -, bootSupported, -, _, -, values, -, profiles, hprofiles, -, hboot, -, hunit, rfl⟩ := h
  obtain ⟨hctx, hformat, hnoise⟩ := readContext_ok hcontext
  dsimp only at hformat hnoise hunit
  have hupper0 : 0 ≤ base.levelUpperBound.toInt := by
    have := Int32.le_iff_toInt_le.1 (Int32.le_trans hctx.lower hctx.lower_le_upper)
    simpa using this
  have hlen : length.toInt = base.levelUpperBound.toInt + 1 := CInt.add_eq_ok.1 hadd
  have hlen0 : 0 ≤ length := Int32.le_iff_toInt_le.2 (by simp; omega)
  have htoNat : length.toInt.toNat = base.levelUpperBound.toInt.toNat + 1 := by omega
  obtain ⟨hkinds, hsupp⟩ := readOrdinary_ok hlen0 hsupports
  obtain ⟨hids, hwf, hnone⟩ := readBootProfiles_ok hctx.lower hlen0 htoNat hprofiles (by simp)
    (by simp) (by simp)
  rw [htoNat] at hsupp
  -- the boot entry has no table
  let bootSupport : OperatorSupport := { supported := bootSupported }
  have hentry : ∀ e ∈ supports ++ [(ComputeKind.boot, bootSupport)],
      SupportOk formatVersion (base.levelUpperBound.toInt.toNat + 1) e.1 e.2 := by
    refine List.forall_mem_append.2 ⟨hsupp, List.forall_mem_singleton.2 ?_⟩
    exact ⟨⟨by simp, by simp, by simp⟩, fun _ => rfl, fun h => by cases h⟩
  have hall : ∀ kind, ∃ s, (supports ++ [(ComputeKind.boot, bootSupport)]).lookup kind = some s := by
    intro kind
    refine exists_lookup ?_
    rw [List.map_append, hkinds]
    show kind ∈ ordinary.map (·.2) ++ [.boot]
    cases kind <;> decide
  have hprofile : ∀ {operators} {p : BootProfile}, p.WellFormed base →
      p.WellFormed { base with operators := operators, bootProfiles := profiles } :=
    fun h => ⟨h.range, h.input_lower, h.input_upper, h.output_lower, h.output_upper,
      h.input_components, h.output_components, h.scale, h.secret_key, h.host_compute, h.tables⟩
  refine
    { hctx with
      format := ?_, operators := hall, rescale := ?_, tables := fun e he => (hentry e he).tables,
      no_noise := ?_, noise_unit := ?_, profile_ids := hids,
      profiles := fun p hp => hprofile (hwf p hp), boot := ?_ }
  · rcases checkRoot_ok hroot with rfl | rfl
    · exact Or.inl hformat
    · exact Or.inr hformat
  · obtain ⟨s, hs⟩ := hall .rescale
    exact ⟨s, hs, (hentry _ (mem_of_lookup hs)).rescale rfl⟩
  · rintro hv1 (⟨e, he, hsome⟩ | ⟨p, hp, hsome⟩)
    · rw [(hentry e he).no_noise (hformat ▸ hv1)] at hsome
      cases hsome
    · rw [hnone p hp hv1] at hsome
      cases hsome
  · intro hv2
    have hv2' : formatVersion = 2 := hformat ▸ hv2
    rw [not_and, ne_eq, not_not] at hunit
    show base.noiseUnit.isSome ↔ _
    rw [hnoise, ← hunit hv2', Bool.or_eq_true, List.any_eq_true, List.any_eq_true]
    simp [OperatorSpec.HasNoise]
  · intro s hs
    have hnoboot : supports.lookup .boot = none := by
      refine List.lookup_eq_none_iff.2 fun e he => ?_
      have : e.1 ∈ ordinary.map (·.2) := hkinds ▸ List.mem_map_of_mem he
      have hne : ∀ kind ∈ ordinary.map (·.2), (ComputeKind.boot != kind) = true := by decide
      exact hne _ this
    have hs' : (supports ++ [(ComputeKind.boot, bootSupport)]).lookup .boot = some s := hs
    rw [List.lookup_append, hnoboot] at hs'
    obtain rfl : bootSupport = s := by simpa using hs'
    have hboot' : bootSupported = !profiles.isEmpty := not_not.1 hboot
    show bootSupported = true ↔ profiles ≠ []
    simp [hboot']

/-- The number of levels is an `int`. -/
theorem readDocument_upper_lt [DoubleArith] {root : Json} {spec : OperatorSpec}
    (h : readDocument root = .ok spec) : spec.levelUpperBound.toInt + 1 < 2 ^ 31 := by
  simp only [readDocument, bind_eq_ok, failIf_eq_ok, pure_eq_ok] at h
  obtain ⟨_, -, _, -, _, -, _, -, _, -, _, -, _, -, _, -, _, -, _, -, _, -, _, -, base, -, length,
    hadd, _, -, -, -, _, -, _, -, -, -, _, -, _, -, _, -, _, -, _, -, -, -, -, -, rfl⟩ := h
  have hlength := CInt.add_eq_ok.1 hadd
  have hlt := length.toInt_lt
  have hone : (1 : CInt).toInt = 1 := rfl
  show base.levelUpperBound.toInt + 1 < 2 ^ 31
  omega

/-- **Every specification that the reader accepts is well-formed.** -/
theorem readText_wellFormed [DoubleArith] {sax : Sax} {text : Bytes} {loaded : LoadedOperatorSpec}
    (h : readText sax text = .ok loaded) : loaded.spec.WellFormed := by
  simp only [readText, bind_eq_ok, pure_eq_ok] at h
  obtain ⟨root, -, spec, hspec, _, -, rfl⟩ := h
  exact readDocument_wellFormed hspec

/-! ### A specification with a noise table -/

/-- The entry of an operator of the example, with the further members of its object. -/
def supportJson (noise : Json) (more : List (String × Json)) : Json :=
  .object ([("latency_us_by_level", .array [.unsigned 10, .unsigned 20]), ("noise_by_level", noise),
    ("supported", .boolean true)] ++ more)

/-- A format 2 specification with two levels, a noise table and a boot profile. -/
def noiseSpecJson : Json :=
  .object
    [("boot_profiles", .array [.object
        [("host_requirements", .object
            [("needs_host_compute", .boolean true), ("needs_secret_key", .boolean true)]),
          ("implementation", .string "decrypt_reencrypt"), ("input_components", .unsigned 2),
          ("input_level_max", .unsigned 1), ("input_level_min", .unsigned 0),
          ("latency_us_by_input_level", .array [.unsigned 100, .unsigned 200]),
          ("noise_by_input_level", .null), ("output_components", .unsigned 2),
          ("output_level", .unsigned 1), ("output_scale_log2", .unsigned 40),
          ("profile_id", .string "host")]]),
      ("context", .object
        [("context_id", .string "ctx"), ("default_scale_log2", .unsigned 40),
          ("max_modulus_log2", .unsigned 60), ("poly_degree", .unsigned 8192),
          ("rns_moduli_log2", .array [.unsigned 60, .unsigned 40])]),
      ("levels", .object [("lower_bound", .unsigned 0), ("upper_bound", .unsigned 1)]),
      ("noise_unit", .string "bits"),
      ("operators", .object
        [("add_cc", supportJson (.array [.unsigned 1, .unsigned 2]) []),
          ("add_cp", supportJson .null []), ("boot", .object [("supported", .boolean true)]),
          ("mod_switch", supportJson .null []), ("mul_cc", supportJson .null []),
          ("mul_cp", supportJson .null []), ("negate", supportJson .null []),
          ("relinearize", supportJson .null []),
          ("rescale", supportJson .null [("max_levels_per_op", .unsigned 1)]),
          ("rotate", supportJson .null []), ("sub_cc", supportJson .null []),
          ("sub_cp", supportJson .null [])]),
      ("provenance", .object
        [("kind", .string "profile"), ("path", .string "profile.json"),
          ("repository", .string "profiles"), ("revision", .string "1"),
          ("source_sha256", .string zeroVersionPlan.zeroDigest)]),
      ("rescale_mode", .string "eager"), ("spec_format_version", .unsigned 2),
      ("spec_id", .string "spec"), ("status", .string "imported"), ("target_id", .string "target"),
      ("version", .unsigned 1)]

theorem readText_noiseSpec :
    ∃ loaded, @readText zeroArith (fun _ => ([], .ok noiseSpecJson)) [] = .ok loaded := by
  have hok : (@readDocument zeroArith noiseSpecJson).isOk = true := by decide
  cases hdoc : @readDocument zeroArith noiseSpecJson with
  | error fault =>
    rw [hdoc] at hok
    cases hok
  | ok spec =>
    obtain ⟨digest, hdigest⟩ : ∃ digest, sourceSha256 [] = .ok digest := ⟨_, rfl⟩
    have hparse : parse (fun _ => ([], .ok noiseSpecJson)) [] doc = .ok noiseSpecJson := rfl
    refine ⟨⟨spec, digest⟩, ?_⟩
    simp only [readText, bind_eq_ok, pure_eq_ok]
    exact ⟨_, hparse, spec, hdoc, digest, hdigest, rfl⟩

theorem readText_wellFormed_noiseSpec :
    ∃ loaded, @readText zeroArith (fun _ => ([], .ok noiseSpecJson)) [] = .ok loaded ∧
      loaded.spec.WellFormed := by
  obtain ⟨loaded, hread⟩ := readText_noiseSpec
  exact ⟨loaded, hread, @readText_wellFormed zeroArith _ _ _ hread⟩

end OperatorSpecReader

end CkksRuntime
