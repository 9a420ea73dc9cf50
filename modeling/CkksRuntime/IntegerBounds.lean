/-
  ckks-runtime formalization — the integer fields of the three document formats
  and their bounds.

  `planFields`, `specFields` and `manifestFields` list the integer fields of a
  document with the bounds of the reader call for each (`IntField`).  In an
  accepted document every field went through its reader (`IntField.Accepted`), so
  it lies within its bounds exactly when it is not an unsigned number below the
  minimum (`readers_bounded_iff`).
-/
import CkksRuntime.JsonPlanReader
import CkksRuntime.OperatorSpecReader
import CkksRuntime.PlaintextBundle

namespace CkksRuntime

/-- The reader of an integer field: `read_int` or `read_safe_uint`. -/
inductive IntReader where
  | int (minimum maximum : CInt)
  | safeUint (minimum maximum : UInt64)

/-- An integer field of a document, with its reader. -/
structure IntField where
  value : Json
  reader : IntReader

namespace IntReader

def minimum : IntReader → ℤ
  | int lo _ => lo.toInt
  | safeUint lo _ => lo.toNat

def maximum : IntReader → ℤ
  | int _ hi => hi.toInt
  | safeUint _ hi => hi.toNat

/-- `read_nonnegative_int` and `read_positive_int`. -/
def nonnegative : IntReader := int 0 CInt.max
def positive : IntReader := int 1 CInt.max

end IntReader

namespace IntField

/-- The reader of the field succeeded on it. -/
def Accepted (f : IntField) : Prop :=
  match f.reader with
  | .int lo hi => 0 ≤ hi ∧ ∃ document path n, JsonUtils.readInt f.value document path lo hi = .ok n
  | .safeUint lo hi => ∃ document path n, JsonUtils.readSafeUint f.value document path lo hi = .ok n

/-- The field is an integer within the bounds of its reader. -/
def Bounded (f : IntField) : Prop :=
  ∃ n, f.value.integer? = some n ∧ f.reader.minimum ≤ n ∧ n ≤ f.reader.maximum

/-- The field is an unsigned number below the minimum of `read_int`. -/
def UnsignedBelow (f : IntField) : Prop :=
  ∃ u lo hi, f.value = .unsigned u ∧ f.reader = .int lo hi ∧ u.toNat < lo.toInt

end IntField

open JsonUtils

/-- **One field.** -/
theorem IntField.Accepted.bounded_iff {f : IntField} (h : f.Accepted) :
    f.Bounded ↔ ¬ f.UnsignedBelow := by
  obtain ⟨value, reader⟩ := f
  cases reader with
  | int lo hi =>
    obtain ⟨hhi, document, path, n, hn⟩ := h
    obtain ⟨hval, hle, hge⟩ := (readInt_eq_ok hhi).1 hn
    constructor
    · rintro ⟨m, hm, hlo, -⟩ ⟨u, lo', hi', rfl, ⟨⟩, hlt⟩
      cases hm
      exact absurd hlo (Int.not_le.2 hlt)
    · intro hnot
      refine ⟨n.toInt, hval, ?_, Int32.le_iff_toInt_le.1 hle⟩
      by_cases hu : ∃ u, value = .unsigned u
      · obtain ⟨u, rfl⟩ := hu
        by_contra hlt
        obtain hun : (u.toNat : ℤ) = n.toInt := Option.some.inj hval
        exact hnot ⟨u, lo, hi, rfl, rfl, by rw [hun]; exact Int.not_le.1 hlt⟩
      · exact Int32.le_iff_toInt_le.1 (hge fun u hv => hu ⟨u, hv⟩)
  | safeUint lo hi =>
    obtain ⟨document, path, n, hn⟩ := h
    obtain ⟨hval, hlo, hhi⟩ := readSafeUint_eq_ok hn
    constructor
    · rintro - ⟨u, lo', hi', -, ⟨⟩, -⟩
    · intro _
      refine ⟨n.toNat, hval, ?_, ?_⟩
      · exact Int.ofNat_le.2 (UInt64.le_iff_toNat_le.1 hlo)
      · exact Int.ofNat_le.2 (UInt64.le_iff_toNat_le.1 hhi)

/-! ## The integer fields of a document -/

namespace Json

/-- The member of a name, if there is one. -/
def present (value : Json) (name : String) : List Json :=
  match value.member name with
  | .ok member => [member]
  | .error _ => []

/-- The entries of an array. -/
def items : Json → List Json
  | array items => items
  | _ => []

/-- The members of the given names, with one reader. -/
def fields (value : Json) (names : List String) (reader : IntReader) : List IntField :=
  names.flatMap fun name => (value.present name).map fun member => ⟨member, reader⟩

end Json

/-- The members that are objects or arrays, by the fields inside them. -/
def inside (value : Json) (names : List String) (inner : Json → List IntField) : List IntField :=
  names.flatMap fun name => (value.present name).flatMap inner

def placeFields (value : Json) : List IntField :=
  value.fields ["rank", "index"] .nonnegative

def targetFields (value : Json) : List IntField :=
  value.fields ["capability_version", "world_size"] .positive ++
    inside value ["operator_spec"] (fun spec => spec.fields ["version"] .positive) ++
    inside value ["device_counts"] fun counts => counts.items.flatMap fun n => [⟨n, .nonnegative⟩]

def valueFields (value : Json) : List IntField :=
  inside value ["place"] placeFields ++ value.fields ["level", "scale_log2"] .nonnegative ++
    value.fields ["components"] .positive

def attrsFields (value : Json) : List IntField :=
  value.fields ["steps"] (.int Int32.minValue CInt.max) ++
    value.fields ["target_level", "target_scale_log2"] .nonnegative ++
    value.fields ["target_components"] .positive

def instructionFields (value : Json) : List IntField :=
  value.fields ["ordinal"] .nonnegative ++ inside value ["place"] placeFields ++
    inside value ["attrs"] attrsFields ++
    inside value ["sources", "destinations"] fun places => places.items.flatMap placeFields

def planFields (root : Json) : List IntField :=
  root.fields ["format_version"] .nonnegative ++ inside root ["target"] targetFields ++
    inside root ["plaintext_bundle"] (fun bundle => bundle.fields ["version"] .positive) ++
    inside root ["values"] (fun values => values.items.flatMap valueFields) ++
    inside root ["initialization", "execution", "finalization"]
      fun list => list.items.flatMap instructionFields

def tableFields (table : Json) : List IntField :=
  table.items.flatMap fun n => [⟨n, .safeUint 0 OperatorSpecReader.maxInt64⟩]

def operatorFields (value : Json) : List IntField :=
  value.fields ["max_levels_per_op"] .positive ++ inside value ["latency_us_by_level"] tableFields

def bootProfileFields (value : Json) : List IntField :=
  value.fields ["input_level_min", "input_level_max", "output_level", "output_scale_log2"]
    .nonnegative ++
    value.fields ["input_components", "output_components"] .positive ++
    value.fields ["latency_us"] (.safeUint 0 OperatorSpecReader.maxInt64) ++
    inside value ["latency_us_by_input_level"] tableFields

def contextFields (value : Json) : List IntField :=
  value.fields ["poly_degree"] (.safeUint 2 OperatorSpecReader.maxInt64) ++
    value.fields ["max_modulus_log2"] (.int 1 64) ++
    value.fields ["default_scale_log2"] .nonnegative ++
    inside value ["rns_moduli_log2"] fun moduli => moduli.items.flatMap fun n => [⟨n, .int 1 64⟩]

def specFields (root : Json) : List IntField :=
  root.fields ["spec_format_version"] .nonnegative ++ root.fields ["version"] .positive ++
    inside root ["context"] contextFields ++
    inside root ["levels"] (fun levels => levels.fields ["lower_bound", "upper_bound"] .nonnegative) ++
    inside root ["operators"] (fun operators =>
      inside operators (OperatorSpecReader.ordinary.map (·.1)) operatorFields) ++
    inside root ["boot_profiles"] fun profiles => profiles.items.flatMap bootProfileFields

def manifestFields (root : Json) : List IntField :=
  root.fields ["bundle_format_version"] .nonnegative ++ root.fields ["version"] .positive ++
    inside root ["blobs"] fun blobs => blobs.items.flatMap fun blob =>
      blob.fields ["byte_length"] (.safeUint 8 (2 ^ 53 - 1))

/-! ### Accepted members -/

variable {value : Json} {names : List String}

theorem fields_accepted {reader : IntReader}
    (h : ∀ name ∈ names, ∀ member, value.member name = .ok member →
      IntField.Accepted ⟨member, reader⟩) :
    ∀ f ∈ value.fields names reader, f.Accepted := by
  intro f hf
  simp only [Json.fields, Json.present, List.mem_flatMap, List.mem_map] at hf
  obtain ⟨name, hname, member, hm, rfl⟩ := hf
  cases hv : value.member name with
  | ok w =>
    rw [hv, List.mem_singleton] at hm
    exact hm ▸ h name hname w hv
  | error e => simp [hv] at hm

theorem inside_accepted {inner : Json → List IntField}
    (h : ∀ name ∈ names, ∀ member, value.member name = .ok member →
      ∀ f ∈ inner member, f.Accepted) :
    ∀ f ∈ inside value names inner, f.Accepted := by
  intro f hf
  simp only [inside, Json.present, List.mem_flatMap] at hf
  obtain ⟨name, hname, member, hm, hf⟩ := hf
  cases hv : value.member name with
  | ok w =>
    rw [hv, List.mem_singleton] at hm
    exact h name hname w hv f (hm ▸ hf)
  | error e => simp [hv] at hm

theorem append_accepted {fs gs : List IntField} (hf : ∀ f ∈ fs, f.Accepted)
    (hg : ∀ f ∈ gs, f.Accepted) : ∀ f ∈ fs ++ gs, f.Accepted :=
  List.forall_mem_append.2 ⟨hf, hg⟩

/-- Only the named members are there. -/
theorem requireMembers_member {document path name : String} {optional : List String} {w : Json}
    {u : Unit} (h : requireMembers value document path names optional = .ok u)
    (hw : value.member name = .ok w) : name ∈ names ++ optional := by
  cases value with
  | object members =>
    simp only [requireMembers] at h
    cases hn : names.find? fun name => !(Json.object members).contains name with
    | some m => simp [hn] at h
    | none =>
      rw [hn] at h
      cases hu : members.find? fun item => item.1 ∉ names ∧ item.1 ∉ optional with
      | some m => rw [hu] at h; simp at h
      | none =>
        simp only [Json.member] at hw
        cases hl : members.lookup name with
        | none => simp [hl] at hw
        | some w' =>
          have hmem : (name, w') ∈ members := by
            obtain ⟨l₁, l₂, rfl, -⟩ := List.lookup_eq_some_iff.1 hl
            simp
          have := List.find?_eq_none.1 hu _ hmem
          simp only [decide_eq_true_eq, not_and, not_not] at this
          by_cases hin : name ∈ names
          · exact List.mem_append_left _ hin
          · exact List.mem_append_right _ (this hin)
  | _ => simp [requireMembers] at h

theorem readItems_accepted {α : Type} {read : Json → String → Except Fault α} {items : List Json}
    {path : String} {results : List α} {inner : Json → List IntField}
    (h : readItems read items path = .ok results)
    (hr : ∀ item path result, read item path = .ok result → ∀ f ∈ inner item, f.Accepted) :
    ∀ f ∈ items.flatMap inner, f.Accepted := by
  unfold readItems at h
  generalize 0 = index at h
  induction items generalizing index results with
  | nil => simp
  | cons item items ih =>
    simp only [readItemsFrom, bind_eq_ok, pure_eq_ok] at h
    obtain ⟨result, hitem, results', hitems, rfl⟩ := h
    exact append_accepted (hr item _ _ hitem) (ih _ hitems)

/-- What holds of the member that was read holds of the member. -/
theorem of_member {name : String} {w : Json} {P : Json → Prop} (hw : value.member name = .ok w)
    (h : P w) : ∀ member, value.member name = .ok member → P member := by
  intro member hm
  cases hw.symm.trans hm
  exact h

/-- A name that is not among the members of an object. -/
theorem of_absent {document path name : String} {optional : List String} {u : Unit}
    {P : Json → Prop} (h : requireMembers value document path names optional = .ok u)
    (hn : name ∉ names ++ optional) : ∀ member, value.member name = .ok member → P member :=
  fun _ hm => absurd (requireMembers_member h hm) hn

theorem safeUint_accepted {document path : String} {lo hi n : UInt64}
    (h : readSafeUint value document path lo hi = .ok n) :
    IntField.Accepted ⟨value, .safeUint lo hi⟩ :=
  ⟨document, path, n, h⟩

theorem nonnegative_accepted {document path : String} {n : CInt}
    (h : readNonnegativeInt value document path = .ok n) :
    IntField.Accepted ⟨value, .nonnegative⟩ :=
  ⟨by decide, document, path, n, h⟩

theorem positive_accepted {document path : String} {n : CInt}
    (h : readPositiveInt value document path = .ok n) : IntField.Accepted ⟨value, .positive⟩ :=
  ⟨by decide, document, path, n, h⟩

theorem forall_mem_one {P : String → Prop} {a : String} (h : P a) : ∀ name ∈ [a], P name := by
  simpa using h

theorem forall_mem_two {P : String → Prop} {a b : String} (ha : P a) (hb : P b) :
    ∀ name ∈ [a, b], P name := by
  simpa using ⟨ha, hb⟩

/-! ### Runtime plans -/

section Plan
open RuntimePlanJsonReader

theorem readPlace_accepted {path : String} {place : Place} (h : readPlace value path = .ok place) :
    ∀ f ∈ placeFields value, f.Accepted := by
  cases value with
  | object members =>
    simp only [readPlace, bind_eq_ok] at h
    obtain ⟨-, -, -, -, kind, -, h⟩ := h
    split_ifs at h with h1 h2
    · simp only [bind_eq_ok] at h
      obtain ⟨_, hm, w, hw, n, hn, -⟩ := h
      exact fields_accepted (forall_mem_two (of_member hw (nonnegative_accepted hn))
        (of_absent hm (by simp)))
    · simp only [bind_eq_ok] at h
      obtain ⟨-, -, w, hw, n, hn, w', hw', n', hn', -⟩ := h
      exact fields_accepted (forall_mem_two (of_member hw (nonnegative_accepted hn))
        (of_member hw' (nonnegative_accepted hn')))
    · simp at h
  | _ => simp [readPlace] at h

theorem arrayItems_eq_ok {document path : String} {items : List Json}
    (h : arrayItems value document path = .ok items) : value = .array items := by
  cases value <;> simp_all [arrayItems]

theorem readTarget_accepted {path : String} {target : TargetConfig}
    (h : readTarget value path = .ok target) : ∀ f ∈ targetFields value, f.Accepted := by
  simp only [readTarget, readOperatorSpec, bind_eq_ok] at h
  obtain ⟨-, -, -, -, -, -, c, hc, n, hn, spec, hspec, -, ⟨-, -, -, -, -, -, v, hv, m, hm, -⟩, w, hw,
    k, hk, counts, hcounts, items, hitems, results, hresults, -⟩ := h
  refine append_accepted (append_accepted ?_ ?_) ?_
  · exact fields_accepted (forall_mem_two (of_member hc (positive_accepted hn))
      (of_member hw (positive_accepted hk)))
  · exact inside_accepted (forall_mem_one (of_member hspec
      (fields_accepted (forall_mem_one (of_member hv (positive_accepted hm))))))
  · refine inside_accepted (forall_mem_one (of_member hcounts ?_))
    obtain rfl := arrayItems_eq_ok hitems
    refine readItems_accepted hresults fun item path n hn => ?_
    simpa using nonnegative_accepted hn

theorem readBundleRef_accepted {path : String} {bundle : PlaintextBundleRef}
    (h : readBundleRef value path = .ok bundle) :
    ∀ f ∈ value.fields ["version"] .positive, f.Accepted := by
  simp only [readBundleRef, bind_eq_ok] at h
  obtain ⟨-, -, -, -, -, -, w, hw, n, hn, -⟩ := h
  exact fields_accepted (forall_mem_one (of_member hw (positive_accepted hn)))

theorem readValueDesc_accepted {path : String} {d : ValueDesc}
    (h : readValueDesc value path = .ok d) : ∀ f ∈ valueFields value, f.Accepted := by
  simp only [readValueDesc, bind_eq_ok] at h
  obtain ⟨-, -, -, -, -, -, -, -, -, -, p, hp, place, hplace, -, -, -, -, l, hl, level, hlevel,
    s, hs, scale, hscale, -, -, -, -, c, hc, components, hcomponents, -⟩ := h
  refine append_accepted (append_accepted ?_ ?_) ?_
  · exact inside_accepted (forall_mem_one (of_member hp (readPlace_accepted hplace)))
  · exact fields_accepted (forall_mem_two (of_member hl (nonnegative_accepted hlevel))
      (of_member hs (nonnegative_accepted hscale)))
  · exact fields_accepted (forall_mem_one (of_member hc (positive_accepted hcomponents)))

theorem readPlaces_accepted {path : String} {places : List Place}
    (h : readPlaces value path = .ok places) :
    ∀ f ∈ value.items.flatMap placeFields, f.Accepted := by
  simp only [readPlaces, bind_eq_ok] at h
  obtain ⟨items, hitems, h⟩ := h
  obtain rfl := arrayItems_eq_ok hitems
  exact readItems_accepted h fun item path place hplace => readPlace_accepted hplace

theorem readComputeAttrs_accepted {kind : ComputeKind} {path : String} {attrs : ComputeAttrs}
    (h : readComputeAttrs kind value path = .ok attrs) : ∀ f ∈ attrsFields value, f.Accepted := by
  cases kind with
  | rotate =>
    simp only [readComputeAttrs, bind_eq_ok] at h
    obtain ⟨_, hm, w, hw, n, hn, -⟩ := h
    refine append_accepted (append_accepted (fields_accepted (forall_mem_one ?_))
      (fields_accepted (forall_mem_two ?_ ?_))) (fields_accepted (forall_mem_one ?_))
    · exact of_member hw ⟨by decide, _, _, n, hn⟩
    · exact of_absent hm (by simp)
    · exact of_absent hm (by simp)
    · exact of_absent hm (by simp)
  | rescale =>
    simp only [readComputeAttrs, bind_eq_ok] at h
    obtain ⟨_, hm, w, hw, n, hn, w', hw', n', hn', -⟩ := h
    refine append_accepted (append_accepted (fields_accepted (forall_mem_one ?_))
      (fields_accepted (forall_mem_two ?_ ?_))) (fields_accepted (forall_mem_one ?_))
    · exact of_absent hm (by simp)
    · exact of_member hw (nonnegative_accepted hn)
    · exact of_member hw' (nonnegative_accepted hn')
    · exact of_absent hm (by simp)
  | modSwitch =>
    simp only [readComputeAttrs, bind_eq_ok] at h
    obtain ⟨_, hm, w, hw, n, hn, -⟩ := h
    refine append_accepted (append_accepted (fields_accepted (forall_mem_one ?_))
      (fields_accepted (forall_mem_two ?_ ?_))) (fields_accepted (forall_mem_one ?_))
    · exact of_absent hm (by simp)
    · exact of_member hw (nonnegative_accepted hn)
    · exact of_absent hm (by simp)
    · exact of_absent hm (by simp)
  | boot =>
    simp only [readComputeAttrs, bind_eq_ok] at h
    obtain ⟨_, hm, w, hw, n, hn, w', hw', n', hn', w'', hw'', n'', hn'', -⟩ := h
    refine append_accepted (append_accepted (fields_accepted (forall_mem_one ?_))
      (fields_accepted (forall_mem_two ?_ ?_))) (fields_accepted (forall_mem_one ?_))
    · exact of_absent hm (by simp)
    · exact of_member hw (nonnegative_accepted hn)
    · exact of_member hw' (nonnegative_accepted hn')
    · exact of_member hw'' (positive_accepted hn'')
  | _ => simp [readComputeAttrs] at h

theorem readOrdinal_accepted {path : String} {n : ℕ} (h : readOrdinal value path = .ok n) :
    ∀ f ∈ value.fields ["ordinal"] .nonnegative, f.Accepted := by
  simp only [readOrdinal, bind_eq_ok] at h
  obtain ⟨w, hw, n, hn, -⟩ := h
  exact fields_accepted (forall_mem_one (of_member hw (nonnegative_accepted hn)))

theorem instructionFields_accepted
    (ho : ∀ f ∈ value.fields ["ordinal"] .nonnegative, f.Accepted)
    (hp : ∀ p, value.member "place" = .ok p → ∀ f ∈ placeFields p, f.Accepted)
    (ha : ∀ a, value.member "attrs" = .ok a → ∀ f ∈ attrsFields a, f.Accepted)
    (hs : ∀ s, value.member "sources" = .ok s → ∀ f ∈ s.items.flatMap placeFields, f.Accepted)
    (hd : ∀ d, value.member "destinations" = .ok d →
      ∀ f ∈ d.items.flatMap placeFields, f.Accepted) :
    ∀ f ∈ instructionFields value, f.Accepted :=
  append_accepted (append_accepted (append_accepted ho (inside_accepted (forall_mem_one hp)))
    (inside_accepted (forall_mem_one ha))) (inside_accepted (forall_mem_two hs hd))

theorem readComm_accepted {path : String} {kind : CommKind} {i : Instruction}
    (h : readComm value path kind = .ok i) : ∀ f ∈ instructionFields value, f.Accepted := by
  simp only [readComm, bind_eq_ok] at h
  obtain ⟨_, hm, -, -, -, -, -, -, -, -, -, -, -, -, -, -, -, -, s, hs, sources, hsources, d, hd,
    destinations, hdestinations, -, -, -, -, n, hn, -⟩ := h
  exact instructionFields_accepted (readOrdinal_accepted hn) (of_absent hm (by simp))
    (of_absent hm (by simp)) (of_member hs (readPlaces_accepted hsources))
    (of_member hd (readPlaces_accepted hdestinations))

theorem readInstruction_accepted [DoubleArith] {path : String} {i : Instruction}
    (h : readInstruction value path = .ok i) : ∀ f ∈ instructionFields value, f.Accepted := by
  simp only [readInstruction, bind_eq_ok] at h
  obtain ⟨-, -, -, -, kind, -, h⟩ := h
  split_ifs at h
  · simp only [readEncode, bind_eq_ok] at h
    obtain ⟨_, hm, -, -, -, -, n, hn, -⟩ := h
    exact instructionFields_accepted (readOrdinal_accepted hn) (of_absent hm (by simp))
      (of_absent hm (by simp)) (of_absent hm (by simp)) (of_absent hm (by simp))
  · simp only [readCompute, bind_eq_ok] at h
    obtain ⟨-, -, -, -, kind, -, _, hm, p, hp, place, hplace, -, -, -, -, -, -, -, -, attrs, hattrs,
      n, hn, -⟩ := h
    refine instructionFields_accepted (readOrdinal_accepted hn)
      (of_member hp (readPlace_accepted hplace)) ?_ ?_ ?_
    · split_ifs at hattrs hm with hreq
      · obtain ⟨a, ha, hattrs⟩ := bind_eq_ok.1 hattrs
        exact of_member ha (readComputeAttrs_accepted hattrs)
      · exact of_absent hm (by simp)
    · exact of_absent hm (by split_ifs <;> simp)
    · exact of_absent hm (by split_ifs <;> simp)
  · exact readComm_accepted h
  · exact readComm_accepted h
  · simp at h

theorem readInstructions_accepted [DoubleArith] {path : String} {list : List Instruction}
    (h : readInstructions value path = .ok list) :
    ∀ f ∈ value.items.flatMap instructionFields, f.Accepted := by
  simp only [readInstructions, bind_eq_ok] at h
  obtain ⟨items, hitems, h⟩ := h
  obtain rfl := arrayItems_eq_ok hitems
  exact readItems_accepted h fun item path i hi => readInstruction_accepted hi

/-- **Every integer field of an accepted plan went through its reader.** -/
theorem readPlan_accepted [DoubleArith] {root : Json} {plan : RuntimePlan}
    (h : readDocument root = .ok plan) : ∀ f ∈ planFields root, f.Accepted := by
  simp only [readDocument, bind_eq_ok] at h
  obtain ⟨_, hm, v, hv, version, hversion, -, -, -, -, -, -, t, ht, target, htarget, bundle, hbundle,
    vs, hvs, items, hitems, values, hvalues, -, -, -, -, i, hi, init, hinit, e, he, exec, hexec, f,
    hf, fin, hfin, -⟩ := h
  obtain rfl := arrayItems_eq_ok hitems
  refine append_accepted (append_accepted (append_accepted (append_accepted ?_ ?_) ?_) ?_) ?_
  · exact fields_accepted (forall_mem_one (of_member hv (nonnegative_accepted hversion)))
  · exact inside_accepted (forall_mem_one (of_member ht (readTarget_accepted htarget)))
  · refine inside_accepted (forall_mem_one fun b hb => ?_)
    have hcontains : root.contains "plaintext_bundle" = true := by
      cases root with
      | object members =>
        simp only [Json.member] at hb
        cases hl : members.lookup "plaintext_bundle" with
        | none => simp [hl] at hb
        | some w => simp [Json.contains, hl]
      | _ => simp [Json.member] at hb
    rw [if_pos hcontains] at hbundle
    simp only [bind_eq_ok] at hbundle
    obtain ⟨b', hb', ref, href, -⟩ := hbundle
    cases hb.symm.trans hb'
    exact readBundleRef_accepted href
  · exact inside_accepted (forall_mem_one (of_member hvs (readItems_accepted hvalues
      fun item path d hd => readValueDesc_accepted hd)))
  · refine inside_accepted ?_
    simp only [List.forall_mem_cons]
    exact ⟨of_member hi (readInstructions_accepted hinit),
      of_member he (readInstructions_accepted hexec),
      of_member hf (readInstructions_accepted hfin), by simp⟩

end Plan

/-! ### Operator specifications -/

section Spec
open OperatorSpecReader

theorem readLatency_accepted {path : String} {n : CInt} {table : Option (List UInt64)}
    (h : readLatency value path n = .ok table) : ∀ f ∈ tableFields value, f.Accepted := by
  cases value with
  | array items =>
    simp only [readLatency, readTable, bind_eq_ok] at h
    obtain ⟨-, -, results, hresults, -⟩ := h
    refine readItems_accepted hresults fun item path u hu => ?_
    simpa using safeUint_accepted hu
  | _ => simp [tableFields, Json.items]

theorem readOperator_accepted [DoubleArith] {path : String} {n v : CInt} {rescale : Bool}
    {support : OperatorSupport} (h : readOperator value path n rescale v = .ok support) :
    ∀ f ∈ operatorFields value, f.Accepted := by
  simp only [readOperator, bind_eq_ok] at h
  obtain ⟨_, hm, -, -, -, -, t, ht, table, htable, -, -, -, -, levels, hlevels, -⟩ := h
  refine append_accepted (fields_accepted (forall_mem_one ?_))
    (inside_accepted (forall_mem_one (of_member ht (readLatency_accepted htable))))
  split_ifs at hlevels hm with hr
  · obtain ⟨w, hw, hlevels⟩ := bind_eq_ok.1 hlevels
    obtain ⟨k, hk, -⟩ := bind_eq_ok.1 hlevels
    exact of_member hw (positive_accepted hk)
  · exact of_absent hm (by simp)

theorem readOrdinary_accepted [DoubleArith] {operators : Json} {n v : CInt} :
    ∀ {entries : List (String × ComputeKind)} {supports : List (ComputeKind × OperatorSupport)},
      readOrdinary operators n v entries = .ok supports →
      ∀ f ∈ inside operators (entries.map (·.1)) operatorFields, f.Accepted
  | [], _, _ => by simp [inside]
  | entry :: entries, _, h => by
    simp only [readOrdinary, bind_eq_ok] at h
    obtain ⟨w, hw, support, hsupport, supports, hsupports, -⟩ := h
    rw [List.map_cons, inside, List.flatMap_cons]
    refine append_accepted ?_ (readOrdinary_accepted hsupports)
    simpa [Json.present, hw] using readOperator_accepted hsupport

theorem readBootTables_accepted [DoubleArith] {path : String} {n v : CInt}
    {tables : Option UInt64 × Option (List UInt64) × Option (List Double)}
    (h1 : v = 1 → ∀ w, value.member "latency_us_by_input_level" ≠ .ok w)
    (h2 : v ≠ 1 → ∀ w, value.member "latency_us" ≠ .ok w)
    (h : readBootTables value path v n = .ok tables) :
    ∀ f ∈ value.fields ["latency_us"] (.safeUint 0 maxInt64) ++
      inside value ["latency_us_by_input_level"] tableFields, f.Accepted := by
  unfold readBootTables at h
  split_ifs at h with hv
  · simp only [bind_eq_ok] at h
    obtain ⟨w, hw, u, hu, -⟩ := h
    exact append_accepted (fields_accepted (forall_mem_one (of_member hw (safeUint_accepted hu))))
      (inside_accepted (forall_mem_one fun w' hw' => absurd hw' (h1 hv w')))
  · simp only [bind_eq_ok] at h
    obtain ⟨w, hw, table, htable, -⟩ := h
    exact append_accepted (fields_accepted (forall_mem_one fun w' hw' => absurd hw' (h2 hv w')))
      (inside_accepted (forall_mem_one (of_member hw (readLatency_accepted htable))))

theorem readBootProfile_accepted [DoubleArith] {path : String} {n v : CInt} {profile : BootProfile}
    (h : readBootProfile value path v n = .ok profile) :
    ∀ f ∈ bootProfileFields value, f.Accepted := by
  simp only [readBootProfile, bind_eq_ok] at h
  obtain ⟨_, hm, -, -, -, -, -, -, -, -, -, -, -, -, a, ha, _, ha', b, hb, _, hb', c, hc, _, hc',
    d, hd, _, hd', e, he, _, he', f, hf, _, hf', tables, htables, -⟩ := h
  have h1 : v = 1 → ∀ w, value.member "latency_us_by_input_level" ≠ .ok w := by
    intro hv w hw
    rw [if_pos hv] at hm
    exact absurd (requireMembers_member hm hw) (by decide)
  have h2 : v ≠ 1 → ∀ w, value.member "latency_us" ≠ .ok w := by
    intro hv w hw
    rw [if_neg hv] at hm
    exact absurd (requireMembers_member hm hw) (by decide)
  rw [bootProfileFields, List.append_assoc]
  refine append_accepted (append_accepted (fields_accepted ?_) (fields_accepted ?_))
    (readBootTables_accepted h1 h2 htables)
  · simp only [List.forall_mem_cons]
    exact ⟨of_member ha (nonnegative_accepted ha'), of_member hb (nonnegative_accepted hb'),
      of_member hd (nonnegative_accepted hd'), of_member he (nonnegative_accepted he'), by simp⟩
  · exact forall_mem_two (of_member hc (positive_accepted hc'))
      (of_member hf (positive_accepted hf'))

theorem readBootProfiles_accepted [DoubleArith] {spec : OperatorSpec} {n : CInt} :
    ∀ {values : List Json} {profiles result : List BootProfile},
      readBootProfiles spec n profiles values = .ok result →
      ∀ f ∈ values.flatMap bootProfileFields, f.Accepted
  | [], _, _, _ => by simp
  | v :: values, _, _, h => by
    simp only [readBootProfiles, bind_eq_ok] at h
    obtain ⟨profile, hprofile, -, -, h⟩ := h
    exact append_accepted (readBootProfile_accepted hprofile) (readBootProfiles_accepted h)

theorem readModuli_accepted {moduli : List CInt} (h : readModuli value = .ok moduli) :
    ∀ f ∈ inside value ["rns_moduli_log2"] (fun moduli => moduli.items.flatMap fun n =>
      [⟨n, .int 1 64⟩]), f.Accepted := by
  simp only [readModuli, bind_eq_ok] at h
  obtain ⟨w, hw, h⟩ := h
  refine inside_accepted (forall_mem_one (of_member hw ?_))
  cases w with
  | array items =>
    cases items with
    | nil => simp [Json.items]
    | cons v vs =>
      refine readItems_accepted h fun item path n hn => ?_
      have : IntField.Accepted ⟨item, .int 1 64⟩ := ⟨by decide, _, _, n, hn⟩
      exact List.forall_mem_singleton.2 this
  | _ => simp [Json.items]

theorem readContext_accepted {root : Json} {spec spec' : OperatorSpec}
    (h : readContext root spec = .ok spec') :
    ∀ f ∈ inside root ["context"] contextFields ++ inside root ["levels"]
      (fun levels => levels.fields ["lower_bound", "upper_bound"] .nonnegative), f.Accepted := by
  simp only [readContext, readPolyDegree, bind_eq_ok] at h
  obtain ⟨context, hcontext, -, -, -, -, -, -, -, ⟨p, hp, _, hp', -⟩, moduli, hmoduli, m, hm,
    _, hm', -, -, d, hd, _, hd', levels, hlevels, -, -, l, hl, _, hl', u, hu, _, hu', -⟩ := h
  refine append_accepted (inside_accepted (forall_mem_one (of_member hcontext ?_)))
    (inside_accepted (forall_mem_one (of_member hlevels ?_)))
  · refine append_accepted (append_accepted (append_accepted ?_ ?_) ?_)
      (readModuli_accepted hmoduli)
    · exact fields_accepted (forall_mem_one (of_member hp (safeUint_accepted hp')))
    · exact fields_accepted (forall_mem_one (of_member hm ⟨by decide, _, _, _, hm'⟩))
    · exact fields_accepted (forall_mem_one (of_member hd (nonnegative_accepted hd')))
  · exact fields_accepted (forall_mem_two (of_member hl (nonnegative_accepted hl'))
      (of_member hu (nonnegative_accepted hu')))

/-- **Every integer field of an accepted specification went through its reader.** -/
theorem readSpec_accepted [DoubleArith] {root : Json} {spec : OperatorSpec}
    (h : readDocument root = .ok spec) : ∀ f ∈ specFields root, f.Accepted := by
  simp only [readDocument, bind_eq_ok] at h
  obtain ⟨version, hroot, _, -, _, -, v, hv, _, hv', _, -, _, -, _, -, _, -, _, -, _, -, _, -,
    context, hcontext, n, hn, operators, hoperators, -, -, supports, hsupports, -, -, -, -, -, -,
    -, -, profiles, hprofiles, items, hitems, result, hresult, -⟩ := h
  obtain rfl := arrayItems_eq_ok hitems
  have hformat : ∀ f ∈ root.fields ["spec_format_version"] .nonnegative, f.Accepted := by
    cases root with
    | object members =>
      simp only [checkRoot, bind_eq_ok] at hroot
      obtain ⟨-, -, w, hw, k, hk, -⟩ := hroot
      exact fields_accepted (forall_mem_one (of_member hw (nonnegative_accepted hk)))
    | _ => simp [checkRoot] at hroot
  have hctx := readContext_accepted hcontext
  rw [List.forall_mem_append] at hctx
  refine append_accepted (append_accepted (append_accepted (append_accepted (append_accepted
    hformat ?_) hctx.1) hctx.2) ?_) ?_
  · exact fields_accepted (forall_mem_one (of_member hv (positive_accepted hv')))
  · exact inside_accepted (forall_mem_one (of_member hoperators
      (readOrdinary_accepted hsupports)))
  · exact inside_accepted (forall_mem_one (of_member hprofiles
      (readBootProfiles_accepted hresult)))

end Spec

/-! ### Bundle manifests -/

section Manifest
open PlaintextBundleLoader

theorem readBlobs_accepted : ∀ {blobs : List Json} {seen entries : List BlobEntry},
    readBlobs seen blobs = .ok entries →
    ∀ f ∈ blobs.flatMap fun blob => blob.fields ["byte_length"] (.safeUint 8 (2 ^ 53 - 1)),
      f.Accepted
  | [], _, _, _ => by simp
  | blob :: blobs, _, _, h => by
    simp only [readBlobs, readBlob, bind_eq_ok] at h
    obtain ⟨entry, ⟨-, -, -, -, -, -, w, hw, n, hn, -⟩, -, -, h⟩ := h
    exact append_accepted (fields_accepted (forall_mem_one (of_member hw (safeUint_accepted hn))))
      (readBlobs_accepted h)

/-- **Every integer field of an accepted manifest went through its reader.** -/
theorem readManifest_accepted {root : Json} {reference : PlaintextBundleRef}
    {entries : List BlobEntry} (h : readManifest root reference = .ok entries) :
    ∀ f ∈ manifestFields root, f.Accepted := by
  simp only [readManifest, bind_eq_ok] at h
  obtain ⟨-, -, v, hv, _, hv', -, -, -, -, -, -, -, -, w, hw, _, hw', -, -, blobs, hblobs, items,
    hitems, h⟩ := h
  obtain rfl := arrayItems_eq_ok hitems
  refine append_accepted (append_accepted ?_ ?_) ?_
  · exact fields_accepted (forall_mem_one (of_member hv (nonnegative_accepted hv')))
  · exact fields_accepted (forall_mem_one (of_member hw (positive_accepted hw')))
  · exact inside_accepted (forall_mem_one (of_member hblobs (readBlobs_accepted h)))

end Manifest

/-! ## The bounds -/

theorem readInt_iff {value : Json} {document path : String} {minimum maximum : CInt}
    (hle : minimum ≤ maximum) (hmax : 0 ≤ maximum) :
    (∀ n, readInt value document path minimum maximum = .ok n ↔
      value.integer? = some n.toInt ∧ minimum ≤ n ∧ n ≤ maximum) ↔
      ¬ IntField.UnsignedBelow ⟨value, .int minimum maximum⟩ := by
  constructor
  · rintro h ⟨u, lo, hi, rfl, ⟨⟩, hlt⟩
    have hle' := Int32.le_iff_toInt_le.1 hle
    have hu : u.toNat < 2 ^ 31 := by
      have := maximum.toInt_lt
      omega
    have hval := CInt.toInt_ofUInt64 hu
    have hread : readInt (.unsigned u) document path minimum maximum =
        .ok u.toUInt32.toInt32 := by
      refine (readInt_eq_ok hmax).2 ⟨congrArg some hval.symm, ?_, fun hne => absurd rfl (hne u)⟩
      rw [Int32.le_iff_toInt_le, hval]
      omega
    have := Int32.le_iff_toInt_le.1 ((h _).1 hread).2.1
    omega
  · intro h n
    rw [readInt_eq_ok hmax]
    constructor
    · rintro ⟨hval, hhi, hlo⟩
      refine ⟨hval, ?_, hhi⟩
      by_cases hu : ∃ u, value = .unsigned u
      · obtain ⟨u, rfl⟩ := hu
        by_contra hlt
        have hun : (u.toNat : ℤ) = n.toInt := Option.some.inj hval
        rw [Int32.not_le, Int32.lt_iff_toInt_lt] at hlt
        exact h ⟨u, _, _, rfl, rfl, hun ▸ hlt⟩
      · exact hlo fun u hv => hu ⟨u, hv⟩
    · rintro ⟨hval, hlo, hhi⟩
      exact ⟨hval, hhi, fun _ => hlo⟩

theorem bounded_iff_of_accepted {fields : List IntField} (h : ∀ f ∈ fields, f.Accepted) :
    (∀ f ∈ fields, f.Bounded) ↔ ∀ f ∈ fields, ¬ f.UnsignedBelow :=
  forall₂_congr fun f hf => (h f hf).bounded_iff

/-- **When the bounds hold.**  `read_int` accepts exactly the integers between its
    bounds, and every integer field of an accepted plan, specification or
    manifest lies between its bounds, exactly when the value is not an unsigned
    number below the minimum. -/
theorem readers_bounded_iff [DoubleArith] (sax : Sax) (text : Bytes) :
    (∀ (value : Json) (document path : String) (minimum maximum : CInt), minimum ≤ maximum →
      0 ≤ maximum →
      ((∀ n, readInt value document path minimum maximum = .ok n ↔
        value.integer? = some n.toInt ∧ minimum ≤ n ∧ n ≤ maximum) ↔
        ¬ IntField.UnsignedBelow ⟨value, .int minimum maximum⟩)) ∧
    (∀ loaded, RuntimePlanJsonReader.readText sax text = .ok loaded →
      ∃ root, parse sax text RuntimePlanJsonReader.doc = .ok root ∧
        ((∀ f ∈ planFields root, f.Bounded) ↔ ∀ f ∈ planFields root, ¬ f.UnsignedBelow)) ∧
    (∀ loaded, OperatorSpecReader.readText sax text = .ok loaded →
      ∃ root, parse sax text OperatorSpecReader.doc = .ok root ∧
        ((∀ f ∈ specFields root, f.Bounded) ↔ ∀ f ∈ specFields root, ¬ f.UnsignedBelow)) ∧
    (∀ root reference entries, parse sax text PlaintextBundleLoader.doc = .ok root →
      PlaintextBundleLoader.readManifest root reference = .ok entries →
        ((∀ f ∈ manifestFields root, f.Bounded) ↔ ∀ f ∈ manifestFields root, ¬ f.UnsignedBelow)) := by
  refine ⟨fun _ _ _ _ _ hle hmax => readInt_iff hle hmax, fun loaded h => ?_, fun loaded h => ?_,
    fun root reference entries _ h => bounded_iff_of_accepted (readManifest_accepted h)⟩
  · simp only [RuntimePlanJsonReader.readText, bind_eq_ok] at h
    obtain ⟨root, hroot, plan, hplan, -⟩ := h
    exact ⟨root, hroot, bounded_iff_of_accepted (readPlan_accepted hplan)⟩
  · simp only [OperatorSpecReader.readText, bind_eq_ok] at h
    obtain ⟨root, hroot, spec, hspec, -⟩ := h
    exact ⟨root, hroot, bounded_iff_of_accepted (readSpec_accepted hspec)⟩

/-! ### A document with a zero version -/

/-- A plan whose reference to the specification has version `0`. -/
def zeroVersionPlan : RuntimePlan where
  planId := 1
  target := ⟨"target", 1, [0], 1, ⟨"spec", 0, zeroDigest⟩⟩
  plaintextBundle := none
  values := []
  externalInputs := []
  initialization := []
  execution := []
  finalization := []
  finalOutputs := []
where
  zeroDigest := "sha256:0000000000000000000000000000000000000000000000000000000000000000"

/-- Its document. -/
def zeroVersionJson : Json :=
  .object
    [("execution", .array []), ("external_inputs", .array []), ("final_outputs", .array []),
      ("finalization", .array []), ("format_version", .unsigned 1), ("initialization", .array []),
      ("plan_id", .string "1"),
      ("target", .object
        [("capability_version", .unsigned 1), ("device_counts", .array [.unsigned 0]),
          ("operator_spec", .object
            [("id", .string "spec"), ("source_sha256", .string zeroVersionPlan.zeroDigest),
              ("version", .unsigned 0)]),
          ("target_id", .string "target"), ("world_size", .unsigned 1)]),
      ("values", .array [])]

/-- The zero is accepted below the minimum, by `read_int` and in a plan. -/
theorem readInt_zero :
    (¬ ∀ n, readInt (.unsigned 0) "runtime plan" "$.target.operator_spec.version" 1 CInt.max = .ok n ↔
      Json.integer? (.unsigned 0) = some n.toInt ∧ 1 ≤ n ∧ n ≤ CInt.max) ∧
    @RuntimePlanJsonReader.readDocument zeroArith zeroVersionJson = .ok zeroVersionPlan ∧
    zeroVersionPlan.target.operatorSpec.version = 0 := by
  refine ⟨fun h => ?_, by decide, rfl⟩
  have hread : readInt (.unsigned 0) "runtime plan" "$.target.operator_spec.version" 1 CInt.max =
      .ok 0 := by decide
  exact absurd ((h 0).1 hread).2.1 (by decide)

end CkksRuntime
