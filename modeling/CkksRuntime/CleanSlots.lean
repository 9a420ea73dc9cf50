/-
  ckks-runtime formalization — the slot vectors that reach a backend.

  * `ReadsPayload`: the payload of an Encode as the document has it;
  * `KeepsPolyDegree`: only the preflight sets `poly_degree_`;
  * `CleanEncode` and `filled`: what is given to `encode_plaintext`, and what both
    Vec backends make of it;
  * `encode_clean`: in every run, every vector given to `encode_plaintext` is
    clean, and is encoded as it is, filled with zeros.
-/
import CkksRuntime.BundleLoader
import CkksRuntime.JsonPlanReader
import CkksRuntime.MockVecApi
import CkksRuntime.MpiVecApi
import CkksRuntime.RunCalls

namespace CkksRuntime

open Interaction

/-! ## The doubles of a document -/

open PlaintextBundleLoader (clean blobPath blobDoubles normalizeZero_eq_clean)

theorem isFinite_clean {x : Double} (h : x.isFinite) : (clean x).isFinite := by
  unfold PlaintextBundleLoader.clean
  split_ifs
  · decide
  · exact h

theorem clean_ne (x : Double) : clean x ≠ 0x8000000000000000#64 := by
  unfold PlaintextBundleLoader.clean
  split_ifs with h
  · decide
  · exact h

theorem clean_clean (x : Double) : clean (clean x) = clean x := by
  conv_lhs => rw [PlaintextBundleLoader.clean, if_neg (clean_ne x)]

/-- The double that a number of a document converts to. -/
def Json.double? [DoubleArith] : Json → Option Double
  | .unsigned number => some (DoubleArith.ofUInt64 number)
  | .integer number => some (DoubleArith.ofInt64 number)
  | .float number => some number
  | _ => none

namespace JsonUtils

theorem readItems_forall₂ {α : Type} {read : Json → String → Except Fault α} {path : String}
    {items : List Json} : ∀ {index : ℕ} {results : List α},
    readItemsFrom read path index items = .ok results →
      List.Forall₂ (fun item result => ∃ itemPath, read item itemPath = .ok result) items
        results := by
  induction items with
  | nil =>
    intro index results h
    cases h
    exact .nil
  | cons item items ih =>
    intro index results h
    simp only [readItemsFrom, bind_eq_ok, pure_eq_ok] at h
    obtain ⟨result, hresult, results, hresults, rfl⟩ := h
    exact .cons ⟨_, hresult⟩ (ih hresults)

/-- A number that converts to a finite double is read as that double, clean. -/
theorem readFiniteDouble_eq_ok [DoubleArith] {value : Json} {document path : String} {x : Double}
    (h : readFiniteDouble value document path = .ok x) :
    ∃ y, value.double? = some y ∧ y.isFinite ∧ x = clean y := by
  have hcheck {y : Double} (hy : (if !y.isFinite then
      fail document path "number must be finite float64" else .ok y.normalizeZero) = .ok x) :
      y.isFinite ∧ x = clean y := by
    split_ifs at hy with hfinite
    · exact absurd hy (by simp)
    · rw [Except.ok.injEq] at hy
      exact ⟨by simpa using hfinite, by rw [← hy, normalizeZero_eq_clean]⟩
  cases value with
  | unsigned n => exact ⟨_, rfl, hcheck h⟩
  | integer n => exact ⟨_, rfl, hcheck h⟩
  | float y => exact ⟨_, rfl, hcheck h⟩
  | _ => simp [readFiniteDouble] at h

theorem readNonnegativeInt_nonneg {value : Json} {document path : String} {n : CInt}
    (h : readNonnegativeInt value document path = .ok n) : 0 ≤ n := by
  have hmax : (0 : CInt) ≤ CInt.max := by decide
  obtain ⟨hval, -, hmin⟩ := (readInt_eq_ok hmax).1 h
  by_cases hu : ∃ u, value = .unsigned u
  · obtain ⟨u, rfl⟩ := hu
    have hn : (u.toNat : ℤ) = n.toInt := Option.some.inj hval
    rw [Int32.le_iff_toInt_le, ← hn]
    exact Int.natCast_nonneg _
  · exact hmin fun u hu' => hu ⟨u, hu'⟩

end JsonUtils

namespace RuntimePlanJsonReader

open JsonUtils

variable [DoubleArith]

/-- A payload as the document has it: numbers, or the digest of a blob. -/
inductive ReadsPayload (payload : Json) : EncodePayload → Prop
  | inline {numbers : List Json} {values : List Double} :
    payload.member "values" = .ok (.array numbers) →
      List.Forall₂ (fun number x => ∃ y, number.double? = some y ∧ y.isFinite ∧ x = clean y)
        numbers values → ReadsPayload payload (.inline values)
  | bundle {content : String} : payload.member "content" = .ok (.string content) →
      ReadsPayload payload (.bundle content)

theorem readEncodePayload_eq_ok {payload : Json} {path : String} {parsed : EncodePayload}
    (h : readEncodePayload payload path = .ok parsed) : ReadsPayload payload parsed := by
  simp only [readEncodePayload, bind_eq_ok, failIf_eq_ok, exists_const] at h
  obtain ⟨-, _, -, kind, -, h⟩ := h
  split_ifs at h with hinline hbundle
  · simp only [bind_eq_ok] at h
    obtain ⟨-, -, values, hvalues, h⟩ := h
    cases values with
    | array numbers =>
      cases numbers with
      | nil => simp at h
      | cons number numbers =>
        simp only [bind_eq_ok, pure_eq_ok] at h
        obtain ⟨results, hresults, rfl⟩ := h
        refine .inline hvalues ((readItems_forall₂ hresults).imp ?_)
        rintro item x ⟨itemPath, hx⟩
        exact readFiniteDouble_eq_ok hx
    | _ => simp at h
  · simp only [bind_eq_ok, pure_eq_ok] at h
    obtain ⟨-, -, value, hvalue, content, hcontent, rfl⟩ := h
    obtain ⟨rfl, -⟩ := readSha256_eq_ok.1 hcontent
    exact .bundle hvalue
  · simp at h

omit [DoubleArith] in
theorem readComm_ne_encode {value : Json} {path : String} {kind : CommKind} {i : Instruction}
    (h : readComm value path kind = .ok i) (op : EncodeOp) : i.body ≠ .encode op := by
  simp only [readComm, bind_eq_ok, pure_eq_ok] at h
  obtain ⟨-, -, _, -, _, -, _, -, _, -, _, -, _, -, _, -, _, -, _, -, _, -, _, -, _, -, _, -, _, -,
    _, -, rfl⟩ := h
  rintro ⟨⟩

/-- An Encode as the document has it. -/
theorem readInstruction_encode {value : Json} {path : String} {i : Instruction} {op : EncodeOp}
    (h : readInstruction value path = .ok i) (hbody : i.body = .encode op) :
    ∃ payload, value.member "payload" = .ok payload ∧ ReadsPayload payload op.payload := by
  simp only [readInstruction, bind_eq_ok, failIf_eq_ok, exists_const] at h
  obtain ⟨-, _, -, kind, -, h⟩ := h
  split_ifs at h
  · simp only [readEncode, bind_eq_ok, pure_eq_ok] at h
    obtain ⟨-, -, payload, hpayload, parsed, hparsed, _, -, _, -, _, -, rfl⟩ := h
    obtain rfl := InstructionBody.encode.inj hbody
    exact ⟨payload, hpayload, readEncodePayload_eq_ok hparsed⟩
  · simp only [readCompute, bind_eq_ok, pure_eq_ok] at h
    obtain ⟨-, -, _, -, _, -, -, -, _, -, _, -, _, -, _, -, _, -, _, -, _, -, _, -, rfl⟩ := h
    cases hbody
  · exact absurd hbody (readComm_ne_encode h op)
  · exact absurd hbody (readComm_ne_encode h op)
  · simp at h

/-- What a document says of the initialization and of the values of its plan. -/
theorem readDocument_eq_ok {root : Json} {plan : RuntimePlan} (h : readDocument root = .ok plan) :
    (∃ items, root.member "initialization" = .ok (.array items) ∧
      List.Forall₂ (fun item i => ∃ path, readInstruction item path = .ok i) items
        plan.initialization) ∧
    ∀ d ∈ plan.values, d.context ≠ "" ∧ 0 ≤ d.level ∧ 0 ≤ d.scaleLog2 := by
  simp only [readDocument, bind_eq_ok, pure_eq_ok] at h
  obtain ⟨-, -, _, -, _, -, -, -, _, -, _, -, _, -, _, -, _, -, _, hvs, vs, hitems, values, hvalues,
    _, -, _, -, _, hi, initialization, hinit, _, -, _, -, _, -, _, -, _, -, _, -, rfl⟩ := h
  refine ⟨?_, fun d hd => ?_⟩
  · simp only [readInstructions, bind_eq_ok] at hinit
    obtain ⟨items, hitems, hinit⟩ := hinit
    obtain rfl := arrayItems_iff.1 hitems
    exact ⟨items, hi, readItems_forall₂ hinit⟩
  · obtain ⟨item, path, hitem⟩ := (readItems_eq_ok hvalues).2 d hd
    simp only [readValueDesc, bind_eq_ok, pure_eq_ok] at hitem
    obtain ⟨-, -, _, -, _, -, _, -, _, -, _, -, _, -, _, -, context, hcontext, _, -, level, hlevel,
      _, -, scale, hscale, _, -, _, -, _, -, _, -, rfl⟩ := hitem
    exact ⟨(readString_eq_ok.1 hcontext).2, readNonnegativeInt_nonneg hlevel,
      readNonnegativeInt_nonneg hscale⟩

end RuntimePlanJsonReader

/-! ## `poly_degree_` -/

section
variable {V H : Type}

/-- `poly_degree_` of a Vec backend after a call. -/
def ApiOp.polyDegree (n : ℕ) : ApiOp V H → ℕ
  | .preflight _ _ _ operatorSpec _ => operatorSpec.polyDegree
  | _ => n

def polyDegreeAfter (log : Log V H) : ℕ := log.foldl (fun n e => e.op.polyDegree n) 0

theorem polyDegreeAfter_snoc (log : Log V H) (e : Event (ApiOp V H) ApiOp.Ans) :
    polyDegreeAfter (log ++ [e]) = e.op.polyDegree (polyDegreeAfter log) := by
  rw [polyDegreeAfter, List.foldl_append]
  rfl

end

/-- A handler of the calls whose state is `poly_degree_`. -/
def KeepsPolyDegree {V H : Type} {Op : Type} {Ans : Op → Type}
    (handler : (op : ApiOp V H) → Comp Op Ans ℕ Fault op.Result) : Prop :=
  ∀ op n log r t, Prog.Runs (handler op n) log (r, t) → t = op.polyDegree n

theorem keeps_of_fixed {V H : Type} {Op : Type} {Ans : Op → Type}
    {handler : (op : ApiOp V H) → Comp Op Ans ℕ Fault op.Result}
    (hpreflight : ∀ digest skip target spec requirements n log r t,
      Prog.Runs (handler (.preflight digest skip target spec requirements) n) log (r, t) →
        t = spec.polyDegree)
    (hother : ∀ op, (∀ digest skip target spec requirements,
      op ≠ .preflight digest skip target spec requirements) → Comp.Fixed (handler op)) :
    KeepsPolyDegree handler := by
  intro op n log r t hrun
  cases op with
  | preflight digest skip target spec requirements => exact hpreflight _ _ _ _ _ _ _ _ _ hrun
  | _ => exact hother _ (by intro _ _ _ _ _ h; cases h) _ _ _ _ hrun

section
open Comp

namespace MockVecApi

theorem fixed_receiveAll (id : TransferId) (slots : List ℕ) : Fixed (receiveAll id slots) := by
  induction slots with
  | nil => exact fixed_pure _
  | cons slot slots ih => exact fixed_call.bind fun _ => ih.bind fun _ => fixed_pure _

theorem fixed_wait (cluster : MockClusterConfig) (handle : CommHandle) :
    Fixed (wait cluster handle) := by
  refine (fixed_throwIf _ _).bind fun _ => Fixed.bind ?_ fun _ =>
    (fixed_receiveAll _ _).bind fun _ => (fixed_ofExcept _).bind fun _ => fixed_pure _
  unfold joinSender
  cases handle.sender with
  | none => exact fixed_pure _
  | some sender => exact fixed_call

theorem fixed_communicateAsync (cfg : MockApiConfig) (rank : CInt) (action : CommAction)
    (localInputs : List VecValue) : Fixed (communicateAsync cfg rank action localInputs) := by
  refine (fixed_throwIf _ _).bind fun _ => (fixed_ofExcept _).bind fun source => ?_
  split_ifs
  · rcases localInputs with - | ⟨value, - | ⟨value', localInputs⟩⟩
    · exact fixed_throw _
    · exact fixed_call.bind fun _ => fixed_pure _
    · exact fixed_throw _
  · exact (fixed_throwIf _ _).bind fun _ => fixed_pure _

theorem fixed_compute (cfg : MockApiConfig) (op : ComputeOp) (inputs : List VecValue) :
    Fixed (compute cfg op inputs) := by
  refine (fixed_throwIf _ _).bind fun _ => ?_
  cases cfg.mode with
  | sync => exact fixed_call.bind fun _ => fixed_pure _
  | async => exact (fixed_ofExcept _).bind fun _ => fixed_call

/-- **Only the preflight of a mock rank sets `poly_degree_`.** -/
theorem keepsPolyDegree (cluster : MockClusterConfig) (cfg : MockApiConfig) (rank : CInt) :
    KeepsPolyDegree (handle cluster cfg rank) := by
  refine keeps_of_fixed ?_ fun op hop => ?_
  · intro digest skip target spec requirements n log r t hrun
    refine Fixed.bind (fixed_throwIf _ _) (fun _ => (fixed_ofExcept _).bind fun _ =>
      Fixed.bind fixed_call fun _ => fixed_call) spec.polyDegree log r t hrun
  · cases op with
    | preflight => exact absurd rfl (hop _ _ _ _ _)
    | validateValue => exact fixed_get.bind fun _ => fixed_ofExcept _
    | encodePlaintext => exact fixed_get.bind fun _ => fixed_ofExcept _
    | compute => exact fixed_compute _ _ _
    | communicateAsync => exact fixed_communicateAsync _ _ _ _
    | wait => exact fixed_wait _ _
    | synchronize => exact fixed_call.bind fun _ => fixed_pure _
    | abortAll => exact fixed_call

end MockVecApi

namespace MpiVecApi

variable (tagUpperBound rank : CInt)

theorem fixed_postSends (id : TransferId) (source : VecPayload)
    (headers : List (ℕ × CInt × WireHeader)) :
    Fixed (postSends tagUpperBound id source headers) := by
  induction headers with
  | nil => exact fixed_pure _
  | cons header headers ih =>
    exact (fixed_throwIf _ _).bind fun _ => (fixed_ofExcept _).bind fun _ => Fixed.bind fixed_call
      fun _ => (fixed_ofExcept _).bind fun _ => Fixed.bind fixed_call fun _ => ih.bind fun _ =>
        fixed_pure _

theorem fixed_postReceives (id : TransferId) (sourceRank : CInt) (slots : List ℕ) :
    Fixed (postReceives tagUpperBound id sourceRank slots) := by
  induction slots with
  | nil => exact fixed_pure _
  | cons slot slots ih =>
    exact (fixed_ofExcept _).bind fun _ => Fixed.bind fixed_call fun _ => ih.bind fun _ =>
      fixed_pure _

theorem fixed_communicateAsync (action : CommAction) (localInputs : List VecValue) :
    Fixed (communicateAsync tagUpperBound rank action localInputs) := by
  refine Fixed.bind fixed_call fun _ => (fixed_ofExcept _).bind fun source => ?_
  split_ifs
  · rcases localInputs with - | ⟨value, - | ⟨value', localInputs⟩⟩
    · exact fixed_throw _
    · exact (fixed_ofExcept _).bind fun _ => (fixed_ofExcept _).bind fun _ =>
        (fixed_postSends _ _ _ _).bind fun _ => fixed_pure _
    · exact fixed_throw _
  · exact (fixed_throwIf _ _).bind fun _ => (fixed_postReceives _ _ _ _).bind fun _ => fixed_pure _

theorem fixed_waitSends (sends : List SendState) : Fixed (waitSends sends) := by
  induction sends with
  | nil => exact fixed_pure _
  | cons send sends ih => exact fixed_call.bind fun _ => ih

theorem fixed_receiveAll (id : TransferId) (receives : List RecvState) :
    Fixed (receiveAll tagUpperBound id receives) := by
  induction receives with
  | nil => exact fixed_pure _
  | cons recv receives ih =>
    exact Fixed.bind fixed_call fun _ => (fixed_ofExcept _).bind fun _ => (fixed_throwIf _ _).bind
      fun _ => (fixed_ofExcept _).bind fun _ => Fixed.bind fixed_call fun _ => Fixed.bind fixed_call
        fun _ => (fixed_ofExcept _).bind fun _ => (fixed_ofExcept _).bind fun _ => ih.bind fun _ =>
          fixed_pure _

variable [DoubleArith]

/-- **Only the preflight of an MPI rank sets `poly_degree_`.** -/
theorem keepsPolyDegree : KeepsPolyDegree (handle tagUpperBound rank) := by
  refine keeps_of_fixed ?_ fun op hop => ?_
  · intro digest skip target spec requirements n log r t hrun
    refine Fixed.bind (fixed_throwIf _ _) (fun _ => Fixed.bind fixed_call fun _ =>
      Fixed.bind fixed_call fun _ => (fixed_throwIf _ _).bind fun _ => ?_) spec.polyDegree log r t
      hrun
    split_ifs
    · exact fixed_pure _
    · exact (fixed_throwIf _ _).bind fun _ => Fixed.bind fixed_call fun _ => Fixed.bind fixed_call
        fun _ => fixed_throwIf _ _
  · cases op with
    | preflight => exact absurd rfl (hop _ _ _ _ _)
    | validateValue => exact fixed_get.bind fun _ => fixed_ofExcept _
    | encodePlaintext => exact fixed_get.bind fun _ => fixed_ofExcept _
    | compute => exact (fixed_ofExcept _).bind fun _ => fixed_pure _
    | communicateAsync => exact fixed_communicateAsync _ _ _ _
    | wait =>
      exact (fixed_throwIf _ _).bind fun _ => Fixed.bind fixed_call fun _ =>
        (fixed_waitSends _).bind fun _ => (fixed_receiveAll _ _ _).bind fun _ =>
          Fixed.bind fixed_call fun _ => fixed_pure _
    | synchronize => exact (fixed_ofExcept _).bind fun _ => fixed_pure _
    | abortAll => exact fixed_call

end MpiVecApi

end

/-! ## What is encoded -/

/-- Where the slots of an Encode come from: the numbers of its payload, or the blob of
    its content. -/
inductive SlotsFrom [DoubleArith] {V : Type} (cfg : RunConfig V) (env : Environment)
    (payload : Json) (slots : List Double) : Prop
  | inline {numbers : List Json} : payload.member "values" = .ok (.array numbers) →
    List.Forall₂ (fun number slot => ∃ x, number.double? = some x ∧ slot = clean x) numbers slots →
      SlotsFrom cfg env payload slots
  | bundle {directory content : String} {bytes : Bytes} :
    payload.member "content" = .ok (.string content) →
      cfg.resources.plaintextBundleDir = some directory →
        env.files (blobPath directory content) = .bytes bytes → sourceSha256 bytes = .ok content →
          slots = (blobDoubles bytes).map clean → SlotsFrom cfg env payload slots

/-- A vector that is given to `encode_plaintext` for the descriptor `d`, when the plan was
    read from the document `root`. -/
structure CleanEncode [DoubleArith] {V : Type} (cfg : RunConfig V) (env : Environment) (root : Json)
    (d : ValueDesc) (slots : List Double) : Prop where
  nonempty : slots ≠ []
  capacity : slots.length ≤ cfg.resources.operatorSpec.spec.polyDegree / 2
  finite : ∀ x ∈ slots, x.isFinite
  noNegativeZero : ∀ x ∈ slots, x ≠ 0x8000000000000000#64
  source : ∃ (items : List Json) (k : ℕ) (i : Instruction) (op : EncodeOp) (item payload : Json),
    root.member "initialization" = .ok (.array items) ∧ items[k]? = some item ∧
      (SequentialRuntime.plan cfg).initialization[k]? = some i ∧ i.body = .encode op ∧
        (SequentialRuntime.plan cfg).desc? op.output = some d ∧ d.place.rank = cfg.rank ∧
          item.member "payload" = .ok payload ∧ SlotsFrom cfg env payload slots

/-- What both backends make of the slots: the slots, filled with zeros. -/
def filled (polyDegree : ℕ) (d : ValueDesc) (slots : List Double) : VecValue :=
  .ready ⟨.plaintext, slots ++ List.replicate (polyDegree / 2 - slots.length) 0#64,
    ⟨d.context, polyDegree, d.level, d.scaleLog2, d.ntt, 1⟩⟩

theorem encodePlaintext_eq_filled {polyDegree : ℕ} {d : ValueDesc} {slots : List Double}
    (hne : slots ≠ []) (hcap : slots.length ≤ polyDegree / 2) (hcontext : d.context ≠ "")
    (hlevel : 0 ≤ d.level) (hscale : 0 ≤ d.scaleLog2) :
    encodePlaintext polyDegree d slots = .ok (filled polyDegree d slots) := by
  have hpos := List.length_pos_of_ne_nil hne
  have hdegree : polyDegree ≠ 0 := by omega
  unfold encodePlaintext makePlain makeValue filled
  rw [if_neg (Nat.not_lt.2 hcap), if_neg (by simp [hne]), if_neg, if_neg (by simp)]
  · rfl
  · rw [String.isEmpty_iff]
    rintro (h | h | h | h)
    · exact hcontext h
    · exact hdegree h
    · exact Int32.not_lt.2 hlevel h
    · exact Int32.not_lt.2 hscale h

namespace SequentialRuntime

open PlaintextBundleLoader PlanVerifier

variable {V H : Type} {cfg : RunConfig V} {env : Environment}

/-- The slots of a content in a loaded bundle. -/
theorem bundleSlotsOf_lookup {bundleSlots : List (String × List Double)}
    (h : bundleSlotsOf cfg env = .ok bundleSlots) {content : String} {slots : List Double}
    (hlookup : bundleSlots.lookup content = some slots) :
    ∃ directory bytes, cfg.resources.plaintextBundleDir = some directory ∧
      env.files (blobPath directory content) = .bytes bytes ∧ sourceSha256 bytes = .ok content ∧
        slots = (blobDoubles bytes).map clean ∧ slots ≠ [] ∧
          slots.length ≤ cfg.resources.operatorSpec.spec.polyDegree / 2 ∧
            ∀ x ∈ blobDoubles bytes, x.isFinite := by
  unfold bundleSlotsOf at h
  cases href : (plan cfg).plaintextBundle with
  | none =>
    rw [href] at h
    obtain rfl := Except.ok.inj h
    cases hlookup
  | some reference =>
    rw [href] at h
    cases hdir : cfg.resources.plaintextBundleDir with
    | none =>
      rw [hdir] at h
      cases h
    | some directory =>
      rw [hdir] at h
      cases hcontents : localContents cfg (plan cfg).initialization with
      | error f =>
        rw [hcontents] at h
        cases h
      | ok contents =>
        rw [hcontents] at h
        cases hload : load env.sax env.files directory reference contents
            (cfg.resources.operatorSpec.spec.polyDegree / 2)
            cfg.resources.skipArtifactDigestChecks with
        | error f =>
          simp only [hload, bind, Except.bind, Except.mapError] at h
          cases h
        | ok bundle =>
          simp only [hload, bind, Except.bind, Except.mapError, pure, Except.pure,
            Except.ok.injEq] at h
          obtain rfl := h
          obtain ⟨_, _, root, entries, -, -, -, -, hmanifest, hslots, -⟩ := load_iff.1 hload
          have hmem : (content, slots) ∈ bundle.slotsByContent := by
            obtain ⟨l₁, l₂, heq, -⟩ := List.lookup_eq_some_iff.1 hlookup
            rw [heq]
            simp
          obtain ⟨_, -, entry, hentry, rfl, bytes, hloads, heq⟩ :=
            forall₂_mem_left hslots.flip hmem
          obtain ⟨rfl, rfl⟩ := Prod.mk.inj heq
          refine ⟨directory, bytes, rfl, hloads.file, hloads.hash, rfl,
            hloads.ne_nil hmanifest hentry, ?_, hloads.finite⟩
          rw [List.length_map]
          exact hloads.capacity

variable [DoubleArith]

/-- **The slots of a local Encode are clean**, when the plan was read and is accepted. -/
theorem cleanEncode {root : Json} (hread : RuntimePlanJsonReader.readDocument root = .ok (plan cfg))
    (hacc : Accepted (plan cfg) cfg.resources.operatorSpec.spec)
    {bundleSlots : List (String × List Double)} (hbundle : bundleSlotsOf cfg env = .ok bundleSlots)
    {i : Instruction} (hi : i ∈ (plan cfg).instructions) {op : EncodeOp}
    (hbody : i.body = .encode op) {d : ValueDesc} (hd : (plan cfg).desc? op.output = some d)
    (hrank : d.place.rank = cfg.rank) {values : List Double}
    (hvalues : payloadSlots bundleSlots op.payload = .ok values) :
    CleanEncode cfg env root d (values.map Double.normalizeZero) := by
  have hnormal : values.map Double.normalizeZero = values.map clean :=
    List.map_congr_left fun x _ => normalizeZero_eq_clean x
  have hzero : ∀ x ∈ values.map clean, x ≠ 0x8000000000000000#64 := by
    intro x hx
    obtain ⟨y, -, rfl⟩ := List.mem_map.1 hx
    exact clean_ne y
  obtain ⟨⟨items, hitems, hall⟩, -⟩ := RuntimePlanJsonReader.readDocument_eq_ok hread
  obtain ⟨k, hk⟩ := List.getElem?_of_mem (encode_mem_initialization hacc hi hbody)
  obtain ⟨item, hitem, path, hinstruction⟩ : ∃ item, items[k]? = some item ∧
      ∃ path, RuntimePlanJsonReader.readInstruction item path = .ok i := by
    obtain ⟨hlt, hget⟩ := List.getElem?_eq_some_iff.1 hk
    have hlt' : k < items.length := hall.length_eq ▸ hlt
    refine ⟨items[k], List.getElem?_eq_getElem hlt', ?_⟩
    have := hall.get hlt' hlt
    rwa [List.get_eq_getElem, List.get_eq_getElem, hget] at this
  obtain ⟨payload, hpayload, hreads⟩ :=
    RuntimePlanJsonReader.readInstruction_encode hinstruction hbody
  obtain ⟨_, _, phase, -, -, hok⟩ := hacc.split hi
  rw [hbody] at hok
  rw [hnormal]
  cases hpay : op.payload with
  | inline inlineValues =>
    rw [hpay] at hvalues hreads
    obtain rfl : inlineValues = values := Except.ok.inj hvalues
    obtain ⟨hne, hcap⟩ := hok.inline _ hpay
    cases hreads with
    | @inline numbers _ hmember hnumbers =>
      have hclean : inlineValues.map clean = inlineValues := by
        refine (List.map_congr_left fun x hx => ?_).trans (List.map_id _)
        obtain ⟨_, -, y, -, -, rfl⟩ := forall₂_mem_left hnumbers.flip hx
        exact clean_clean y
      rw [hclean] at hzero ⊢
      refine ⟨hne, hcap, fun x hx => ?_, hzero, items, k, i, op, item, payload, hitems, hitem, hk,
        hbody, hd, hrank, hpayload, .inline hmember (hnumbers.imp fun number x hx => ?_)⟩
      · obtain ⟨_, -, y, -, hfinite, rfl⟩ := forall₂_mem_left hnumbers.flip hx
        exact isFinite_clean hfinite
      · obtain ⟨y, hy, -, rfl⟩ := hx
        exact ⟨y, hy, rfl⟩
  | bundle content =>
    rw [hpay] at hvalues hreads
    cases hreads with
    | bundle hmember =>
      rw [payloadSlots] at hvalues
      cases hlookup : bundleSlots.lookup content with
      | none =>
        rw [hlookup] at hvalues
        cases hvalues
      | some slots =>
        rw [hlookup] at hvalues
        obtain rfl : slots = values := Except.ok.inj hvalues
        obtain ⟨directory, bytes, hdir, hfile, hhash, rfl, hne, hcap, hfinite⟩ :=
          bundleSlotsOf_lookup hbundle hlookup
        have hclean : ((blobDoubles bytes).map clean).map clean =
            (blobDoubles bytes).map clean := by
          rw [List.map_map]
          exact List.map_congr_left fun x _ => clean_clean x
        rw [hclean] at hzero ⊢
        refine ⟨hne, hcap, fun x hx => ?_, hzero, items, k, i, op, item, payload, hitems, hitem, hk,
          hbody, hd, hrank, hpayload, .bundle hmember hdir hfile hhash rfl⟩
        obtain ⟨y, hy, rfl⟩ := List.mem_map.1 hx
        exact isFinite_clean (hfinite y hy)

/-- The descriptor of an encoded value passes the checks of `make_plain`. -/
theorem filled_of_cleanEncode {root : Json}
    (hread : RuntimePlanJsonReader.readDocument root = .ok (plan cfg)) {d : ValueDesc}
    {slots : List Double} (h : CleanEncode cfg env root d slots) :
    encodePlaintext cfg.resources.operatorSpec.spec.polyDegree d slots =
      .ok (filled cfg.resources.operatorSpec.spec.polyDegree d slots) := by
  obtain ⟨_, _, _, _, _, _, -, -, -, -, hd, -⟩ := h.source
  obtain ⟨hcontext, hlevel, hscale⟩ :=
    (RuntimePlanJsonReader.readDocument_eq_ok hread).2 d (RuntimePlan.desc?_mem hd)
  exact encodePlaintext_eq_filled h.nonempty h.capacity hcontext hlevel hscale

/-- The slots that a call encodes are clean, and `poly_degree_` is the one of the
    specification. -/
def CleanCall (cfg : RunConfig V) (env : Environment) (root : Json) (past : Log V H) :
    ApiOp V H → Prop
  | .encodePlaintext d slots => CleanEncode cfg env root d slots ∧
      polyDegreeAfter past = cfg.resources.operatorSpec.spec.polyDegree
  | _ => True

theorem run_cleanCall {root : Json}
    (hread : RuntimePlanJsonReader.readDocument root = .ok (plan cfg)) :
    Prog.Meets (.history (CleanCall cfg env root)) (fun _ _ => True) [] (run (H := H) cfg env) := by
  refine run_calls (I := fun past => polyDegreeAfter past =
    cfg.resources.operatorSpec.spec.polyDegree) (fun _ _ => trivial) ?_
  intro requirements hverify bundleSlots hbundle
  refine ⟨trivial, fun ans => rfl, fun line hline op hop => ?_⟩
  rcases hop with hop | ⟨encode, d, values, hact, hd, hvalues, rfl⟩
  · refine ⟨fun past _ => ?_, fun past hpast ans => ?_⟩
    · cases op with
      | encodePlaintext => exact absurd hop id
      | _ => trivial
    · rw [polyDegreeAfter_snoc]
      cases op with
      | preflight => exact absurd hop id
      | _ => exact hpast
  · have hsourced := RuntimePlan.script_sourced (plan cfg) cfg.rank line hline
    rw [hact] at hsourced
    obtain ⟨⟨i, hi, hbody⟩, d', hd', hrank⟩ := hsourced
    obtain rfl : d' = d := Option.some.inj (hd'.symm.trans hd)
    have hacc := accepted_of_verifyPlan hverify
    refine ⟨fun past hpast => ⟨cleanEncode hread hacc hbundle hi hbody hd hrank hvalues, hpast⟩,
      fun past hpast ans => ?_⟩
    rw [polyDegreeAfter_snoc]
    exact hpast

/-- **Only clean slot vectors reach the backend.**  In every run of a plan that was read,
    each vector given to `encode_plaintext` is clean, and both Vec backends, with the
    `poly_degree_` that the calls before it have left, return it filled with zeros. -/
theorem encode_clean (cfg : RunConfig V) (env : Environment) :
    (∀ sax text root (log : Log V H) r past d slots ans rest,
      RuntimePlanJsonReader.readText sax text = .ok cfg.loadedPlan →
      JsonUtils.parse sax text RuntimePlanJsonReader.doc = .ok root →
      (run cfg env).Runs log r → log = past ++ ⟨.encodePlaintext d slots, ans⟩ :: rest →
        CleanEncode cfg env root d slots ∧
        (∀ cluster api rank, MockVecApi.handle cluster api rank (.encodePlaintext d slots)
            (polyDegreeAfter past) =
          .ret (.ok (filled cfg.resources.operatorSpec.spec.polyDegree d slots),
            polyDegreeAfter past)) ∧
        ∀ tagUpperBound rank, MpiVecApi.handle tagUpperBound rank (.encodePlaintext d slots)
            (polyDegreeAfter past) =
          .ret (.ok (filled cfg.resources.operatorSpec.spec.polyDegree d slots),
            polyDegreeAfter past)) ∧
    (∀ cluster api rank, KeepsPolyDegree (MockVecApi.handle cluster api rank)) ∧
    ∀ tagUpperBound rank, KeepsPolyDegree (MpiVecApi.handle tagUpperBound rank) := by
  refine ⟨?_, MockVecApi.keepsPolyDegree, fun _ _ => MpiVecApi.keepsPolyDegree _ _⟩
  rintro sax text root log r past d slots ans rest hread hroot hrun rfl
  have hdocument : RuntimePlanJsonReader.readDocument root = .ok (plan cfg) := by
    simp only [RuntimePlanJsonReader.readText, bind_eq_ok, hroot, Except.ok.injEq, exists_eq_left',
      pure_eq_ok] at hread
    obtain ⟨plan', hplan, _, -, heq⟩ := hread
    rw [hplan, plan, ← heq]
  have hcalls := ((run_cleanCall hdocument).runs hrun).2 past _ rest rfl
  obtain ⟨hclean, hdegree⟩ : CleanEncode cfg env root d slots ∧
    polyDegreeAfter past = cfg.resources.operatorSpec.spec.polyDegree := hcalls
  have hfilled := filled_of_cleanEncode hdocument hclean
  rw [hdegree]
  refine ⟨hclean, fun cluster api rank => ?_, fun tagUpperBound rank => ?_⟩
  · rw [← hfilled]
    rfl
  · rw [← hfilled]
    rfl

end SequentialRuntime

end CkksRuntime
