/-
  ckks-runtime formalization — plaintext-simulated values (`api/vec_value.hpp`,
  `api/vec_value.cpp`).

  A `VecValue` is a handle on a shared state.  The state of a value that was
  `ready` from the start never changes, so such a handle carries its payload; a
  `pending` handle names a cell, completed at most once by `fulfill` or `fail`.
  The kind and the metadata of a handle are known from its creation on.

  A computation that may block is in `ExceptT Fault Option`: `none` says that
  some cell it needs is not complete.
-/
import CkksRuntime.Plan

namespace CkksRuntime

structure VecMetadata where
  context : String
  degree : ℕ
  level : CInt
  scaleLog2 : CInt
  ntt : Bool
  components : CInt
  deriving DecidableEq, Repr

structure VecPayload where
  kind : ValueKind
  slots : List Double
  metadata : VecMetadata
  deriving DecidableEq, Repr

inductive VecValue where
  | ready (payload : VecPayload)
  | pending (kind : ValueKind) (metadata : VecMetadata) (cell : ℕ)
  deriving DecidableEq, Repr

/-- The completion of a pending value. -/
inductive Cell where
  | waiting
  | ready (payload : VecPayload)
  | failed (error : Fault)
  deriving DecidableEq, Repr

/-- A computation that may block on a cell, or throw. -/
abbrev Blocking := ExceptT Fault Option

theorem Blocking.bind_isSome {α β : Type} {x : Blocking α} {f : α → Blocking β}
    (hx : x.run.isSome) (hf : ∀ a, (f a).run.isSome) : (x >>= f).run.isSome := by
  obtain ⟨r, hr⟩ := Option.isSome_iff_exists.1 hx
  obtain rfl : x = some r := hr
  cases r with
  | ok a => exact hf a
  | error fault => rfl

namespace VecValue

def kind : VecValue → ValueKind
  | ready p => p.kind
  | pending k _ _ => k

def metadata : VecValue → VecMetadata
  | ready p => p.metadata
  | pending _ m _ => m

/-- The payload, once the value is complete. -/
def materialize (cells : ℕ → Cell) : VecValue → Blocking VecPayload
  | ready p => pure p
  | pending _ _ c =>
    match cells c with
    | .waiting => (none : Option (Except Fault VecPayload))
    | .ready p => pure p
    | .failed e => throw e

/-- The value is complete: it need not be waited for. -/
def Settled (cells : ℕ → Cell) (v : VecValue) : Prop := (v.materialize cells).run.isSome

theorem waiting_of_not_settled {cells : ℕ → Cell} {v : VecValue} (h : ¬ v.Settled cells) :
    ∃ kind metadata c, v = .pending kind metadata c ∧ cells c = .waiting := by
  cases v with
  | ready payload => exact absurd rfl h
  | pending kind metadata c =>
    refine ⟨kind, metadata, c, rfl, ?_⟩
    by_contra hne
    refine h ?_
    unfold Settled
    simp only [materialize]
    split
    · exact absurd ‹_› hne
    all_goals rfl

/-- `fulfill`: the completion of a pending value, refused when the payload is
    not of the promised kind and metadata or the value is complete. -/
def fulfill (kind : ValueKind) (metadata : VecMetadata) (cell : Cell) (payload : VecPayload) :
    Except Fault Cell :=
  if payload.kind ≠ kind ∨ payload.metadata ≠ metadata then
    .error (.runtimeError "VecValue fulfilled with wrong kind or metadata")
  else match cell with
    | .waiting => .ok (.ready payload)
    | _ => .error (.runtimeError "VecValue completed twice")

/-- `fail`: the failed completion of a pending value. -/
def fail (cell : Cell) (error : Fault) : Except Fault Cell :=
  match cell with
  | .waiting => .ok (.failed error)
  | _ => .error (.runtimeError "VecValue completed twice")

end VecValue

def makeValue (kind : ValueKind) (slots : List Double) (metadata : VecMetadata) :
    Except Fault VecValue :=
  if slots.isEmpty then .error (.runtimeError "VecValue requires at least one slot")
  else if metadata.context.isEmpty ∨ metadata.degree = 0 ∨ metadata.level < 0 ∨
      metadata.scaleLog2 < 0 then .error (.runtimeError "invalid VecValue metadata")
  else if kind = .ciphertext ∧ metadata.components < 2 then
    .error (.runtimeError "ciphertext requires at least two components")
  else .ok (.ready ⟨kind, slots,
    if kind = .plaintext then { metadata with components := 1 } else metadata⟩)

def makePlain (slots : List Double) (context : String) (degree : ℕ) (level scaleLog2 : CInt)
    (ntt : Bool) : Except Fault VecValue :=
  makeValue .plaintext slots ⟨context, degree, level, scaleLog2, ntt, 1⟩

def makeCipher (slots : List Double) (context : String) (degree : ℕ) (level scaleLog2 : CInt)
    (ntt : Bool) (components : CInt) : Except Fault VecValue :=
  makeValue .ciphertext slots ⟨context, degree, level, scaleLog2, ntt, components⟩

/-! ## The checks and the encoder shared by the Vec backends

`MockVecApi` and `MpiVecApi` carry the same `encode_plaintext` and the same
`validate_value`. -/

/-- `encode_plaintext`: the slots, filled with zeros up to the capacity. -/
def encodePlaintext (polyDegree : ℕ) (outputDesc : ValueDesc) (slots : List Double) :
    Except Fault VecValue :=
  let slotCapacity := polyDegree / 2
  if slots.length > slotCapacity then
    .error (.runtimeError "plaintext payload exceeds CKKS slot capacity")
  else makePlain (slots ++ List.replicate (slotCapacity - slots.length) 0#64) outputDesc.context
    polyDegree outputDesc.level outputDesc.scaleLog2 outputDesc.ntt

/-- An encoded value is ready. -/
theorem encodePlaintext_ready {polyDegree : ℕ} {d : ValueDesc} {values : List Double}
    {v : VecValue} (h : encodePlaintext polyDegree d values = .ok v) :
    ∃ payload, v = .ready payload := by
  unfold encodePlaintext makePlain makeValue at h
  dsimp only at h
  split_ifs at h <;> exact ⟨_, (Except.ok.inj h).symm⟩

/-- `validate_value`: the handle against the descriptor. -/
def validateValue (polyDegree : ℕ) (value : VecValue) (expected : ValueDesc) :
    Except Fault Unit :=
  let m := value.metadata
  if value.kind ≠ expected.kind ∨ m.context ≠ expected.context ∨ m.degree ≠ polyDegree ∨
      m.level ≠ expected.level ∨ m.scaleLog2 ≠ expected.scaleLog2 ∨ m.ntt ≠ expected.ntt ∨
      m.components ≠ expected.components then
    .error (.runtimeError ("Api value metadata does not match ValueDesc " ++ toString expected.id))
  else .ok ()

/-- A kind and metadata described by `d`, whatever the degree. -/
structure ValueDesc.Describes (d : ValueDesc) (kind : ValueKind) (m : VecMetadata) : Prop where
  kind : kind = d.kind
  context : m.context = d.context
  level : m.level = d.level
  scaleLog2 : m.scaleLog2 = d.scaleLog2
  ntt : m.ntt = d.ntt
  components : m.components = d.components

/-- `validate_value` accepts exactly the described values of the right degree. -/
theorem validateValue_eq_ok {polyDegree : ℕ} {v : VecValue} {d : ValueDesc} {u : Unit} :
    validateValue polyDegree v d = .ok u ↔
      d.Describes v.kind v.metadata ∧ v.metadata.degree = polyDegree := by
  unfold validateValue
  dsimp only
  split_ifs with h
  · constructor
    · rintro ⟨⟩
    · rintro ⟨⟨h1, h2, h3, h4, h5, h6⟩, h7⟩
      tauto
  · simp only [not_or, not_not] at h
    obtain ⟨h1, h2, h7, h3, h4, h5, h6⟩ := h
    simpa using ⟨⟨h1, h2, h3, h4, h5, h6⟩, h7⟩

end CkksRuntime
