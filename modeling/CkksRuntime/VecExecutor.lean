/-
  ckks-runtime formalization — the executor of compute operations on simulated
  values (`api/vec_api.cpp`).

  * `computeMetadata` is `VecExecutor::compute_metadata`, which reads only the
    handles;
  * `computeNow` is `VecExecutor::compute_now`, which needs the payloads and so
    may block on an operand (`Blocking`).

  Every `int` addition and subtraction on scales and components is checked: an
  overflow is the fault `undefined`, as is the remainder by an empty slot count.
-/
import CkksRuntime.VecValue

namespace CkksRuntime

variable [DoubleArith]

namespace VecExecutor

def error {α : Type} (what : String) : Except Fault α := .error (.runtimeError what)

/-- The common part of the two `binary` lambdas for a multiplication: the
    metadata of the product of `a` and `b`. -/
def multiplyMetadata (a b : VecMetadata) (rhsKind : ValueKind) : Except Fault VecMetadata := do
  let room ← CInt.sub CInt.max a.scaleLog2
  if b.scaleLog2 > room then error "multiplication scale overflow"
  let scaleLog2 ← CInt.add a.scaleLog2 b.scaleLog2
  if rhsKind = .ciphertext then
    let components ← CInt.add a.components (← CInt.sub b.components 1)
    return { a with scaleLog2 := scaleLog2, components := components }
  else return { a with scaleLog2 := scaleLog2 }

/-! ## `compute_metadata` -/

def unaryMetadata (inputs : List VecValue) : Except Fault VecMetadata :=
  match inputs with
  | [x] =>
    if x.kind ≠ .ciphertext then error "unary cipher operation type mismatch"
    else .ok x.metadata
  | _ => error "unary cipher operation type mismatch"

def binaryMetadata (inputs : List VecValue) (rhsKind : ValueKind) (multiply : Bool) :
    Except Fault VecMetadata :=
  match inputs with
  | [x, y] => do
    if x.kind ≠ .ciphertext ∨ y.kind ≠ rhsKind then error "binary operation type mismatch"
    let a := x.metadata
    let b := y.metadata
    if a.context ≠ b.context ∨ a.degree ≠ b.degree ∨ a.level ≠ b.level ∨ a.ntt ≠ b.ntt then
      error "incompatible VecValue metadata"
    if ¬ multiply ∧ a.scaleLog2 ≠ b.scaleLog2 then error "scale mismatch"
    if multiply then multiplyMetadata a b rhsKind else return a
  | _ => error "binary operation type mismatch"

def computeMetadata (op : ComputeOp) (inputs : List VecValue) : Except Fault VecMetadata :=
  match op.kind with
  | .addCC | .subCC => binaryMetadata inputs .ciphertext false
  | .addCP | .subCP => binaryMetadata inputs .plaintext false
  | .mulCC => binaryMetadata inputs .ciphertext true
  | .mulCP => binaryMetadata inputs .plaintext true
  | .negate | .rotate => unaryMetadata inputs
  | .rescale => do
    let metadata ← unaryMetadata inputs
    match op.attrs with
    | .rescale attrs =>
      if attrs.targetLevel ≥ metadata.level then error "rescale must lower level"
      else return { metadata with
        level := attrs.targetLevel, scaleLog2 := attrs.targetScaleLog2 }
    | _ => .error .badVariantAccess
  | .modSwitch => do
    let metadata ← unaryMetadata inputs
    match op.attrs with
    | .modSwitch attrs =>
      if attrs.targetLevel ≥ metadata.level then error "modswitch must lower level"
      else return { metadata with level := attrs.targetLevel }
    | _ => .error .badVariantAccess
  | .relinearize => do
    let metadata ← unaryMetadata inputs
    if metadata.components ≤ 2 then error "relinearize requires more than two components"
    else return { metadata with components := 2 }
  | .boot => do
    let metadata ← unaryMetadata inputs
    match op.attrs with
    | .boot attrs => return { metadata with
        level := attrs.targetLevel, scaleLog2 := attrs.targetScaleLog2,
        components := attrs.targetComponents }
    | _ => .error .badVariantAccess

/-! ## `compute_now` -/

def requireCompatible (a b : VecPayload) (checkScale : Bool) : Except Fault Unit := do
  if a.slots.length ≠ b.slots.length then error "slot count mismatch"
  if a.metadata.context ≠ b.metadata.context ∨ a.metadata.degree ≠ b.metadata.degree ∨
      a.metadata.level ≠ b.metadata.level ∨ a.metadata.ntt ≠ b.metadata.ntt then
    error "incompatible VecValue metadata"
  if checkScale ∧ a.metadata.scaleLog2 ≠ b.metadata.scaleLog2 then error "scale mismatch"

/-- The result of a binary operation on materialized operands. -/
def binaryPayload (a b : VecPayload) (rhsKind : ValueKind) (fn : Double → Double → Double)
    (multiply : Bool) : Except Fault VecPayload := do
  requireCompatible a b (!multiply)
  let slots := List.zipWith fn a.slots b.slots
  if multiply then
    let metadata ← multiplyMetadata a.metadata b.metadata rhsKind
    return { a with slots := slots, metadata := metadata }
  else return { a with slots := slots }

/-- The result of an operation with one operand, on the materialized operand. -/
def unaryPayload (op : ComputeOp) (a : VecPayload) : Except Fault VecPayload :=
  match op.kind with
  | .negate => .ok { a with slots := a.slots.map Double.neg }
  | .rotate =>
    match op.attrs with
    | .rotate attrs =>
      if a.slots.isEmpty then .error (.undefined "remainder by zero")
      else
        let n : ℤ := a.slots.length
        let remainder := attrs.steps.toInt.tmod n
        let shift := if remainder < 0 then remainder + n else remainder
        .ok { a with slots := a.slots.rotate shift.toNat }
    | _ => .error .badVariantAccess
  | .rescale =>
    match op.attrs with
    | .rescale attrs =>
      if attrs.targetLevel ≥ a.metadata.level then error "rescale must lower level"
      else if attrs.targetScaleLog2 < 0 then error "invalid rescaled scale"
      else .ok { a with metadata := { a.metadata with
        level := attrs.targetLevel, scaleLog2 := attrs.targetScaleLog2 } }
    | _ => .error .badVariantAccess
  | .modSwitch =>
    match op.attrs with
    | .modSwitch attrs =>
      if attrs.targetLevel ≥ a.metadata.level then error "modswitch must lower level"
      else .ok { a with metadata := { a.metadata with level := attrs.targetLevel } }
    | _ => .error .badVariantAccess
  | .relinearize =>
    if a.metadata.components ≤ 2 then error "relinearize requires more than two components"
    else .ok { a with metadata := { a.metadata with components := 2 } }
  | .boot =>
    match op.attrs with
    | .boot attrs => .ok { a with metadata := { a.metadata with
        level := attrs.targetLevel, scaleLog2 := attrs.targetScaleLog2,
        components := attrs.targetComponents } }
    | _ => .error .badVariantAccess
  | _ => error "unsupported compute operation"

def unaryCipher (cells : ℕ → Cell) (inputs : List VecValue) : Blocking VecPayload :=
  match inputs with
  | [x] =>
    if x.kind ≠ .ciphertext then throw (.runtimeError "unary cipher operation type mismatch")
    else x.materialize cells
  | _ => throw (.runtimeError "unary cipher operation type mismatch")

def binary (cells : ℕ → Cell) (inputs : List VecValue) (rhsKind : ValueKind)
    (fn : Double → Double → Double) (multiply : Bool) : Blocking VecPayload :=
  match inputs with
  | [x, y] =>
    if x.kind ≠ .ciphertext ∨ y.kind ≠ rhsKind then
      throw (.runtimeError "binary operation type mismatch")
    else do
      let a ← x.materialize cells
      let b ← y.materialize cells
      some (binaryPayload a b rhsKind fn multiply)
  | _ => throw (.runtimeError "binary operation type mismatch")

def computeNow (cells : ℕ → Cell) (op : ComputeOp) (inputs : List VecValue) :
    Blocking VecPayload :=
  match op.kind with
  | .addCC => binary cells inputs .ciphertext DoubleArith.add false
  | .addCP => binary cells inputs .plaintext DoubleArith.add false
  | .subCC => binary cells inputs .ciphertext DoubleArith.sub false
  | .subCP => binary cells inputs .plaintext DoubleArith.sub false
  | .mulCC => binary cells inputs .ciphertext DoubleArith.mul true
  | .mulCP => binary cells inputs .plaintext DoubleArith.mul true
  | _ => do
    let a ← unaryCipher cells inputs
    some (unaryPayload op a)

/-- On complete operands the computation ends, with a payload or an exception. -/
theorem computeNow_isSome {cells : ℕ → Cell} {op : ComputeOp} {inputs : List VecValue}
    (h : ∀ v ∈ inputs, v.Settled cells) : (computeNow cells op inputs).run.isSome := by
  have hbinary : ∀ rhsKind fn multiply,
      (binary cells inputs rhsKind fn multiply).run.isSome := by
    intro rhsKind fn multiply
    match inputs, h with
    | [], _ | [_], _ | _ :: _ :: _ :: _, _ => rfl
    | [x, y], h =>
      unfold binary
      dsimp only
      by_cases hk : x.kind ≠ .ciphertext ∨ y.kind ≠ rhsKind
      · rw [if_pos hk]
        rfl
      · rw [if_neg hk]
        exact Blocking.bind_isSome (h x (by simp)) fun a =>
          Blocking.bind_isSome (h y (by simp)) fun b => rfl
  have hunary : (unaryCipher cells inputs).run.isSome := by
    match inputs, h with
    | [], _ | _ :: _ :: _, _ => rfl
    | [x], h =>
      unfold unaryCipher
      dsimp only
      by_cases hk : x.kind ≠ .ciphertext
      · rw [if_pos hk]
        rfl
      · rw [if_neg hk]
        exact h x (by simp)
  unfold computeNow
  cases op.kind <;> first
    | exact hbinary _ _ _
    | exact Blocking.bind_isSome hunary fun a => rfl

end VecExecutor

end CkksRuntime
