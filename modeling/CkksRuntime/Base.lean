/-
  ckks-runtime formalization — the parts of C++ the modelled functions rest on:
  exceptions, 32-bit `int`, `long long`, checked and unchecked element access,
  and binary64 by its bit pattern.

  A function that may throw returns `Except Fault α`.  Undefined behaviour (an
  index outside a vector, a signed overflow, an empty `optional` dereferenced, a
  division by zero) is the fault `undefined`: it is never an exception that a
  handler of the source could catch.
-/
import Mathlib

namespace CkksRuntime

/-- Abnormal outcomes of a C++ function. -/
inductive Fault where
  | runtimeError (what : String)
  | outOfRange (what : String)
  | badVariantAccess
  | undefined (what : String)
  deriving DecidableEq, Repr

/-- Whether the outcome is an exception (undefined behaviour is not). -/
def Fault.isException : Fault → Bool
  | undefined _ => false
  | _ => true

/-- `error.what()`. -/
def Fault.what : Fault → String
  | runtimeError w | outOfRange w | undefined w => w
  | badVariantAccess => "bad_variant_access"

/-- The steps of a successful sequence. -/
theorem bind_eq_ok {α β : Type} {x : Except Fault α} {f : α → Except Fault β} {b : β} :
    (x >>= f) = .ok b ↔ ∃ a, x = .ok a ∧ f a = .ok b := by
  cases x <;> simp [bind, Except.bind]

@[simp] theorem pure_eq_ok {α : Type} {a b : α} :
    (pure a : Except Fault α) = .ok b ↔ a = b := by
  simp [pure, Except.pure]

/-- `if (condition) throw fault`. -/
def throwIf (condition : Prop) [Decidable condition] (fault : Fault) : Except Fault Unit :=
  if condition then .error fault else .ok ()

@[simp] theorem throwIf_eq_ok {c : Prop} [Decidable c] {fault : Fault} {u : Unit} :
    throwIf c fault = .ok u ↔ ¬ c := by
  unfold throwIf; split_ifs with h <;> simp [h]

/-- A successful fold that first runs over `xs` and then over `ys`. -/
theorem foldlM_append_eq_ok {σ α : Type} {f : σ → α → Except Fault σ} {xs ys : List α} {s t : σ} :
    (xs ++ ys).foldlM f s = .ok t ↔ ∃ r, xs.foldlM f s = .ok r ∧ ys.foldlM f r = .ok t := by
  rw [List.foldlM_append, bind_eq_ok]

theorem foldlM_cons_eq_ok {σ α : Type} {f : σ → α → Except Fault σ} {x : α} {xs : List α}
    {s t : σ} : (x :: xs).foldlM f s = .ok t ↔ ∃ r, f s x = .ok r ∧ xs.foldlM f r = .ok t := by
  rw [List.foldlM_cons, bind_eq_ok]

/-- A successful loop is a success for every element. -/
theorem forM_eq_ok {α : Type} {f : α → Except Fault Unit} {xs : List α} {u : Unit} :
    xs.forM f = .ok u ↔ ∀ x ∈ xs, f x = .ok () := by
  induction xs with
  | nil => exact ⟨fun _ => by simp, fun _ => rfl⟩
  | cons x xs ih =>
    have hcons : (x :: xs).forM f = (f x >>= fun _ => xs.forM f) := rfl
    rw [hcons, bind_eq_ok, List.forall_mem_cons, ← ih]
    exact ⟨fun ⟨_, hx, hxs⟩ => ⟨hx, hxs⟩, fun ⟨hx, hxs⟩ => ⟨_, hx, hxs⟩⟩

/-! ## Element access -/

/-- `xs[i]`: undefined outside the vector. -/
def index {α : Type} (xs : List α) (i : ℕ) : Except Fault α :=
  match xs[i]? with
  | some x => .ok x
  | none => .error (.undefined "index outside the vector")

/-- `xs.at(i)`: throws outside the vector. -/
def elemAt {α : Type} (xs : List α) (i : ℕ) : Except Fault α :=
  match xs[i]? with
  | some x => .ok x
  | none => .error (.outOfRange "vector::_M_range_check")

theorem index_eq_ok {α : Type} {xs : List α} {i : ℕ} {x : α} :
    index xs i = .ok x ↔ xs[i]? = some x := by
  unfold index; cases xs[i]? <;> simp

theorem elemAt_eq_ok {α : Type} {xs : List α} {i : ℕ} {x : α} :
    elemAt xs i = .ok x ↔ xs[i]? = some x := by
  unfold elemAt; cases xs[i]? <;> simp

/-! ## `int` -/

/-- A 32-bit `int`. -/
abbrev CInt := Int32

namespace CInt

/-- `std::numeric_limits<int>::max()`. -/
def max : CInt := Int32.maxValue

/-- The `int` with value `n`, if there is one; an overflow is undefined. -/
def ofInt? (n : ℤ) : Except Fault CInt :=
  if -2 ^ 31 ≤ n ∧ n < 2 ^ 31 then .ok (Int32.ofInt n)
  else .error (.undefined "signed integer overflow")

/-- `a + b`. -/
def add (a b : CInt) : Except Fault CInt := ofInt? (a.toInt + b.toInt)

/-- `a - b`. -/
def sub (a b : CInt) : Except Fault CInt := ofInt? (a.toInt - b.toInt)

theorem toInt_max : max.toInt = 2 ^ 31 - 1 := by decide

theorem ofInt?_eq_ok {n : ℤ} {c : CInt} : ofInt? n = .ok c ↔ c.toInt = n := by
  unfold ofInt?
  have hlo := c.le_toInt
  have hhi := c.toInt_lt
  split_ifs with h
  · have he := Int32.toInt_ofInt_of_le h.1 h.2
    constructor
    · rintro ⟨⟩; exact he
    · intro hc; rw [Except.ok.injEq, ← Int32.toInt_inj, he, hc]
  · constructor
    · rintro ⟨⟩
    · intro hc; omega

theorem add_eq_ok {a b c : CInt} : add a b = .ok c ↔ c.toInt = a.toInt + b.toInt :=
  ofInt?_eq_ok

theorem sub_eq_ok {a b c : CInt} : sub a b = .ok c ↔ c.toInt = a.toInt - b.toInt :=
  ofInt?_eq_ok

/-! ### Conversions from and to the 64-bit types -/

theorem toNat_toUInt64 {m : CInt} (h : 0 ≤ m) : (m.toInt64.toUInt64.toNat : ℤ) = m.toInt := by
  have h0 : 0 ≤ m.toInt := Int32.le_iff_toInt_le.1 h
  have h64 : (0 : Int64) ≤ m.toInt64 := by
    rw [Int64.le_iff_toInt_le, Int32.toInt_toInt64]; exact h0
  rw [Int64.toNat_toUInt64_of_le h64, Int32.toNatClampNeg_toInt64, Int32.toNatClampNeg]
  exact Int.toNat_of_nonneg h0

theorem toInt_ofUInt64 {u : UInt64} (h : u.toNat < 2 ^ 31) :
    u.toUInt32.toInt32.toInt = u.toNat := by
  have h32 : u.toUInt32.toNat = u.toNat := by
    rw [UInt64.toNat_toUInt32, Nat.mod_eq_of_lt (by omega)]
  show u.toUInt32.toInt32.toBitVec.toInt = _
  rw [UInt32.toBitVec_toInt32, BitVec.toInt_eq_toNat_of_lt]
  · show (u.toUInt32.toNat : ℤ) = _
    rw [h32]
  · show 2 * u.toUInt32.toNat < _
    omega

theorem toInt_ofInt64 {n : Int64} (h : -2 ^ 31 ≤ n.toInt) (h' : n.toInt < 2 ^ 31) :
    n.toInt32.toInt = n.toInt := by
  rw [Int64.toInt_toInt32]
  exact Int.bmod_eq_of_le (by omega) (by omega)

end CInt

/-! ## `long long` -/

namespace LongLong

/-- The `long long` with value `n`, if there is one; an overflow is undefined. -/
def ofInt? (n : ℤ) : Except Fault ℤ :=
  if -2 ^ 63 ≤ n ∧ n < 2 ^ 63 then .ok n else .error (.undefined "signed integer overflow")

/-- `a + b`. -/
def add (a b : ℤ) : Except Fault ℤ := ofInt? (a + b)

/-- `a - b`. -/
def sub (a b : ℤ) : Except Fault ℤ := ofInt? (a - b)

/-- `a % b`, which truncates; undefined for `b = 0` and where the quotient overflows. -/
def rem (a b : ℤ) : Except Fault ℤ :=
  if b = 0 ∨ (a = -2 ^ 63 ∧ b = -1) then .error (.undefined "remainder without a quotient")
  else .ok (a.tmod b)

theorem ofInt?_eq_ok {n m : ℤ} : ofInt? n = .ok m ↔ (-2 ^ 63 ≤ n ∧ n < 2 ^ 63) ∧ n = m := by
  unfold ofInt?
  split_ifs with h
  · exact ⟨fun heq => ⟨h, Except.ok.inj heq⟩, fun heq => congrArg _ heq.2⟩
  · exact ⟨nofun, fun heq => absurd heq.1 h⟩

theorem add_eq_ok {a b c : ℤ} :
    add a b = .ok c ↔ (-2 ^ 63 ≤ a + b ∧ a + b < 2 ^ 63) ∧ a + b = c :=
  ofInt?_eq_ok

theorem sub_eq_ok {a b c : ℤ} :
    sub a b = .ok c ↔ (-2 ^ 63 ≤ a - b ∧ a - b < 2 ^ 63) ∧ a - b = c :=
  ofInt?_eq_ok

theorem rem_eq_ok {a b c : ℤ} :
    rem a b = .ok c ↔ ¬ (b = 0 ∨ (a = -2 ^ 63 ∧ b = -1)) ∧ a.tmod b = c := by
  unfold rem
  split_ifs with h
  · exact ⟨nofun, fun heq => absurd h heq.1⟩
  · exact ⟨fun heq => ⟨h, Except.ok.inj heq⟩, fun heq => congrArg _ heq.2⟩

end LongLong

/-! ## Binary64 -/

/-- A `double`, by its bit pattern. -/
abbrev Double := BitVec 64

namespace Double

/-- `x == 0.0`: both zeros. -/
def isZero (x : Double) : Bool := x &&& 0x7fffffffffffffff#64 == 0#64

/-- `std::isfinite(x)`: the exponent field is not all ones. -/
def isFinite (x : Double) : Bool := x &&& 0x7ff0000000000000#64 != 0x7ff0000000000000#64

/-- `x < 0.0`, for a finite `x`. -/
def isNegative (x : Double) : Bool := x.msb && !x.isZero

/-- `-x`: the sign bit is flipped. -/
def neg (x : Double) : Double := x ^^^ 0x8000000000000000#64

/-- `x == 0.0 ? 0.0 : x`. -/
def normalizeZero (x : Double) : Double := if x.isZero then 0#64 else x

end Double

/-- The binary64 operations of the target machine.  Nothing here depends on
    which rounding they implement. -/
class DoubleArith where
  add : Double → Double → Double
  sub : Double → Double → Double
  mul : Double → Double → Double
  ofUInt64 : UInt64 → Double
  ofInt64 : Int64 → Double

/-- Binary64 arithmetic as far as positive zero goes. -/
@[reducible] def zeroArith : DoubleArith :=
  ⟨fun _ _ => 0#64, fun _ _ => 0#64, fun _ _ => 0#64, fun _ => 0#64, fun _ => 0#64⟩

end CkksRuntime
