/-
  ckks-runtime formalization — the runtime plan (`runtime/plan.hpp`,
  `runtime/plan.cpp`): values with their places and CKKS metadata, the three
  instruction bodies, the three phases, and the `to_string` functions used in
  error texts.

  The fields of type `int` are 32-bit integers (`CInt`); identifiers, ordinals
  and sizes are natural numbers.
-/
import CkksRuntime.Base

namespace CkksRuntime

abbrev ValueId := ℕ
abbrev TransferId := ℕ

inductive ValueKind where
  | plaintext | ciphertext
  deriving DecidableEq, Repr

inductive PlaceKind where
  | host | device
  deriving DecidableEq, Repr

structure Place where
  kind : PlaceKind := .host
  rank : CInt := 0
  index : CInt := 0
  deriving DecidableEq, Repr

inductive ComputeKind where
  | addCC | addCP | subCC | subCP | mulCC | mulCP
  | negate | rotate | rescale | modSwitch | relinearize | boot
  deriving DecidableEq, Repr

inductive CommKind where
  | transfer | replicate
  deriving DecidableEq, Repr

inductive CommHint where
  | auto | pointToPoint | broadcast | tree | ring | hostStaged
  deriving DecidableEq, Repr

inductive Phase where
  | initialization | execution | finalization
  deriving DecidableEq, Repr

inductive RescaleMode where
  | eager | lazy
  deriving DecidableEq, Repr

inductive BootImplementation where
  | native | decryptReencrypt
  deriving DecidableEq, Repr

inductive RequiredCapability where
  | encode | transfer | replicate | hostCompute | bootNative | bootDecryptReencrypt
  deriving DecidableEq, Repr

inductive KeyKind where
  | secret | relin | galois
  deriving DecidableEq, Repr

structure RotateAttrs where
  steps : CInt := 0
  deriving DecidableEq, Repr

structure RescaleAttrs where
  targetLevel : CInt := 0
  targetScaleLog2 : CInt := 0
  deriving DecidableEq, Repr

structure ModSwitchAttrs where
  targetLevel : CInt := 0
  deriving DecidableEq, Repr

structure BootAttrs where
  targetLevel : CInt := 0
  targetScaleLog2 : CInt := 0
  targetComponents : CInt := 2
  operatorProfile : String
  implementation : BootImplementation := .native
  deriving DecidableEq, Repr

/-- `std::variant` of the attributes; `monostate` for the operations without. -/
inductive ComputeAttrs where
  | monostate
  | rotate (attrs : RotateAttrs)
  | rescale (attrs : RescaleAttrs)
  | modSwitch (attrs : ModSwitchAttrs)
  | boot (attrs : BootAttrs)
  deriving DecidableEq, Repr

inductive EncodePayload where
  | inline (values : List Double)
  | bundle (content : String)
  deriving DecidableEq, Repr

structure EncodeOp where
  payload : EncodePayload
  output : ValueId
  deriving DecidableEq, Repr

structure ComputeOp where
  kind : ComputeKind
  inputs : List ValueId
  output : ValueId
  place : Place
  attrs : ComputeAttrs := .monostate
  deriving DecidableEq, Repr

structure CommAction where
  id : TransferId
  kind : CommKind
  hint : CommHint
  inputs : List ValueId
  outputs : List ValueId
  sources : List Place
  destinations : List Place
  outputTypes : List ValueKind
  deriving DecidableEq, Repr

inductive InstructionBody where
  | encode (op : EncodeOp)
  | compute (op : ComputeOp)
  | comm (action : CommAction)
  deriving DecidableEq, Repr

structure Instruction where
  ordinal : ℕ
  body : InstructionBody
  deriving DecidableEq, Repr

structure ValueDesc where
  id : ValueId
  kind : ValueKind
  place : Place
  context : String
  level : CInt
  scaleLog2 : CInt
  ntt : Bool
  components : CInt
  deriving DecidableEq, Repr

structure OperatorSpecRef where
  id : String
  version : CInt
  sourceSha256 : String
  deriving DecidableEq, Repr

structure PlaintextBundleRef where
  id : String
  version : CInt
  manifestSha256 : String
  deriving DecidableEq, Repr

structure KeyRequirement where
  kind : KeyKind
  place : Place
  rotationStep : Option CInt
  deriving DecidableEq, Repr

structure PlanRequirements where
  capabilities : List RequiredCapability
  keys : List KeyRequirement
  deriving DecidableEq, Repr

structure TargetConfig where
  targetId : String
  worldSize : CInt
  deviceCounts : List CInt
  capabilityVersion : CInt
  operatorSpec : OperatorSpecRef
  deriving DecidableEq, Repr

structure RuntimePlan where
  formatVersion : ℕ := 1
  planId : ℕ
  target : TargetConfig
  plaintextBundle : Option PlaintextBundleRef
  values : List ValueDesc
  externalInputs : List ValueId
  initialization : List Instruction
  execution : List Instruction
  finalization : List Instruction
  finalOutputs : List ValueId
  deriving DecidableEq, Repr

structure LoadedRuntimePlan where
  plan : RuntimePlan
  sourceSha256 : String
  deriving DecidableEq, Repr

/-! ## Orders of the `std::set`s -/

/-- The underlying values of the enumerations, by which they are ordered. -/
def PlaceKind.toNat : PlaceKind → ℕ
  | host => 0 | device => 1

def RequiredCapability.toNat : RequiredCapability → ℕ
  | encode => 0 | transfer => 1 | replicate => 2 | hostCompute => 3 | bootNative => 4
  | bootDecryptReencrypt => 5

def KeyKind.toNat : KeyKind → ℕ
  | secret => 0 | relin => 1 | galois => 2

/-- `operator<` on places: lexicographic in kind, rank and index. -/
def Place.lt (a b : Place) : Bool :=
  if a.kind ≠ b.kind then a.kind.toNat < b.kind.toNat
  else if a.rank ≠ b.rank then a.rank < b.rank
  else a.index < b.index

/-- `operator<` on `std::optional<int>`: `nullopt` first. -/
def optionalLt : Option CInt → Option CInt → Bool
  | none, some _ => true
  | some a, some b => a < b
  | _, none => false

/-- `operator<` on key requirements. -/
def KeyRequirement.lt (a b : KeyRequirement) : Bool :=
  if a.kind ≠ b.kind then a.kind.toNat < b.kind.toNat
  else if a.place ≠ b.place then a.place.lt b.place
  else optionalLt a.rotationStep b.rotationStep

/-- `std::set::insert` into the ascending list of the elements. -/
def setInsert {α : Type} (lt : α → α → Bool) (a : α) : List α → List α
  | [] => [a]
  | b :: bs => if lt a b then a :: b :: bs else if lt b a then b :: setInsert lt a bs else b :: bs

theorem mem_setInsert_of_mem {α : Type} {lt : α → α → Bool} {a b : α} {l : List α} (h : b ∈ l) :
    b ∈ setInsert lt a l := by
  induction l with
  | nil => simp at h
  | cons c l ih =>
    rw [setInsert]
    split_ifs
    · exact List.mem_cons_of_mem _ h
    · rcases List.mem_cons.1 h with rfl | h
      exacts [List.mem_cons_self, List.mem_cons_of_mem _ (ih h)]
    · exact h

theorem mem_setInsert_self {α : Type} {lt : α → α → Bool}
    (hlt : ∀ a b, lt a b = false → lt b a = false → a = b) (a : α) (l : List α) :
    a ∈ setInsert lt a l := by
  induction l with
  | nil => simp [setInsert]
  | cons c l ih =>
    rw [setInsert]
    split_ifs with h₁ h₂
    · exact List.mem_cons_self
    · exact List.mem_cons_of_mem _ ih
    · rw [hlt a c (by simpa using h₁) (by simpa using h₂)]
      exact List.mem_cons_self

section SetInsert
variable {α κ : Type} [LinearOrder κ] {lt : α → α → Bool} {key : α → κ}

theorem mem_setInsert (hlt : ∀ a b, lt a b = true ↔ key a < key b)
    (hkey : Function.Injective key) {a x : α} {l : List α} : x ∈ setInsert lt a l ↔ x = a ∨ x ∈ l := by
  have htotal : ∀ a b, lt a b = false → lt b a = false → a = b := by
    intro a b hab hba
    rw [Bool.eq_false_iff, ne_eq, hlt, not_lt] at hab hba
    exact hkey (le_antisymm hba hab)
  refine ⟨fun hx => ?_, ?_⟩
  · induction l with
    | nil => simpa [setInsert] using hx
    | cons b l ih =>
      rw [setInsert] at hx
      split_ifs at hx
      · simpa using hx
      · rcases List.mem_cons.1 hx with rfl | hx
        · simp
        · rcases ih hx with rfl | hx <;> simp [*]
      · exact Or.inr hx
  · rintro (rfl | hx)
    · exact mem_setInsert_self htotal x l
    · exact mem_setInsert_of_mem hx

/-- Insertion keeps the list strictly increasing. -/
theorem pairwise_setInsert (hlt : ∀ a b, lt a b = true ↔ key a < key b)
    (hkey : Function.Injective key) {a : α} {l : List α} (h : l.Pairwise fun a b => lt a b = true) :
    (setInsert lt a l).Pairwise fun a b => lt a b = true := by
  induction l with
  | nil => simp [setInsert]
  | cons b l ih =>
    obtain ⟨hb, hl⟩ := List.pairwise_cons.1 h
    rw [setInsert]
    split_ifs with hab hba
    · refine List.pairwise_cons.2 ⟨fun c hc => ?_, h⟩
      rcases List.mem_cons.1 hc with rfl | hc
      · exact hab
      · exact (hlt _ _).2 (lt_trans ((hlt _ _).1 hab) ((hlt _ _).1 (hb c hc)))
    · refine List.pairwise_cons.2 ⟨fun c hc => ?_, ih hl⟩
      rcases (mem_setInsert hlt hkey).1 hc with rfl | hc
      · exact hba
      · exact hb c hc
    · exact h

end SetInsert

/-- The elements of a list, collected in a set. -/
theorem mem_foldl_setInsert {α : Type} {lt : α → α → Bool}
    (hlt : ∀ a b, lt a b = false → lt b a = false → a = b) {a : α} (l : List α) :
    ∀ {s : List α}, a ∈ s ∨ a ∈ l → a ∈ l.foldl (fun s c => setInsert lt c s) s := by
  induction l with
  | nil => intro s h; simpa using h
  | cons c l ih =>
    intro s h
    refine ih ?_
    rcases h with h | h
    · exact Or.inl (mem_setInsert_of_mem h)
    · rcases List.mem_cons.1 h with rfl | h
      exacts [Or.inl (mem_setInsert_self hlt a s), Or.inr h]

/-! ## `to_string` -/

def ValueKind.toString : ValueKind → String
  | plaintext => "Plaintext" | ciphertext => "Ciphertext"

def Place.toString (p : Place) : String :=
  match p.kind with
  | .host => s!"Host(rank={p.rank})"
  | .device => s!"Device(rank={p.rank},index={p.index})"

def ComputeKind.toString : ComputeKind → String
  | addCC => "AddCC" | addCP => "AddCP" | subCC => "SubCC" | subCP => "SubCP"
  | mulCC => "MulCC" | mulCP => "MulCP" | negate => "Negate" | rotate => "Rotate"
  | rescale => "Rescale" | modSwitch => "ModSwitch" | relinearize => "Relinearize"
  | boot => "Boot"

def CommKind.toString : CommKind → String
  | transfer => "Transfer" | replicate => "Replicate"

def RequiredCapability.toString : RequiredCapability → String
  | encode => "encode" | transfer => "transfer" | replicate => "replicate"
  | hostCompute => "host_compute" | bootNative => "boot_native"
  | bootDecryptReencrypt => "boot_decrypt_reencrypt"

def KeyKind.toString : KeyKind → String
  | secret => "secret" | relin => "relin" | galois => "galois"

/-! ## Reading a plan -/

/-- The values an instruction reads. -/
def InstructionBody.inputs : InstructionBody → List ValueId
  | encode _ => []
  | compute op => op.inputs
  | comm action => action.inputs

/-- The values an instruction defines. -/
def InstructionBody.outputs : InstructionBody → List ValueId
  | encode op => [op.output]
  | compute op => [op.output]
  | comm action => action.outputs

namespace RuntimePlan

/-- The instructions of the three phases, in execution order. -/
def instructions (plan : RuntimePlan) : List Instruction :=
  plan.initialization ++ plan.execution ++ plan.finalization

/-- The descriptor of a value: the first entry with its id. -/
def desc? (plan : RuntimePlan) (id : ValueId) : Option ValueDesc :=
  plan.values.find? fun v => v.id == id

/-- Every position where a value is defined: the external inputs, then the
    instruction outputs. -/
def definitions (plan : RuntimePlan) : List ValueId :=
  plan.externalInputs ++ plan.instructions.flatMap fun i => i.body.outputs

/-- The communication actions, in plan order. -/
def actions (plan : RuntimePlan) : List CommAction :=
  plan.instructions.filterMap fun i =>
    match i.body with
    | .comm action => some action
    | _ => none

end RuntimePlan

end CkksRuntime
