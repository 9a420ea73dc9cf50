/-
  Interactive programs.

  * `Prog Op Ans α`: a program that calls operations `op : Op`, is given answers
    in `Ans op`, and returns an `α`.
  * `Runs p log a`: a run of `p` with the calls and answers `log` returns `a`.
  * `Rel R p q`: `p` and `q` make the same calls and return related results.
  * `against respond`: the run in an environment that answers by the history.
  * `interp h p`: the calls of `p` carried out by programs over other operations.
  * `Comp Op Ans S E α`: an interactive program with a state, which survives
    exceptions; `outcome` and `Calls` are for those without one.
-/
import Mathlib.Tactic.Common

namespace Interaction

/-- A program that interacts with its environment by calls. -/
inductive Prog (Op : Type) (Ans : Op → Type) (α : Type) where
  | ret (a : α)
  | call (op : Op) (k : Ans op → Prog Op Ans α)

/-- A call with its answer. -/
structure Event (Op : Type) (Ans : Op → Type) where
  op : Op
  ans : Ans op

variable {Op : Type} {Ans : Op → Type} {Op' : Type} {Ans' : Op' → Type} {α β γ : Type}

namespace Prog

def bind : Prog Op Ans α → (α → Prog Op Ans β) → Prog Op Ans β
  | ret a, f => f a
  | call op k, f => call op fun ans => bind (k ans) f

instance : Monad (Prog Op Ans) where
  pure := ret
  bind := bind

@[simp] theorem ret_bind (a : α) (f : α → Prog Op Ans β) : (ret a >>= f) = f a := rfl

@[simp] theorem pure_eq_ret (a : α) : (pure a : Prog Op Ans α) = ret a := rfl

@[simp] theorem call_bind (op : Op) (k : Ans op → Prog Op Ans α) (f : α → Prog Op Ans β) :
    (call op k >>= f) = call op fun ans => k ans >>= f := rfl

@[simp] theorem bind_ret (p : Prog Op Ans α) : p >>= ret = p := by
  induction p with
  | ret a => rfl
  | call op k ih => rw [call_bind]; exact congrArg _ (funext ih)

theorem bind_assoc (p : Prog Op Ans α) (f : α → Prog Op Ans β) (g : β → Prog Op Ans γ) :
    (p >>= f) >>= g = p >>= fun a => f a >>= g := by
  induction p with
  | ret a => rfl
  | call op k ih => rw [call_bind, call_bind, call_bind]; exact congrArg _ (funext ih)

/-! ## Runs -/

/-- A run, with its calls and answers. -/
inductive Runs : Prog Op Ans α → List (Event Op Ans) → α → Prop
  | ret {a} : Runs (ret a) [] a
  | call {op k ans log a} : Runs (k ans) log a → Runs (call op k) (⟨op, ans⟩ :: log) a

theorem runs_ret {a b : α} {log : List (Event Op Ans)} :
    Runs (ret a) log b ↔ log = [] ∧ a = b := by
  constructor
  · rintro ⟨⟩; exact ⟨rfl, rfl⟩
  · rintro ⟨rfl, rfl⟩; exact .ret

theorem runs_call {op : Op} {k : Ans op → Prog Op Ans α} {log : List (Event Op Ans)} {a : α} :
    Runs (call op k) log a ↔ ∃ ans rest, log = ⟨op, ans⟩ :: rest ∧ Runs (k ans) rest a := by
  constructor
  · rintro ⟨⟩; exact ⟨_, _, rfl, by assumption⟩
  · rintro ⟨ans, rest, rfl, h⟩; exact .call h

theorem runs_bind {p : Prog Op Ans α} {f : α → Prog Op Ans β} {log : List (Event Op Ans)} {b : β} :
    Runs (p >>= f) log b ↔
      ∃ log₁ log₂ a, log = log₁ ++ log₂ ∧ Runs p log₁ a ∧ Runs (f a) log₂ b := by
  induction p generalizing log with
  | ret a =>
    rw [ret_bind]
    constructor
    · intro h; exact ⟨[], log, a, rfl, .ret, h⟩
    · rintro ⟨log₁, log₂, a', rfl, h₁, h₂⟩
      obtain ⟨rfl, rfl⟩ := runs_ret.1 h₁
      exact h₂
  | call op k ih =>
    rw [call_bind, runs_call]
    constructor
    · rintro ⟨ans, rest, rfl, h⟩
      obtain ⟨log₁, log₂, a, rfl, h₁, h₂⟩ := (ih ans).1 h
      exact ⟨_ :: log₁, log₂, a, rfl, .call h₁, h₂⟩
    · rintro ⟨log₁, log₂, a, rfl, h₁, h₂⟩
      obtain ⟨ans, rest, rfl, hk⟩ := runs_call.1 h₁
      exact ⟨ans, rest ++ log₂, rfl, (ih ans).2 ⟨rest, log₂, a, rfl, hk, h₂⟩⟩

/-- The run in which the environment answers by a function. -/
def play (answer : ∀ op, Ans op) : Prog Op Ans α → List (Event Op Ans) × α
  | ret a => ([], a)
  | call op k => (⟨op, answer op⟩ :: (play answer (k (answer op))).1,
      (play answer (k (answer op))).2)

theorem runs_play (answer : ∀ op, Ans op) (p : Prog Op Ans α) :
    Runs p (p.play answer).1 (p.play answer).2 := by
  induction p with
  | ret a => exact .ret
  | call op k ih => exact .call (ih _)

theorem play_bind (answer : ∀ op, Ans op) (p : Prog Op Ans α) (f : α → Prog Op Ans β) :
    (p >>= f).play answer =
      ((p.play answer).1 ++ ((f (p.play answer).2).play answer).1,
        ((f (p.play answer).2).play answer).2) := by
  induction p with
  | ret a => rfl
  | call op k ih =>
    rw [call_bind, play, play, ih]
    rfl

/-- The run depends only on the answers to its calls. -/
theorem play_congr {answer answer' : ∀ op, Ans op} (p : Prog Op Ans α)
    (h : ∀ e ∈ (p.play answer).1, answer e.op = answer' e.op) : p.play answer = p.play answer' := by
  induction p with
  | ret a => rfl
  | call op k ih =>
    rw [play] at h
    obtain ⟨hop, hrest⟩ := List.forall_mem_cons.1 h
    dsimp only at hop
    rw [play, play, ih _ hrest, hop]

/-! ## Relating programs -/

/-- Two programs that make the same calls and return related results. -/
inductive Rel (R : α → β → Prop) : Prog Op Ans α → Prog Op Ans β → Prop
  | ret {a b} : R a b → Rel R (ret a) (ret b)
  | call {op k k'} : (∀ ans, Rel R (k ans) (k' ans)) → Rel R (call op k) (call op k')

theorem Rel.mono {R S : α → β → Prop} {p : Prog Op Ans α} {q : Prog Op Ans β} (h : Rel R p q)
    (hRS : ∀ a b, R a b → S a b) : Rel S p q := by
  induction h with
  | ret h => exact .ret (hRS _ _ h)
  | call _ ih => exact .call ih

theorem Rel.bind {R : α → β → Prop} {α' β' : Type} {S : α' → β' → Prop} {p : Prog Op Ans α}
    {q : Prog Op Ans β} {f : α → Prog Op Ans α'} {g : β → Prog Op Ans β'} (h : Rel R p q)
    (hfg : ∀ a b, R a b → Rel S (f a) (g b)) : Rel S (p >>= f) (q >>= g) := by
  induction h with
  | ret h => exact hfg _ _ h
  | call _ ih => exact .call ih

theorem Rel.refl {R : α → α → Prop} (hR : ∀ a, R a a) (p : Prog Op Ans α) : Rel R p p := by
  induction p with
  | ret a => exact .ret (hR a)
  | call op k ih => exact .call ih

/-- Programs that return equal results after the same calls are equal. -/
theorem Rel.eq {p q : Prog Op Ans α} (h : Rel Eq p q) : p = q := by
  induction h with
  | ret h => rw [h]
  | call _ ih => exact congrArg _ (funext ih)

/-- A run of the left program is matched by the right one, with the same log. -/
theorem Rel.runs {R : α → β → Prop} {p : Prog Op Ans α} {q : Prog Op Ans β} (h : Rel R p q)
    {log : List (Event Op Ans)} {a : α} (hp : Runs p log a) : ∃ b, Runs q log b ∧ R a b := by
  induction h generalizing log with
  | ret h =>
    obtain ⟨rfl, rfl⟩ := runs_ret.1 hp
    exact ⟨_, .ret, h⟩
  | call _ ih =>
    obtain ⟨ans, rest, rfl, hk⟩ := runs_call.1 hp
    obtain ⟨b, hq, hR⟩ := ih ans hk
    exact ⟨b, .call hq, hR⟩

theorem Rel.trans {R : α → β → Prop} {S : β → γ → Prop} {p : Prog Op Ans α} {q : Prog Op Ans β}
    {r : Prog Op Ans γ} (h : Rel R p q) (h' : Rel S q r) : Rel (fun a c => ∃ b, R a b ∧ S b c) p r := by
  induction h generalizing r with
  | ret hab => cases h' with | ret hbc => exact .ret ⟨_, hab, hbc⟩
  | call _ ih => cases h' with | call h' => exact .call fun ans => ih ans (h' ans)

/-- The run against an environment that answers by the history of the calls. -/
def against (respond : List (Event Op Ans) → ∀ op, Ans op) :
    List (Event Op Ans) → Prog Op Ans α → List (Event Op Ans) × α
  | past, ret a => (past, a)
  | past, call op k =>
    against respond (past ++ [⟨op, respond past op⟩]) (k (respond past op))

/-- Related programs cannot be told apart by an environment. -/
theorem Rel.against {R : α → β → Prop} {p : Prog Op Ans α} {q : Prog Op Ans β} (h : Rel R p q)
    (respond : List (Event Op Ans) → ∀ op, Ans op) (past : List (Event Op Ans)) :
    (p.against respond past).1 = (q.against respond past).1 ∧
      R (p.against respond past).2 (q.against respond past).2 := by
  induction h generalizing past with
  | ret h => exact ⟨rfl, h⟩
  | call _ ih => exact ih _ _

/-! ## Interpretation -/

/-- The calls of a program carried out by programs with a state of their own. -/
def interp {L : Type} (h : ∀ op, L → Prog Op' Ans' (Ans op × L)) :
    Prog Op Ans α → L → Prog Op' Ans' (α × L)
  | ret a, l => ret (a, l)
  | call op k, l => h op l >>= fun r => interp h (k r.1) r.2

theorem interp_bind {L : Type} (h : ∀ op, L → Prog Op' Ans' (Ans op × L)) (p : Prog Op Ans α)
    (f : α → Prog Op Ans β) (l : L) :
    interp h (p >>= f) l = interp h p l >>= fun r => interp h (f r.1) r.2 := by
  induction p generalizing l with
  | ret a => rfl
  | call op k ih =>
    rw [call_bind, interp, interp, bind_assoc]
    exact congrArg _ (funext fun r => ih r.1 r.2)

end Prog

/-! ## State and exceptions -/

/-- An interactive program over a state; the state survives an exception. -/
def Comp (Op : Type) (Ans : Op → Type) (S E α : Type) : Type :=
  S → Prog Op Ans (Except E α × S)

namespace Comp

variable {S T E : Type}

/-- What follows a step that may have thrown. -/
def next (f : α → Comp Op Ans S E β) (r : Except E α × S) : Prog Op Ans (Except E β × S) :=
  match r.1 with
  | .ok a => f a r.2
  | .error e => .ret (.error e, r.2)

instance : Monad (Comp Op Ans S E) where
  pure a := fun s => .ret (.ok a, s)
  bind x f := fun s => x s >>= next f

def get : Comp Op Ans S E S := fun s => .ret (.ok s, s)

def modify (f : S → S) : Comp Op Ans S E Unit := fun s => .ret (.ok (), f s)

def throw (e : E) : Comp Op Ans S E α := fun s => .ret (.error e, s)

/-- Throw unless a condition fails. -/
def throwIf (c : Prop) [Decidable c] (e : E) : Comp Op Ans S E Unit :=
  fun s => .ret (if c then .error e else .ok (), s)

/-- A computation that may throw. -/
def ofExcept (x : Except E α) : Comp Op Ans S E α := fun s => .ret (x, s)

/-- A call, whose answer may be an exception. -/
def call (op : Op) (result : Ans op → Except E α) : Comp Op Ans S E α :=
  fun s => .call op fun ans => .ret (result ans, s)

variable {s : S}

@[simp] theorem pure_apply (a : α) :
    (pure a : Comp Op Ans S E α) s = .ret (.ok a, s) := rfl

theorem bind_apply (x : Comp Op Ans S E α) (f : α → Comp Op Ans S E β) :
    (x >>= f) s = x s >>= next f := rfl

@[simp] theorem next_ok (f : α → Comp Op Ans S E β) (a : α) : next f (.ok a, s) = f a s := rfl

@[simp] theorem next_error (f : α → Comp Op Ans S E β) (e : E) :
    next f (.error e, s) = .ret (.error e, s) := rfl

@[simp] theorem get_apply : (get : Comp Op Ans S E S) s = .ret (.ok s, s) := rfl

@[simp] theorem modify_apply (f : S → S) :
    (modify f : Comp Op Ans S E Unit) s = .ret (.ok (), f s) := rfl

@[simp] theorem throw_apply (e : E) :
    (throw e : Comp Op Ans S E α) s = .ret (.error e, s) := rfl

@[simp] theorem throwIf_apply (c : Prop) [Decidable c] (e : E) :
    (throwIf c e : Comp Op Ans S E Unit) s = .ret (if c then .error e else .ok (), s) := rfl

@[simp] theorem ofExcept_apply (x : Except E α) :
    (ofExcept x : Comp Op Ans S E α) s = .ret (x, s) := rfl

@[simp] theorem get_bind (f : S → Comp Op Ans S E β) :
    ((get : Comp Op Ans S E S) >>= f) s = f s s := rfl

@[simp] theorem modify_bind (g : S → S) (f : Unit → Comp Op Ans S E β) :
    ((modify g : Comp Op Ans S E Unit) >>= f) s = f () (g s) := rfl

@[simp] theorem throw_bind (e : E) (f : α → Comp Op Ans S E β) :
    ((throw e : Comp Op Ans S E α) >>= f) s = .ret (.error e, s) := rfl

@[simp] theorem ofExcept_bind_ok (a : α) (f : α → Comp Op Ans S E β) :
    ((ofExcept (.ok a) : Comp Op Ans S E α) >>= f) s = f a s := rfl

@[simp] theorem ofExcept_bind_error (e : E) (f : α → Comp Op Ans S E β) :
    ((ofExcept (.error e) : Comp Op Ans S E α) >>= f) s = .ret (.error e, s) := rfl

theorem throwIf_bind (c : Prop) [Decidable c] (e : E) (f : Unit → Comp Op Ans S E β) :
    ((throwIf c e : Comp Op Ans S E Unit) >>= f) s =
      if c then .ret (.error e, s) else f () s := by
  rw [bind_apply, throwIf_apply, Prog.ret_bind]
  split_ifs <;> rfl

theorem call_bind (op : Op) (result : Ans op → Except E α) (f : α → Comp Op Ans S E β) :
    ((call op result : Comp Op Ans S E α) >>= f) s =
      .call op fun ans => next f (result ans, s) := rfl

theorem call_apply (op : Op) (result : Ans op → Except E α) :
    (call op result : Comp Op Ans S E α) s = .call op fun ans => .ret (result ans, s) := rfl

theorem bind_assoc (x : Comp Op Ans S E α) (f : α → Comp Op Ans S E β)
    (g : β → Comp Op Ans S E γ) : (x >>= f) >>= g = x >>= fun a => f a >>= g := by
  funext s
  rw [bind_apply, bind_apply, bind_apply, Prog.bind_assoc]
  refine congrArg _ (funext fun r => ?_)
  obtain ⟨r | r, t⟩ := r <;> rfl

theorem bind_pure (x : Comp Op Ans S E α) : (x >>= pure) = x := by
  funext s
  rw [bind_apply]
  conv_rhs => rw [← Prog.bind_ret (x s)]
  refine congrArg _ (funext fun r => ?_)
  obtain ⟨r | r, t⟩ := r <;> rfl

theorem pure_bind (a : α) (f : α → Comp Op Ans S E β) : (pure a >>= f) = f a := rfl

/-- The runs of a sequence: the first part throws, or both parts run. -/
theorem runs_bind {x : Comp Op Ans S E α} {f : α → Comp Op Ans S E β} {log : List (Event Op Ans)}
    {r : Except E β} {t : S} :
    Prog.Runs ((x >>= f) s) log (r, t) ↔
      (∃ log₁ log₂ a u, log = log₁ ++ log₂ ∧ Prog.Runs (x s) log₁ (.ok a, u) ∧
        Prog.Runs (f a u) log₂ (r, t)) ∨
      ∃ e, r = .error e ∧ Prog.Runs (x s) log (.error e, t) := by
  rw [bind_apply, Prog.runs_bind]
  constructor
  · rintro ⟨log₁, log₂, ⟨a | a, u⟩, rfl, h₁, h₂⟩
    · obtain ⟨rfl, h⟩ := Prog.runs_ret.1 h₂
      obtain ⟨rfl, rfl⟩ := Prod.mk.inj h
      rw [List.append_nil]
      exact Or.inr ⟨a, rfl, h₁⟩
    · exact Or.inl ⟨log₁, log₂, a, u, rfl, h₁, h₂⟩
  · rintro (⟨log₁, log₂, a, u, rfl, h₁, h₂⟩ | ⟨e, rfl, h⟩)
    · exact ⟨log₁, log₂, (.ok a, u), rfl, h₁, h₂⟩
    · exact ⟨log, [], (.error e, t), by simp, h, .ret⟩

/-! ### Two computations side by side -/

/-- Related ends: both return, or both throw the same exception. -/
def Ends {T : Type} (Q : α → S → β → T → Prop) (F : E → S → T → Prop) :
    Except E α × S → Except E β × T → Prop
  | (.ok a, s), (.ok b, t) => Q a s b t
  | (.error e, s), (.error e', t) => e = e' ∧ F e s t
  | _, _ => False

theorem rel_bind {α' β' : Type} {T : Type} {x : Comp Op Ans S E α} {y : Comp Op Ans T E α'}
    {f : α → Comp Op Ans S E β} {g : α' → Comp Op Ans T E β'} {t : T} {F : E → S → T → Prop}
    {P : α → S → α' → T → Prop} {Q : β → S → β' → T → Prop}
    (hxy : Prog.Rel (Ends P F) (x s) (y t))
    (hfg : ∀ a u b v, P a u b v → Prog.Rel (Ends Q F) (f a u) (g b v)) :
    Prog.Rel (Ends Q F) ((x >>= f) s) ((y >>= g) t) := by
  refine hxy.bind ?_
  rintro ⟨a | a, u⟩ ⟨b | b, v⟩ h
  · exact .ret h
  · exact absurd h id
  · exact absurd h id
  · exact hfg _ _ _ _ h

/-- A sequence on the left only. -/
theorem rel_bind_left {α' : Type} {T : Type} {x : Comp Op Ans S E α} {y : Comp Op Ans T E α'}
    {f : α → Comp Op Ans S E β} {t : T} {F : E → S → T → Prop} {P : α → S → α' → T → Prop}
    {Q : β → S → α' → T → Prop} (hxy : Prog.Rel (Ends P F) (x s) (y t))
    (hf : ∀ a u b v, P a u b v → Prog.Rel (Ends Q F) (f a u) (.ret (.ok b, v))) :
    Prog.Rel (Ends Q F) ((x >>= f) s) (y t) := by
  rw [← bind_pure y]
  exact rel_bind hxy hf

theorem Ends.mono {T : Type} {P Q : α → S → β → T → Prop} {F : E → S → T → Prop}
    (hPQ : ∀ a u b v, P a u b v → Q a u b v) {r : Except E α × S} {r' : Except E β × T}
    (h : Ends P F r r') : Ends Q F r r' := by
  obtain ⟨a | a, u⟩ := r <;> obtain ⟨b | b, v⟩ := r'
  · exact h
  · exact h
  · exact h
  · exact hPQ _ _ _ _ h

/-! ### Computations without a state -/

/-- The outcome when the calls are answered by a function. -/
def outcome (answer : ∀ op, Ans op) (c : Comp Op Ans Unit E α) : Except E α :=
  ((c ()).play answer).2.1

variable {answer answer' : ∀ op, Ans op}

theorem outcome_bind (x : Comp Op Ans Unit E α) (f : α → Comp Op Ans Unit E β) :
    (x >>= f).outcome answer = x.outcome answer >>= fun a => (f a).outcome answer := by
  unfold outcome
  rw [bind_apply, Prog.play_bind]
  obtain ⟨r | a, u⟩ := ((x ()).play answer).2
  · rfl
  · rfl

theorem outcome_pure (a : α) : (pure a : Comp Op Ans Unit E α).outcome answer = .ok a := rfl

theorem outcome_throw (e : E) : (throw e : Comp Op Ans Unit E α).outcome answer = .error e := rfl

theorem outcome_throwIf (c : Prop) [Decidable c] (e : E) :
    (throwIf c e : Comp Op Ans Unit E Unit).outcome answer = if c then .error e else .ok () := rfl

theorem outcome_ofExcept (x : Except E α) :
    (ofExcept x : Comp Op Ans Unit E α).outcome answer = x := rfl

theorem outcome_call (op : Op) (result : Ans op → Except E α) :
    (call op result : Comp Op Ans Unit E α).outcome answer = result (answer op) := rfl

/-- Every call of every run is in `A`. -/
def Calls (A : Op → Prop) (c : Comp Op Ans Unit E α) : Prop :=
  ∀ log r, Prog.Runs (c ()) log r → ∀ e ∈ log, A e.op

variable {A : Op → Prop}

theorem calls_of_ret {c : Comp Op Ans Unit E α} {r : Except E α × Unit} (h : c () = .ret r) :
    Calls A c := by
  intro log r' hrun
  rw [h] at hrun
  rw [(Prog.runs_ret.1 hrun).1]
  simp

theorem calls_call {op : Op} {result : Ans op → Except E α} (h : A op) :
    Calls A (call op result) := by
  intro log r hrun
  obtain ⟨ans, rest, rfl, hrest⟩ := Prog.runs_call.1 hrun
  rw [(Prog.runs_ret.1 hrest).1]
  simpa using h

/-- **The rule of sequence.** -/
theorem Calls.bind {x : Comp Op Ans Unit E α} {f : α → Comp Op Ans Unit E β} (hx : Calls A x)
    (hf : ∀ a, Calls A (f a)) : Calls A (x >>= f) := by
  rintro log ⟨r, u⟩ hrun e he
  rcases runs_bind.1 hrun with ⟨log₁, log₂, a, v, rfl, h₁, h₂⟩ | ⟨fault, -, h⟩
  · rcases List.mem_append.1 he with he | he
    · exact hx _ _ h₁ e he
    · exact hf a _ _ h₂ e he
  · exact hx _ _ h e he

/-- What follows a computation that may throw runs after a result only. -/
theorem calls_ofExcept_bind {x : Except E α} {f : α → Comp Op Ans Unit E β}
    (hf : ∀ a, x = .ok a → Calls A (f a)) : Calls A (ofExcept x >>= f) := by
  cases x with
  | error fault => exact calls_of_ret rfl
  | ok a => exact hf a rfl

/-- Two ways of answering that agree in `A` have one outcome. -/
theorem Calls.outcome_congr {c : Comp Op Ans Unit E α} (hc : Calls A c)
    (h : ∀ op, A op → answer op = answer' op) : c.outcome answer = c.outcome answer' := by
  unfold outcome
  rw [Prog.play_congr (c ()) fun e he => h e.op (hc _ _ (Prog.runs_play answer (c ())) e he)]

/-! ### Computations that keep their state -/

/-- No run changes the state. -/
def Fixed {S : Type} (c : Comp Op Ans S E α) : Prop :=
  ∀ s log r t, Prog.Runs (c s) log (r, t) → t = s

section
variable {S : Type}

theorem fixed_of_ret {c : Comp Op Ans S E α} {r : S → Except E α} (h : ∀ s, c s = .ret (r s, s)) :
    Fixed c := by
  intro s log r' t hrun
  rw [h s] at hrun
  exact (Prod.mk.inj (Prog.runs_ret.1 hrun).2).2.symm

theorem fixed_throwIf (c : Prop) [Decidable c] (e : E) :
    Fixed (throwIf c e : Comp Op Ans S E Unit) := fixed_of_ret fun _ => rfl

theorem fixed_ofExcept (x : Except E α) : Fixed (ofExcept x : Comp Op Ans S E α) :=
  fixed_of_ret fun _ => rfl

theorem fixed_pure (a : α) : Fixed (pure a : Comp Op Ans S E α) := fixed_of_ret fun _ => rfl

theorem fixed_throw (e : E) : Fixed (throw e : Comp Op Ans S E α) := fixed_of_ret fun _ => rfl

theorem fixed_get : Fixed (get : Comp Op Ans S E S) := fixed_of_ret fun _ => rfl

theorem fixed_call {op : Op} {result : Ans op → Except E α} :
    Fixed (call op result : Comp Op Ans S E α) := by
  intro s log r t hrun
  obtain ⟨ans, rest, -, hrest⟩ := Prog.runs_call.1 hrun
  exact (Prod.mk.inj (Prog.runs_ret.1 hrest).2).2.symm

theorem Fixed.bind {x : Comp Op Ans S E α} {f : α → Comp Op Ans S E β} (hx : Fixed x)
    (hf : ∀ a, Fixed (f a)) : Fixed (x >>= f) := by
  intro s log r t hrun
  rcases runs_bind.1 hrun with ⟨log₁, log₂, a, u, -, h₁, h₂⟩ | ⟨e, -, h⟩
  · rw [hf a _ _ _ _ h₂, hx _ _ _ _ h₁]
  · exact hx _ _ _ _ h

end

end Comp

end Interaction
