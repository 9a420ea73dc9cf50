/-
  Protocols of interactive programs.

  * `Protocol Op Ans W`: what may be called, and what may be relied on after an
    answer, over a ghost state `W` that no program sees;
  * `Meets P Q w p`: from the ghost state `w`, the program `p` keeps to `P` and
    returns only results in `Q`;
  * `Comp.Ensures`: the same for a computation with a state that may throw, whose
    calls a handler carries out, with a condition for each of its two ends;
  * `Protocol.history`: what may be called after which calls and answers, and
    `Meets.runs`: every run of a program that keeps to it is of that kind.
-/
import CkksRuntime.Interaction

namespace Interaction

/-- What may be called in a ghost state, and what an answer promises. -/
structure Protocol (Op : Type) (Ans : Op → Type) (W : Type) where
  pre : W → Op → Prop
  post : W → (op : Op) → Ans op → W → Prop

variable {Op : Type} {Ans : Op → Type} {Op' : Type} {Ans' : Op' → Type} {W α β : Type}

namespace Prog

/-- The program keeps to the protocol and its results are in `Q`. -/
inductive Meets (P : Protocol Op Ans W) (Q : W → α → Prop) : W → Prog Op Ans α → Prop
  | ret {w a} : Q w a → Meets P Q w (ret a)
  | call {w op k} : P.pre w op → (∀ ans w', P.post w op ans w' → Meets P Q w' (k ans)) →
    Meets P Q w (call op k)

variable {P : Protocol Op Ans W} {Q R : W → α → Prop} {w : W}

theorem meets_ret {a : α} : Meets P Q w (ret a) ↔ Q w a := by
  constructor
  · rintro ⟨h⟩; exact h
  · exact .ret

theorem meets_call {op : Op} {k : Ans op → Prog Op Ans α} : Meets P Q w (call op k) ↔
    P.pre w op ∧ ∀ ans w', P.post w op ans w' → Meets P Q w' (k ans) := by
  constructor
  · intro h
    cases h with
    | call hpre hk => exact ⟨hpre, hk⟩
  · rintro ⟨hpre, hk⟩
    exact .call hpre hk

theorem Meets.mono {p : Prog Op Ans α} (h : Meets P Q w p) (hQR : ∀ w a, Q w a → R w a) :
    Meets P R w p := by
  induction h with
  | ret h => exact .ret (hQR _ _ h)
  | call hpre _ ih => exact .call hpre ih

/-- **The rule of sequence.** -/
theorem Meets.bind {S : W → β → Prop} {p : Prog Op Ans α} {f : α → Prog Op Ans β}
    (h : Meets P Q w p) (hf : ∀ w a, Q w a → Meets P S w (f a)) : Meets P S w (p >>= f) := by
  induction h with
  | ret h => exact hf _ _ h
  | call hpre _ ih => exact .call hpre ih

end Prog

namespace Comp

variable {S E L : Type} {P : Protocol Op' Ans' W} {h : ∀ op, L → Prog Op' Ans' (Ans op × L)}
  {w : W} {s : S} {l : L}

/-- The end of a computation: `Q` after a result, `F` after an exception. -/
def Ended (Q : W → α → S → L → Prop) (F : W → E → S → L → Prop) (w : W)
    (r : (Except E α × S) × L) : Prop :=
  match r.1.1 with
  | .ok a => Q w a r.1.2 r.2
  | .error e => F w e r.1.2 r.2

/-- The computation, its calls carried out by the handler, keeps to the protocol and
    ends in `Q` or throws in `F`. -/
def Ensures (P : Protocol Op' Ans' W) (h : ∀ op, L → Prog Op' Ans' (Ans op × L))
    (Q : W → α → S → L → Prop) (F : W → E → S → L → Prop) (c : Comp Op Ans S E α) (w : W) (s : S)
    (l : L) : Prop :=
  Prog.Meets P (Ended Q F) w (Prog.interp h (c s) l)

variable {Q : W → α → S → L → Prop} {F : W → E → S → L → Prop}

theorem ensures_ret {c : Comp Op Ans S E α} {r : Except E α} {t : S} (hc : c s = .ret (r, t)) :
    Ensures P h Q F c w s l ↔ Ended Q F w ((r, t), l) := by
  unfold Ensures
  rw [hc]
  exact Prog.meets_ret

theorem ensures_congr {c c' : Comp Op Ans S E α} {t : S} (hc : c s = c' t) :
    Ensures P h Q F c w s l ↔ Ensures P h Q F c' w t l := by
  unfold Ensures
  rw [hc]

theorem ensures_get {f : S → Comp Op Ans S E α} :
    Ensures P h Q F (get >>= f) w s l ↔ Ensures P h Q F (f s) w s l := ensures_congr rfl

theorem ensures_modify {g : S → S} {f : Unit → Comp Op Ans S E α} :
    Ensures P h Q F (modify g >>= f) w s l ↔ Ensures P h Q F (f ()) w (g s) l := ensures_congr rfl

theorem ensures_ofExcept {x : Except E β} {f : β → Comp Op Ans S E α} :
    Ensures P h Q F (ofExcept x >>= f) w s l ↔ match x with
      | .ok b => Ensures P h Q F (f b) w s l
      | .error e => F w e s l := by
  cases x with
  | ok b => exact ensures_congr rfl
  | error e => exact ensures_ret (r := .error e) (t := s) rfl

theorem ensures_throwIf {c : Prop} [Decidable c] {e : E} {f : Unit → Comp Op Ans S E α} :
    Ensures P h Q F (throwIf c e >>= f) w s l ↔
      if c then F w e s l else Ensures P h Q F (f ()) w s l := by
  by_cases hc : c
  · rw [if_pos hc]
    exact ensures_ret (r := .error e) (t := s) (by rw [throwIf_bind, if_pos hc])
  · rw [if_neg hc]
    exact ensures_congr (by rw [throwIf_bind, if_neg hc])

theorem Ensures.mono {c : Comp Op Ans S E α} {Q' : W → α → S → L → Prop}
    {F' : W → E → S → L → Prop} (hc : Ensures P h Q F c w s l)
    (hQ : ∀ w a s l, Q w a s l → Q' w a s l) (hF : ∀ w e s l, F w e s l → F' w e s l) :
    Ensures P h Q' F' c w s l := by
  refine Prog.Meets.mono hc ?_
  rintro w ⟨⟨r, s⟩, l⟩ hr
  cases r with
  | ok a => exact hQ w a s l hr
  | error e => exact hF w e s l hr

/-- **The rule of sequence**: the rest runs after a result only. -/
theorem Ensures.bind {c : Comp Op Ans S E α} {f : α → Comp Op Ans S E β}
    {R : W → β → S → L → Prop} (hc : Ensures P h Q F c w s l)
    (hf : ∀ w a s l, Q w a s l → Ensures P h R F (f a) w s l) : Ensures P h R F (c >>= f) w s l := by
  unfold Ensures
  rw [bind_apply, Prog.interp_bind]
  refine Prog.Meets.bind hc ?_
  rintro w ⟨⟨r, s⟩, l⟩ hr
  cases r with
  | ok a => exact hf w a s l hr
  | error e => exact Prog.meets_ret.2 hr

/-- The rule of calls: what the handler does. -/
theorem ensures_call {op : Op} {result : Ans op → Except E α} :
    Ensures P h Q F (call op result) w s l ↔
      Prog.Meets P (fun w r => Ended Q F w ((result r.1, s), r.2)) w (h op l) := by
  unfold Ensures
  rw [call_apply, Prog.interp]
  constructor
  · intro hm
    generalize h op l = p at hm
    induction p generalizing w with
    | ret r => exact Prog.meets_ret.2 (Prog.meets_ret.1 hm)
    | call op k ih =>
      rw [Prog.call_bind, Prog.meets_call] at hm
      exact .call hm.1 fun ans w' hpost => ih ans (hm.2 ans w' hpost)
  · intro hm
    exact hm.bind fun w r hr => .ret hr

end Comp

/-! ## Histories -/

/-- What may be called after a history of calls and answers. -/
def Protocol.history (pre : List (Event Op Ans) → Op → Prop) :
    Protocol Op Ans (List (Event Op Ans)) where
  pre := pre
  post past op ans past' := past' = past ++ [⟨op, ans⟩]

namespace Prog

variable {pre : List (Event Op Ans) → Op → Prop} {L : Type}

/-- **Every call of a run was allowed by the calls before it.** -/
theorem Meets.runs {Q : List (Event Op Ans) → α → Prop} {p : Prog Op Ans α}
    {past log : List (Event Op Ans)} {a : α} (h : Meets (.history pre) Q past p)
    (hrun : Runs p log a) : Q (past ++ log) a ∧
      ∀ log₁ e log₂, log = log₁ ++ e :: log₂ → pre (past ++ log₁) e.op := by
  induction h generalizing log with
  | ret h =>
    obtain ⟨rfl, rfl⟩ := runs_ret.1 hrun
    exact ⟨by rwa [List.append_nil], fun _ _ _ hsplit => by simp at hsplit⟩
  | @call past op k hpre _ ih =>
    obtain ⟨ans, rest, rfl, hk⟩ := runs_call.1 hrun
    obtain ⟨hQ, hcalls⟩ := ih ans _ rfl hk
    rw [List.append_assoc, List.singleton_append] at hQ
    refine ⟨hQ, fun log₁ e log₂ hsplit => ?_⟩
    rcases List.cons_eq_append_iff.1 hsplit with ⟨rfl, hcons⟩ | ⟨log₁, rfl, hrest⟩
    · obtain ⟨rfl, -⟩ := List.cons.inj hcons
      rwa [List.append_nil]
    · have := hcalls log₁ e log₂ hrest
      rwa [List.append_assoc, List.singleton_append] at this

/-- The handler that passes every call on. -/
def pass (op : Op) (l : L) : Prog Op Ans (Ans op × L) := .call op fun ans => .ret (ans, l)

theorem interp_pass (p : Prog Op Ans α) (l : L) : interp pass p l = p >>= fun a => .ret (a, l) := by
  induction p with
  | ret a => rfl
  | call op k ih => exact congrArg (call op) (funext ih)

/-- A program, its calls passed on, keeps to what the program keeps to. -/
theorem meets_of_pass {P : Protocol Op Ans W} {Q : W → α × L → Prop} {p : Prog Op Ans α} {l : L}
    {w : W} (h : Meets P Q w (interp pass p l)) : Meets P (fun w a => Q w (a, l)) w p := by
  induction p generalizing w with
  | ret a => exact .ret (meets_ret.1 h)
  | call op k ih =>
    obtain ⟨hpre, hk⟩ := meets_call.1 h
    exact .call hpre fun ans w' hpost => ih ans (hk ans w' hpost)

end Prog

namespace Comp

variable {S E L : Type} {pre : List (Event Op Ans) → Op → Prop} {past : List (Event Op Ans)} {s : S}
  {l : L} {Q : List (Event Op Ans) → α → S → L → Prop} {F : List (Event Op Ans) → E → S → L → Prop}

/-- The rule of calls that are passed on, with what follows the answer. -/
theorem ensures_pass {op : Op} {result : Ans op → Except E β} {f : β → Comp Op Ans S E α}
    (hpre : pre past op)
    (hok : ∀ ans b, result ans = .ok b →
      Ensures (.history pre) Prog.pass Q F (f b) (past ++ [⟨op, ans⟩]) s l)
    (herror : ∀ ans e, result ans = .error e → F (past ++ [⟨op, ans⟩]) e s l) :
    Ensures (.history pre) Prog.pass Q F (call op result >>= f) past s l := by
  refine .call hpre ?_
  rintro ans _ rfl
  change Prog.Meets _ _ _ (Prog.interp Prog.pass (next f (result ans, s)) l)
  cases hans : result ans with
  | ok b => exact hok ans b hans
  | error e => exact .ret (herror ans e hans)

end Comp

end Interaction
