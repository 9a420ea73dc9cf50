/-
  Runs that end.

  * `Descends T lt μ`: every step of a transition system takes the measure `μ` of a
    reachable state down in the order `lt`;
  * `Descends.no_infinite_run`, `Descends.halts`: over a well-founded order no run
    is infinite, and every run goes on to a state without steps;
  * `one_lower_wf`: parties, each with a measure, of which a step lowers one;
  * `Prog.rest_wf`: a program that is answered call by call comes to an end.
-/
import CkksRuntime.Interaction
import CkksRuntime.Transitions
import Mathlib.Data.DFinsupp.WellFounded

namespace Transitions

namespace System

variable {S L M : Type} {T : System S L} {lt : M → M → Prop} {μ : S → M}

variable (T lt μ) in
/-- Every step from a reachable state takes the measure down. -/
def Descends : Prop := ∀ s l t, T.Reachable s → T.step s l t → lt (μ t) (μ s)

/-- **No run is infinite.** -/
theorem Descends.no_infinite_run (h : T.Descends lt μ) (hlt : WellFounded lt) {σ : ℕ → S}
    {ls : ℕ → L} (hs : T.Reachable (σ 0)) (hrun : ∀ n, T.step (σ n) (ls n) (σ (n + 1))) : False := by
  have hreach : ∀ n, T.Reachable (σ n) := by
    intro n
    induction n with
    | zero => exact hs
    | succ n ih => exact .step ih (hrun n)
  exact (wellFounded_iff_isEmpty_descending_chain.1 hlt).false
    ⟨fun n => μ (σ n), fun n => h _ _ _ (hreach n) (hrun n)⟩

/-- **Every run goes on to a state without steps**, by induction on its measure. -/
theorem Descends.halts (h : T.Descends lt μ) (hlt : WellFounded lt) {s : S} (hs : T.Reachable s) :
    ∃ ls t, T.Run s ls t ∧ ∀ l u, ¬ T.step t l u := by
  obtain ⟨m, hm⟩ : ∃ m, μ s = m := ⟨_, rfl⟩
  induction m using hlt.induction generalizing s with
  | _ m ih =>
    by_cases hstep : ∃ l u, T.step s l u
    · obtain ⟨l, u, hst⟩ := hstep
      obtain ⟨ls, t, hrun, hend⟩ := ih (μ u) (hm ▸ h s l u hs hst) (hs.step hst) rfl
      exact ⟨l :: ls, t, .cons hst hrun, hend⟩
    · simp only [not_exists] at hstep
      exact ⟨[], s, .nil, hstep⟩

end System

/-- Of the measures of some parties one goes down, and the others stay. -/
def OneLower {ι M : Type} (lt : M → M → Prop) (x y : ι → M) : Prop :=
  ∃ i, lt (x i) (y i) ∧ ∀ j ≠ i, x j = y j

theorem one_lower_wf {ι M : Type} [LinearOrder ι] [Finite ι] {lt : M → M → Prop}
    (h : WellFounded lt) : WellFounded (OneLower (ι := ι) lt) := by
  refine Subrelation.wf ?_ (Pi.Lex.wellFounded (r := (· < · : ι → ι → Prop)) fun _ => h)
  rintro x y ⟨i, hi, hother⟩
  exact ⟨i, fun j hj => hother j (ne_of_lt hj), hi⟩

end Transitions

namespace Interaction.Prog

variable {Op : Type} {Ans : Op → Type} {α : Type}

/-- What is left of a program after an answer to its first call. -/
def Rest (p q : Prog Op Ans α) : Prop := ∃ op k ans, q = call op k ∧ p = k ans

theorem rest_wf : WellFounded (@Rest Op Ans α) := by
  refine ⟨fun p => ?_⟩
  induction p with
  | ret a =>
    refine ⟨_, ?_⟩
    rintro _ ⟨op, k, ans, hq, -⟩
    cases hq
  | call op k ih =>
    refine ⟨_, ?_⟩
    rintro _ ⟨op', k', ans, hq, rfl⟩
    obtain ⟨rfl, hk⟩ := call.inj hq
    obtain rfl := eq_of_heq hk
    exact ih ans

end Interaction.Prog
