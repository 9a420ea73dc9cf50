/-
  Labelled transition systems.

  * `System S L`: the initial states and the steps, each with its label;
  * `Reachable`: the states of the runs from an initial state, with the rule of
    invariants (`Reachable.invariant`);
  * `Run s ls t`: a run from `s` to `t` whose steps have the labels `ls`;
  * `Bisimulation`: two systems that take the same steps from related states;
  * `Run.simulate`: a run copied by another system, up to a step that cannot be.
-/
import Mathlib.Tactic.Common

namespace Transitions

/-- A transition system with states `S` and labels `L`. -/
structure System (S L : Type) where
  init : S → Prop
  step : S → L → S → Prop

namespace System

variable {S L : Type} (T : System S L)

/-- The states of the runs. -/
inductive Reachable : S → Prop
  | init {s} : T.init s → Reachable s
  | step {s l t} : Reachable s → T.step s l t → Reachable t

variable {T}

/-- **What holds initially and is kept by every step of a run holds in every state
    of a run.** -/
theorem Reachable.invariant {I : S → Prop} (hinit : ∀ s, T.init s → I s)
    (hstep : ∀ s l t, T.Reachable s → I s → T.step s l t → I t) {s : S} (h : T.Reachable s) :
    I s := by
  induction h with
  | init h => exact hinit _ h
  | step hs hst ih => exact hstep _ _ _ hs ih hst

variable (T) in
/-- A run, with the labels of its steps. -/
inductive Run : S → List L → S → Prop
  | nil {s} : Run s [] s
  | cons {s t u l ls} : T.step s l t → Run t ls u → Run s (l :: ls) u

theorem Run.reachable {s t : S} {ls : List L} (h : T.Run s ls t) (hs : T.Reachable s) :
    T.Reachable t := by
  induction h with
  | nil => exact hs
  | cons hst _ ih => exact ih (.step hs hst)

/-- **What every step from a good state keeps, and shows in its label, holds along a run.** -/
theorem Run.labels {I : S → Prop} {Q : L → Prop}
    (hstep : ∀ s l t, T.Reachable s → I s → T.step s l t → I t ∧ Q l) {s t : S} {ls : List L}
    (h : T.Run s ls t) (hs : T.Reachable s) (hI : I s) : I t ∧ ∀ l ∈ ls, Q l := by
  induction h with
  | nil => exact ⟨hI, by simp⟩
  | cons hst _ ih =>
    obtain ⟨hI', hQ⟩ := hstep _ _ _ hs hI hst
    obtain ⟨hI'', hQs⟩ := ih (.step hs hst) hI'
    exact ⟨hI'', List.forall_mem_cons.2 ⟨hQ, hQs⟩⟩

/-! ## Two systems -/

variable {S' L' : Type}

/-- The systems take the same steps from related states, to related states. -/
structure Bisimulation (T : System S L) (T' : System S' L) (R : S → S' → Prop) : Prop where
  init_left : ∀ s, T.init s → ∃ s', T'.init s' ∧ R s s'
  init_right : ∀ s', T'.init s' → ∃ s, T.init s ∧ R s s'
  step_left : ∀ s s' l t, R s s' → T.step s l t → ∃ t', T'.step s' l t' ∧ R t t'
  step_right : ∀ s s' l t', R s s' → T'.step s' l t' → ∃ t, T.step s l t ∧ R t t'

/-- **A run is copied step by step**, or up to a step that differs (`D`). -/
theorem Run.simulate (T' : System S' L') {R : S → S' → Prop} {Q : L → L' → Prop}
    {D : S → L → S → S' → Prop}
    (hstep : ∀ s s' l t, R s s' → T.step s l t →
      (∃ l' t', T'.step s' l' t' ∧ R t t' ∧ Q l l') ∨ D s l t s')
    {s t : S} {ls : List L} (h : T.Run s ls t) {s' : S'} (hR : R s s') :
    (∃ ls' t', T'.Run s' ls' t' ∧ R t t' ∧ List.Forall₂ Q ls ls') ∨
      ∃ ls₁ l ls₂ u v ls' u', ls = ls₁ ++ l :: ls₂ ∧ T.step u l v ∧ T.Run v ls₂ t ∧ R u u' ∧
        T'.Run s' ls' u' ∧ List.Forall₂ Q ls₁ ls' ∧ D u l v u' := by
  induction h generalizing s' with
  | nil => exact Or.inl ⟨[], s', .nil, hR, .nil⟩
  | @cons s u t l ls hst hrun ih =>
    rcases hstep _ _ _ _ hR hst with ⟨l', t', hst', hR', hQ⟩ | hdiffers
    · rcases ih hR' with ⟨ls', u', hrun', hR'', hQs⟩ |
        ⟨ls₁, l₁, ls₂, u₁, v, ls', u', rfl, hst₁, hrun₁, hR₁, hrun', hQs, hdiffers⟩
      · exact Or.inl ⟨_, _, .cons hst' hrun', hR'', .cons hQ hQs⟩
      · exact Or.inr ⟨l :: ls₁, l₁, ls₂, u₁, v, l' :: ls', u', rfl, hst₁, hrun₁, hR₁,
          .cons hst' hrun', .cons hQ hQs, hdiffers⟩
    · exact Or.inr ⟨[], l, ls, s, u, [], s', rfl, hst, hrun, hR, .nil, .nil, hdiffers⟩

end System

end Transitions
