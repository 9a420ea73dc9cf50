/-
  ckks-runtime formalization — where a rank waits for an action that brings it
  nothing.

  A group that has outputs on a rank is waited for when one of them is needed.  One
  that has none is left to `finish_all_groups`, at the end of the initialization and
  at the end of the plan, which takes the groups in their order
  (`RuntimePlan.script_late`).
-/
import CkksRuntime.ScriptProtocol

namespace CkksRuntime

open PlanVerifier

namespace Script

variable {plan : RuntimePlan} {rank : CInt} {End : ℕ → Prop} {acc acc' : Script} {line : Line}
  {context : Context}

/-- The line waits for an action without local outputs only when the number of posted
    actions is one of `End`, and all earlier groups have been waited for. -/
def LateLine (rank : CInt) (End : ℕ → Prop) (acc : Script) (line : Line) : Prop :=
  ∀ g a, line.act = .wait g a → a.localOutputs rank = [] →
    End acc.posts.length ∧ ∀ g' < g, acc.Waited g'

/-- So does every line. -/
def Late (rank : CInt) (End : ℕ → Prop) (acc : Script) : Prop :=
  ∀ pre line rest, acc = pre ++ line :: rest → LateLine rank End pre line

theorem late_nil : Late rank End [] := by
  intro pre line rest h
  simp at h

theorem Late.snoc (h : acc.Late rank End) (hl : LateLine rank End acc line) :
    Late rank End (acc ++ [line]) := by
  intro pre l rest heq
  rcases append_eq_split heq with ⟨rest', h'⟩ | ⟨pre', rfl, h'⟩
  · exact h _ _ _ h'
  · cases pre' with
    | nil =>
      obtain ⟨rfl, -⟩ := List.cons.inj h'
      rwa [List.append_nil]
    | cons x xs => simp at h'

/-- A line that waits for nothing. -/
theorem late_of_wait? (hwait : line.act.wait? = none) : LateLine rank End acc line := by
  intro g a hact
  rw [hact] at hwait
  cases hwait

/-- A line that waits for one of the local outputs. -/
theorem late_of_output {group : CommAction × ℕ} {id : ValueId}
    (hid : id ∈ group.1.localOutputs rank) :
    LateLine rank End acc ⟨context, .wait group.2 group.1⟩ := by
  intro g a hact hnone
  obtain ⟨rfl, rfl⟩ := Act.wait.inj hact
  rw [hnone] at hid
  cases hid

theorem Late.settle (h : acc.Late rank End) {group : CommAction × ℕ}
    (hl : LateLine rank End acc ⟨context, .wait group.2 group.1⟩) :
    (acc.settle context group).Late rank End := by
  unfold Script.settle
  split_ifs
  · exact h
  · exact h.snoc hl

theorem Late.demandAll : ∀ (ids : List ValueId) {acc : Script}, acc.Late rank End →
    (acc.demandAll rank context ids).Late rank End
  | [], _, h => h
  | id :: ids, acc, h => by
    have hdemand : (acc.demand rank context id).Late rank End := by
      unfold Script.demand
      split
      next group hgroup => exact h.settle (late_of_output (groupOf_eq_some hgroup).2)
      next => exact h
    exact Late.demandAll ids hdemand

theorem Late.addPhase : ∀ (list : List Instruction) {acc : Script}, acc.Late rank End →
    (acc.addPhase plan rank list).Late rank End
  | [], _, h => h
  | i :: list, acc, h => by
    have hadd : (acc.addInstruction plan rank i).Late rank End := by
      unfold Script.addInstruction
      dsimp only
      split
      next op _ =>
        split_ifs
        · exact h.snoc (late_of_wait? rfl)
        · exact h
      next op _ =>
        split_ifs
        · exact (h.demandAll _).snoc (late_of_wait? rfl)
        · exact h
      next action _ => exact (h.demandAll _).snoc (late_of_wait? rfl)
    exact Late.addPhase list hadd

/-- **The groups are finished in their order**: when group `n` is settled, those before
    it have been. -/
theorem Late.finishAll (h : acc.Late rank End) (hend : End acc.posts.length) :
    acc.finishAll.Late rank End := by
  have hfold : ∀ (actions : List CommAction) (n : ℕ) (acc : Script), acc.Late rank End →
      End acc.posts.length → (∀ g < n, acc.Waited g) →
      ((actions.zipIdx n).foldl (Script.settle {}) acc).Late rank End := by
    intro actions
    induction actions with
    | nil => intro n acc h _ _; exact h
    | cons a actions ih =>
      intro n acc h hend hbefore
      rw [List.zipIdx_cons, List.foldl_cons]
      refine ih (n + 1) _ (h.settle fun g b hact _ => ?_) ?_ fun g hg => ?_
      · obtain ⟨rfl, -⟩ := Act.wait.inj hact
        exact ⟨hend, hbefore⟩
      · rwa [posts_settle]
      · rw [waited_settle_iff]
        rcases Nat.lt_succ_iff_lt_or_eq.1 hg with hg | rfl
        exacts [Or.inl (hbefore g hg), Or.inr rfl]
  exact hfold acc.posts 0 acc h hend fun g hg => absurd hg (Nat.not_lt_zero g)

/-- Lines are only added. -/
theorem prefix_foldl {α : Type} {step : Script → α → Script} (hstep : ∀ acc x, acc <+: step acc x) :
    ∀ (xs : List α) (acc : Script), acc <+: xs.foldl step acc
  | [], _ => List.prefix_rfl
  | x :: xs, acc => (hstep acc x).trans (prefix_foldl hstep xs (step acc x))

theorem prefix_settle (context : Context) (acc : Script) (group : CommAction × ℕ) :
    acc <+: acc.settle context group := by
  rw [settle_eq]
  exact List.prefix_append _ _

theorem prefix_addPhase (plan : RuntimePlan) (rank : CInt) (list : List Instruction)
    (acc : Script) : acc <+: acc.addPhase plan rank list := by
  have hdemands : ∀ (context : Context) (ids : List ValueId) (acc : Script),
      acc <+: acc.demandAll rank context ids := by
    intro context
    refine prefix_foldl fun acc id => ?_
    unfold Script.demand
    split
    · exact prefix_settle _ _ _
    · exact List.prefix_rfl
  refine prefix_foldl (fun acc i => ?_) list acc
  unfold Script.addInstruction
  dsimp only
  split
  next op _ =>
    split_ifs
    · exact List.prefix_append _ _
    · exact List.prefix_rfl
  next op _ =>
    split_ifs
    · exact (hdemands _ _ _).trans (List.prefix_append _ _)
    · exact List.prefix_rfl
  next action _ => exact (hdemands _ _ _).trans (List.prefix_append _ _)

/-- Lines that wait for nothing. -/
theorem Late.append (h : acc.Late rank End) :
    ∀ {lines : Script}, (∀ line ∈ lines, line.act.wait? = none) → (acc ++ lines).Late rank End := by
  intro lines hlines
  induction lines using List.reverseRecOn with
  | nil => rwa [List.append_nil]
  | append_singleton lines line ih =>
    rw [← List.append_assoc]
    exact (ih fun l hl => hlines l (List.mem_append_left _ hl)).snoc
      (late_of_wait? (hlines line (by simp)))

end Script

/-- The number of actions that the initialization posts. -/
def RuntimePlan.initialActions (plan : RuntimePlan) : ℕ := (actionsOf plan.initialization).length

/-- All actions of a part of the plan have been posted. -/
def RuntimePlan.Ends (plan : RuntimePlan) (n : ℕ) : Prop :=
  n = plan.initialActions ∨ n = plan.actions.length

section
variable {plan : RuntimePlan} {spec : OperatorSpec} {rank : CInt}

/-- **An action without local outputs is waited for at the end of a part of the plan.** -/
theorem RuntimePlan.script_late (hacc : Accepted plan spec) (rank : CInt) :
    (plan.script rank).Late rank plan.Ends := by
  have hinputs : (plan.inputLines rank).Late rank plan.Ends := by
    refine Script.late_nil.append fun line hline => ?_
    rcases List.mem_append.1 hline with hline | hline
    · obtain ⟨id, -, rfl⟩ := List.mem_map.1 hline
      rfl
    · rw [List.mem_singleton.1 hline]
      rfl
  have hinitial : (plan.initialScript rank).Late rank plan.Ends := by
    refine (hinputs.addPhase plan.initialization).finishAll (Or.inl ?_)
    have hinstr : plan.instructions =
        [] ++ (plan.initialization ++ (plan.execution ++ plan.finalization)) := by
      simp [RuntimePlan.instructions]
    rw [(hacc.addPhase_covers plan.initialization hinstr hacc.inputLines_covers).posts]
    rfl
  have hinstructions : (plan.instructionScript rank).Late rank plan.Ends :=
    (hinitial.addPhase _).addPhase _
  have hfinished : (plan.instructionScript rank).finishAll.Late rank plan.Ends := by
    refine hinstructions.finishAll (Or.inr ?_)
    rw [hacc.instructionScript_covers.posts]
    rfl
  refine hfinished.append fun line hline => ?_
  obtain ⟨id, -, rfl⟩ := List.mem_map.1 hline
  rfl

/-- **Nothing of the execution is posted before the groups of the initialization are
    finished.** -/
theorem RuntimePlan.script_initialized (hacc : Accepted plan spec) {acc rest : Script}
    (hscript : plan.script rank = acc ++ rest) (hposts : plan.initialActions < acc.posts.length) :
    ∀ g < plan.initialActions, acc.Waited g := by
  obtain ⟨hcovers, hall⟩ : Covers plan rank plan.externalInputs plan.initialization
      (plan.initialScript rank) ∧ _ := hacc.initialScript_covers
  have hprefix : plan.initialScript rank <+: plan.script rank :=
    (Script.prefix_addPhase plan rank _ _).trans <| (Script.prefix_addPhase plan rank _ _).trans <|
      (Script.prefix_foldl (Script.prefix_settle {}) _ _).trans (List.prefix_append _ _)
  rcases List.prefix_or_prefix_of_prefix hprefix ⟨rest, hscript.symm⟩ with h | ⟨t, ht⟩
  · obtain ⟨t, rfl⟩ := h
    exact fun g hg => Script.waited_append.2 (Or.inl (hall g hg))
  · -- a prefix of the initial script posts no more than the initialization
    have hle := congrArg List.length (congrArg Script.posts ht)
    rw [Script.posts_append, List.length_append, hcovers.posts] at hle
    unfold RuntimePlan.initialActions at hposts
    omega

end

end CkksRuntime
