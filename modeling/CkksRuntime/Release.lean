/-
  ckks-runtime formalization — reference-counted release.

  * `Point`: the points between two steps of the phases and of
    `finish_all_groups`; `upTo` is the part of `execute` before a point;
  * `execute_eq_upTo`: `execute` passes every point;
  * `upTo_inv`: the invariant holds at every point;
  * `release_exact`: in the final-only mode, the counts are the uses not done, and
    what is missing from the store is what has none left.
-/
import CkksRuntime.ScriptRun

namespace CkksRuntime

open Interaction PlanVerifier

/-- A point of `execute`, after so many steps of the phase or of the wait. -/
inductive Point where
  | initialization (n : ℕ)
  | initializationWait (n : ℕ)
  | execution (n : ℕ)
  | finalization (n : ℕ)
  | finalWait (n : ℕ)

namespace Point

/-- The instructions before a point. -/
def executed (plan : RuntimePlan) : Point → List Instruction
  | initialization n => plan.initialization.take n
  | initializationWait _ => plan.initialization
  | execution n => plan.initialization ++ plan.execution.take n
  | finalization n => plan.initialization ++ plan.execution ++ plan.finalization.take n
  | finalWait _ => plan.instructions

/-- The instructions after a point. -/
def remaining (plan : RuntimePlan) : Point → List Instruction
  | initialization n => plan.initialization.drop n ++ (plan.execution ++ plan.finalization)
  | initializationWait _ => plan.execution ++ plan.finalization
  | execution n => plan.execution.drop n ++ plan.finalization
  | finalization n => plan.finalization.drop n
  | finalWait _ => []

theorem executed_append_remaining (plan : RuntimePlan) (point : Point) :
    plan.instructions = point.executed plan ++ point.remaining plan := by
  cases point <;> simp only [executed, remaining, RuntimePlan.instructions, List.append_assoc,
    List.append_nil]
  case initialization n =>
    rw [← List.append_assoc (List.take n _), List.take_append_drop]
  case execution n =>
    rw [← List.append_assoc (List.take n _), List.take_append_drop]
  case finalization n => rw [List.take_append_drop]

end Point

namespace SequentialRuntime

variable {V H : Type}

section
variable (cfg : RunConfig V)

/-- The first steps of `finish_all_groups`, which leave some groups. -/
def finishFirstGroups (n : ℕ) : Runtime V H (List ℕ) := do
  let s ← Comp.get
  finishGroups cfg ((List.range s.groups.length).take n)
  return (List.range s.groups.length).drop n

/-- The part of `execute` before a point, and the groups that the wait has left. -/
def upTo : Point → Runtime V H (List ℕ)
  | .initialization n => do
    executeInstructions cfg ((plan cfg).initialization.take n)
    return []
  | .initializationWait n => do
    executePhase cfg (plan cfg).initialization
    finishFirstGroups cfg n
  | .execution n => do
    executePhase cfg (plan cfg).initialization
    finishAllGroups cfg
    executeInstructions cfg ((plan cfg).execution.take n)
    return []
  | .finalization n => do
    executePhase cfg (plan cfg).initialization
    finishAllGroups cfg
    executePhase cfg (plan cfg).execution
    executeInstructions cfg ((plan cfg).finalization.take n)
    return []
  | .finalWait n => do
    executePhase cfg (plan cfg).initialization
    finishAllGroups cfg
    executePhase cfg (plan cfg).execution
    executePhase cfg (plan cfg).finalization
    finishFirstGroups cfg n

/-- The local uses that are not done: those of the instructions that remain, those
    of the groups that are posted and not finished, and the final outputs. -/
def openUses (point : Point) (s : RuntimeState V H) : List ValueId :=
  localUses cfg.rank (point.remaining (plan cfg)) ++
    ((s.groups.filter fun group => !group.completed).flatMap fun group => group.localInputIds) ++
    (plan cfg).finalsOf cfg.rank

/-- What the state at a point records of the uses. -/
structure ReleaseExact (point : Point) (s : RuntimeState V H) : Prop where
  /-- the groups are the posted actions, each with its local sources -/
  groups : s.groups.map (fun group => (group.action, group.localInputIds)) =
    (actionsOf (point.executed (plan cfg))).map fun action => (action, action.localInputs cfg.rank)
  /-- the counts are the uses not done -/
  counts : ∀ id, s.remainingUses id = (openUses cfg point s).count id
  /-- a defined value is erased once it had uses and all are done -/
  erased : ∀ id, (plan cfg).IsLocal cfg.rank id →
    id ∈ (plan cfg).externalInputs ++ definedBy (point.executed (plan cfg)) →
      (s.store id = none ↔ id ∈ totalUses cfg ∧ id ∉ openUses cfg point s)

end

variable {cfg : RunConfig V}

/-! ## The points are passed -/

theorem executeInstructions_append (l l' : List Instruction) :
    (executeInstructions cfg (l ++ l') : Runtime V H Unit) =
      executeInstructions cfg l >>= fun _ => executeInstructions cfg l' := by
  induction l with
  | nil => rfl
  | cons i l ih => rw [List.cons_append, executeInstructions, ih, executeInstructions, Comp.bind_assoc]

theorem finishGroups_append (l l' : List ℕ) :
    (finishGroups cfg (l ++ l') : Runtime V H Unit) =
      finishGroups cfg l >>= fun _ => finishGroups cfg l' := by
  induction l with
  | nil => rfl
  | cons g l ih => rw [List.cons_append, finishGroups, ih, finishGroups, Comp.bind_assoc]

theorem executePhase_split (list : List Instruction) (n : ℕ) :
    (executePhase cfg list : Runtime V H Unit) =
      executeInstructions cfg (list.take n) >>= fun _ => executePhase cfg (list.drop n) := by
  rw [executePhase]
  nth_rewrite 1 [← List.take_append_drop n list]
  rw [executeInstructions_append, Comp.bind_assoc]
  rfl

theorem finishAllGroups_split (n : ℕ) :
    (finishAllGroups cfg : Runtime V H Unit) = finishFirstGroups cfg n >>= finishGroups cfg := by
  funext s
  simp only [finishAllGroups, finishFirstGroups, Comp.bind_assoc, Comp.get_bind, Comp.pure_bind]
  nth_rewrite 1 [← List.take_append_drop n (List.range s.groups.length)]
  rw [finishGroups_append]

/-- The part of `execute` after a point. -/
def after (cfg : RunConfig V) : Point → List ℕ → Runtime V H Unit
  | .initialization n, _ => do
    executePhase cfg ((plan cfg).initialization.drop n)
    finishAllGroups cfg
    executePhase cfg (plan cfg).execution
    executePhase cfg (plan cfg).finalization
    finishAllGroups cfg
  | .initializationWait _, left => do
    finishGroups cfg left
    executePhase cfg (plan cfg).execution
    executePhase cfg (plan cfg).finalization
    finishAllGroups cfg
  | .execution n, _ => do
    executePhase cfg ((plan cfg).execution.drop n)
    executePhase cfg (plan cfg).finalization
    finishAllGroups cfg
  | .finalization n, _ => do
    executePhase cfg ((plan cfg).finalization.drop n)
    finishAllGroups cfg
  | .finalWait _, left => finishGroups cfg left

/-- **`execute` passes every point.** -/
theorem execute_eq_upTo (point : Point) :
    (execute cfg : Runtime V H Unit) = upTo cfg point >>= after cfg point := by
  cases point with
  | initialization n =>
    rw [execute, executePhase_split (plan cfg).initialization n]
    simp only [upTo, after, Comp.bind_assoc, Comp.pure_bind]
  | initializationWait n =>
    rw [execute]
    conv_lhs => enter [2, _]; rw [finishAllGroups_split n]
    simp only [upTo, Comp.bind_assoc]
    conv_lhs => enter [2, _, 2, _, 2, _, 2, _, 2, _]; rw [← finishAllGroups_split n]
    rfl
  | execution n =>
    rw [execute, executePhase_split (plan cfg).execution n]
    simp only [upTo, after, Comp.bind_assoc, Comp.pure_bind]
  | finalization n =>
    rw [execute, executePhase_split (plan cfg).finalization n]
    simp only [upTo, after, Comp.bind_assoc, Comp.pure_bind]
  | finalWait n =>
    simp only [execute, upTo, Comp.bind_assoc]
    conv_lhs => enter [2, _, 2, _, 2, _, 2, _]; rw [finishAllGroups_split n]
    rfl

/-! ## The invariant at a point -/

section
variable {spec : OperatorSpec} (hacc : Accepted (plan cfg) spec)
include hacc

/-- Some steps of `finish_all_groups`. -/
theorem finishFirstGroups_sim {pre rest : List Instruction}
    (hpre : (plan cfg).instructions = pre ++ rest) {acc : Script}
    (hcov : Covers (plan cfg) cfg.rank (plan cfg).externalInputs pre acc) (n : ℕ) :
    ∃ lines acc', Sim (V := V) (H := H) cfg ⟨(plan cfg).externalInputs, pre, rest, {}, acc⟩
      ⟨(plan cfg).externalInputs, pre, rest, {}, acc'⟩ lines
      (fun _ => True) (fun _ _ => True) (finishFirstGroups cfg n) := by
  obtain ⟨lines, -, hsim⟩ := finishGroups_sim (V := V) (H := H) hacc hpre (acc.posts.zipIdx.take n)
    hcov fun group hgroup => by
      rw [← hcov.posts]
      exact List.mem_zipIdx_iff_getElem?.1 (List.mem_of_mem_take hgroup)
  refine ⟨lines, (acc.posts.zipIdx.take n).foldl (Script.settle {}) acc, fun s e hi hp => ?_⟩
  have hrange : (List.range s.groups.length).take n = (acc.posts.zipIdx.take n).map (·.2) := by
    rw [hi.groups_length, hcov.posts, List.map_take, List.zipIdx_map_snd, List.range_eq_range']
  rw [finishFirstGroups, Comp.get_bind, hrange]
  exact Comp.rel_bind_left (hsim s e hi hp) fun _ _ _ _ h => .ret ⟨h.1, trivial⟩

/-- The first instructions of a phase. -/
theorem firstInstructions_sim (list : List Instruction) (n : ℕ) {pre rest : List Instruction}
    {acc : Script} (hpre : (plan cfg).instructions = pre ++ (list ++ rest))
    (hcov : Covers (plan cfg) cfg.rank (plan cfg).externalInputs pre acc) :
    ∃ lines context acc', Sim (V := V) (H := H) cfg
      ⟨(plan cfg).externalInputs, pre, list ++ rest, {}, acc⟩
      ⟨(plan cfg).externalInputs, pre ++ list.take n, list.drop n ++ rest, context, acc'⟩ lines
      (fun _ => True) (fun _ _ => True)
      (executeInstructions cfg (list.take n) >>= fun _ => (pure [] : Runtime V H (List ℕ))) := by
  have hsplit : list ++ rest = list.take n ++ (list.drop n ++ rest) := by
    rw [← List.append_assoc, List.take_append_drop]
  obtain ⟨lines, context, -, hsim⟩ := @executeInstructions_sim V H cfg spec hacc (list.take n) pre
    (list.drop n ++ rest) acc {} (by rw [hpre, hsplit]) hcov rfl
  refine ⟨lines, context, acc.addPhase (plan cfg) cfg.rank (list.take n), fun s e hi hp => ?_⟩
  rw [hsplit] at hi
  exact Comp.rel_bind_left (hsim s e hi hp) fun _ _ _ _ h => .ret ⟨h.1, trivial⟩

/-- **The invariant holds at every point.** -/
theorem upTo_sim (point : Point) : ∃ lines context acc, Sim (V := V) (H := H) cfg
    ⟨(plan cfg).externalInputs, [], (plan cfg).instructions, {}, (plan cfg).inputLines cfg.rank⟩
    ⟨(plan cfg).externalInputs, point.executed (plan cfg), point.remaining (plan cfg), context, acc⟩
    lines (fun _ => True) (fun _ _ => True) (upTo cfg point) := by
  have hinstr : (plan cfg).instructions = (plan cfg).initialization ++
      ((plan cfg).execution ++ (plan cfg).finalization) := by simp [RuntimePlan.instructions]
  have hinstr' : (plan cfg).instructions = ((plan cfg).initialization ++ (plan cfg).execution) ++
      ((plan cfg).finalization ++ []) := by simp [RuntimePlan.instructions]
  have hcov : Covers (plan cfg) cfg.rank (plan cfg).externalInputs []
      ((plan cfg).inputLines cfg.rank) := hacc.inputLines_covers
  have hcov₁ := hacc.addPhase_covers (plan cfg).initialization hinstr hcov
  have hcov₂ : Covers (plan cfg) cfg.rank (plan cfg).externalInputs (plan cfg).initialization
      ((plan cfg).initialScript cfg.rank) := hacc.initialScript_covers.1
  have hcov₃ := hacc.addPhase_covers (plan cfg).execution hinstr hcov₂
  obtain ⟨l₁, -, sim₁⟩ := @executePhase_sim V H cfg spec hacc (plan cfg).initialization []
    ((plan cfg).execution ++ (plan cfg).finalization) _ hinstr hcov
  obtain ⟨l₂, -, sim₂⟩ := @finishAllGroups_sim V H cfg spec hacc (plan cfg).initialization
    ((plan cfg).execution ++ (plan cfg).finalization) hinstr _ hcov₁
  obtain ⟨l₃, -, sim₃⟩ := @executePhase_sim V H cfg spec hacc (plan cfg).execution
    (plan cfg).initialization (plan cfg).finalization _ hinstr hcov₂
  obtain ⟨l₄, -, sim₄⟩ := @executePhase_sim V H cfg spec hacc (plan cfg).finalization
    ((plan cfg).initialization ++ (plan cfg).execution) [] _ hinstr' hcov₃
  rw [← hinstr] at sim₁
  cases point with
  | initialization n =>
    obtain ⟨lines, context, acc, sim⟩ := @firstInstructions_sim V H cfg spec hacc
      (plan cfg).initialization n [] _ _ hinstr hcov
    rw [← hinstr] at sim
    exact ⟨lines, context, acc, sim⟩
  | initializationWait n =>
    obtain ⟨lines, acc, sim⟩ := finishFirstGroups_sim (V := V) (H := H) hacc hinstr hcov₁ n
    exact ⟨_, {}, acc, sim₁.bind fun _ => sim⟩
  | execution n =>
    obtain ⟨lines, context, acc, sim⟩ := firstInstructions_sim (V := V) (H := H) hacc
      (plan cfg).execution n hinstr hcov₂
    exact ⟨_, context, acc, sim₁.bind fun _ => sim₂.bind fun _ => sim⟩
  | finalization n =>
    obtain ⟨lines, context, acc, sim⟩ := firstInstructions_sim (V := V) (H := H) hacc
      (plan cfg).finalization n hinstr' hcov₃
    rw [List.append_nil, List.append_nil] at sim
    exact ⟨_, context, acc, sim₁.bind fun _ => sim₂.bind fun _ => sim₃.bind fun _ => sim⟩
  | finalWait n =>
    obtain ⟨lines, acc, sim⟩ := finishFirstGroups_sim (V := V) (H := H) hacc
      (List.append_nil _).symm hacc.instructionScript_covers n
    rw [List.append_nil] at sim₄
    exact ⟨_, {}, acc, sim₁.bind fun _ => sim₂.bind fun _ => sim₃.bind fun _ => sim₄.bind fun _ => sim⟩

end

/-! ## What the invariant says of the uses -/

theorem pendingUses_eq_count (groups : List (PendingGroup H)) (id : ValueId) :
    pendingUses groups id = ((groups.filter fun group => !group.completed).flatMap
      fun group => group.localInputIds).count id := by
  induction groups with
  | nil => rfl
  | cons group groups ih =>
    rw [pendingUses, List.map_cons, List.sum_cons, ← pendingUses, ih]
    cases hc : group.completed <;> simp [hc]

namespace Inv

variable {st : Stage} {s : RuntimeState V H} {e : ScriptState V H}

/-- A defined local value is missing just when it has been erased. -/
theorem store_eq_none_iff {spec : OperatorSpec} (hacc : Accepted (plan cfg) spec)
    (h : Inv cfg st s e) (hpre : (plan cfg).instructions = st.pre ++ st.rest) {id : ValueId}
    (hl : (plan cfg).IsLocal cfg.rank id) (hd : id ∈ st.ext ++ definedBy st.pre) :
    s.store id = none ↔ Released cfg s.remainingUses id := by
  obtain ⟨full, hfull, hs⟩ := h.store
  have hsome : full id ≠ none := by
    cases hv : e.values id with
    | some v =>
      obtain ⟨d, -, hentry⟩ := hfull.ready id v hv
      simp [hentry]
    | none =>
      rcases h.covers.ready_or_pending hl hd with hr | ⟨g, a, hg, hid, hw⟩
      · have := (h.values id).2 hr
        simp [hv] at this
      · obtain ⟨defs, ids, src, d, hok, -⟩ := hacc.action hpre hg
        obtain ⟨d', slot, -, hentry⟩ := hfull.pending g a (by rw [h.covers.posts]; exact hg) hw id
          (hok.mem_localOutputs.2 ⟨hid, hl⟩) hv
        simp [hentry]
  rw [hs, visible]
  split_ifs with hr
  · exact iff_of_true rfl hr
  · exact iff_of_false hsome hr

/-- When every group is finished, no group owes a use. -/
theorem pendingUses_eq_zero (h : Inv cfg st s e)
    (hall : ∀ g < (actionsOf st.pre).length, st.acc.Waited g) (id : ValueId) :
    pendingUses s.groups id = 0 := by
  refine List.sum_eq_zero_iff_forall_eq_nat.2 fun x hx => ?_
  obtain ⟨group, hgroup, rfl⟩ := List.mem_map.1 hx
  obtain ⟨g, hg, hget⟩ := List.getElem_of_mem hgroup
  have hlt : g < (actionsOf st.pre).length := h.groups_length ▸ hg
  obtain ⟨handle, -, hentry⟩ := h.groups g _ (List.getElem?_eq_getElem hlt)
  rw [List.getElem?_eq_getElem hg, hget, Option.some.injEq] at hentry
  simp [hentry, hall g hlt]

/-- **What is in the store when every group is finished.** -/
theorem store_isSome_iff {spec : OperatorSpec} (hacc : Accepted (plan cfg) spec)
    (h : Inv cfg st s e) (hmode : cfg.diffMode = .finalOnly)
    (hpre : (plan cfg).instructions = st.pre ++ st.rest) (hrest : st.rest = [])
    (hext : st.ext = (plan cfg).externalInputs)
    (hall : ∀ g < (actionsOf st.pre).length, st.acc.Waited g) (id : ValueId) :
    (s.store id).isSome ↔ (plan cfg).IsLocal cfg.rank id ∧ id ∈ (plan cfg).definitions ∧
      (id ∈ (plan cfg).finalOutputs ∨ id ∉ totalUses cfg) := by
  have hretain : retainAllValues cfg = false := by simp [retainAllValues, hmode]
  have hdefs : st.ext ++ definedBy st.pre = (plan cfg).definitions := by
    rw [hext, RuntimePlan.definitions, hpre, hrest, List.append_nil]
    rfl
  have hready : id ∈ st.acc.ready cfg.rank ↔
      (plan cfg).IsLocal cfg.rank id ∧ id ∈ (plan cfg).definitions := by
    rw [h.covers.ready, hdefs]
    exact and_iff_left fun g a hg _ => hall g (List.getElem?_eq_some_iff.1 hg).1
  by_cases hid : (plan cfg).IsLocal cfg.rank id ∧ id ∈ (plan cfg).definitions
  · have hcount := h.uses hretain id
    rw [hrest, h.pendingUses_eq_zero hall, Nat.add_zero] at hcount
    have hfinal : s.remainingUses id = 0 ↔ id ∉ (plan cfg).finalOutputs := by
      rw [hcount, List.count_eq_zero]
      simp [RuntimePlan.finalsOf, hid.1]
    have hstore := h.store_eq_none_iff hacc hpre hid.1 (hdefs ▸ hid.2)
    rw [Released, hfinal] at hstore
    rw [Option.isSome_iff_ne_none, Ne, hstore]
    simp only [hretain, hid, true_and]
    tauto
  · obtain ⟨full, hfull, hs⟩ := h.store
    have hvalue : e.values id = none := by
      rw [← Option.not_isSome_iff_eq_none, h.values, hready]
      exact hid
    have hnone : full id = none := hfull.absent id hvalue fun g a hg hw =>
      absurd (hall g (by rw [← h.covers.posts]; exact (List.getElem?_eq_some_iff.1 hg).1)) hw
    rw [hs, visible, hnone, ite_self]
    simp only [Option.isSome_none, Bool.false_eq_true, false_iff]
    exact fun h' => hid ⟨h'.1, h'.2.1⟩

/-- **What a state records of the uses**, at a point. -/
theorem releaseExact {spec : OperatorSpec} (hacc : Accepted (plan cfg) spec)
    (hmode : cfg.diffMode = .finalOnly) {point : Point} {context : Context} {acc : Script}
    (h : Inv cfg ⟨(plan cfg).externalInputs, point.executed (plan cfg), point.remaining (plan cfg),
      context, acc⟩ s e) : ReleaseExact cfg point s := by
  have hretain : retainAllValues cfg = false := by simp [retainAllValues, hmode]
  have hcounts : ∀ id, s.remainingUses id = (openUses cfg point s).count id := by
    intro id
    rw [h.uses hretain, openUses, pendingUses_eq_count]
    simp only [List.count_append]
    omega
  refine ⟨List.ext_getElem? fun g => ?_, hcounts, fun id hl hd => ?_⟩
  · rw [List.getElem?_map, List.getElem?_map]
    cases hg : (actionsOf (point.executed (plan cfg)))[g]? with
    | some a =>
      obtain ⟨handle, -, hgroup⟩ := h.groups g a hg
      rw [hgroup]
      rfl
    | none =>
      have hlen : s.groups.length = (actionsOf (point.executed (plan cfg))).length := h.groups_length
      rw [List.getElem?_eq_none_iff] at hg
      rw [List.getElem?_eq_none_iff.2 (hlen ▸ hg)]
      rfl
  · rw [h.store_eq_none_iff hacc (point.executed_append_remaining _) hl hd, Released, hcounts id,
      List.count_eq_zero]
    simp [hretain]

end Inv

end SequentialRuntime

end CkksRuntime
