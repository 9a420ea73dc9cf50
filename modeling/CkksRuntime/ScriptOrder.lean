/-
  ckks-runtime formalization — the order of a script.

  * `Script.Ordered`: every line reads values that are ready before it, and a
    wait comes after the post of its group, once;
  * `Covers`: the lines built for a prefix of the plan make ready the local values
    of the prefix whose groups have been waited for.  Every step of the
    construction keeps it (`Covers.settle`, `Covers.demandAll`,
    `Covers.addInstruction`, `Covers.finishAll`);
  * `Accepted.script_covers`: so it holds of the script of an accepted plan.
-/
import CkksRuntime.Script

namespace CkksRuntime

open PlanVerifier

/-! ## The parts of a script -/

namespace Script

variable {rank : CInt} {acc acc' : Script} {l : Line} {g : ℕ} {id : ValueId}

@[simp] theorem posts_nil : posts [] = [] := rfl

@[simp] theorem ready_nil : ready rank [] = [] := rfl

@[simp] theorem posts_append : (acc ++ acc').posts = acc.posts ++ acc'.posts := by
  simp [posts]

@[simp] theorem ready_append : (acc ++ acc').ready rank = acc.ready rank ++ acc'.ready rank := by
  simp [ready]

@[simp] theorem ready_singleton : ready rank [l] = l.act.defines rank := by simp [ready]

@[simp] theorem not_waited_nil : ¬ Waited [] g := by simp [Waited]

theorem waited_append : Waited (acc ++ acc') g ↔ acc.Waited g ∨ acc'.Waited g := by
  simp [Waited]

theorem waited_singleton : Waited [l] g ↔ l.act.wait? = some g := by
  simp [Waited, eq_comm]

theorem posts_singleton : posts [l] = l.act.post?.toList := by
  unfold posts
  cases h : l.act.post? <;> simp [h]

/-- What a line relies on, after the lines `acc`. -/
structure LineOk (rank : CInt) (acc : Script) (line : Line) : Prop where
  reads : ∀ id ∈ line.act.reads rank, id ∈ acc.ready rank
  nodup : (line.act.defines rank).Nodup
  fresh : ∀ id ∈ line.act.defines rank, id ∉ acc.ready rank
  post : ∀ group action, line.act = .post group action → group = acc.posts.length
  wait : ∀ group action, line.act = .wait group action →
    acc.posts[group]? = some action ∧ ¬ acc.Waited group

/-- Every line may rely on those before it. -/
inductive Ordered (rank : CInt) : Script → Prop
  | nil : Ordered rank []
  | snoc {acc : Script} {line : Line} : Ordered rank acc → LineOk rank acc line →
    Ordered rank (acc ++ [line])

theorem Ordered.line {script : Script} (h : Ordered rank script) :
    ∀ {pre line post}, script = pre ++ line :: post → LineOk rank pre line := by
  induction h with
  | nil => intro pre line post heq; simp at heq
  | @snoc acc last _ hlast ih =>
    intro pre line post heq
    rcases append_eq_split heq with ⟨post', h⟩ | ⟨pre', rfl, h⟩
    · exact ih h
    · cases pre' with
      | nil =>
        obtain ⟨rfl, -⟩ := List.cons.inj h
        simpa using hlast
      | cons x xs => simp at h

theorem Ordered.nodup {script : Script} (h : Ordered rank script) : (script.ready rank).Nodup := by
  induction h with
  | nil => simp
  | snoc _ hline ih =>
    rw [ready_append, ready_singleton, List.nodup_append]
    refine ⟨ih, hline.nodup, ?_⟩
    rintro a ha b hb rfl
    exact hline.fresh a hb ha

/-! ### `settle` and `demand` -/

/-- What `settle` adds. -/
theorem settle_eq (context : Context) (acc : Script) (group : CommAction × ℕ) :
    acc.settle context group = acc ++ (if acc.Waited group.2 then []
      else [⟨context, .wait group.2 group.1⟩]) := by
  unfold settle
  split_ifs <;> simp

theorem waited_settle (context : Context) (group : CommAction × ℕ) :
    (acc.settle context group).Waited group.2 := by
  unfold settle
  split_ifs with h
  · exact h
  · exact waited_append.2 (Or.inr (waited_singleton.2 rfl))

theorem waited_settle_iff (context : Context) (group : CommAction × ℕ) :
    (acc.settle context group).Waited g ↔ acc.Waited g ∨ g = group.2 := by
  unfold settle
  split_ifs with h
  · constructor
    · exact Or.inl
    · rintro (hg | rfl)
      exacts [hg, h]
  · rw [waited_append, waited_singleton]
    simp [Act.wait?, eq_comm]

@[simp] theorem posts_settle (context : Context) (group : CommAction × ℕ) :
    (acc.settle context group).posts = acc.posts := by
  unfold settle
  split_ifs
  · rfl
  · rw [posts_append, posts_singleton]; simp [Act.post?]

theorem groupOf_eq_some {group : CommAction × ℕ} (h : acc.groupOf rank id = some group) :
    acc.posts[group.2]? = some group.1 ∧ id ∈ group.1.localOutputs rank :=
  ⟨List.mem_zipIdx_iff_getElem?.1 (List.mem_of_find?_eq_some h), by simpa using List.find?_some h⟩

theorem groupOf_eq_none (h : acc.groupOf rank id = none) {action : CommAction}
    (hg : acc.posts[g]? = some action) : id ∉ action.localOutputs rank := by
  have := List.find?_eq_none.1 h (action, g) (List.mem_zipIdx_iff_getElem?.2 hg)
  simpa using this

end Script

/-! ## The local uses of a plan -/

/-- The uses of values by an instruction on a rank. -/
def Instruction.localUses (rank : CInt) (i : Instruction) : List ValueId :=
  match i.body with
  | .compute op => if op.place.rank = rank then op.inputs else []
  | .comm action => action.localInputs rank
  | .encode _ => []

def localUses (rank : CInt) (list : List Instruction) : List ValueId :=
  list.flatMap (Instruction.localUses rank)

@[simp] theorem localUses_nil {rank : CInt} : localUses rank [] = [] := rfl

@[simp] theorem localUses_append {rank : CInt} (l l' : List Instruction) :
    localUses rank (l ++ l') = localUses rank l ++ localUses rank l' := by simp [localUses]

@[simp] theorem localUses_cons {rank : CInt} (i : Instruction) (l : List Instruction) :
    localUses rank (i :: l) = i.localUses rank ++ localUses rank l := by simp [localUses]

namespace PlanVerifier

variable {plan : RuntimePlan} {spec : OperatorSpec} {rank : CInt}

/-! ### Accepted communication actions on a rank -/

theorem mem_localOutputs {d : ValueDesc} {outs : List ValueId} {places : List Place}
    (h : List.Forall₂ (OutputOk plan d) outs places) {out : ValueId} :
    out ∈ ((outs.zip places).filter fun p => p.2.rank = rank).map (·.1) ↔
      out ∈ outs ∧ plan.IsLocal rank out := by
  induction h with
  | nil => simp
  | @cons out' p outs places hout _ ih =>
    obtain ⟨-, d', hd', hp, -⟩ := hout
    have hlocal : plan.IsLocal rank out' ↔ p.rank = rank := by
      constructor
      · rintro ⟨d'', hd'', hr⟩
        rw [hd'] at hd''
        cases hd''
        rw [← hp]; exact hr
      · intro hr; exact ⟨d', hd', by rw [hp]; exact hr⟩
    rw [List.zip_cons_cons, List.filter_cons]
    by_cases hr : p.rank = rank
    · simp only [hr, decide_true, if_true, List.map_cons, List.mem_cons, ih]
      constructor
      · rintro (rfl | ⟨h1, h2⟩)
        exacts [⟨Or.inl rfl, hlocal.2 hr⟩, ⟨Or.inr h1, h2⟩]
      · rintro ⟨rfl | h1, h2⟩
        exacts [Or.inl rfl, Or.inr ⟨h1, h2⟩]
    · simp only [hr, decide_false, Bool.false_eq_true, if_false, List.mem_cons, ih]
      constructor
      · rintro ⟨h1, h2⟩; exact ⟨Or.inr h1, h2⟩
      · rintro ⟨rfl | h1, h2⟩
        exacts [absurd (hlocal.1 h2) hr, ⟨h1, h2⟩]

namespace CommOk

variable {defs : List ValueId} {ids : List TransferId} {action : CommAction} {id : ValueId}
  {d : ValueDesc}

theorem mem_localOutputs (h : CommOk plan defs ids action id d) {out : ValueId} :
    out ∈ action.localOutputs rank ↔ out ∈ action.outputs ∧ plan.IsLocal rank out :=
  PlanVerifier.mem_localOutputs h.outputs

theorem localOutputs_nodup (h : CommOk plan defs ids action id d) :
    (action.localOutputs rank).Nodup := by
  have hzip : (action.outputs.zip action.destinations).map (·.1) = action.outputs :=
    List.map_fst_zip h.outputs.length_eq.le
  have hsub : List.Sublist (action.localOutputs rank)
      ((action.outputs.zip action.destinations).map (·.1)) := List.filter_sublist.map _
  rw [hzip] at hsub
  exact h.outputs_nodup.sublist hsub

theorem localInputs_eq (h : CommOk plan defs ids action id d) :
    action.localInputs rank = if d.place.rank = rank then [id] else [] := by
  unfold CommAction.localInputs
  rw [h.inputs, h.sources]
  by_cases hr : d.place.rank = rank <;> simp [hr]

end CommOk

namespace Accepted

variable (h : Accepted plan spec)
include h

/-- A posted action at its position. -/
theorem action {pre rest : List Instruction} (hpre : plan.instructions = pre ++ rest) {g : ℕ}
    {action : CommAction} (hg : (actionsOf pre)[g]? = some action) :
    ∃ defs ids id d, CommOk plan defs ids action id d ∧ ∀ out ∈ action.outputs, out ∈ definedBy pre := by
  obtain ⟨i, hi, hb⟩ := mem_actionsOf.1 (List.mem_of_getElem? hg)
  obtain ⟨a, b, hab⟩ := List.append_of_mem hi
  obtain ⟨phase, -, hok⟩ := h.instruction a i (b ++ rest) (by rw [hpre, hab]; simp)
  rw [hb] at hok
  obtain ⟨id, d, hok⟩ := hok
  refine ⟨_, _, id, d, hok, fun out hout => List.mem_flatMap.2 ⟨i, hi, ?_⟩⟩
  rw [hb]; exact hout

/-- A value is brought by one group at most. -/
theorem group_unique {pre rest : List Instruction} (hpre : plan.instructions = pre ++ rest)
    {g g' : ℕ} {a a' : CommAction} (hg : (actionsOf pre)[g]? = some a)
    (hg' : (actionsOf pre)[g']? = some a') {out : ValueId} (hout : out ∈ a.outputs)
    (hout' : out ∈ a'.outputs) : g = g' := by
  have hnodup := h.definitions_nodup_prefix pre rest hpre
  have hsub : List.Sublist ((actionsOf pre).flatMap (·.outputs)) (definedBy pre) := by
    clear hpre hg hg' hnodup
    induction pre with
    | nil => simp
    | cons i is ih =>
      have happ : ∀ l : List Instruction, definedBy (i :: l) = i.body.outputs ++ definedBy l := by
        intro l; simp [definedBy]
      rw [happ, show actionsOf (i :: is) = i.action?.toList ++ actionsOf is by
        unfold actionsOf; cases hi : i.action? <;> simp [hi], List.flatMap_append]
      refine List.Sublist.append ?_ ih
      unfold Instruction.action?
      cases i.body <;> simp [InstructionBody.outputs]
  have hacts := (List.nodup_append.1 hnodup).2.1.sublist hsub
  by_contra hne
  have hpair := (List.nodup_flatMap.1 hacts).2
  rw [List.pairwise_iff_getElem] at hpair
  obtain ⟨hlt, rfl⟩ := List.getElem?_eq_some_iff.1 hg
  obtain ⟨hlt', rfl⟩ := List.getElem?_eq_some_iff.1 hg'
  rcases Nat.lt_or_gt_of_ne hne with hgg | hgg
  · exact hpair g g' hlt hlt' hgg hout hout'
  · exact hpair g' g hlt' hlt hgg hout' hout

end Accepted

end PlanVerifier

/-! ## What a script covers -/

/-- The lines `acc`, built for the external inputs `ext` and the instructions
    `pre`. -/
structure Covers (plan : RuntimePlan) (rank : CInt) (ext : List ValueId) (pre : List Instruction)
    (acc : Script) : Prop where
  ordered : acc.Ordered rank
  posts : acc.posts = actionsOf pre
  waited : ∀ g, acc.Waited g → g < (actionsOf pre).length
  /-- a value is ready unless it is pending in a group -/
  ready : ∀ id, id ∈ acc.ready rank ↔ (plan.IsLocal rank id ∧ id ∈ ext ++ definedBy pre) ∧
    ∀ g a, (actionsOf pre)[g]? = some a → id ∈ a.outputs → acc.Waited g
  /-- the instructions of `pre` have made ready what they use -/
  used : ∀ id ∈ localUses rank pre, id ∈ acc.ready rank

/-- A group is finished: its outputs become ready. -/
theorem Script.ready_settle {rank : CInt} {acc : Script} {context : Context}
    {group : CommAction × ℕ} {id : ValueId} :
    id ∈ (acc.settle context group).ready rank ↔
      id ∈ acc.ready rank ∨ (¬ acc.Waited group.2 ∧ id ∈ group.1.localOutputs rank) := by
  unfold settle
  split_ifs with hw
  · simp [hw]
  · simp [hw, Act.defines]

namespace Covers

variable {plan : RuntimePlan} {spec : OperatorSpec} {rank : CInt} {ext : List ValueId}
  {pre rest : List Instruction} {acc : Script} {context : Context} {g : ℕ} {id : ValueId}
  {action : CommAction}

theorem nil : Covers plan rank [] [] [] :=
  ⟨.nil, rfl, by simp, by simp, by simp⟩

theorem isLocal (h : Covers plan rank ext pre acc) (hid : id ∈ acc.ready rank) :
    plan.IsLocal rank id := ((h.ready id).1 hid).1.1

theorem mem_defined (h : Covers plan rank ext pre acc) (hid : id ∈ acc.ready rank) :
    id ∈ ext ++ definedBy pre := ((h.ready id).1 hid).1.2

/-- A local value of the prefix is ready, or pending in a group. -/
theorem ready_or_pending (h : Covers plan rank ext pre acc) (hl : plan.IsLocal rank id)
    (hd : id ∈ ext ++ definedBy pre) : id ∈ acc.ready rank ∨
      ∃ g a, (actionsOf pre)[g]? = some a ∧ id ∈ a.outputs ∧ ¬ acc.Waited g := by
  by_cases hr : id ∈ acc.ready rank
  · exact Or.inl hr
  · right
    rw [h.ready] at hr
    push Not at hr
    obtain ⟨g, a, hg, hid, hw⟩ := hr ⟨hl, hd⟩
    exact ⟨g, a, hg, hid, hw⟩

theorem not_ready_of_pending (h : Covers plan rank ext pre acc)
    (hg : (actionsOf pre)[g]? = some action) (hw : ¬ acc.Waited g) (hid : id ∈ action.outputs) :
    id ∉ acc.ready rank := fun hr => hw (((h.ready id).1 hr).2 g action hg hid)

section
variable (hacc : Accepted plan spec) (hpre : plan.instructions = pre ++ rest)
include hacc hpre

/-- `finish_group`. -/
theorem settle (context : Context) (h : Covers plan rank ext pre acc)
    (hg : (actionsOf pre)[g]? = some action) :
    Covers plan rank ext pre (acc.settle context (action, g)) := by
  obtain ⟨defs, ids, src, d, hok, hdef⟩ := hacc.action hpre hg
  refine ⟨?_, by rw [Script.posts_settle, h.posts], ?_, ?_, ?_⟩
  · rw [Script.settle]
    split_ifs with hw
    · exact h.ordered
    · refine .snoc h.ordered ⟨by simp [Act.reads], hok.localOutputs_nodup, ?_, by simp, ?_⟩
      · intro out hout
        exact h.not_ready_of_pending hg hw (hok.mem_localOutputs.1 hout).1
      · rintro g' a' heq
        simp only [Act.wait.injEq] at heq
        obtain ⟨rfl, rfl⟩ := heq
        exact ⟨by rw [h.posts]; exact hg, hw⟩
  · intro g' hg'
    rcases (Script.waited_settle_iff context (action, g)).1 hg' with hg' | rfl
    · exact h.waited g' hg'
    · exact (List.getElem?_eq_some_iff.1 hg).1
  · intro id
    rw [Script.ready_settle]
    simp only [Script.waited_settle_iff]
    constructor
    · rintro (hr | ⟨-, hout⟩)
      · obtain ⟨hd, hw⟩ := (h.ready id).1 hr
        exact ⟨hd, fun g' a' hg' hid => Or.inl (hw g' a' hg' hid)⟩
      · obtain ⟨hout, hl⟩ := hok.mem_localOutputs.1 hout
        refine ⟨⟨hl, List.mem_append_right _ (hdef id hout)⟩, fun g' a' hg' hid => Or.inr ?_⟩
        exact hacc.group_unique hpre hg' hg hid hout
    · rintro ⟨⟨hl, hd⟩, hw⟩
      rcases h.ready_or_pending hl hd with hr | ⟨g', a', hg', hid, hnw⟩
      · exact Or.inl hr
      · rcases hw g' a' hg' hid with hw | rfl
        · exact absurd hw hnw
        · rw [hg] at hg'
          cases hg'
          exact Or.inr ⟨hnw, hok.mem_localOutputs.2 ⟨hid, hl⟩⟩
  · intro id hid
    exact Script.ready_settle.2 (Or.inl (h.used id hid))

/-- `ensure_ready`. -/
theorem demand (context : Context) (h : Covers plan rank ext pre acc) :
    Covers plan rank ext pre (acc.demand rank context id) := by
  unfold Script.demand
  cases hgrp : acc.groupOf rank id with
  | none => exact h
  | some group =>
    obtain ⟨hg, -⟩ := Script.groupOf_eq_some hgrp
    exact h.settle hacc hpre context (by rw [← h.posts]; exact hg)

/-- After `ensure_ready` the value is ready. -/
theorem demand_ready (context : Context) (h : Covers plan rank ext pre acc) (hl : plan.IsLocal rank id)
    (hd : id ∈ ext ++ definedBy pre) : id ∈ (acc.demand rank context id).ready rank := by
  unfold Script.demand
  cases hgrp : acc.groupOf rank id with
  | none =>
    rcases h.ready_or_pending hl hd with hr | ⟨g, a, hg, hid, -⟩
    · exact hr
    · obtain ⟨defs, ids, src, d, hok, -⟩ := hacc.action hpre hg
      have := Script.groupOf_eq_none hgrp (h.posts ▸ hg)
      exact absurd (hok.mem_localOutputs.2 ⟨hid, hl⟩) this
  | some group =>
    obtain ⟨hg, hout⟩ := Script.groupOf_eq_some hgrp
    rw [h.posts] at hg
    rcases h.ready_or_pending hl hd with hr | ⟨g', a', hg', hid, hw⟩
    · exact Script.ready_settle.2 (Or.inl hr)
    · obtain ⟨defs, ids, src, d, hok, -⟩ := hacc.action hpre hg
      have := hacc.group_unique hpre hg hg' (hok.mem_localOutputs.1 hout).1 hid
      exact Script.ready_settle.2 (Or.inr ⟨this ▸ hw, hout⟩)

/-- A value that is ready demands no wait. -/
theorem demand_of_ready (context : Context) (h : Covers plan rank ext pre acc)
    (hr : id ∈ acc.ready rank) : acc.demand rank context id = acc := by
  unfold Script.demand
  cases hgrp : acc.groupOf rank id with
  | none => rfl
  | some group =>
    obtain ⟨hg, hout⟩ := Script.groupOf_eq_some hgrp
    rw [h.posts] at hg
    obtain ⟨defs, ids, src, d, hok, -⟩ := hacc.action hpre hg
    exact if_pos (((h.ready id).1 hr).2 group.2 group.1 hg (hok.mem_localOutputs.1 hout).1)

/-- A pending value demands the wait for its group. -/
theorem demand_of_pending (context : Context) (h : Covers plan rank ext pre acc)
    (hg : (actionsOf pre)[g]? = some action) (hid : id ∈ action.localOutputs rank) :
    acc.demand rank context id = acc.settle context (action, g) := by
  unfold Script.demand
  cases hgrp : acc.groupOf rank id with
  | none => exact absurd hid (Script.groupOf_eq_none hgrp (by rw [h.posts]; exact hg))
  | some group =>
    obtain ⟨hg', hout⟩ := Script.groupOf_eq_some hgrp
    rw [h.posts] at hg'
    obtain ⟨_, _, _, _, hok, -⟩ := hacc.action hpre hg
    obtain ⟨_, _, _, _, hok', -⟩ := hacc.action hpre hg'
    have := hacc.group_unique hpre hg hg' (hok.mem_localOutputs.1 hid).1
      (hok'.mem_localOutputs.1 hout).1
    subst this
    rw [hg] at hg'
    cases hg'
    rfl

theorem demandAll (context : Context) (ids : List ValueId) : ∀ {acc : Script},
    Covers plan rank ext pre acc → Covers plan rank ext pre (acc.demandAll rank context ids) := by
  induction ids with
  | nil => exact fun h => h
  | cons id ids ih => exact fun h => ih (h.demand hacc hpre context)

end

end Covers

namespace Script

variable {rank : CInt} {acc : Script} {context : Context} {id : ValueId}

theorem ready_settle_mono {group : CommAction × ℕ} (h : id ∈ acc.ready rank) :
    id ∈ (acc.settle context group).ready rank := ready_settle.2 (Or.inl h)

theorem ready_demand_mono {id' : ValueId} (h : id ∈ acc.ready rank) :
    id ∈ (acc.demand rank context id').ready rank := by
  unfold demand
  split
  · exact ready_settle_mono h
  · exact h

theorem ready_demandAll_mono (ids : List ValueId) : ∀ {acc : Script}, id ∈ acc.ready rank →
    id ∈ (acc.demandAll rank context ids).ready rank := by
  induction ids with
  | nil => exact fun h => h
  | cons id' ids ih => exact fun h => ih (ready_demand_mono h)

theorem posts_demand (acc : Script) (id : ValueId) :
    (acc.demand rank context id).posts = acc.posts := by
  unfold demand
  split <;> simp

theorem posts_demandAll (ids : List ValueId) : ∀ acc : Script,
    (acc.demandAll rank context ids).posts = acc.posts := by
  induction ids with
  | nil => exact fun _ => rfl
  | cons id ids ih => exact fun acc => (ih _).trans (posts_demand acc id)

end Script

namespace Covers

variable {plan : RuntimePlan} {spec : OperatorSpec} {rank : CInt} {ext : List ValueId}
  {pre rest : List Instruction} {acc : Script} {context : Context} {g : ℕ} {id : ValueId}
  {action : CommAction}

/-- The operands of an instruction are ready after `demandAll`. -/
theorem demandAll_ready (context : Context) (hacc : Accepted plan spec) (hpre : plan.instructions = pre ++ rest)
    (ids : List ValueId) : ∀ {acc : Script}, Covers plan rank ext pre acc →
      (∀ id ∈ ids, plan.IsLocal rank id ∧ id ∈ ext ++ definedBy pre) →
      ∀ id ∈ ids, id ∈ (acc.demandAll rank context ids).ready rank := by
  induction ids with
  | nil => simp
  | cons id ids ih =>
    intro acc h hids id' hid'
    rcases List.mem_cons.1 hid' with rfl | hid'
    · obtain ⟨hl, hd⟩ := hids id' (by simp)
      exact Script.ready_demandAll_mono ids (h.demand_ready hacc hpre context hl hd)
    · exact ih (h.demand hacc hpre context) (fun x hx => hids x (by simp [hx])) id' hid'

/-- One more external input. -/
theorem bind (context : Context) (h : Covers plan rank ext [] acc) (hl : plan.IsLocal rank id) (hid : id ∉ ext) :
    Covers plan rank (ext ++ [id]) [] (acc ++ [⟨context, .bind id⟩]) := by
  have hfresh : id ∉ acc.ready rank := fun hr => hid (by simpa using h.mem_defined hr)
  refine ⟨.snoc h.ordered ⟨by simp [Act.reads], by simp [Act.defines], by simpa [Act.defines],
    by simp, by simp⟩, ?_, ?_, ?_, by simp⟩
  · rw [Script.posts_append, h.posts, Script.posts_singleton]; simp [Act.post?]
  · intro g hg
    rw [Script.waited_append, Script.waited_singleton] at hg
    exact h.waited g (hg.resolve_right (by simp [Act.wait?]))
  · intro id'
    rw [Script.ready_append, Script.ready_singleton, List.mem_append, h.ready]
    simp only [actionsOf_nil, List.getElem?_nil, Act.defines, List.mem_singleton, definedBy_nil,
      List.append_nil, List.mem_append]
    constructor
    · rintro (⟨⟨hl', hd⟩, -⟩ | rfl)
      · exact ⟨⟨hl', Or.inl hd⟩, by simp⟩
      · exact ⟨⟨hl, Or.inr rfl⟩, by simp⟩
    · rintro ⟨⟨hl', hd | rfl⟩, -⟩
      · exact Or.inl ⟨⟨hl', hd⟩, by simp⟩
      · exact Or.inr rfl

/-- An external input of another rank. -/
theorem skip (h : Covers plan rank ext [] acc) (hl : ¬ plan.IsLocal rank id) :
    Covers plan rank (ext ++ [id]) [] acc := by
  refine ⟨h.ordered, h.posts, h.waited, fun id' => ?_, h.used⟩
  rw [h.ready]
  simp only [definedBy_nil, List.append_nil, List.mem_append, List.mem_singleton]
  constructor
  · rintro ⟨⟨hl', hd⟩, hw⟩; exact ⟨⟨hl', Or.inl hd⟩, hw⟩
  · rintro ⟨⟨hl', hd | rfl⟩, hw⟩
    exacts [⟨⟨hl', hd⟩, hw⟩, absurd hl' hl]

/-- A line that defines nothing, and is no wait and no post. -/
theorem idle (context : Context) (h : Covers plan rank ext pre acc) {act : Act}
    (hr : ∀ id ∈ act.reads rank, id ∈ acc.ready rank)
    (hd : act.defines rank = []) (hp : act.post? = none) (hw : act.wait? = none) :
    Covers plan rank ext pre (acc ++ [⟨context, act⟩]) := by
  have hready : (acc ++ [⟨context, act⟩] : Script).ready rank = acc.ready rank := by
    rw [Script.ready_append, Script.ready_singleton]; simp [hd]
  have hwaited : ∀ g, Script.Waited (acc ++ [⟨context, act⟩]) g ↔ acc.Waited g := by
    intro g; rw [Script.waited_append, Script.waited_singleton]; simp [hw]
  refine ⟨.snoc h.ordered ⟨hr, by simp [hd], by simp [hd], ?_, ?_⟩, ?_, ?_, ?_, ?_⟩
  · rintro group action rfl; simp [Act.post?] at hp
  · rintro group action rfl; simp [Act.wait?] at hw
  · rw [Script.posts_append, h.posts, Script.posts_singleton]; simp [hp]
  · intro g hg; exact h.waited g ((hwaited g).1 hg)
  · intro id; rw [hready, h.ready]; simp only [hwaited]
  · intro id hid; rw [hready]; exact h.used id hid

/-- An instruction that defines nothing on the rank. -/
theorem foreign (h : Covers plan rank ext pre acc) {i : Instruction} (hact : i.action? = none)
    (hout : ∀ id ∈ i.body.outputs, ¬ plan.IsLocal rank id) (huse : i.localUses rank = []) :
    Covers plan rank ext (pre ++ [i]) acc := by
  have hacts : actionsOf (pre ++ [i]) = actionsOf pre := by simp [actionsOf, hact]
  refine ⟨h.ordered, by rw [hacts, h.posts], by rw [hacts]; exact h.waited, fun id => ?_, ?_⟩
  · rw [h.ready, hacts, definedBy_append, definedBy_singleton, ← List.append_assoc]
    refine and_congr_left fun _ => and_congr_right fun hl => ?_
    rw [List.mem_append (s := ext ++ definedBy pre)]
    exact ⟨Or.inl, fun hd => hd.resolve_right fun ho => hout id ho hl⟩
  · rw [localUses_append, localUses_cons, huse]
    simpa using h.used

/-- An instruction that defines one value on the rank. -/
theorem define (context : Context) (h : Covers plan rank ext pre acc) {i : Instruction} {act : Act} {out : ValueId}
    (hi : i.action? = none) (hout : i.body.outputs = [out]) (hl : plan.IsLocal rank out)
    (hnew : out ∉ ext ++ definedBy pre) (hread : ∀ id ∈ act.reads rank, id ∈ acc.ready rank)
    (huse : ∀ id ∈ i.localUses rank, id ∈ acc.ready rank) (hdef : act.defines rank = [out])
    (hp : act.post? = none) (hw : act.wait? = none) :
    Covers plan rank ext (pre ++ [i]) (acc ++ [⟨context, act⟩]) := by
  have hacts : actionsOf (pre ++ [i]) = actionsOf pre := by simp [actionsOf, hi]
  have hready : ∀ id, id ∈ (acc ++ [⟨context, act⟩] : Script).ready rank ↔
      id ∈ acc.ready rank ∨ id = out := by
    intro id; rw [Script.ready_append, Script.ready_singleton, List.mem_append]; simp [hdef]
  have hwaited : ∀ g, Script.Waited (acc ++ [⟨context, act⟩]) g ↔ acc.Waited g := by
    intro g; rw [Script.waited_append, Script.waited_singleton]; simp [hw]
  have hfresh : out ∉ acc.ready rank := fun hr => hnew (h.mem_defined hr)
  refine ⟨.snoc h.ordered ⟨hread, by simp [hdef], by simpa [hdef], ?_, ?_⟩, ?_, ?_, ?_, ?_⟩
  · rintro group action rfl; simp [Act.post?] at hp
  · rintro group action rfl; simp [Act.wait?] at hw
  · rw [Script.posts_append, h.posts, Script.posts_singleton, hacts]; simp [hp]
  · intro g hg; rw [hacts]; exact h.waited g ((hwaited g).1 hg)
  · intro id
    rw [hready, h.ready, hacts, definedBy_append, definedBy_singleton, hout, ← List.append_assoc]
    simp only [hwaited, List.mem_append (s := ext ++ definedBy pre), List.mem_singleton]
    constructor
    · rintro (⟨⟨hl', hd⟩, hg⟩ | rfl)
      · exact ⟨⟨hl', Or.inl hd⟩, hg⟩
      · refine ⟨⟨hl, Or.inr rfl⟩, fun g a hg hid => absurd ?_ hnew⟩
        obtain ⟨j, hj, hb⟩ := mem_actionsOf.1 (List.mem_of_getElem? hg)
        refine List.mem_append_right _ (List.mem_flatMap.2 ⟨j, hj, ?_⟩)
        rw [hb]; exact hid
    · rintro ⟨⟨hl', hd | rfl⟩, hg⟩
      · exact Or.inl ⟨⟨hl', hd⟩, hg⟩
      · exact Or.inr rfl
  · intro id hid
    rw [localUses_append, localUses_cons, localUses_nil, List.append_nil, List.mem_append] at hid
    rw [hready]
    exact Or.inl (hid.elim (h.used id) (huse id))

/-- A communication is posted. -/
theorem post (context : Context) (h : Covers plan rank ext pre acc) {i : Instruction}
    (hi : i.body = .comm action)
    (hnew : ∀ out ∈ action.outputs, out ∉ ext ++ definedBy pre)
    (hread : ∀ id ∈ action.localInputs rank, id ∈ acc.ready rank) :
    Covers plan rank ext (pre ++ [i]) (acc ++ [⟨context, .post acc.posts.length action⟩]) := by
  have hact : i.action? = some action := by simp [Instruction.action?, hi]
  have hacts : actionsOf (pre ++ [i]) = actionsOf pre ++ [action] := by simp [actionsOf, hact]
  have hready : ∀ id, id ∈ (acc ++ [⟨context, .post acc.posts.length action⟩] : Script).ready rank ↔
      id ∈ acc.ready rank := by
    intro id; rw [Script.ready_append, Script.ready_singleton, List.mem_append]; simp [Act.defines]
  have hwaited : ∀ g, Script.Waited (acc ++ [⟨context, .post acc.posts.length action⟩]) g ↔
      acc.Waited g := by
    intro g; rw [Script.waited_append, Script.waited_singleton]; simp [Act.wait?]
  refine ⟨.snoc h.ordered ⟨hread, by simp [Act.defines], by simp [Act.defines], ?_, by simp⟩,
    ?_, ?_, ?_, ?_⟩
  · rintro group a heq; cases heq; rfl
  · rw [Script.posts_append, h.posts, Script.posts_singleton, hacts]; rfl
  · intro g hg
    rw [hacts, List.length_append]
    exact Nat.lt_add_right _ (h.waited g ((hwaited g).1 hg))
  · intro id
    rw [hready, h.ready, hacts, definedBy_append, definedBy_singleton, hi, InstructionBody.outputs,
      ← List.append_assoc]
    simp only [hwaited, List.mem_append (s := ext ++ definedBy pre)]
    constructor
    · rintro ⟨⟨hl, hd⟩, hw⟩
      refine ⟨⟨hl, Or.inl hd⟩, fun g a hg hid => ?_⟩
      rw [List.getElem?_append] at hg
      split_ifs at hg with hlt
      · exact hw g a hg hid
      · have : a = action := by
          rcases Nat.eq_zero_or_pos (g - (actionsOf pre).length) with h0 | hpos
          · rw [h0] at hg; simpa using hg.symm
          · rw [List.getElem?_eq_none (by rw [List.length_singleton]; omega)] at hg; cases hg
        exact absurd hd (hnew id (this ▸ hid))
    · rintro ⟨⟨hl, hd⟩, hw⟩
      have hno : id ∉ action.outputs := fun ho => by
        have hlast := hw (actionsOf pre).length action (by simp) ho
        exact absurd (h.waited _ hlast) (lt_irrefl _)
      refine ⟨⟨hl, hd.resolve_right hno⟩, fun g a hg hid => hw g a ?_ hid⟩
      rw [List.getElem?_append_left (List.getElem?_eq_some_iff.1 hg).1]
      exact hg
  · intro id hid
    rw [localUses_append, localUses_cons, localUses_nil, List.append_nil, List.mem_append] at hid
    rw [hready]
    refine hid.elim (h.used id) fun hid => hread id ?_
    simpa [Instruction.localUses, hi] using hid

end Covers

/-! ## The whole script -/

namespace PlanVerifier.Accepted

variable {plan : RuntimePlan} {spec : OperatorSpec} {rank : CInt} (hacc : Accepted plan spec)
include hacc

/-- The operands of a compute instruction, and its output, lie at its Place. -/
theorem compute_isLocal {a b : List Instruction} {i : Instruction} {op : ComputeOp}
    (hab : plan.instructions = a ++ i :: b) (hi : i.body = .compute op) {id : ValueId}
    (hid : id ∈ op.output :: op.inputs) : plan.IsLocal rank id ↔ op.place.rank = rank := by
  obtain ⟨phase, -, hok⟩ := hacc.instruction a i b hab
  rw [hi] at hok
  obtain ⟨d, hd, hp⟩ := verifyComputeMetadata_place hok.metadata id hid
  constructor
  · rintro ⟨d', hd', hr⟩
    rw [hd] at hd'
    cases hd'
    rw [← hp]; exact hr
  · intro hr; exact ⟨d, hd, by rw [hp]; exact hr⟩

/-- What an instruction uses on a rank is local and defined before it. -/
theorem localUses_defined {a b : List Instruction} {i : Instruction}
    (hab : plan.instructions = a ++ i :: b) {id : ValueId} (hid : id ∈ i.localUses rank) :
    plan.IsLocal rank id ∧ id ∈ plan.externalInputs ++ definedBy a := by
  have hin : id ∈ i.body.inputs → id ∈ plan.externalInputs ++ definedBy a := hacc.uses hab
  cases hi : i.body with
  | encode op => simp [Instruction.localUses, hi] at hid
  | compute op =>
    simp only [Instruction.localUses, hi] at hid
    split_ifs at hid with hr
    · refine ⟨(hacc.compute_isLocal hab hi (by simp [hid])).2 hr, hin ?_⟩
      rw [hi]; exact hid
    · simp at hid
  | comm action =>
    obtain ⟨phase, -, hok⟩ := hacc.instruction a i b hab
    rw [hi] at hok
    obtain ⟨src, d, hok⟩ := hok
    simp only [Instruction.localUses, hi, hok.localInputs_eq] at hid
    split_ifs at hid with hr
    · obtain rfl := List.mem_singleton.1 hid
      exact ⟨⟨d, hok.desc, hr⟩, hok.uses⟩
    · simp at hid

/-- **What an instruction adds to the script.** -/
theorem addInstruction_covers {pre rest : List Instruction} {i : Instruction}
    (hpre : plan.instructions = pre ++ i :: rest) {acc : Script}
    (h : Covers plan rank plan.externalInputs pre acc) :
    Covers plan rank plan.externalInputs (pre ++ [i]) (acc.addInstruction plan rank i) := by
  obtain ⟨-, hfresh⟩ := hacc.outputs_fresh hpre
  have huses : ∀ id ∈ i.localUses rank, plan.IsLocal rank id ∧
      id ∈ plan.externalInputs ++ definedBy pre := fun id => hacc.localUses_defined hpre
  unfold Script.addInstruction
  cases hi : i.body with
  | encode op =>
    have hnone : i.action? = none := by simp [Instruction.action?, hi]
    have huse : i.localUses rank = [] := by simp [Instruction.localUses, hi]
    rw [hi] at hfresh
    by_cases hl : plan.IsLocal rank op.output
    · simp only [hl, if_true]
      exact h.define _ hnone (by rw [hi]; rfl) hl (hfresh op.output (by simp [InstructionBody.outputs]))
        (by simp [Act.reads]) (by simp [huse]) rfl rfl rfl
    · simp only [hl, if_false]
      exact h.foreign hnone (by simpa [hi, InstructionBody.outputs] using hl) huse
  | compute op =>
    have hnone : i.action? = none := by simp [Instruction.action?, hi]
    have hlocal : plan.IsLocal rank op.output ↔ op.place.rank = rank :=
      hacc.compute_isLocal hpre hi (by simp)
    rw [hi] at hfresh
    by_cases hr : op.place.rank = rank
    · simp only [hr, if_true]
      have huse : i.localUses rank = op.inputs := by simp [Instruction.localUses, hi, hr]
      rw [huse] at huses
      have hready := Covers.demandAll_ready { current := some i } hacc hpre op.inputs h huses
      exact (h.demandAll hacc hpre _ op.inputs).define _ hnone (by rw [hi]; rfl) (hlocal.2 hr)
        (hfresh op.output (by simp [InstructionBody.outputs])) hready (by rwa [huse]) rfl rfl rfl
    · simp only [hr, if_false]
      refine h.foreign hnone ?_ (by simp [Instruction.localUses, hi, hr])
      simpa [hi, InstructionBody.outputs] using fun hl => hr (hlocal.1 hl)
  | comm action =>
    have huse : i.localUses rank = action.localInputs rank := by simp [Instruction.localUses, hi]
    rw [huse] at huses
    rw [hi] at hfresh
    exact (h.demandAll hacc hpre _ _).post _ hi hfresh
      (Covers.demandAll_ready _ hacc hpre _ h huses)

theorem addPhase_covers (list : List Instruction) : ∀ {pre rest : List Instruction} {acc : Script},
    plan.instructions = pre ++ (list ++ rest) → Covers plan rank plan.externalInputs pre acc →
    Covers plan rank plan.externalInputs (pre ++ list) (acc.addPhase plan rank list) := by
  induction list with
  | nil => intro pre rest acc _ h; simpa [Script.addPhase] using h
  | cons i is ih =>
    intro pre rest acc hpre h
    have hpre' : plan.instructions = pre ++ i :: (is ++ rest) := by simpa using hpre
    have hnext : plan.instructions = pre ++ [i] ++ (is ++ rest) := by simpa using hpre
    have := ih hnext (hacc.addInstruction_covers hpre' h)
    simpa [Script.addPhase] using this

theorem finishAll_covers {pre rest : List Instruction} (hpre : plan.instructions = pre ++ rest)
    {acc : Script} (h : Covers plan rank plan.externalInputs pre acc) :
    Covers plan rank plan.externalInputs pre acc.finishAll ∧
      ∀ g < (actionsOf pre).length, acc.finishAll.Waited g := by
  have hfold : ∀ (groups : List (CommAction × ℕ)) (acc : Script),
      Covers plan rank plan.externalInputs pre acc →
      (∀ group ∈ groups, (actionsOf pre)[group.2]? = some group.1) →
      Covers plan rank plan.externalInputs pre (groups.foldl (Script.settle {}) acc) ∧
        ∀ g, (groups.foldl (Script.settle {}) acc).Waited g ↔ acc.Waited g ∨ ∃ a, (a, g) ∈ groups := by
    intro groups
    induction groups with
    | nil => intro acc h _; exact ⟨h, by simp⟩
    | cons group groups ih =>
      intro acc h hg
      obtain ⟨h1, h2⟩ := ih _ (h.settle hacc hpre {} (hg group (by simp)))
        fun x hx => hg x (by simp [hx])
      refine ⟨h1, fun g => (h2 g).trans ?_⟩
      rw [Script.waited_settle_iff]
      constructor
      · rintro ((hw | rfl) | ⟨a, ha⟩)
        exacts [Or.inl hw, Or.inr ⟨group.1, by simp⟩, Or.inr ⟨a, by simp [ha]⟩]
      · rintro (hw | ⟨a, ha⟩)
        · exact Or.inl (Or.inl hw)
        · rcases List.mem_cons.1 ha with rfl | ha
          exacts [Or.inl (Or.inr rfl), Or.inr ⟨a, ha⟩]
  obtain ⟨h1, h2⟩ := hfold acc.posts.zipIdx acc h fun group hgroup => by
    rw [← h.posts]; exact List.mem_zipIdx_iff_getElem?.1 hgroup
  refine ⟨h1, fun g hg => (h2 g).2 (Or.inr ⟨(actionsOf pre)[g], ?_⟩)⟩
  rw [List.mem_zipIdx_iff_getElem?, h.posts]
  exact List.getElem?_eq_getElem hg

/-- The external inputs are bound. -/
theorem inputLines_covers : Covers plan rank plan.externalInputs [] (plan.inputLines rank) := by
  have hbind : ∀ (ids ext : List ValueId) (acc : Script), Covers plan rank ext [] acc →
      (ext ++ ids).Nodup → Covers plan rank (ext ++ ids) []
        (acc ++ (ids.filter fun id => plan.IsLocal rank id).map fun id => ⟨{}, .bind id⟩) := by
    intro ids
    induction ids with
    | nil => intro ext acc h _; simpa using h
    | cons id ids ih =>
      intro ext acc h hn
      have hn' : (ext ++ [id] ++ ids).Nodup := by simpa using hn
      have hid : id ∉ ext := fun hm =>
        (List.nodup_append.1 hn).2.2 id hm id (by simp) rfl
      rw [List.filter_cons]
      by_cases hl : plan.IsLocal rank id
      · simpa [hl] using ih _ _ (h.bind {} hl hid) hn'
      · simpa [hl] using ih _ _ (h.skip hl) hn'
  have h := hbind plan.externalInputs [] [] .nil (by simpa using hacc.inputs_nodup)
  exact h.idle _ (by simp [Act.reads]) rfl rfl rfl

theorem initialScript_covers :
    Covers plan rank plan.externalInputs plan.initialization (plan.initialScript rank) ∧
      ∀ g < (actionsOf plan.initialization).length, (plan.initialScript rank).Waited g := by
  have hinstr : plan.instructions =
      [] ++ (plan.initialization ++ (plan.execution ++ plan.finalization)) := by
    simp [RuntimePlan.instructions]
  exact hacc.finishAll_covers (by simpa using hinstr)
    (hacc.addPhase_covers plan.initialization hinstr hacc.inputLines_covers)

theorem instructionScript_covers :
    Covers plan rank plan.externalInputs plan.instructions (plan.instructionScript rank) := by
  have hinstr : plan.instructions =
      plan.initialization ++ (plan.execution ++ plan.finalization) := by
    simp [RuntimePlan.instructions]
  have hinstr' : plan.instructions =
      plan.initialization ++ plan.execution ++ (plan.finalization ++ []) := by
    simp [RuntimePlan.instructions]
  exact hacc.addPhase_covers plan.finalization hinstr'
    (hacc.addPhase_covers plan.execution hinstr hacc.initialScript_covers.1)

theorem finished_covers (rank : CInt) :
    Covers plan rank plan.externalInputs plan.instructions (plan.instructionScript rank).finishAll ∧
      ∀ g < (actionsOf plan.instructions).length,
        (plan.instructionScript rank).finishAll.Waited g :=
  hacc.finishAll_covers (List.append_nil _).symm hacc.instructionScript_covers

/-- When all groups are finished, every local value is ready. -/
theorem finished_ready {id : ValueId} : id ∈ (plan.instructionScript rank).finishAll.ready rank ↔
    plan.IsLocal rank id ∧ id ∈ plan.definitions := by
  obtain ⟨h, hall⟩ := hacc.finished_covers rank
  rw [h.ready]
  exact and_iff_left fun g a hg _ => hall g (List.getElem?_eq_some_iff.1 hg).1

/-- **The script of an accepted plan is ordered.** -/
theorem script_ordered : (plan.script rank).Ordered rank := by
  have hsync : ∀ (ids : List ValueId) (acc : Script), acc.Ordered rank →
      (∀ id ∈ ids, id ∈ acc.ready rank) →
      (acc ++ ids.map fun id => (⟨{ value := some id }, .sync id⟩ : Line)).Ordered rank := by
    intro ids
    induction ids with
    | nil => intro acc h _; simpa using h
    | cons id ids ih =>
      intro acc h hids
      have := ih (acc ++ [⟨{ value := some id }, .sync id⟩])
        (.snoc h ⟨by simpa [Act.reads] using hids id (by simp), by simp [Act.defines],
          by simp [Act.defines], by simp, by simp⟩)
        fun x hx => by rw [Script.ready_append]; exact List.mem_append_left _ (hids x (by simp [hx]))
      simpa using this
  refine hsync _ _ (hacc.finished_covers rank).1.ordered fun id hid => ?_
  obtain ⟨hf, hl⟩ := List.mem_filter.1 hid
  exact hacc.finished_ready.2 ⟨by simpa using hl, hacc.final id hf⟩

/-- Every rank posts every action. -/
theorem script_posts : (plan.script rank).posts = plan.actions := by
  have hsync : (plan.syncLines rank).posts = [] := by
    simp [RuntimePlan.syncLines, Script.posts, Act.post?]
  rw [RuntimePlan.script, Script.posts_append, hsync, List.append_nil,
    (hacc.finished_covers rank).1.posts]
  rfl

/-- Every rank waits for every group. -/
theorem script_waited {g : ℕ} : (plan.script rank).Waited g ↔ g < plan.actions.length := by
  have hsync : ¬ (plan.syncLines rank).Waited g := by
    simp [RuntimePlan.syncLines, Script.Waited, Act.wait?, Function.comp_def]
  rw [RuntimePlan.script, Script.waited_append, or_iff_left hsync]
  obtain ⟨h, hall⟩ := hacc.finished_covers rank
  exact ⟨h.waited g, hall g⟩

end PlanVerifier.Accepted

end CkksRuntime
