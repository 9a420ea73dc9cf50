/-
  ckks-runtime formalization — the ranks of a group share the work and the results.

  * `Yields w c`: a part of a script that returns has made the calls `w` of the
    instructions it executes, in that order;
  * `run_works`: what a rank executes, by its run;
  * `ranks_partition`: over all ranks, nothing is executed twice and nothing is
    lost, and so for the entries of the artifacts.
-/
import CkksRuntime.Modes

namespace CkksRuntime

open Interaction PlanVerifier

/-- An instruction as the Api sees it. -/
inductive Work where
  | encode (output : ValueId)
  | compute (op : ComputeOp)
  | post (action : CommAction)
  deriving DecidableEq

def Instruction.work (i : Instruction) : Work :=
  match i.body with
  | .encode op => .encode op.output
  | .compute op => .compute op
  | .comm action => .post action

/-- The instruction that a call executes. -/
def ApiOp.work? {V H : Type} : ApiOp V H → Option Work
  | .encodePlaintext d _ => some (.encode d.id)
  | .compute op _ => some (.compute op)
  | .communicateAsync action _ => some (.post action)
  | _ => none

def Act.work? : Act → Option Work
  | .encode op => some (.encode op.output)
  | .compute op => some (.compute op)
  | .post _ action => some (.post action)
  | .bind _ | .checkInputs _ | .wait .. | .sync _ => none

/-- The instructions that the calls of a run execute, in order. -/
def works {V H : Type} (log : List (Event (ApiOp V H) ApiOp.Ans)) : List Work :=
  log.filterMap fun event => event.op.work?

/-- The rank executes the instruction: it owns the output of an Encode or the Place
    of a ComputeOp; every rank posts a communication. -/
def RuntimePlan.executes (plan : RuntimePlan) (rank : CInt) (i : Instruction) : Bool :=
  match i.body with
  | .encode op => plan.IsLocal rank op.output
  | .compute op => op.place.rank = rank
  | .comm _ => true

/-- What a rank executes of the plan, in order. -/
def RuntimePlan.works (plan : RuntimePlan) (rank : CInt) : List Work :=
  (plan.instructions.filter (plan.executes rank)).map Instruction.work

/-! ## The work in a script -/

namespace Script

def works (acc : Script) : List Work := acc.filterMap fun line => line.act.work?

@[simp] theorem works_append (acc acc' : Script) : works (acc ++ acc') = works acc ++ works acc' :=
  List.filterMap_append

variable {rank : CInt} {context : Context}

theorem works_settle (acc : Script) (group : CommAction × ℕ) :
    (acc.settle context group).works = acc.works := by
  unfold settle
  split_ifs
  · rfl
  · simp [works, Act.work?]

theorem works_demandAll (ids : List ValueId) : ∀ acc : Script,
    (acc.demandAll rank context ids).works = acc.works := by
  induction ids with
  | nil => intro acc; rfl
  | cons id ids ih =>
    intro acc
    show ((acc.demand rank context id).demandAll rank context ids).works = _
    rw [ih, demand]
    cases acc.groupOf rank id with
    | none => rfl
    | some group => exact works_settle acc group

theorem works_addInstruction (plan : RuntimePlan) (acc : Script) (i : Instruction) :
    (acc.addInstruction plan rank i).works =
      acc.works ++ if plan.executes rank i then [i.work] else [] := by
  unfold addInstruction RuntimePlan.executes Instruction.work
  cases i.body with
  | encode op =>
    by_cases h : plan.IsLocal rank op.output <;> simp [h, works, Act.work?]
  | compute op =>
    by_cases h : op.place.rank = rank
    · simp only [h, if_true, works_append, works_demandAll, decide_true]
      rfl
    · simp [h]
  | comm action =>
    simp only [works_append, works_demandAll, if_true]
    rfl

theorem works_addPhase (plan : RuntimePlan) (list : List Instruction) : ∀ acc : Script,
    (acc.addPhase plan rank list).works =
      acc.works ++ (list.filter (plan.executes rank)).map Instruction.work := by
  induction list with
  | nil => intro acc; simp [addPhase]
  | cons i list ih =>
    intro acc
    show ((acc.addInstruction plan rank i).addPhase plan rank list).works = _
    rw [ih, works_addInstruction, List.append_assoc, List.filter_cons]
    by_cases h : plan.executes rank i <;> simp [h]

theorem works_finishAll (acc : Script) : acc.finishAll.works = acc.works := by
  have hfold : ∀ (groups : List (CommAction × ℕ)) (acc : Script),
      (groups.foldl (settle {}) acc).works = acc.works := by
    intro groups
    induction groups with
    | nil => intro acc; rfl
    | cons group groups ih => intro acc; rw [List.foldl_cons, ih, works_settle]
  exact hfold _ acc

end Script

/-- **The work in the script of a rank** is what the rank executes of the plan. -/
theorem RuntimePlan.works_script (plan : RuntimePlan) (rank : CInt) :
    (plan.script rank).works = plan.works rank := by
  have hinputs : (plan.inputLines rank).works = [] := by
    simp [inputLines, Script.works, Act.work?]
  have hsync : (plan.syncLines rank).works = [] := by
    simp [syncLines, Script.works, Act.work?]
  simp [script, instructionScript, initialScript, Script.works_finishAll, Script.works_addPhase,
    hinputs, hsync, works, instructions]

namespace SequentialRuntime

variable {V H α β : Type} {cfg : RunConfig V}

/-! ## The calls of a script -/

/-- When it returns, the part has made the calls of `w`. -/
def Yields (w : List Work) (c : ScriptComp V H α) : Prop :=
  ∀ e log a e', (c e).Runs log (.ok a, e') → works log = w

namespace Yields

theorem pure (a : α) : Yields [] (Pure.pure a : ScriptComp V H α) := by
  intro e log b e' h
  obtain ⟨rfl, -⟩ := Prog.runs_ret.1 h
  rfl

theorem modify (f : ScriptState V H → ScriptState V H) :
    Yields [] (Comp.modify f : ScriptComp V H Unit) := by
  intro e log b e' h
  obtain ⟨rfl, -⟩ := Prog.runs_ret.1 h
  rfl

theorem throw (w : List Work) (f : Failure) : Yields w (Comp.throw f : ScriptComp V H α) := by
  intro e log b e' h
  cases (Prog.runs_ret.1 h).2

theorem throwIf (c : Prop) [Decidable c] (f : Failure) :
    Yields [] (Comp.throwIf c f : ScriptComp V H Unit) := by
  intro e log b e' h
  obtain ⟨rfl, -⟩ := Prog.runs_ret.1 h
  rfl

theorem api {w : List Work} (op : ApiOp V H) (hw : op.work?.toList = w) :
    Yields w (scriptApi op) := by
  subst hw
  intro e log b e' h
  obtain ⟨ans, rest, rfl, hk⟩ := Prog.runs_call.1 h
  obtain ⟨rfl, -⟩ := Prog.runs_ret.1 hk
  cases hw : op.work? <;> simp [works, hw]

theorem bind {w w' : List Work} {c : ScriptComp V H α} {f : α → ScriptComp V H β}
    (hc : Yields w c) (hf : ∀ a, Yields w' (f a)) : Yields (w ++ w') (c >>= f) := by
  intro e log b e' h
  rcases Comp.runs_bind.1 h with ⟨log₁, log₂, a, u, rfl, h₁, h₂⟩ | ⟨_, ⟨⟩, -⟩
  rw [works, List.filterMap_append]
  exact congrArg₂ _ (hc _ _ _ _ h₁) (hf a _ _ _ _ h₂)

theorem nil_bind {w : List Work} {c : ScriptComp V H α} {f : α → ScriptComp V H β}
    (hc : Yields [] c) (hf : ∀ a, Yields w (f a)) : Yields w (c >>= f) := bind hc hf

theorem bind_nil {w : List Work} {c : ScriptComp V H α} {f : α → ScriptComp V H β}
    (hc : Yields w c) (hf : ∀ a, Yields [] (f a)) : Yields w (c >>= f) := by
  rw [← List.append_nil w]
  exact bind hc hf

theorem get {w : List Work} {f : ScriptState V H → ScriptComp V H β} (hf : ∀ e, Yields w (f e)) :
    Yields w (Comp.get >>= f) := fun e log b e' h => hf e e log b e' h

theorem ofExcept {w : List Work} {x : Except Failure α} {f : α → ScriptComp V H β}
    (hf : ∀ a, x = .ok a → Yields w (f a)) : Yields w (Comp.ofExcept x >>= f) := by
  intro e log b e' h
  cases x with
  | error f => cases (Prog.runs_ret.1 h).2
  | ok a => exact hf a rfl e log b e' h

end Yields

theorem readValues_yields (ids : List ValueId) :
    Yields [] (readValues ids : ScriptComp V H (List V)) := by
  induction ids with
  | nil => exact .pure _
  | cons id ids ih =>
    refine Yields.nil_bind (.get fun e => ?_) fun v => .nil_bind ih fun vs => .pure _
    cases e.values id with
    | none => exact .throw _ _
    | some v => exact .pure _

theorem receiveOutputs_yields (outputs : List (ValueId × V)) :
    Yields [] (receiveOutputs cfg outputs : ScriptComp V H Unit) := by
  induction outputs with
  | nil => exact .pure _
  | cons output outputs ih =>
    exact .ofExcept fun d _ => Yields.nil_bind (.api _ rfl) fun _ =>
      .nil_bind (.modify _) fun _ => ih

/-- **The calls of a line.** -/
theorem exec_yields (act : Act) :
    Yields act.work?.toList (Act.exec cfg act : ScriptComp V H Unit) := by
  cases act with
  | bind id =>
    refine .ofExcept fun d _ => ?_
    cases cfg.localInputs.lookup id with
    | none => exact .throw _ _
    | some v => exact Yields.nil_bind (.api _ rfl) fun _ => .modify _
  | checkInputs expected => exact .throwIf _ _
  | encode op =>
    refine .ofExcept fun d hd => .get fun e => .ofExcept fun slots _ => ?_
    have hid : d.id = op.output := by
      unfold desc at hd
      cases hfind : (plan cfg).desc? op.output with
      | none => simp [hfind] at hd
      | some d' =>
        rw [hfind, Except.ok.injEq] at hd
        exact hd ▸ RuntimePlan.desc?_id hfind
    rw [Act.work?, ← hid]
    exact Yields.bind_nil (.api _ rfl) fun output =>
      .nil_bind (.api _ rfl) fun _ => .modify _
  | compute op =>
    refine Yields.nil_bind (readValues_yields _) fun inputs =>
      Yields.bind_nil (.api _ rfl) fun output => Yields.nil_bind (.modify _) fun _ => ?_
    exact .ofExcept fun d _ => Yields.nil_bind (.api _ rfl) fun _ => .modify _
  | post group action =>
    exact Yields.nil_bind (readValues_yields _) fun inputs =>
      Yields.bind_nil (.api _ rfl) fun handle => .modify _
  | wait group action =>
    refine .get fun e => ?_
    cases e.handles group with
    | none => exact .throw _ _
    | some handle =>
      exact Yields.nil_bind (.api _ rfl) fun r => Yields.nil_bind (.modify _) fun _ =>
        Yields.nil_bind (.throwIf _ _) fun _ => receiveOutputs_yields _
  | sync id =>
    refine Yields.nil_bind (.get fun e => ?_) fun v =>
      Yields.nil_bind (.api _ rfl) fun _ => .modify _
    cases e.values id with
    | none => exact .throw _ _
    | some v => exact .pure _

theorem execScript_yields (lines : Script) :
    Yields lines.works (execScript cfg lines : ScriptComp V H Unit) := by
  induction lines with
  | nil => exact .pure _
  | cons line lines ih =>
    have hworks : Script.works (line :: lines) = line.act.work?.toList ++ Script.works lines := by
      cases hw : line.act.work? <;> simp [Script.works, hw]
    rw [hworks]
    exact .bind (.nil_bind (.modify _) fun _ => exec_yields _) fun _ => ih

/-- **What a rank executes**, when its run returns. -/
theorem run_works {env : Environment} {requirements : PlanRequirements}
    (hverify : verifyPlan cfg = .ok requirements) {log : List (Event (ApiOp V H) ApiOp.Ans)}
    {artifact : RunArtifact V} (hrun : (run cfg env).Runs log (.returned artifact)) :
    works log = (plan cfg).works cfg.rank := by
  have hprelude : Yields [] (scriptPrelude cfg env requirements : ScriptComp V H Unit) :=
    .ofExcept fun _ _ => Yields.nil_bind (.modify _) fun _ => .api _ rfl
  have hbody : Yields ((plan cfg).works cfg.rank) (scriptBody (H := H) cfg env requirements) := by
    rw [← RuntimePlan.works_script]
    exact Yields.nil_bind hprelude fun _ =>
      .bind_nil (execScript_yields _) fun _ => .get fun _ => .pure _
  obtain ⟨s, e, hscript, -, -⟩ := run_returned hverify hrun
  exact hbody _ _ _ _ hscript

end SequentialRuntime

/-! ## All ranks -/

/-- The ranks of a plan. -/
def RuntimePlan.InWorld (plan : RuntimePlan) (rank : CInt) : Prop :=
  0 ≤ rank ∧ rank < plan.target.worldSize

instance (plan : RuntimePlan) (rank : CInt) : Decidable (plan.InWorld rank) :=
  inferInstanceAs (Decidable (_ ∧ _))

def Work.post? : Work → Option CommAction
  | post action => some action
  | _ => none

namespace PlanVerifier

variable {plan : RuntimePlan} {spec : OperatorSpec}

theorem checkPlace_inWorld {place : Place} {u : Unit} (h : checkPlace plan place = .ok u) :
    plan.InWorld place.rank := by
  unfold checkPlace at h
  simp only [bind_eq_ok, failIf_eq_ok, exists_const, not_or] at h
  exact ⟨Int32.not_lt.1 h.1.1, Int32.not_le.1 h.1.2⟩

/-- Who executes an instruction is decided by what the Api sees of it. -/
theorem executes_congr {rank : CInt} {i j : Instruction} (h : i.work = j.work) :
    plan.executes rank i = plan.executes rank j := by
  unfold Instruction.work at h
  unfold RuntimePlan.executes
  cases hi : i.body <;> cases hj : j.body <;> simp_all

namespace Accepted
variable (hacc : Accepted plan spec)
include hacc

/-- A value lies on a rank of the plan. -/
theorem desc_inWorld {id : ValueId} {d : ValueDesc} (hd : plan.desc? id = some d) :
    plan.InWorld d.place.rank :=
  checkPlace_inWorld (hacc.value d (RuntimePlan.desc?_mem hd)).place

/-- **An Encode or a ComputeOp belongs to one rank.** -/
theorem owner {i : Instruction} (hi : i ∈ plan.instructions) (hcomm : i.action? = none) :
    ∃ rank, plan.InWorld rank ∧ ∀ rank', plan.executes rank' i = true ↔ rank' = rank := by
  obtain ⟨a, b, phase, -, -, hok⟩ := hacc.split hi
  cases hbody : i.body with
  | encode op =>
    rw [hbody] at hok
    obtain ⟨d, hd, -⟩ := hok.desc
    refine ⟨d.place.rank, hacc.desc_inWorld hd, fun rank' => ?_⟩
    simp only [RuntimePlan.executes, hbody, decide_eq_true_eq]
    constructor
    · rintro ⟨d', hd', rfl⟩
      rw [hd] at hd'
      cases hd'
      rfl
    · rintro rfl
      exact ⟨d, hd, rfl⟩
  | compute op =>
    rw [hbody] at hok
    refine ⟨op.place.rank, checkPlace_inWorld hok.place, fun rank' => ?_⟩
    simp only [RuntimePlan.executes, hbody, decide_eq_true_eq]
    exact eq_comm
  | comm action => simp [Instruction.action?, hbody] at hcomm

/-- No two instructions look alike to the Api. -/
theorem works_nodup : ∀ a b : List Instruction, plan.instructions = a ++ b →
    (a.map Instruction.work).Nodup := by
  intro a
  induction a using List.reverseRecOn with
  | nil => intro b _; simp
  | append_singleton a i ih =>
    intro b hab
    rw [List.append_assoc, List.singleton_append] at hab
    obtain ⟨phase, -, hok⟩ := hacc.instruction a i b hab
    rw [List.map_append, List.map_singleton]
    refine List.nodup_append.2 ⟨ih _ hab, by simp, ?_⟩
    rintro w hw w' hw' rfl
    rw [List.mem_singleton] at hw'
    subst hw'
    obtain ⟨j, hj, hwork⟩ := List.mem_map.1 hw
    have hout : ∀ out, out ∈ j.body.outputs → out ∈ plan.externalInputs ++ definedBy a :=
      fun out hout => List.mem_append_right _ (List.mem_flatMap.2 ⟨j, hj, hout⟩)
    cases hi : i.body <;> cases hj' : j.body <;> simp [Instruction.work, hi, hj'] at hwork
    · rw [hi] at hok
      exact hok.fresh (hout _ (by simp [hj', InstructionBody.outputs, hwork]))
    · rw [hi] at hok
      exact hok.fresh (hout _ (by simp [hj', InstructionBody.outputs, hwork]))
    · rw [hi] at hok
      obtain ⟨id, d, hok⟩ := hok
      exact hok.fresh_id (List.mem_map.2 ⟨_, mem_actionsOf.2 ⟨j, hj, hj'⟩, by rw [hwork]⟩)

end Accepted

end PlanVerifier

/-- The communications among the work of a rank, in plan order. -/
theorem RuntimePlan.filterMap_works (plan : RuntimePlan) (rank : CInt) :
    (plan.works rank).filterMap Work.post? = plan.actions := by
  have hlist : ∀ list : List Instruction,
      ((list.filter (plan.executes rank)).map Instruction.work).filterMap Work.post? =
        actionsOf list := by
    intro list
    induction list with
    | nil => rfl
    | cons i list ih =>
      have hcons : actionsOf (i :: list) = i.action?.toList ++ actionsOf list := by
        cases h : i.action? <;> simp [actionsOf, h]
      have hpost : i.work.post? = i.action? := by
        cases h : i.body <;> simp [Instruction.work, Instruction.action?, Work.post?, h]
      rw [hcons, ← ih, List.filter_cons]
      split_ifs with hexec
      · rw [List.map_cons, List.filterMap_cons, hpost]
        cases i.action? <;> rfl
      · cases hbody : i.body with
        | encode op => simp [Instruction.action?, hbody]
        | compute op => simp [Instruction.action?, hbody]
        | comm action => simp [RuntimePlan.executes, hbody] at hexec
  exact hlist plan.instructions

/-- Runs of all ranks of a plan, each in its own environment and against its own
    Api, that all return. -/
structure GroupRun (V H : Type) where
  plan : RuntimePlan
  mode : DiffMode
  config : CInt → RunConfig V
  environment : CInt → Environment
  log : CInt → List (Event (ApiOp V H) ApiOp.Ans)
  artifact : CInt → RunArtifact V
  accepted : ∃ spec skip requirements, PlanVerifier.verify plan spec skip = .ok requirements
  plan_eq : ∀ rank, plan.InWorld rank → SequentialRuntime.plan (config rank) = plan
  rank_eq : ∀ rank, plan.InWorld rank → (config rank).rank = rank
  mode_eq : ∀ rank, plan.InWorld rank → (config rank).diffMode = mode
  verified : ∀ rank, plan.InWorld rank →
    ∃ requirements, SequentialRuntime.verifyPlan (config rank) = .ok requirements
  returned : ∀ rank, plan.InWorld rank →
    (SequentialRuntime.run (config rank) (environment rank)).Runs (log rank)
      (.returned (artifact rank))

namespace GroupRun

variable {V H : Type}

/-- The ids that the artifacts of a group are to hold. -/
def ids (g : GroupRun V H) : List ValueId :=
  match g.mode with
  | .allValuesAfterRun => g.plan.values.map (·.id)
  | .finalOnly => g.plan.finalOutputs

theorem works_eq (g : GroupRun V H) {rank : CInt} (hr : g.plan.InWorld rank) :
    works (g.log rank) = g.plan.works rank := by
  obtain ⟨requirements, hverify⟩ := g.verified rank hr
  have h := SequentialRuntime.run_works hverify (g.returned rank hr)
  rwa [g.rank_eq rank hr, g.plan_eq rank hr] at h

theorem ids_defined (g : GroupRun V H) {spec : OperatorSpec} (hacc : Accepted g.plan spec)
    {id : ValueId} (hid : id ∈ g.ids) : id ∈ g.plan.definitions := by
  unfold ids at hid
  cases hmode : g.mode with
  | finalOnly => rw [hmode] at hid; exact hacc.final id hid
  | allValuesAfterRun => rw [hmode] at hid; exact hacc.mem_definitions_iff.2 hid

/-- **What the artifact of a rank holds**: the ids of the mode on the rank. -/
theorem key_iff (g : GroupRun V H) {rank : CInt} (hr : g.plan.InWorld rank) {id : ValueId} :
    ((g.artifact rank).values id).isSome ↔ g.plan.IsLocal rank id ∧ id ∈ g.ids := by
  obtain ⟨loaded, skip, requirements, hplan⟩ := g.accepted
  have hacc := verify_accepted hplan
  obtain ⟨requirements, hverify⟩ := g.verified rank hr
  rw [(SequentialRuntime.returned_spec hverify (g.returned rank hr) id).1,
    SequentialRuntime.artifactIds, SequentialRuntime.retainAllValues, g.plan_eq rank hr,
    g.rank_eq rank hr, g.mode_eq rank hr, ids]
  cases g.mode with
  | finalOnly => simp [RuntimePlan.finalsOf, and_comm]
  | allValuesAfterRun => simp [← hacc.mem_definitions_iff, and_comm]

/-- The artifact of a run. -/
def resultArtifact? : RunResult V → Option (RunArtifact V)
  | .returned artifact => some artifact
  | _ => none

theorem eq_returned {result : RunResult V} (h : (resultArtifact? result).isSome) :
    result = .returned ((resultArtifact? result).get h) := by
  cases result with
  | returned artifact => rfl
  | threw failure => simp [resultArtifact?] at h
  | crashed => simp [resultArtifact?] at h

/-- The fan-out run of the only rank, on an Api whose calls succeed. -/
def fanoutRun : List (Event (ApiOp Unit ℕ) ApiOp.Ans) × RunResult Unit :=
  (SequentialRuntime.run (SequentialRuntime.fanoutConfig () ())
    SequentialRuntime.bareEnvironment).play (SequentialRuntime.succeed 0)

theorem fanoutRun_returned : (resultArtifact? fanoutRun.2).isSome = true := by
  rw [fanoutRun, SequentialRuntime.run_eq_scriptRun _
    (SequentialRuntime.verifyPlan_fanoutConfig () ())]
  decide +kernel

theorem fanoutRun_runs : (SequentialRuntime.run (SequentialRuntime.fanoutConfig () ())
    SequentialRuntime.bareEnvironment).Runs fanoutRun.1 fanoutRun.2 := by
  rw [fanoutRun]
  exact Prog.runs_play _ _

/-- The fan-out plan as a group of one rank. -/
def fanoutGroup : GroupRun Unit ℕ where
  plan := (fanoutPlan [2] ⟨.device, 0, 0⟩ [⟨.device, 0, 1⟩]).plan
  mode := .finalOnly
  config _ := SequentialRuntime.fanoutConfig () ()
  environment _ := SequentialRuntime.bareEnvironment
  log _ := fanoutRun.1
  artifact _ := (resultArtifact? fanoutRun.2).get fanoutRun_returned
  accepted := ⟨makeTestOperatorSpec, false, ⟨[.transfer, .replicate], []⟩, by decide⟩
  plan_eq _ _ := rfl
  rank_eq rank hr := by
    have h0 : 0 ≤ rank.toInt := Int32.le_iff_toInt_le.1 hr.1
    have h1 : rank.toInt < 1 := Int32.lt_iff_toInt_lt.1 hr.2
    have hrank : (0 : CInt).toInt = rank.toInt := by rw [Int32.toInt_zero]; omega
    exact Int32.toInt_inj.1 hrank
  mode_eq _ _ := rfl
  verified _ _ := ⟨_, SequentialRuntime.verifyPlan_fanoutConfig () ()⟩
  returned _ _ := by
    rw [← eq_returned fanoutRun_returned]
    exact fanoutRun_runs

end GroupRun

end CkksRuntime
