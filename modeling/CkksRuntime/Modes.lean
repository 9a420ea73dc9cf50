/-
  ckks-runtime formalization — the two modes of a run.

  * `run_returned`, `returned_spec`: what a run that returned has executed, and what
    its artifact holds;
  * `scriptBody_modes`: the script of a rank does not depend on the mode;
  * `early_release_unobservable`: no Api can tell the mode that releases values
    from the one that keeps them, and the artifacts agree on the final outputs.
-/
import CkksRuntime.ScriptRun

namespace CkksRuntime

open Interaction PlanVerifier

namespace SequentialRuntime

variable {V H : Type} {cfg : RunConfig V}

/-! ## The artifact of a rank -/

/-- The ids that an artifact holds. -/
def artifactIds (cfg : RunConfig V) : List ValueId :=
  if retainAllValues cfg then (plan cfg).definitions.filter fun id => (plan cfg).IsLocal cfg.rank id
  else (plan cfg).finalsOf cfg.rank

section
variable {spec : OperatorSpec} (hacc : Accepted (plan cfg) spec) {s : RuntimeState V H}
  {e : ScriptState V H} (hi : Inv cfg ⟨(plan cfg).externalInputs, (plan cfg).instructions, [], {},
    (plan cfg).script cfg.rank⟩ s e)
include hacc hi

/-- At the end of the script every local value is known, and no other. -/
theorem final_values {id : ValueId} :
    (e.values id).isSome ↔ (plan cfg).IsLocal cfg.rank id ∧ id ∈ (plan cfg).definitions := by
  have hsync : ((plan cfg).syncLines cfg.rank).ready cfg.rank = [] := by
    simp [RuntimePlan.syncLines, Script.ready, Act.defines]
  rw [hi.values, ← hacc.finished_ready]
  show id ∈ ((plan cfg).script cfg.rank).ready cfg.rank ↔ _
  rw [RuntimePlan.script, Script.ready_append, hsync, List.append_nil]

/-- **What the artifact holds**: the local values, or the local final outputs,
    each at the Place of its descriptor. -/
theorem scriptArtifact_spec {id : ValueId} :
    (((scriptArtifact cfg e).values id).isSome ↔ id ∈ artifactIds cfg) ∧
      ∀ place v, (scriptArtifact cfg e).values id = some (place, v) →
        place.rank = cfg.rank ∧ ∃ d, (plan cfg).desc? id = some d ∧ d.place = place := by
  have hvalues : (e.values id).isSome ↔ _ := final_values hacc hi
  have hread : (do
      let d ← (plan cfg).desc? id
      let value ← e.values id
      return (d.place, value) : Option (Place × V)).isSome ↔
        (plan cfg).IsLocal cfg.rank id ∧ id ∈ (plan cfg).definitions := by
    rw [← hvalues]
    cases hv : e.values id with
    | none => cases (plan cfg).desc? id <;> simp
    | some v =>
      obtain ⟨⟨d, hd, -⟩, -⟩ := hvalues.1 (by simp [hv])
      simp [hd]
  constructor
  · unfold artifactIds
    by_cases hretain : retainAllValues cfg = true
    · simp only [scriptArtifact, hretain, true_or, if_true]
      rw [hread]
      simp [and_comm]
    · simp only [scriptArtifact, hretain, Bool.false_eq_true, false_or, if_false]
      by_cases hfinal : id ∈ (plan cfg).finalOutputs
      · rw [if_pos hfinal, hread]
        simp [RuntimePlan.finalsOf, hfinal, hacc.final id hfinal]
      · rw [if_neg hfinal]
        simp [RuntimePlan.finalsOf, hfinal]
  · intro place v hv
    unfold scriptArtifact at hv
    dsimp only at hv
    split_ifs at hv
    obtain ⟨⟨d, hd, hr⟩, -⟩ := hread.1 (by rw [hv]; rfl)
    cases hvalue : e.values id <;> simp [hd, hvalue] at hv
    obtain ⟨rfl, -⟩ := hv
    exact ⟨hr, d, hd, rfl⟩

end

/-- A script that returns has ended in the state of its artifact. -/
theorem scriptBody_artifact {env : Environment} {requirements : PlanRequirements}
    {log : List (Event (ApiOp V H) ApiOp.Ans)} {e e' : ScriptState V H} {artifact : RunArtifact V}
    (h : (scriptBody cfg env requirements e).Runs log (.ok artifact, e')) :
    artifact = scriptArtifact cfg e' := by
  obtain ⟨_, _, _, _, -, -, h⟩ | ⟨_, ⟨⟩, -⟩ := Comp.runs_bind.1 h
  obtain ⟨_, _, _, _, -, -, h⟩ | ⟨_, ⟨⟩, -⟩ := Comp.runs_bind.1 h
  obtain ⟨-, heq⟩ := Prog.runs_ret.1 h
  obtain ⟨hart, rfl⟩ := Prod.mk.inj heq
  exact (Except.ok.inj hart).symm

/-- **A run that returned** has executed the script. -/
theorem run_returned {env : Environment} {requirements : PlanRequirements}
    (hverify : verifyPlan cfg = .ok requirements) {log : List (Event (ApiOp V H) ApiOp.Ans)}
    {artifact : RunArtifact V} (hrun : (run cfg env).Runs log (.returned artifact)) :
    ∃ (s : RuntimeState V H) (e : ScriptState V H),
      (scriptBody cfg env requirements {}).Runs log (.ok artifact, e) ∧
      artifact = scriptArtifact cfg e ∧
      Inv cfg ⟨(plan cfg).externalInputs, (plan cfg).instructions, [], {},
        (plan cfg).script cfg.rank⟩ s e := by
  have hacc := accepted_of_verifyPlan hverify
  unfold run at hrun
  cases hopen : openTrace env cfg.rank with
  | error failure =>
    rw [hopen] at hrun
    cases (Prog.runs_ret.1 hrun).2
  | ok u =>
    rw [hopen] at hrun
    obtain ⟨log₁, log₂, ⟨r, s⟩, rfl, h₁, h₂⟩ := Prog.runs_bind.1 hrun
    obtain ⟨⟨r', e⟩, hscript, hends⟩ := (body_rel hacc env hverify).runs h₁
    cases r with
    | error failure =>
      by_cases hexc : failure.isException
      · simp only [handle, hexc, if_true, abortAll] at h₂
        obtain ⟨ans, rest, -, hk⟩ := Prog.runs_call.1 h₂
        cases ans with
        | error fault => cases (Prog.runs_ret.1 hk).2
        | ok never => exact never.elim
      · simp only [handle, hexc] at h₂
        cases (Prog.runs_ret.1 h₂).2
    | ok a =>
      obtain ⟨rfl, ha⟩ := Prog.runs_ret.1 h₂
      cases ha
      cases r' with
      | error failure => exact absurd hends id
      | ok b =>
        obtain ⟨rfl, hi⟩ := hends
        rw [List.append_nil]
        exact ⟨s, e, hscript, scriptBody_artifact hscript, hi⟩

/-- **The artifact of a run** that returned. -/
theorem returned_spec {env : Environment} {requirements : PlanRequirements}
    (hverify : verifyPlan cfg = .ok requirements) {log : List (Event (ApiOp V H) ApiOp.Ans)}
    {artifact : RunArtifact V} (hrun : (run cfg env).Runs log (.returned artifact)) (id : ValueId) :
    ((artifact.values id).isSome ↔ id ∈ artifactIds cfg) ∧
      ∀ place v, artifact.values id = some (place, v) →
        place.rank = cfg.rank ∧ ∃ d, (plan cfg).desc? id = some d ∧ d.place = place := by
  obtain ⟨s, e, -, rfl, hi⟩ := run_returned hverify hrun
  exact scriptArtifact_spec (accepted_of_verifyPlan hverify) hi

/-! ## Two modes side by side -/

/-- The run in a mode. -/
def inMode (cfg : RunConfig V) (mode : DiffMode) : RunConfig V := { cfg with diffMode := mode }

/-- The result of a run in the mode that releases values, against that of a run
    that keeps them. -/
def Restricts (cfg : RunConfig V) : RunResult V → RunResult V → Prop
  | .returned a, .returned b => a.timing = b.timing ∧
      ∀ id, a.values id = if id ∈ (plan cfg).finalsOf cfg.rank then b.values id else none
  | .threw f, .threw g => f = g
  | .crashed, .crashed => True
  | _, _ => False

theorem receiveOutputs_inMode (mode : DiffMode) (outputs : List (ValueId × V)) :
    (receiveOutputs (inMode cfg mode) outputs : ScriptComp V H Unit) = receiveOutputs cfg outputs := by
  induction outputs with
  | nil => rfl
  | cons output outputs ih =>
    rw [receiveOutputs, receiveOutputs, ih]
    rfl

theorem execScript_inMode (mode : DiffMode) (lines : Script) :
    (execScript (inMode cfg mode) lines : ScriptComp V H Unit) = execScript cfg lines := by
  have hact : ∀ act, (Act.exec (inMode cfg mode) act : ScriptComp V H Unit) = Act.exec cfg act := by
    intro act
    cases act with
    | wait group action =>
      simp only [Act.exec, receiveOutputs_inMode]
      rfl
    | _ => rfl
  induction lines with
  | nil => rfl
  | cons line lines ih => rw [execScript, execScript, ih, execLine, execLine, hact]

theorem bundleSlotsOf_inMode (mode : DiffMode) (env : Environment) :
    bundleSlotsOf (inMode cfg mode) env = bundleSlotsOf cfg env := by
  have hcontents : ∀ list, localContents (inMode cfg mode) list = localContents cfg list := by
    intro list
    induction list with
    | nil => rfl
    | cons i is ih =>
      rw [localContents, localContents, ih]
      rfl
  unfold bundleSlotsOf
  rw [hcontents]
  rfl

/-- The ends of a script in the two modes. -/
def ScriptEnds (cfg : RunConfig V) (r r' : Except Failure (RunArtifact V) × ScriptState V H) : Prop :=
  r.2 = r'.2 ∧ match r.1, r'.1 with
    | .ok a, .ok b => a = scriptArtifact (inMode cfg .finalOnly) r.2 ∧
        b = scriptArtifact (inMode cfg .allValuesAfterRun) r.2
    | .error f, .error g => f = g
    | _, _ => False

/-- **The script does not depend on the mode**, but for its artifact. -/
theorem scriptBody_modes (env : Environment) (requirements : PlanRequirements)
    (e : ScriptState V H) :
    Prog.Rel (ScriptEnds cfg) (scriptBody (inMode cfg .finalOnly) env requirements e)
      (scriptBody (inMode cfg .allValuesAfterRun) env requirements e) := by
  have hprelude : ∀ mode, (scriptPrelude (inMode cfg mode) env requirements : ScriptComp V H Unit) =
      scriptPrelude cfg env requirements := by
    intro mode
    rw [scriptPrelude, scriptPrelude, bundleSlotsOf_inMode]
    rfl
  have hbody : ∀ mode, (scriptBody (inMode cfg mode) env requirements : ScriptComp V H _) =
      (scriptPrelude cfg env requirements >>= fun _ =>
        execScript cfg ((plan cfg).script cfg.rank)) >>= fun _ => Comp.get >>= fun e =>
          pure (scriptArtifact (inMode cfg mode) e) := by
    intro mode
    rw [scriptBody, hprelude, execScript_inMode, Comp.bind_assoc]
    rfl
  rw [hbody, hbody, Comp.bind_apply, Comp.bind_apply]
  refine Prog.Rel.bind (Prog.Rel.refl (R := Eq) (fun _ => rfl) _) ?_
  rintro ⟨r, e'⟩ _ rfl
  cases r with
  | ok u => exact .ret ⟨rfl, rfl, rfl⟩
  | error f => exact .ret ⟨rfl, rfl⟩

/-- The artifacts of the two modes, in the same final state. -/
theorem restricts_scriptArtifact {spec : OperatorSpec}
    (hacc : Accepted (plan (inMode cfg .finalOnly)) spec) {s : RuntimeState V H} {e : ScriptState V H}
    (hi : Inv (inMode cfg .finalOnly) ⟨(plan cfg).externalInputs, (plan cfg).instructions, [], {},
      (plan cfg).script cfg.rank⟩ s e) {a b : RunArtifact V}
    (ha : a = scriptArtifact (inMode cfg .finalOnly) e)
    (hb : b = scriptArtifact (inMode cfg .allValuesAfterRun) e) :
    Restricts cfg (.returned a) (.returned b) := by
  subst ha hb
  refine ⟨rfl, fun id => ?_⟩
  have hkeys : ((scriptArtifact (inMode cfg .finalOnly) e).values id).isSome ↔
      id ∈ (plan cfg).finalsOf cfg.rank := (scriptArtifact_spec hacc hi).1
  by_cases hid : id ∈ (plan cfg).finalsOf cfg.rank
  · have hfinal := (List.mem_filter.1 hid).1
    rw [if_pos hid]
    have hread : ∀ mode, (scriptArtifact (inMode cfg mode) e).values id = do
        let d ← (plan cfg).desc? id
        let value ← e.values id
        return (d.place, value) := fun mode => if_pos (Or.inr hfinal)
    rw [hread, hread]
  · rw [if_neg hid, ← Option.not_isSome_iff_eq_none, hkeys]
    exact hid

/-- **Early release is unobservable**: against an Api that answers by the history
    of its calls, the two modes make the same calls and end alike, and the artifact
    of the mode that releases values is the other one on the local final outputs. -/
theorem early_release_unobservable (env : Environment) {requirements : PlanRequirements}
    (hverify : verifyPlan cfg = .ok requirements)
    (respond : List (Event (ApiOp V H) ApiOp.Ans) → ∀ op : ApiOp V H, op.Ans) :
    ((run (inMode cfg .finalOnly) env).against respond []).1 =
        ((run (inMode cfg .allValuesAfterRun) env).against respond []).1 ∧
      Restricts cfg ((run (inMode cfg .finalOnly) env).against respond []).2
        ((run (inMode cfg .allValuesAfterRun) env).against respond []).2 := by
  refine Prog.Rel.against (R := Restricts cfg) ?_ respond []
  cases hopen : openTrace env cfg.rank with
  | error failure =>
    have hthrow : ∀ mode, (run (inMode cfg mode) env : Prog (ApiOp V H) ApiOp.Ans (RunResult V)) =
        .ret (.threw failure) := by
      intro mode
      have hopen' : openTrace env (inMode cfg mode).rank = .error failure := hopen
      rw [run, hopen']
    rw [hthrow, hthrow]
    exact .ret rfl
  | ok u =>
    have hacc := accepted_of_verifyPlan hverify
    have hverify' : ∀ mode, verifyPlan (inMode cfg mode) = .ok requirements := fun _ => hverify
    have hopen' : ∀ mode, openTrace env (inMode cfg mode).rank = .ok () := fun _ => hopen
    have hleft : (run (inMode cfg .finalOnly) env : Prog (ApiOp V H) ApiOp.Ans (RunResult V)) =
        body (inMode cfg .finalOnly) env {} >>= handle cfg := by
      rw [run, hopen']
      rfl
    have hright : (run (inMode cfg .allValuesAfterRun) env :
        Prog (ApiOp V H) ApiOp.Ans (RunResult V)) =
          scriptBody (inMode cfg .allValuesAfterRun) env requirements {} >>= scriptHandle cfg := by
      rw [run_eq_scriptRun env (hverify' _), scriptRun, hopen']
      rfl
    rw [hleft, hright]
    refine ((@body_rel V H (inMode cfg .finalOnly) _ hacc env _ hverify).trans
      (scriptBody_modes env requirements {})).bind ?_
    rintro ⟨r, s⟩ ⟨r'', e'⟩ ⟨⟨r', e⟩, hends, he, hmodes⟩
    obtain rfl : e = e' := he
    cases r with
    | error f =>
      cases r' with
      | ok b => exact absurd hends id
      | error f' =>
        cases r'' with
        | ok c => exact absurd hmodes id
        | error g =>
          obtain ⟨rfl, hc, hv, -⟩ := hends
          obtain rfl : f = g := hmodes
          have heq : handle cfg (.error f, s) = scriptHandle cfg (.error f, e) := handle_congr hc hv
          rw [heq]
          simp only [scriptHandle, handle]
          split_ifs
          · refine .call fun ans => ?_
            cases ans with
            | error fault => exact .ret rfl
            | ok never => exact never.elim
          · exact .ret trivial
    | ok a =>
      cases r' with
      | error f => exact absurd hends id
      | ok b =>
        cases r'' with
        | error g => exact absurd hmodes id
        | ok c =>
          obtain ⟨rfl, hi⟩ := hends
          obtain ⟨ha, hc⟩ := hmodes
          exact .ret (restricts_scriptArtifact hacc hi ha hc)

/-- The fan-out run on an Api whose calls succeed. -/
theorem early_release_fanoutConfig :
    ((run (inMode (fanoutConfig () ()) .finalOnly) bareEnvironment).against
        (fun _ => succeed 0) []).1 =
      ((run (inMode (fanoutConfig () ()) .allValuesAfterRun) bareEnvironment).against
        (fun _ => succeed 0) []).1 ∧
    Restricts (fanoutConfig () ())
      ((run (inMode (fanoutConfig () ()) .finalOnly) bareEnvironment).against
        (fun _ => succeed 0) []).2
      ((run (inMode (fanoutConfig () ()) .allValuesAfterRun) bareEnvironment).against
        (fun _ => succeed 0) []).2 :=
  early_release_unobservable bareEnvironment (verifyPlan_fanoutConfig () ()) fun _ => succeed 0

end SequentialRuntime

end CkksRuntime
