/-
  ckks-runtime formalization — the calls of a run, line by line.

  * `LineCall`: the calls that a line of the script makes;
  * `line_calls`, `execScript_calls`, `run_calls`: what the calls of the lines keep,
    the run keeps.
-/
import CkksRuntime.Handles

namespace CkksRuntime

open Interaction

/-! ## The calls of the lines -/

namespace SequentialRuntime

variable {V H : Type} {cfg : RunConfig V} {log : Log V H}
  {e : ScriptState V H} {bundleSlots : List (String × List Double)}

/-- The calls that neither begin nor end a run and encode nothing. -/
def Ordinary : ApiOp V H → Prop
  | .preflight .. | .encodePlaintext .. | .abortAll .. => False
  | _ => True

/-- The calls of a line. -/
def LineCall (cfg : RunConfig V) (bundleSlots : List (String × List Double)) (act : Act)
    (op : ApiOp V H) : Prop :=
  Ordinary op ∨ ∃ encode d values, act = .encode encode ∧ (plan cfg).desc? encode.output = some d ∧
    payloadSlots bundleSlots encode.payload = .ok values ∧
      op = .encodePlaintext d (values.map Double.normalizeZero)

/-- What is kept by the calls of a line. -/
structure Permits (pre : Log V H → ApiOp V H → Prop) (I : Log V H → Prop) (op : ApiOp V H) :
    Prop where
  pre : ∀ past, I past → pre past op
  next : ∀ past, I past → ∀ ans, I (past ++ [⟨op, ans⟩])

section
variable {pre : Log V H → ApiOp V H → Prop} {I : Log V H → Prop}

/-- The end of some calls. -/
abbrev Kept (I : Log V H → Prop) (bundleSlots : List (String × List Double)) (log : Log V H)
    (_ : Unit) (e : ScriptState V H) : Prop := I log ∧ e.bundleSlots = bundleSlots

theorem follows_permitted {α : Type} {Q : Log V H → α → ScriptState V H → Prop} {op : ApiOp V H}
    {f : op.Result → ScriptComp V H α} (hop : Permits pre I op) (hlog : I log)
    (h : ∀ a, I (log ++ [⟨op, .ok a⟩]) → Follows pre Q (f a) (log ++ [⟨op, .ok a⟩]) e) :
    Follows pre Q (scriptApi op >>= f) log e :=
  follows_api (hop.pre log hlog) fun a => h a (hop.next log hlog _)

theorem permit_store (hcall : ∀ op, Ordinary op → Permits pre I op) (hlog : I log)
    (e : ScriptState V H) (he : e.bundleSlots = bundleSlots) (d : ValueDesc) (v : V)
    (id : ValueId) : Follows pre (Kept I bundleSlots)
      (scriptApi (.validateValue v d) >>= fun _ => setValue id v) log e :=
  follows_permitted (hcall _ trivial) hlog fun _ hlog =>
    (Comp.ensures_ret (r := .ok ()) (t := e.setValue id v) rfl).2 ⟨hlog, he⟩

theorem receiveOutputs_calls (hcall : ∀ op, Ordinary op → Permits pre I op)
    (outputs : List (ValueId × V)) : ∀ {log : Log V H} {e : ScriptState V H}, I log →
      e.bundleSlots = bundleSlots →
        Follows pre (Kept I bundleSlots) (receiveOutputs cfg outputs) log e := by
  induction outputs with
  | nil =>
    intro log e hlog he
    exact (Comp.ensures_ret (r := .ok ()) (t := e) rfl).2 ⟨hlog, he⟩
  | cons p outputs ih =>
    obtain ⟨id, v⟩ := p
    intro log e hlog he
    rw [receiveOutputs]
    refine follows_desc fun d _ => follows_permitted (hcall _ trivial) hlog fun _ hlog => ?_
    rw [Follows, setValue, Comp.ensures_modify]
    exact ih hlog he

/-- The calls of a line, one after the other. -/
theorem line_calls {line : Line}
    (hcall : ∀ op, LineCall cfg bundleSlots line.act op → Permits pre I op) (hlog : I log) (he : e.bundleSlots = bundleSlots) :
    Follows pre (Kept I bundleSlots) (execLine cfg line) log e := by
  have hordinary (op : ApiOp V H) (h : Ordinary op) : Permits pre I op := hcall op (Or.inl h)
  obtain ⟨context, act⟩ := line
  rw [execLine, Follows, Comp.ensures_modify]
  have he' : ({ e with context := context } : ScriptState V H).bundleSlots = bundleSlots := he
  generalize ({ e with context := context } : ScriptState V H) = e at he' ⊢
  cases act with
  | bind id =>
    rw [Act.exec]
    refine follows_desc fun d _ => ?_
    cases cfg.localInputs.lookup id with
    | none => exact (Comp.ensures_ret (r := .error _) (t := e) rfl).2 trivial
    | some v => exact permit_store hordinary hlog e he' d v id
  | checkInputs expected =>
    rw [Act.exec]
    refine (Comp.ensures_ret (Comp.throwIf_apply _ _)).2 ?_
    split_ifs
    · trivial
    · exact ⟨hlog, he'⟩
  | encode op =>
    rw [Act.exec]
    refine follows_desc fun d hd => ?_
    rw [Follows, Comp.ensures_get, Comp.ensures_ofExcept]
    cases hslots : payloadSlots e.bundleSlots op.payload with
    | error f => trivial
    | ok values =>
      refine follows_permitted (hcall _ (Or.inr ⟨op, d, values, rfl, hd, he' ▸ hslots, rfl⟩)) hlog
        fun v hlog => ?_
      exact permit_store hordinary hlog e he' d v op.output
  | compute op =>
    rw [Act.exec]
    refine follows_readValues fun inputs _ => ?_
    refine follows_permitted (hordinary _ trivial) hlog fun v hlog => ?_
    rw [Follows, Comp.ensures_modify]
    exact follows_desc fun d _ => permit_store hordinary hlog
      { e with timing := RuntimeTiming.addCompute e.timing op.kind } he' d v op.output
  | post g action =>
    rw [Act.exec]
    refine follows_readValues fun inputs _ => ?_
    refine follows_permitted (hordinary _ trivial) hlog fun handle hlog => ?_
    refine (Comp.ensures_ret (r := .ok ()) rfl).2 ?_
    exact ⟨hlog, he'⟩
  | wait g action =>
    rw [Act.exec, Comp.ensures_get]
    cases e.handles g with
    | none => exact (Comp.ensures_ret (r := .error _) (t := e) rfl).2 trivial
    | some handle =>
      refine follows_permitted (hordinary _ trivial) hlog fun r hlog => ?_
      obtain ⟨outputs, handle'⟩ := r
      rw [Follows, Comp.ensures_modify, Comp.ensures_throwIf]
      split_ifs
      exact receiveOutputs_calls hordinary _ hlog he'
  | sync id =>
    rw [Act.exec]
    simp only [readValue, Comp.bind_assoc]
    rw [Comp.ensures_get]
    cases e.values id with
    | none => exact (Comp.ensures_ret (r := .error _) (t := e) rfl).2 trivial
    | some v =>
      refine (Comp.ensures_congr rfl).2 ?_
      refine follows_permitted (hordinary _ trivial) hlog fun v' hlog => ?_
      exact (Comp.ensures_ret (r := .ok ()) (t := e.setValue id v') rfl).2 ⟨hlog, he'⟩

theorem execScript_calls (lines : Script) : ∀ {log : Log V H} {e : ScriptState V H},
    (∀ line ∈ lines, ∀ op, LineCall cfg bundleSlots line.act op → Permits pre I op) → I log →
      e.bundleSlots = bundleSlots →
        Follows pre (Kept I bundleSlots) (execScript cfg lines) log e := by
  induction lines with
  | nil =>
    intro log e _ hlog he
    exact (Comp.ensures_ret (r := .ok ()) (t := e) rfl).2 ⟨hlog, he⟩
  | cons line lines ih =>
    intro log e hcall hlog he
    obtain ⟨hline, hlines⟩ := List.forall_mem_cons.1 hcall
    rw [execScript]
    refine Comp.Ensures.bind (line_calls hline hlog he) ?_
    rintro log' _ e' _ ⟨hlog', he'⟩
    exact ih hlines hlog' he'

/-- **The calls of a run**, when those of its lines, its preflight and `abort_all` are
    served. -/
theorem run_calls {env : Environment}
    (habort : ∀ past reason, pre past (.abortAll 1 reason))
    (hlines : ∀ requirements, verifyPlan cfg = .ok requirements → ∀ bundleSlots,
      bundleSlotsOf cfg env = .ok bundleSlots →
        pre [] (.preflight cfg.loadedPlan.sourceSha256 cfg.resources.skipArtifactDigestChecks
          (plan cfg).target cfg.resources.operatorSpec.spec requirements) ∧
        (∀ ans, I [⟨.preflight cfg.loadedPlan.sourceSha256 cfg.resources.skipArtifactDigestChecks
          (plan cfg).target cfg.resources.operatorSpec.spec requirements, ans⟩]) ∧
        ∀ line ∈ (plan cfg).script cfg.rank, ∀ op, LineCall cfg bundleSlots line.act op →
          Permits pre I op) :
    Prog.Meets (.history pre) (fun _ _ => True) [] (run (H := H) cfg env) := by
  cases hopen : openTrace env cfg.rank with
  | error failure =>
    rw [run, hopen]
    exact .ret trivial
  | ok _ =>
    cases hverify : verifyPlan cfg with
    | error failure =>
      rw [run_of_verify_error hopen hverify]
      exact handle_follows (habort _) fun _ _ _ => trivial
    | ok requirements =>
      cases hbundle : bundleSlotsOf cfg env with
      | error failure =>
        rw [run_of_bundle_error hopen hverify hbundle]
        exact handle_follows (habort _) fun _ _ _ => trivial
      | ok bundleSlots =>
        obtain ⟨hpre, hpreflight, hcall⟩ := hlines requirements hverify bundleSlots hbundle
        have hbody : Follows (H := H) pre (fun _ _ _ => True) (scriptBody cfg env requirements) []
            {} := by
          rw [scriptBody, scriptPrelude, hbundle]
          simp only [Comp.bind_assoc]
          rw [Follows, Comp.ensures_ofExcept]
          dsimp only
          rw [Comp.ensures_modify]
          refine follows_api hpre fun a => ?_
          refine Comp.Ensures.bind (execScript_calls _ hcall (hpreflight _) rfl) ?_
          rintro log _ e _ -
          rw [Comp.ensures_get]
          exact (Comp.ensures_ret (r := .ok _) (t := e) rfl).2 trivial
        rw [run_eq_scriptRun env hverify, scriptRun, hopen]
        refine Prog.Meets.bind (Prog.meets_of_pass hbody) ?_
        rintro log ⟨failure | artifact, e⟩ -
        · exact handle_follows (habort _) fun _ _ _ => trivial
        · exact .ret trivial

end

end SequentialRuntime

end CkksRuntime
