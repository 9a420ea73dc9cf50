/-
  ckks-runtime formalization — a failing run aborts the group.

  * `Disciplined c`: whatever the Api answers, `c` never calls `abort_all`, and
    makes no call after one that threw.
  * `body_disciplined`: so behaves the whole body of the `try`.
  * `run_failFast_iff`: `run` is fail-fast exactly when the trace file can be
    opened, since `open_trace` is called before the `try`.
-/
import CkksRuntime.Runtime

namespace CkksRuntime

open Interaction

variable {V H α β : Type}

/-- A call of the runtime with its answer. -/
abbrev ApiEvent (V H : Type) := Event (ApiOp V H) ApiOp.Ans

namespace ApiEvent

/-- The call threw. -/
def Threw (e : ApiEvent V H) : Prop := ∃ fault, e.ans = .error fault

def isAbort (e : ApiEvent V H) : Bool :=
  match e.op with
  | .abortAll .. => true
  | _ => false

/-- The calls that belong to the execution of the plan. -/
def isWork (e : ApiEvent V H) : Bool :=
  match e.op with
  | .encodePlaintext .. | .compute .. | .communicateAsync .. | .wait .. | .synchronize .. => true
  | _ => false

/-- `preflight` returned. -/
def PreflightOk (e : ApiEvent V H) : Prop :=
  ∃ digest skip target spec requirements,
    e = ⟨.preflight digest skip target spec requirements, .ok ()⟩

end ApiEvent

namespace SequentialRuntime

/-- The calls of a run of a part of the body that ends with `r`. -/
structure CallsOk (log : List (ApiEvent V H)) (r : Except Failure α) : Prop where
  noAbort : ∀ e ∈ log, e.isAbort = false
  ok : ∀ a, r = .ok a → ∀ e ∈ log, ¬ e.Threw
  last : ∀ pre e post, log = pre ++ e :: post → e.Threw → post = [] ∧
    ∃ fault, e.ans = .error fault ∧ ∃ failure, r = .error failure ∧ failure = .api fault

/-- Never `abort_all`, and no call after one that threw. -/
def Disciplined (c : Runtime V H α) : Prop :=
  ∀ s log r t, (c s).Runs log (r, t) → CallsOk log r

theorem CallsOk.nil {r : Except Failure α} : CallsOk ([] : List (ApiEvent V H)) r :=
  ⟨by simp, by simp, by simp⟩

namespace Disciplined

theorem of_ret {c : Runtime V H α} (h : ∀ s, ∃ r, c s = .ret r) : Disciplined c := by
  intro s log r t hr
  obtain ⟨r', h⟩ := h s
  rw [h] at hr
  obtain ⟨rfl, -⟩ := Prog.runs_ret.1 hr
  exact .nil

theorem pure (a : α) : Disciplined (Pure.pure a : Runtime V H α) := of_ret fun _ => ⟨_, rfl⟩

theorem get : Disciplined (Comp.get : Runtime V H (RuntimeState V H)) := of_ret fun _ => ⟨_, rfl⟩

theorem modify (f : RuntimeState V H → RuntimeState V H) :
    Disciplined (Comp.modify f : Runtime V H Unit) := of_ret fun _ => ⟨_, rfl⟩

theorem throw (f : Failure) : Disciplined (Comp.throw f : Runtime V H α) := of_ret fun _ => ⟨_, rfl⟩

theorem fail (e : RuntimeError) : Disciplined (SequentialRuntime.fail e : Runtime V H α) := throw _

theorem throwIf (c : Prop) [Decidable c] (f : Failure) :
    Disciplined (Comp.throwIf c f : Runtime V H Unit) := of_ret fun _ => ⟨_, rfl⟩

theorem ofExcept (x : Except Failure α) : Disciplined (Comp.ofExcept x : Runtime V H α) :=
  of_ret fun _ => ⟨_, rfl⟩

theorem bind {c : Runtime V H α} {f : α → Runtime V H β} (hc : Disciplined c)
    (hf : ∀ a, Disciplined (f a)) : Disciplined (c >>= f) := by
  intro s log r t h
  rcases Comp.runs_bind.1 h with ⟨log₁, log₂, a, u, rfl, h₁, h₂⟩ | ⟨e, rfl, he⟩
  · obtain ⟨hn₁, hok₁, -⟩ := hc _ _ _ _ h₁
    obtain ⟨hn₂, hok₂, hl₂⟩ := hf a _ _ _ _ h₂
    refine ⟨List.forall_mem_append.2 ⟨hn₁, hn₂⟩,
      fun b hb => List.forall_mem_append.2 ⟨hok₁ a rfl, hok₂ b hb⟩, ?_⟩
    intro pre e post heq he
    rcases List.append_eq_append_iff.1 heq with ⟨pre', rfl, hlog⟩ | ⟨post', rfl, hlog⟩
    · exact hl₂ pre' e post hlog he
    · cases post' with
      | nil => exact hl₂ [] e post (by simpa using hlog.symm) he
      | cons x xs =>
        obtain ⟨rfl, -⟩ := List.cons.inj hlog
        exact absurd he (hok₁ a rfl e (by simp))
  · obtain ⟨hn, -, hl⟩ := hc _ _ _ _ he
    refine ⟨hn, by simp, fun pre e' post heq ht => ?_⟩
    obtain ⟨hpost, fault, hans, failure, hfail, rfl⟩ := hl pre e' post heq ht
    cases hfail
    exact ⟨hpost, fault, hans, _, rfl, rfl⟩

theorem ite {c : Prop} [Decidable c] {x y : Runtime V H α} (hx : Disciplined x)
    (hy : Disciplined y) : Disciplined (if c then x else y) := by
  split_ifs
  exacts [hx, hy]

theorem api (op : ApiOp V H) (h : ∀ code reason, op ≠ .abortAll code reason) :
    Disciplined (SequentialRuntime.api op) := by
  intro s log r t hr
  obtain ⟨ans, rest, rfl, hk⟩ := Prog.runs_call.1 hr
  obtain ⟨rfl, hret⟩ := Prog.runs_ret.1 hk
  obtain ⟨rfl, rfl⟩ := Prod.mk.inj hret
  refine ⟨?_, ?_, ?_⟩
  · simp only [List.mem_singleton, forall_eq]
    cases op with
    | abortAll code reason => exact absurd rfl (h code reason)
    | _ => rfl
  · simp only [List.mem_singleton, forall_eq]
    rintro a hok ⟨fault, hans⟩
    simp only at hans
    simp [hans, Except.mapError] at hok
  · intro pre e post heq he
    cases pre with
    | nil =>
      obtain ⟨rfl, rfl⟩ := List.cons.inj heq
      obtain ⟨fault, hans⟩ := he
      simp only at hans
      exact ⟨rfl, fault, hans, .api fault, by rw [hans]; rfl, rfl⟩
    | cons x pre =>
      have := congrArg List.length heq
      simp at this

end Disciplined

/-! ## Every part of the body is disciplined -/

section
variable {cfg : RunConfig V}

theorem define_disciplined (id : ValueId) (entry : Entry V) :
    Disciplined (define (H := H) id entry) := by
  refine .bind .get fun s => ?_
  cases s.store id with
  | none => exact .modify _
  | some _ => exact .fail _

theorem lookup_disciplined (id : ValueId) : Disciplined (lookup (V := V) (H := H) id) := by
  refine .bind .get fun s => ?_
  cases s.store id with
  | none => exact .fail _
  | some _ => exact .pure _

theorem assign_disciplined (id : ValueId) (entry : Entry V) :
    Disciplined (assign (H := H) id entry) :=
  .bind (lookup_disciplined id) fun _ => .modify _

theorem erase_disciplined (id : ValueId) : Disciplined (erase (V := V) (H := H) id) := by
  refine .bind .get fun s => ?_
  cases s.store id with
  | none => exact .fail _
  | some _ => exact .modify _

theorem releaseAfterUse_disciplined (id : ValueId) :
    Disciplined (releaseAfterUse (H := H) cfg id) := by
  refine .ite (.pure _) (.bind .get fun s => ?_)
  cases s.remainingUses id with
  | zero => exact .fail _
  | succ n => exact .bind (.modify _) fun _ => .ite (erase_disciplined id) (.pure _)

theorem releaseAll_disciplined (ids : List ValueId) :
    Disciplined (releaseAll (H := H) cfg ids) := by
  induction ids with
  | nil => exact .pure _
  | cons id ids ih => exact .bind (releaseAfterUse_disciplined id) fun _ => ih

theorem storeOutputs_disciplined (outputs : List (ValueId × V)) :
    Disciplined (storeOutputs (H := H) cfg outputs) := by
  induction outputs with
  | nil => exact .pure _
  | cons output outputs ih =>
    exact .bind (.ofExcept _) fun _ => .bind (.api _ nofun) fun _ =>
      .bind (assign_disciplined _ _) fun _ => ih

theorem finishGroup_disciplined (groupId : ℕ) :
    Disciplined (finishGroup (H := H) cfg groupId) := by
  refine .bind .get fun s => ?_
  cases s.groups[groupId]? with
  | none => exact .fail _
  | some group =>
    exact .ite (.pure _) (.bind (.api _ nofun) fun _ => .bind (.modify _) fun _ =>
      .bind (.throwIf _ _) fun _ => .bind (storeOutputs_disciplined _) fun _ =>
      .bind (releaseAll_disciplined _) fun _ => .modify _)

theorem ensureReady_disciplined (id : ValueId) (place : Place) :
    Disciplined (ensureReady (H := H) cfg id place) := by
  refine .bind (lookup_disciplined id) fun entry => ?_
  cases entry with
  | ready _ value => exact .bind (.throwIf _ _) fun _ => .pure _
  | pending _ group _ =>
    refine .bind (.throwIf _ _) fun _ => .bind (finishGroup_disciplined group) fun _ =>
      .bind (lookup_disciplined id) fun entry => ?_
    cases entry with
    | ready _ value => exact .pure _
    | pending _ _ _ => exact .fail _

theorem collectOperands_disciplined (place : Place) (ids : List ValueId) :
    Disciplined (collectOperands (H := H) cfg place ids) := by
  induction ids with
  | nil => exact .pure _
  | cons id ids ih =>
    exact .bind (ensureReady_disciplined id place) fun _ => .bind ih fun _ => .pure _

theorem executeEncode_disciplined (op : EncodeOp) :
    Disciplined (executeEncode (H := H) cfg op) :=
  .bind (.ofExcept _) fun _ => .ite (.pure _) (.bind .get fun _ => .bind (.ofExcept _) fun _ =>
    .bind (.api _ nofun) fun _ => .bind (.api _ nofun) fun _ => define_disciplined _ _)

theorem executeCompute_disciplined (op : ComputeOp) :
    Disciplined (executeCompute (H := H) cfg op) :=
  .ite (.pure _) (.bind (collectOperands_disciplined _ _) fun _ => .bind (.api _ nofun) fun _ =>
    .bind (.modify _) fun _ => .bind (.ofExcept _) fun _ => .bind (.api _ nofun) fun _ =>
    .bind (define_disciplined _ _) fun _ => releaseAll_disciplined _)

theorem collectSources_disciplined (ids : List ValueId) (places : List Place) :
    Disciplined (collectSources (H := H) cfg ids places) := by
  induction ids generalizing places with
  | nil => exact .pure _
  | cons id ids ih =>
    cases places with
    | nil => exact .throw _
    | cons place places =>
      exact .ite (.bind (ensureReady_disciplined id place) fun _ =>
        .bind (ih places) fun _ => .pure _) (ih places)

theorem definePending_disciplined (group slot : ℕ) (ids : List ValueId) (places : List Place) :
    Disciplined (definePending (H := H) cfg group slot ids places) := by
  induction ids generalizing slot places with
  | nil => exact .pure _
  | cons id ids ih =>
    cases places with
    | nil => exact .throw _
    | cons place places =>
      exact .ite (.bind (define_disciplined _ _) fun _ =>
        .bind (ih _ places) fun _ => .pure _) (ih _ places)

theorem executeCommunication_disciplined (action : CommAction) :
    Disciplined (executeCommunication (H := H) cfg action) :=
  .bind (collectSources_disciplined _ _) fun _ => .bind (.ofExcept _) fun _ =>
    .bind (.api _ nofun) fun _ => .bind (.modify _) fun _ => .bind .get fun _ =>
    .bind (definePending_disciplined _ _ _ _) fun _ => .modify _

theorem executeInstructions_disciplined (list : List Instruction) :
    Disciplined (executeInstructions (H := H) cfg list) := by
  induction list with
  | nil => exact .pure _
  | cons i is ih =>
    refine .bind (.bind (.modify _) fun _ => ?_) fun _ => ih
    cases i.body with
    | encode op => exact executeEncode_disciplined op
    | compute op => exact executeCompute_disciplined op
    | comm action => exact executeCommunication_disciplined action

theorem finishGroups_disciplined (groups : List ℕ) :
    Disciplined (finishGroups (H := H) cfg groups) := by
  induction groups with
  | nil => exact .pure _
  | cons g gs ih => exact .bind (finishGroup_disciplined g) fun _ => ih

theorem bindExternal_disciplined (ids : List ValueId) :
    Disciplined (bindExternal (H := H) cfg ids) := by
  induction ids with
  | nil => exact .pure _
  | cons id ids ih =>
    refine .bind (.ofExcept _) fun d => .ite ih ?_
    cases cfg.localInputs.lookup id with
    | none => exact .fail _
    | some value =>
      exact .bind (.api _ nofun) fun _ => .bind (define_disciplined _ _) fun _ =>
        .bind ih fun _ => .pure _

theorem synchronizeOutputs_disciplined (ids : List ValueId) :
    Disciplined (synchronizeOutputs (H := H) cfg ids) := by
  induction ids with
  | nil => exact .pure _
  | cons id ids ih =>
    exact .bind (.ofExcept _) fun d => .ite ih (.bind (.modify _) fun _ =>
      .bind (ensureReady_disciplined _ _) fun _ => .bind (.api _ nofun) fun _ =>
      .bind (assign_disciplined _ _) fun _ => ih)

theorem collectFinals_disciplined (values : ValueId → Option (Place × V)) (ids : List ValueId) :
    Disciplined (collectFinals (H := H) cfg values ids) := by
  induction ids generalizing values with
  | nil => exact .pure _
  | cons id ids ih =>
    exact .bind (.ofExcept _) fun d => .ite (ih values)
      (.bind (ensureReady_disciplined _ _) fun _ => ih _)

theorem setup_disciplined (env : Environment) : Disciplined (setup (H := H) cfg env) :=
  .bind (.ofExcept _) fun _ =>
  .bind (.ite (.pure _) (.bind (.ofExcept _) fun _ => .bind (.ofExcept _) fun _ => .modify _))
  fun _ => .bind (.bind (.ofExcept _) fun _ => .modify _) fun _ => .bind (.api _ nofun) fun _ =>
  .bind (bindExternal_disciplined _) fun _ => .throwIf _ _

theorem execute_disciplined : Disciplined (execute (H := H) cfg) := by
  have phase : ∀ list, Disciplined (executePhase (H := H) cfg list) := fun list =>
    .bind (executeInstructions_disciplined list) fun _ => .modify _
  have finish : Disciplined (finishAllGroups (H := H) cfg) :=
    .bind .get fun _ => finishGroups_disciplined _
  exact .bind (phase _) fun _ => .bind finish fun _ => .bind (phase _) fun _ =>
    .bind (phase _) fun _ => finish

/-- **The body of the `try` never aborts, and makes no call after one that threw.** -/
theorem body_disciplined (env : Environment) : Disciplined (body (H := H) cfg env) := by
  refine .bind (setup_disciplined env) fun _ => .bind execute_disciplined fun _ =>
    .bind (.bind (synchronizeOutputs_disciplined _) fun _ => .modify _) fun _ =>
    .bind .get fun s => .ite (.pure _) (.bind (collectFinals_disciplined _ _) fun _ => .pure _)

end

/-! ## Nothing is executed before `preflight` -/

/-- A log with work in it has a successful `preflight`. -/
def AfterPreflight (log : List (ApiEvent V H)) : Prop :=
  (∃ e ∈ log, ApiEvent.isWork e = true) → ∃ e ∈ log, ApiEvent.PreflightOk e

/-- A part of the body that returns only after a successful `preflight`. -/
def Opens (c : Runtime V H α) : Prop :=
  ∀ s log r t, (c s).Runs log (r, t) →
    AfterPreflight log ∧ ∀ a, r = .ok a → ∃ e ∈ log, ApiEvent.PreflightOk e

theorem Opens.after {c : Runtime V H α} {f : α → Runtime V H β} (hc : Opens c) :
    Opens (c >>= f) := by
  intro s log r t h
  rcases Comp.runs_bind.1 h with ⟨log₁, log₂, a, u, rfl, h₁, h₂⟩ | ⟨e, rfl, he⟩
  · obtain ⟨e, he, hok⟩ := (hc _ _ _ _ h₁).2 a rfl
    have hmem : e ∈ log₁ ++ log₂ := List.mem_append_left _ he
    exact ⟨fun _ => ⟨e, hmem, hok⟩, fun _ _ => ⟨e, hmem, hok⟩⟩
  · exact ⟨(hc _ _ _ _ he).1, by simp⟩

theorem Opens.silent {c : Runtime V H α} {f : α → Runtime V H β} (hc : ∀ s, ∃ r, c s = .ret r)
    (hf : ∀ a, Opens (f a)) : Opens (c >>= f) := by
  intro s log r t h
  obtain ⟨⟨a | a, u⟩, hr⟩ := hc s
  · rw [Comp.bind_apply, hr, Prog.ret_bind, Comp.next_error] at h
    obtain ⟨rfl, heq⟩ := Prog.runs_ret.1 h
    obtain ⟨rfl, rfl⟩ := Prod.mk.inj heq
    exact ⟨by simp [AfterPreflight], by simp⟩
  · rw [Comp.bind_apply, hr, Prog.ret_bind, Comp.next_ok] at h
    exact hf a _ _ _ _ h

theorem Opens.preflight (digest : String) (skip : Bool) (target : TargetConfig)
    (spec : OperatorSpec) (requirements : PlanRequirements) :
    Opens (api (V := V) (H := H) (.preflight digest skip target spec requirements)) := by
  intro s log r t h
  obtain ⟨ans, rest, rfl, hk⟩ := Prog.runs_call.1 h
  obtain ⟨rfl, hret⟩ := Prog.runs_ret.1 hk
  obtain ⟨rfl, rfl⟩ := Prod.mk.inj hret
  refine ⟨by simp [AfterPreflight, ApiEvent.isWork], fun a ha => ?_⟩
  cases ans with
  | error fault => simp [Except.mapError] at ha
  | ok u => exact ⟨_, List.mem_singleton_self _, digest, skip, target, spec, requirements, rfl⟩

theorem setup_opens (cfg : RunConfig V) (env : Environment) : Opens (setup (H := H) cfg env) := by
  refine .silent (fun s => ⟨_, rfl⟩) fun requirements => .silent (fun s => ?_) fun _ =>
    .silent (fun s => ?_) fun _ => .after (.preflight _ _ _ _ _)
  · unfold initializeUseCounts
    split_ifs
    · exact ⟨_, rfl⟩
    · cases hu : phaseUses cfg.rank (plan cfg).instructions <;>
      cases hf : localFinals (plan cfg) cfg.rank (plan cfg).finalOutputs <;>
      simp [Comp.bind_apply]
  · unfold loadBundle
    cases hb : bundleSlotsOf cfg env <;> simp [Comp.bind_apply]

theorem body_opens (cfg : RunConfig V) (env : Environment) : Opens (body (H := H) cfg env) :=
  .after (setup_opens cfg env)

/-! ## `run` -/

/-- A call of `run` with its log and its end is fail-fast. -/
structure FailFast (cfg : RunConfig V) (env : Environment) (log : List (ApiEvent V H))
    (result : RunResult V) : Prop where
  /-- an exception leaves the body at once; then `abort_all` is called, once, and
      nothing after it -/
  aborts : ∀ failure, result = .threw failure → ∃ calls cause s fault,
    log = calls ++ [⟨.abortAll 1 (formatError cfg s cause.what), .error fault⟩] ∧
      (body cfg env {}).Runs calls (.error cause, s) ∧ cause.isException = true ∧
      ∀ e ∈ calls, ApiEvent.isAbort e = false
  /-- a call that threw is followed by `abort_all` only, and `run` does not return -/
  stops : ∀ pre e post, log = pre ++ e :: post → e.Threw →
    (∀ artifact, result ≠ .returned artifact) ∧ ∀ e' ∈ post, e'.isAbort = true
  /-- `abort_all` is not called otherwise -/
  quiet : ∀ artifact, result = .returned artifact → ∀ e ∈ log, e.isAbort = false
  /-- nothing is executed before a successful `preflight` -/
  early : AfterPreflight log

theorem failFast_of_body {cfg : RunConfig V} {env : Environment} {log : List (ApiEvent V H)}
    {result : RunResult V} (h : (body cfg env {} >>= handle cfg).Runs log result) :
    FailFast cfg env log result := by
  obtain ⟨log₁, log₂, ⟨r, s⟩, rfl, h₁, h₂⟩ := Prog.runs_bind.1 h
  obtain ⟨hno, hok, hlast⟩ := body_disciplined env _ _ _ _ h₁
  obtain ⟨hearly, -⟩ := body_opens cfg env _ _ _ _ h₁
  cases r with
  | ok artifact =>
    obtain ⟨rfl, rfl⟩ := Prog.runs_ret.1 h₂
    rw [List.append_nil]
    refine ⟨by simp, fun pre e post heq he => ?_, fun _ _ => hno, hearly⟩
    exact absurd he (hok artifact rfl e (by simp [heq]))
  | error cause =>
    by_cases hexc : cause.isException
    · simp only [handle, hexc, if_true, abortAll] at h₂
      obtain ⟨ans, rest, rfl, hk⟩ := Prog.runs_call.1 h₂
      rcases ans with fault | ⟨⟨⟩⟩
      obtain ⟨rfl, rfl⟩ := Prog.runs_ret.1 hk
      refine ⟨fun failure _ => ⟨log₁, cause, s, fault, rfl, h₁, hexc, hno⟩, ?_, by simp, ?_⟩
      · intro pre e post heq he
        refine ⟨by simp, ?_⟩
        rcases List.append_eq_append_iff.1 heq with ⟨pre', rfl, hlog⟩ | ⟨post', rfl, hlog⟩
        · cases pre' with
          | nil => obtain ⟨rfl, rfl⟩ := List.cons.inj hlog; simp
          | cons x xs => simp at hlog
        · cases post' with
          | nil =>
            obtain ⟨rfl, rfl⟩ := List.cons.inj (hlog : e :: post = _)
            simp
          | cons x xs =>
            obtain ⟨rfl, rfl⟩ := List.cons.inj (hlog : e :: post = x :: (xs ++ _))
            obtain ⟨rfl, -⟩ := hlast pre e xs rfl he
            simp [ApiEvent.isAbort]
      · rintro ⟨e, he, hwork⟩
        rcases List.mem_append.1 he with he | he
        · obtain ⟨e', he', hok'⟩ := hearly ⟨e, he, hwork⟩
          exact ⟨e', List.mem_append_left _ he', hok'⟩
        · rw [List.mem_singleton.1 he] at hwork
          simp [ApiEvent.isWork] at hwork
    · simp only [handle, hexc] at h₂
      obtain ⟨rfl, rfl⟩ := Prog.runs_ret.1 h₂
      rw [List.append_nil]
      refine ⟨by simp, fun pre e post heq he => ⟨by simp, ?_⟩, by simp, hearly⟩
      obtain ⟨rfl, -⟩ := hlast pre e post heq he
      simp

end SequentialRuntime

end CkksRuntime
