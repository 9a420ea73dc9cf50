/-
  ckks-runtime formalization — a cluster run with `skip_artifact_digest_checks`
  beside one without it.

  * `rankProgram_twin`: two ranks that differ in the flag differ in what they register
    only;
  * `silent_withThreads`: a step that is no call depends on no table and no thread;
  * `Beside`: a group with the flag in the state of one without it; each takes the
    steps of the other, but for the comparison of the plan digests (`Beside.step`,
    `Beside.step_back`).
-/
import CkksRuntime.Deadlock
import CkksRuntime.DigestChecks

namespace CkksRuntime

open Interaction Transitions

/-! ## Programs -/

/-- Programs that differ in the flag they register only: the left one has it. -/
inductive Twin {α : Type} : Prog MockOp MockOp.Ans α → Prog MockOp MockOp.Ans α → Prop
  | ret {a} : Twin (.ret a) (.ret a)
  | call {op k k'} : (∀ ans, Twin (k ans) (k' ans)) → Twin (.call op k) (.call op k')
  | register {digest k k'} : (∀ ans, Twin (k ans) (k' ans)) →
    Twin (.call (.register digest true) k) (.call (.register digest false) k')

namespace Twin

variable {α β : Type} {p q : Prog MockOp MockOp.Ans α}

theorem refl (p : Prog MockOp MockOp.Ans α) : Twin p p := by
  induction p with
  | ret a => exact .ret
  | call op k ih => exact .call ih

theorem bind {f g : α → Prog MockOp MockOp.Ans β} (h : Twin p q) (hfg : ∀ a, Twin (f a) (g a)) :
    Twin (p >>= f) (q >>= g) := by
  induction h with
  | ret => exact hfg _
  | call _ ih => exact .call ih
  | register _ ih => exact .register ih

end Twin

/-- The preflight of two ranks that differ in the flag. -/
theorem MockVecApi.preflight_twin (cluster : MockClusterConfig) (digest : String)
    (target : TargetConfig) (spec : OperatorSpec) (requirements : PlanRequirements) (n : ℕ) :
    Twin (preflight cluster digest true target spec requirements n)
      (preflight cluster digest false target spec requirements n) := by
  unfold preflight
  rw [Comp.modify_bind, Comp.modify_bind, Comp.throwIf_bind, Comp.throwIf_bind]
  split_ifs
  · exact .refl _
  · cases checkRequirements cluster requirements with
    | error fault => exact .refl _
    | ok u =>
      rw [Comp.ofExcept_bind_ok, Comp.ofExcept_bind_ok]
      exact .register fun ans => .refl _

/-- The run with the flag set or not. -/
def RunConfig.withSkip {V : Type} (cfg : RunConfig V) (skip : Bool) : RunConfig V :=
  { cfg with resources := { cfg.resources with skipArtifactDigestChecks := skip } }

namespace SequentialRuntime

variable {V H : Type} {cfg : RunConfig V}

theorem receiveOutputs_withSkip (skip : Bool) (outputs : List (ValueId × V)) :
    (receiveOutputs (cfg.withSkip skip) outputs : ScriptComp V H Unit) =
      receiveOutputs cfg outputs := by
  induction outputs with
  | nil => rfl
  | cons output outputs ih =>
    rw [receiveOutputs, receiveOutputs, ih]
    rfl

theorem execScript_withSkip (skip : Bool) (lines : Script) :
    (execScript (cfg.withSkip skip) lines : ScriptComp V H Unit) = execScript cfg lines := by
  have hact : ∀ act, (Act.exec (cfg.withSkip skip) act : ScriptComp V H Unit) =
      Act.exec cfg act := by
    intro act
    cases act with
    | wait group action =>
      simp only [Act.exec, receiveOutputs_withSkip]
      rfl
    | _ => rfl
  induction lines with
  | nil => rfl
  | cons line lines ih => rw [execScript, execScript, ih, execLine, execLine, hact]

theorem localContents_withSkip (skip : Bool) (list : List Instruction) :
    localContents (cfg.withSkip skip) list = localContents cfg list := by
  induction list with
  | nil => rfl
  | cons i is ih =>
    rw [localContents, localContents, ih]
    rfl

/-- What a rank does after its preflight. -/
def afterPreflight (cfg : RunConfig V) (slots : List (String × List Double))
    (ans : Except Fault Unit) : Prog (ApiOp V H) ApiOp.Ans (RunResult V) :=
  (Comp.next (fun _ => execScript cfg ((plan cfg).script cfg.rank) >>= fun _ =>
    Comp.get >>= fun e => pure (scriptArtifact cfg e))
    (ans.mapError .api, { bundleSlots := slots })) >>= scriptHandle cfg

theorem afterPreflight_withSkip (skip : Bool) (slots : List (String × List Double))
    (ans : Except Fault Unit) : (afterPreflight (cfg.withSkip skip) slots ans :
      Prog (ApiOp V H) ApiOp.Ans (RunResult V)) = afterPreflight cfg slots ans := by
  unfold afterPreflight
  rw [execScript_withSkip]
  rfl

/-- A run is its preflight and what follows, once the artifacts are checked. -/
theorem run_eq_call {env : Environment} (hopen : openTrace env cfg.rank = .ok ())
    {requirements : PlanRequirements} (hverify : verifyPlan cfg = .ok requirements)
    {slots : List (String × List Double)} (hbundle : bundleSlotsOf cfg env = .ok slots) :
    (run cfg env : Prog (ApiOp V H) ApiOp.Ans (RunResult V)) =
      .call (.preflight cfg.loadedPlan.sourceSha256 cfg.resources.skipArtifactDigestChecks
        (plan cfg).target cfg.resources.operatorSpec.spec requirements)
        (afterPreflight cfg slots) := by
  rw [run_eq_scriptRun env hverify, scriptRun, hopen]
  dsimp only
  rw [scriptBody, scriptPrelude, hbundle]
  rfl

end SequentialRuntime

/-- **Two ranks that differ in the flag** differ in what they register only. -/
theorem MockVecApi.rankProgram_twin {cluster : MockClusterConfig} {api : MockApiConfig}
    {cfg : RunConfig VecValue} {env : Environment}
    (hopen : SequentialRuntime.openTrace env cfg.rank = .ok ())
    {requirements : PlanRequirements} {slots : List (String × List Double)}
    (hverify : ∀ skip, SequentialRuntime.verifyPlan (cfg.withSkip skip) = .ok requirements)
    (hbundle : ∀ skip, SequentialRuntime.bundleSlotsOf (cfg.withSkip skip) env = .ok slots) :
    Twin (rankProgram cluster api (cfg.withSkip true) env)
      (rankProgram cluster api (cfg.withSkip false) env) := by
  have hrun : ∀ skip, rankProgram cluster api (cfg.withSkip skip) env =
      preflight cluster cfg.loadedPlan.sourceSha256 skip (SequentialRuntime.plan cfg).target
        cfg.resources.operatorSpec.spec requirements 0 >>= fun r =>
          Prog.interp (handle cluster api cfg.rank)
            (SequentialRuntime.afterPreflight cfg slots r.1) r.2 := by
    intro skip
    have hcall := @SequentialRuntime.run_eq_call _ CommHandle (cfg.withSkip skip) env hopen
      requirements (hverify skip) slots (hbundle skip)
    rw [rankProgram, hcall]
    simp only [Prog.interp, SequentialRuntime.afterPreflight_withSkip]
    rfl
  rw [hrun, hrun]
  exact (preflight_twin ..).bind fun r => .refl _

/-! ## States -/

namespace MockState

/-- A group with the flag, in the state of one without it, with the threads `progs`. -/
def twin (s : MockState) (progs : CInt → Prog MockOp MockOp.Ans (RunResult VecValue × ℕ)) :
    MockState where
  cluster := s.cluster.skipping
  copier := s.copier
  ranks r := { s.ranks r with prog := progs r }
  crashed := s.crashed

variable {s : MockState} {progs : CInt → Prog MockOp MockOp.Ans (RunResult VecValue × ℕ)}
  {r : CInt}

/-- A step of one rank, in both groups. -/
theorem twin_setRank (node : RankState) (p : Prog MockOp MockOp.Ans (RunResult VecValue × ℕ)) :
    (s.twin progs).setRank r { node with prog := p } =
      (s.setRank r node).twin (Function.update progs r p) := by
  refine congrArg (fun ranks => (⟨s.cluster.skipping, s.copier, ranks, s.crashed⟩ : MockState)) ?_
  funext r'
  by_cases hr : r' = r
  · subst hr
    simp [setRank, twin]
  · simp [setRank, twin, hr]

/-- A step of one rank that leaves its thread. -/
theorem setRank_twin (node : RankState) : (s.setRank r node).twin progs =
    (s.twin progs).setRank r { node with prog := progs r } := by
  rw [twin_setRank, Function.update_eq_self]

variable [DoubleArith]

/-- A call of a rank, in both groups. -/
theorem perform_twin {cfg : MockClusterConfig} {op : MockOp}
    (hregister : ∀ digest skip, op ≠ .register digest skip) (hawait : op ≠ .awaitPreflight) :
    (s.twin progs).perform cfg r op =
      (s.perform cfg r op).map fun x => (x.1, x.2.twin progs) := by
  cases op with
  | register digest skip => exact absurd rfl (hregister digest skip)
  | awaitPreflight => exact absurd rfl hawait
  | computeNow op inputs =>
    rw [perform, perform, Option.map_map]
    rfl
  | submit op inputs metadata =>
    refine congrArg some (Prod.ext rfl ?_)
    show (s.twin progs).setRank r _ = (s.setRank r _).twin progs
    rw [setRank_twin]
    rfl
  | spawn id destinations source =>
    refine congrArg some (Prod.ext rfl ?_)
    show (s.twin progs).setRank r _ = (s.setRank r _).twin progs
    rw [setRank_twin]
    rfl
  | join k =>
    unfold perform
    dsimp only [twin]
    split <;> rfl
  | receive id slot =>
    by_cases h : s.copier = none ∧ s.cluster.Arrived id slot
    · rw [perform, perform, if_pos h]
      exact if_pos h
    · rw [perform, perform, if_neg h]
      exact if_neg h
  | materialize value =>
    rw [perform, perform, Option.map_map]
    rfl
  | abortAll reason =>
    by_cases h : s.copier = none
    · rw [perform, perform, if_pos h]
      exact if_pos h
    · rw [perform, perform, if_neg h]
      exact if_neg h

/-- A call of another kind leaves the tables, and the threads. -/
theorem perform_kept {cfg : MockClusterConfig} {op : MockOp} {ans : op.Ans} {t : MockState}
    (hregister : ∀ digest skip, op ≠ .register digest skip)
    (h : s.perform cfg r op = some (ans, t)) :
    t.cluster.skipDigestChecks = s.cluster.skipDigestChecks ∧
      t.cluster.planDigests = s.cluster.planDigests ∧
      ∀ r', (t.ranks r').prog = (s.ranks r').prog := by
  have hself : ∀ (node : RankState), node.prog = (s.ranks r).prog →
      ∀ r', ((s.setRank r node).ranks r').prog = (s.ranks r').prog := by
    intro node hnode r'
    by_cases hr : r' = r
    · rw [hr, s.setRank_self, hnode]
    · rw [s.setRank_of_ne _ hr]
  cases op with
  | register digest skip => exact absurd rfl (hregister digest skip)
  | awaitPreflight =>
    simp only [perform] at h
    split_ifs at h
    obtain ⟨-, rfl⟩ := Prod.mk.inj (Option.some.inj h)
    rw [s.cluster.agree_tables]
    exact ⟨rfl, rfl, fun _ => rfl⟩
  | computeNow op inputs =>
    obtain ⟨result, -, hresult⟩ := Option.map_eq_some_iff.1 h
    obtain ⟨-, rfl⟩ := Prod.mk.inj hresult
    exact ⟨rfl, rfl, fun _ => rfl⟩
  | submit op inputs metadata =>
    obtain ⟨-, rfl⟩ := Prod.mk.inj (Option.some.inj h)
    exact ⟨rfl, rfl, hself _ rfl⟩
  | spawn id destinations source =>
    obtain ⟨-, rfl⟩ := Prod.mk.inj (Option.some.inj h)
    exact ⟨rfl, rfl, hself _ rfl⟩
  | join k =>
    simp only [perform] at h
    split at h
    · obtain ⟨-, rfl⟩ := Prod.mk.inj (Option.some.inj h)
      exact ⟨rfl, rfl, fun _ => rfl⟩
    · cases h
  | receive id slot =>
    simp only [perform] at h
    split_ifs at h
    obtain ⟨-, rfl⟩ := Prod.mk.inj (Option.some.inj h)
    exact ⟨rfl, rfl, fun _ => rfl⟩
  | materialize value =>
    obtain ⟨result, -, hresult⟩ := Option.map_eq_some_iff.1 h
    obtain ⟨-, rfl⟩ := Prod.mk.inj hresult
    exact ⟨rfl, rfl, fun _ => rfl⟩
  | abortAll reason =>
    simp only [perform] at h
    split_ifs at h
    obtain ⟨-, rfl⟩ := Prod.mk.inj (Option.some.inj h)
    exact ⟨rfl, rfl, fun _ => rfl⟩

end MockState

/-! ## Steps that are no calls -/

theorem MockStep.alive [DoubleArith] {cfg : MockClusterConfig} {s t : MockState} {l : MockLabel}
    (hst : MockStep cfg s l t) : ¬ s.Dead := by
  cases hst <;> assumption

namespace MockState

/-- The state with the tables and the threads of another. -/
def withThreads (s u : MockState) : MockState where
  cluster := { s.cluster with
    planDigests := u.cluster.planDigests
    skipDigestChecks := u.cluster.skipDigestChecks }
  copier := s.copier
  ranks r := { s.ranks r with prog := (u.ranks r).prog }
  crashed := s.crashed

variable {s t u : MockState} {r : CInt}

/-- A step of one rank. -/
theorem withThreads_set (node : RankState) (c : MockCluster) (p : Option (CInt × ℕ)) :
    ({ s.setRank r node with cluster := c, copier := p } : MockState).withThreads u =
      { (s.withThreads u).setRank r { node with prog := (u.ranks r).prog } with
        cluster := { c with
          planDigests := u.cluster.planDigests
          skipDigestChecks := u.cluster.skipDigestChecks }
        copier := p } := by
  refine congrArg (fun ranks => (⟨_, p, ranks, s.crashed⟩ : MockState)) ?_
  funext r'
  by_cases hr : r' = r
  · subst hr
    simp [setRank, withThreads]
  · simp [setRank, withThreads, hr]

/-- Storing a message depends on no table. -/
theorem store_withThreads (id : TransferId) (slot : ℕ) (payload : VecPayload) :
    (s.withThreads u).cluster.store id slot payload =
      (s.cluster.store id slot payload).map fun c => { c with
        planDigests := u.cluster.planDigests
        skipDigestChecks := u.cluster.skipDigestChecks } := by
  have hmessages : (s.withThreads u).cluster.messages = s.cluster.messages := rfl
  unfold MockCluster.store
  rw [hmessages]
  cases s.cluster.messages (id, slot) <;> rfl

variable [DoubleArith] {cfg : MockClusterConfig} {l : MockLabel}

/-- A worker does not look at the thread. -/
theorem runTask_prog (node : RankState) (place : Place)
    (p : Prog MockOp MockOp.Ans (RunResult VecValue × ℕ)) :
    ({ node with prog := p } : RankState).runTask place =
      (node.runTask place).map fun result => result.map fun node' => { node' with prog := p } := by
  unfold RankState.runTask
  dsimp only
  cases node.queues place with
  | nil => rfl
  | cons task rest =>
    dsimp only
    cases (VecExecutor.computeNow node.cells task.op task.inputs).run with
    | none => rfl
    | some result =>
      dsimp only
      cases task.complete (node.cells task.cell) result <;> rfl

/-- **A step that is no call** depends on no table and no thread. -/
theorem silent_withThreads (hst : MockStep cfg s l t) (hl : ∀ r event, l ≠ .call r event)
    (halive : ¬ (s.withThreads u).Dead) : MockStep cfg (s.withThreads u) l (t.withThreads u) := by
  cases hst with
  | call => exact absurd rfl (hl _ _)
  | acquire _ hx hstatus hslot hfree hadmit =>
    exact withThreads_set _ s.cluster _ ▸ .acquire halive hx hstatus hslot hfree hadmit
  | refuse _ hx hstatus hslot hfree hadmit =>
    exact withThreads_set _ s.cluster s.copier ▸ .refuse halive hx hstatus hslot hfree hadmit
  | store _ hx hstatus hpayload hstore =>
    exact withThreads_set _ _ none ▸ .store halive hx hstatus hpayload
      (by rw [store_withThreads, hstore]; rfl)
  | @spoil r k slot x thrown _ hx hstatus hspoil =>
    refine withThreads_set _ s.cluster none ▸ .spoil halive hx hstatus (hspoil.imp_right ?_)
    rintro ⟨payload, hpayload, hstore⟩
    exact ⟨payload, hpayload, by rw [store_withThreads, hstore]; rfl⟩
  | finish _ hx hstatus hslot =>
    exact withThreads_set _ s.cluster s.copier ▸ .finish halive hx hstatus hslot
  | abort _ hx hstatus hfree => exact withThreads_set _ _ s.copier ▸ .abort halive hx hstatus hfree
  | @worker r place node _ hrun =>
    refine withThreads_set node s.cluster s.copier ▸ .worker halive ?_
    exact (runTask_prog ..).trans (by rw [hrun]; rfl)
  | crash _ hrun => exact .crash halive ((runTask_prog ..).trans (by rw [hrun]; rfl))

/-- Such a step keeps the tables and the threads. -/
theorem silent_kept (hst : MockStep cfg s l t) (hl : ∀ r event, l ≠ .call r event) :
    t.withThreads s = t := by
  have hset : ∀ (r : CInt) (node : RankState) (c : MockCluster) (p : Option (CInt × ℕ)),
      node.prog = (s.ranks r).prog → c.planDigests = s.cluster.planDigests →
      c.skipDigestChecks = s.cluster.skipDigestChecks →
      ({ s.setRank r node with cluster := c, copier := p } : MockState).withThreads s =
        { s.setRank r node with cluster := c, copier := p } := by
    intro r node c p hprog hdigests hskips
    rw [withThreads_set, ← hprog, ← hdigests, ← hskips]
    rfl
  cases hst with
  | call => exact absurd rfl (hl _ _)
  | acquire => exact hset _ _ s.cluster _ rfl rfl rfl
  | refuse => exact hset _ _ s.cluster s.copier rfl rfl rfl
  | store _ _ _ _ hstore =>
    obtain ⟨-, rfl⟩ := MockCluster.store_eq_ok hstore
    exact hset _ _ _ none rfl rfl rfl
  | spoil => exact hset _ _ s.cluster none rfl rfl rfl
  | finish => exact hset _ _ s.cluster s.copier rfl rfl rfl
  | abort => exact hset _ _ _ s.copier rfl rfl rfl
  | worker _ hrun =>
    obtain ⟨task, rest, result, cell, -, -, -, rfl⟩ := RankState.runTask_eq_ok hrun
    exact hset _ _ s.cluster s.copier rfl rfl rfl
  | crash => rfl

end MockState

/-! ## Two groups side by side -/

/-- The group with the flag set or not on every rank. -/
def MockGroup.withSkip (group : MockGroup) (skip : Bool) : MockGroup where
  cluster := group.cluster
  plan := group.plan
  api := group.api
  run r := (group.run r).withSkip skip
  env := group.env
  rank_eq := group.rank_eq
  plan_eq := group.plan_eq
  worldSize_eq := group.worldSize_eq
  inputs_ready := group.inputs_ready

/-- A group without the flag, and one with it that has taken the same steps. -/
structure Beside (s s' : MockState) : Prop where
  skips : ∀ entry ∈ s.cluster.skipDigestChecks, entry.2 = false
  keys : s.cluster.skipDigestChecks.map (·.1) = s.cluster.planDigests.map (·.1)
  twin : ∃ progs, s' = s.twin progs ∧ ∀ r, Twin (progs r) (s.ranks r).prog

namespace Beside

variable {s s' t : MockState} {r : CInt}

theorem result_eq (h : Beside s s') (r : CInt) : (s'.ranks r).result? = (s.ranks r).result? := by
  obtain ⟨progs, rfl, htwin⟩ := h.twin
  have hr := htwin r
  have hprog : ((s.twin progs).ranks r).prog = progs r := rfl
  unfold RankState.result?
  rw [hprog]
  generalize progs r = p at hr
  generalize (s.ranks r).prog = q at hr
  cases hr <;> rfl

theorem dead_iff (h : Beside s s') : s'.Dead ↔ s.Dead := by
  have hcrashed : s'.crashed = s.crashed := by
    obtain ⟨progs, rfl, -⟩ := h.twin
    rfl
  unfold MockState.Dead
  rw [hcrashed]
  exact or_congr Iff.rfl (exists_congr fun r => by rw [h.result_eq])

/-- A step of one rank, in both groups. -/
theorem setRank (h : Beside s s') (r : CInt) {p p' : Prog MockOp MockOp.Ans _}
    (htwin : Twin p' p) :
    Beside (s.setRank r { s.ranks r with prog := p })
      (s'.setRank r { s'.ranks r with prog := p' }) := by
  obtain ⟨progs, rfl, hprogs⟩ := h.twin
  refine ⟨h.skips, h.keys, Function.update progs r p', ?_, fun r' => ?_⟩
  · exact MockState.twin_setRank { s.ranks r with prog := p } p'
  · by_cases hr : r' = r
    · subst hr
      rw [Function.update_self, s.setRank_self]
      exact htwin
    · rw [Function.update_of_ne hr, s.setRank_of_ne _ hr]
      exact hprogs r'

theorem of_cluster {progs : CInt → Prog MockOp MockOp.Ans (RunResult VecValue × ℕ)}
    (htwin : ∀ r, Twin (progs r) (s.ranks r).prog) {c : MockCluster}
    (hskips : ∀ entry ∈ c.skipDigestChecks, entry.2 = false)
    (hkeys : c.skipDigestChecks.map (·.1) = c.planDigests.map (·.1)) :
    Beside { s with cluster := c } (({ s with cluster := c } : MockState).twin progs) :=
  ⟨hskips, hkeys, progs, rfl, htwin⟩

/-- The tables and the threads of the two groups fit. -/
theorem withThreads (h : Beside s s') {t : MockState} (ht : t.withThreads s = t) :
    Beside t (t.withThreads s') := by
  obtain ⟨progs, rfl, htwin⟩ := h.twin
  have hdigests : t.cluster.planDigests = s.cluster.planDigests :=
    (congrArg (fun u : MockState => u.cluster.planDigests) ht).symm
  have hskips : t.cluster.skipDigestChecks = s.cluster.skipDigestChecks :=
    (congrArg (fun u : MockState => u.cluster.skipDigestChecks) ht).symm
  refine ⟨hskips ▸ h.skips, by rw [hskips, hdigests]; exact h.keys, progs, ?_, fun r => ?_⟩
  · unfold MockState.withThreads MockState.twin MockCluster.skipping MockCluster.relabel
    rw [hskips, hdigests]
  · have hprog : (t.ranks r).prog = (s.ranks r).prog := by
      rw [← ht]
      rfl
    rw [hprog]
    exact htwin r

theorem eq_withThreads (h : Beside s s') : s' = s.withThreads s' := by
  obtain ⟨progs, rfl, -⟩ := h.twin
  rfl

theorem withThreads_eq (h : Beside s s') : s = s'.withThreads s := by
  obtain ⟨progs, rfl, -⟩ := h.twin
  rfl

variable [DoubleArith]

/-- **A call of a rank, in both groups**: neither is served, or both are, or the plan
    digests differ where they are compared. -/
theorem perform (cfg : MockClusterConfig) (h : Beside s s') {op op' : MockOp} {k : op.Ans → _}
    {k' : op'.Ans → _}
    (hprog : (s.ranks r).prog = .call op k) (hprog' : (s'.ranks r).prog = .call op' k')
    (hflag : ∀ digest, op ≠ .register digest true)
    (hflag' : ∀ digest, op' ≠ .register digest false) :
    (s.perform cfg r op = none ∧ s'.perform cfg r op' = none) ∨
    (∃ ans u ans' u', s.perform cfg r op = some (ans, u) ∧ s'.perform cfg r op' = some (ans', u') ∧
      Beside (u.setRank r { u.ranks r with prog := k ans })
        (u'.setRank r { u'.ranks r with prog := k' ans' })) ∨
    ∃ ans u, s.perform cfg r op = some (ans, u) ∧
      (⟨op, ans⟩ : Event MockOp MockOp.Ans) =
        ⟨.awaitPreflight, .error (.runtimeError MockCluster.planMismatch)⟩ := by
  obtain ⟨progs, rfl, htwin⟩ := h.twin
  have hr := htwin r
  rw [hprog, show progs r = .call op' k' from hprog'] at hr
  cases hr with
  | @register digest k k' hk =>
    by_cases hfree : s.copier = none
    · have hregister : s.cluster.skipping.register r digest true =
          (s.cluster.register r digest false).map MockCluster.skipping :=
        MockCluster.register_relabel id (fun _ => true) r digest false
      right; left
      cases hreg : s.cluster.register r digest false with
      | ok c =>
        have hleft : s.perform cfg r (.register digest false) =
            some (.ok (), { s with cluster := c }) := by
          rw [MockState.perform, if_pos hfree, hreg]
        have hright : (s.twin progs).perform cfg r (.register digest true) =
            some (.ok (), ({ s with cluster := c } : MockState).twin progs) := by
          rw [hreg] at hregister
          rw [MockState.perform, if_pos (show (s.twin progs).copier = none from hfree),
            show (s.twin progs).cluster.register r digest true = _ from hregister]
          rfl
        obtain ⟨hfresh, rfl⟩ := MockCluster.register_eq_ok.1 hreg
        refine ⟨_, _, _, _, hleft, hright,
          (of_cluster htwin (fun entry he => ?_) ?_).setRank r (hk _)⟩
        · rcases (mem_emplace (h.keys ▸ hfresh)).1 he with rfl | he
          exacts [rfl, h.skips entry he]
        · exact keys_emplace h.keys
      | error thrown =>
        have hleft : s.perform cfg r (.register digest false) =
            some (.error thrown.toFault, s) := by
          rw [MockState.perform, if_pos hfree, hreg]
        have hright : (s.twin progs).perform cfg r (.register digest true) =
            some (.error thrown.toFault, s.twin progs) := by
          rw [hreg] at hregister
          rw [MockState.perform, if_pos (show (s.twin progs).copier = none from hfree),
            show (s.twin progs).cluster.register r digest true = _ from hregister]
          rfl
        exact ⟨_, _, _, _, hleft, hright, h.setRank r (hk _)⟩
    · left
      exact ⟨if_neg hfree, if_neg hfree⟩
  | @call op k k' hk =>
    by_cases hawait : op = .awaitPreflight
    · subst hawait
      have hgathered : s.cluster.skipping.Gathered cfg ↔ s.cluster.Gathered cfg := by
        unfold MockCluster.Gathered
        rw [MockCluster.skipping_planDigests]
        rfl
      by_cases hready : s.copier = none ∧ s.cluster.Gathered cfg
      · have hleft : s.perform cfg r .awaitPreflight =
            some (s.cluster.agree.1.mapError Thrown.toFault,
              { s with cluster := s.cluster.agree.2 }) := by
          rw [MockState.perform, if_pos hready]
        rcases MockCluster.agree_skipping h.skips h.keys with hagree | hmismatch
        · have hright : (s.twin progs).perform cfg r .awaitPreflight =
              some (s.cluster.agree.1.mapError Thrown.toFault,
                ({ s with cluster := s.cluster.agree.2 } : MockState).twin progs) := by
            rw [MockState.perform, if_pos ⟨hready.1, hgathered.2 hready.2⟩]
            show some (s.cluster.skipping.agree.1.mapError Thrown.toFault, _) = _
            rw [show (s.twin progs).cluster.agree = _ from hagree, hagree]
            rfl
          obtain ⟨hskips, hdigests, hprogs⟩ := MockState.perform_kept (by simp) hleft
          refine Or.inr (Or.inl ⟨_, _, _, _, hleft, hright,
            (of_cluster htwin (fun entry he => h.skips entry (hskips ▸ he)) ?_).setRank r (hk _)⟩)
          exact hskips ▸ hdigests ▸ h.keys
        · refine Or.inr (Or.inr ⟨_, _, hleft, ?_⟩)
          rw [hmismatch]
          rfl
      · left
        refine ⟨if_neg hready, if_neg fun hready' => hready ⟨hready'.1, ?_⟩⟩
        exact hgathered.1 hready'.2
    · have hregister : ∀ digest skip, op ≠ .register digest skip := by
        rintro digest (_ | _)
        exacts [hflag' digest, hflag digest]
      rw [MockState.perform_twin hregister hawait]
      cases hperform : s.perform cfg r op with
      | none => exact Or.inl ⟨rfl, rfl⟩
      | some x =>
        obtain ⟨ans, u⟩ := x
        obtain ⟨hskips, hdigests, hprogs⟩ := MockState.perform_kept hregister hperform
        have hu : Beside u (u.twin progs) := by
          refine ⟨hskips ▸ h.skips, ?_, progs, rfl, fun r' => by rw [hprogs]; exact htwin r'⟩
          rw [hskips, hdigests]
          exact h.keys
        exact Or.inr (Or.inl ⟨ans, u, ans, u.twin progs, rfl, rfl, hu.setRank r (hk ans)⟩)

variable {cfg : MockClusterConfig}

/-- A step of a group without the flag is a step of the one with it, but for the
    comparison of the plan digests. -/
theorem step (h : Beside s s') {l : MockLabel} (hst : MockStep cfg s l t)
    (hflag : ∀ r digest k, (s.ranks r).prog ≠ .call (.register digest true) k)
    (hflag' : ∀ r digest k, (s'.ranks r).prog ≠ .call (.register digest false) k) :
    (∃ l' t', MockStep cfg s' l' t' ∧ Beside t t' ∧ l.party = l'.party) ∨
      ∃ r, l = .call r ⟨.awaitPreflight, .error (.runtimeError MockCluster.planMismatch)⟩ := by
  by_cases hl : ∃ r event, l = .call r event
  · obtain ⟨r, event, rfl⟩ := hl
    cases hst with
    | @call u r op k ans halive hprog hperform =>
      obtain ⟨progs, rfl, htwin⟩ := h.twin
      obtain ⟨op', k', hprog'⟩ : ∃ op' k', progs r = .call op' k' := by
        have hr := htwin r
        rw [hprog] at hr
        generalize progs r = p at hr
        cases hr <;> exact ⟨_, _, rfl⟩
      rcases h.perform cfg hprog hprog' (by rintro digest rfl; exact hflag r _ _ hprog)
        (by rintro digest rfl; exact hflag' r _ _ hprog') with
        ⟨hnone, -⟩ | ⟨ans₁, u₁, ans', u', hsome, hsome', hbeside⟩ | ⟨ans₁, u₁, hsome, hevent⟩
      · rw [hperform] at hnone
        cases hnone
      · rw [hperform] at hsome
        obtain ⟨rfl, rfl⟩ := Prod.mk.inj (Option.some.inj hsome)
        exact Or.inl ⟨_, _, .call (h.dead_iff.not.2 halive) hprog' hsome', hbeside, rfl⟩
      · rw [hperform] at hsome
        obtain ⟨rfl, rfl⟩ := Prod.mk.inj (Option.some.inj hsome)
        exact Or.inr ⟨r, congrArg _ hevent⟩
  · simp only [not_exists] at hl
    have halive : ¬ (s.withThreads s').Dead := h.eq_withThreads ▸ h.dead_iff.not.2 hst.alive
    left
    refine ⟨l, t.withThreads s', ?_, h.withThreads (MockState.silent_kept hst hl), rfl⟩
    have hst' := MockState.silent_withThreads (u := s') hst hl halive
    rwa [← h.eq_withThreads] at hst'

/-- A step of a group with the flag is a step of the one without it, but for the
    comparison of the plan digests. -/
theorem step_back (h : Beside s s') {l' : MockLabel} {t' : MockState}
    (hst : MockStep cfg s' l' t')
    (hflag : ∀ r digest k, (s.ranks r).prog ≠ .call (.register digest true) k)
    (hflag' : ∀ r digest k, (s'.ranks r).prog ≠ .call (.register digest false) k) :
    (∃ l t, MockStep cfg s l t ∧ Beside t t' ∧ l'.party = l.party) ∨
      ∃ r t, l'.party = .thread r ∧ MockStep cfg s
        (.call r ⟨.awaitPreflight, .error (.runtimeError MockCluster.planMismatch)⟩) t := by
  by_cases hl : ∃ r event, l' = .call r event
  · obtain ⟨r, event, rfl⟩ := hl
    cases hst with
    | @call u' r op' k' ans' halive hprog' hperform =>
      have halive := h.dead_iff.not.1 halive
      obtain ⟨op, k, hprog⟩ : ∃ op k, (s.ranks r).prog = .call op k := by
        obtain ⟨progs, rfl, htwin⟩ := h.twin
        have hr := htwin r
        rw [show progs r = .call op' k' from hprog'] at hr
        generalize (s.ranks r).prog = p at hr
        cases hr <;> exact ⟨_, _, rfl⟩
      rcases h.perform cfg hprog hprog' (by rintro digest rfl; exact hflag r _ _ hprog)
        (by rintro digest rfl; exact hflag' r _ _ hprog') with
        ⟨-, hnone⟩ | ⟨ans, u, ans₁, u₁, hsome, hsome', hbeside⟩ | ⟨ans, u, hsome, hevent⟩
      · rw [hperform] at hnone
        cases hnone
      · rw [hperform] at hsome'
        obtain ⟨rfl, rfl⟩ := Prod.mk.inj (Option.some.inj hsome')
        exact Or.inl ⟨_, _, .call halive hprog hsome, hbeside, rfl⟩
      · have hst' := MockStep.call halive hprog hsome
        rw [hevent] at hst'
        exact Or.inr ⟨r, _, rfl, hst'⟩
  · simp only [not_exists] at hl
    have halive : ¬ (s'.withThreads s).Dead := h.withThreads_eq ▸ h.dead_iff.not.1 hst.alive
    left
    have hst' := MockState.silent_withThreads (u := s) hst hl halive
    rw [← h.withThreads_eq] at hst'
    refine ⟨l', t'.withThreads s, hst', ?_, rfl⟩
    have hbeside := h.withThreads (MockState.silent_kept hst' hl)
    have hkept := MockState.silent_kept hst hl
    have ht' : (t'.withThreads s).withThreads s' = t' := hkept
    rwa [ht'] at hbeside

end Beside

end CkksRuntime
