/-
  ckks-runtime formalization — whole runs with `skip_artifact_digest_checks`.

  * `prepared_of_succeeded`: where all ranks return artifacts, every rank has passed
    what comes before its preflight;
  * `Along.forward`, `Along.backward`: a run of one group copied by the other;
  * `skip_only_digests`: the flag skips the three digest comparisons and nothing else.
-/
import CkksRuntime.DigestTwins

namespace CkksRuntime

open Interaction Transitions

/-! ## Runs -/

/-- Every rank has returned an artifact. -/
def MockState.Succeeded (s : MockState) (worldSize : CInt) : Prop :=
  ∀ r, InWorld worldSize r → ∃ artifact, (s.ranks r).result? = some (.returned artifact)

namespace SequentialRuntime

variable {V : Type} {cfg : RunConfig V}

theorem verifyPlan_withSkip (skip : Bool) : verifyPlan (cfg.withSkip skip) =
    (PlanVerifier.verify (plan cfg) cfg.resources.operatorSpec skip).mapError Failure.verifier >>=
      fun requirements => (PlanVerifier.verifyRuntimeTarget (plan cfg) cfg.rank cfg.worldSize
        cfg.localDevices).mapError Failure.verifier >>= fun _ => pure requirements := rfl

/-- What passes without the flag passes with it. -/
theorem verifyPlan_of_noskip {requirements : PlanRequirements}
    (h : verifyPlan (cfg.withSkip false) = .ok requirements) :
    verifyPlan (cfg.withSkip true) = .ok requirements := by
  have hverify : PlanVerifier.verify (plan cfg) cfg.resources.operatorSpec false =
      .ok requirements := (verifyPlan_eq_ok h).1
  rw [verifyPlan_withSkip] at h ⊢
  rwa [PlanVerifier.verify_of_noskip hverify, ← hverify]

/-- What passes with the flag passes without it, or has the wrong digest. -/
theorem verifyPlan_noskip {requirements : PlanRequirements}
    (h : verifyPlan (cfg.withSkip true) = .ok requirements) :
    verifyPlan (cfg.withSkip false) = .ok requirements ∨
      verifyPlan (cfg.withSkip false) = .error (.verifier PlanVerifier.specMismatch) := by
  have hverify : PlanVerifier.verify (plan cfg) cfg.resources.operatorSpec true =
      .ok requirements := (verifyPlan_eq_ok h).1
  rw [verifyPlan_withSkip] at h ⊢
  rcases PlanVerifier.verify_noskip hverify with hok | herror
  · left
    rwa [hok, ← hverify]
  · right
    rw [herror]
    rfl

theorem bundleSlotsOf_withSkip (skip : Bool) (env : Environment) :
    bundleSlotsOf (cfg.withSkip skip) env = match (plan cfg).plaintextBundle with
      | none => .ok []
      | some reference => match cfg.resources.plaintextBundleDir with
        | none => .error (.runtime .bundleDirectoryRequired)
        | some directory => localContents cfg (plan cfg).initialization >>= fun contents =>
          (PlaintextBundleLoader.load env.sax env.files directory reference contents
            (cfg.resources.operatorSpec.spec.polyDegree / 2) skip).mapError Failure.bundle >>=
              fun bundle => pure bundle.slotsByContent := by
  unfold bundleSlotsOf
  rw [localContents_withSkip]
  rfl

/-- The slots, given what the loader says. -/
theorem bundleSlotsOf_of_load {skip : Bool} {env : Environment} {reference : PlaintextBundleRef}
    (hplan : (plan cfg).plaintextBundle = some reference) {directory : String}
    (hdir : cfg.resources.plaintextBundleDir = some directory) {contents : List String}
    (hcontents : localContents cfg (plan cfg).initialization = .ok contents) :
    bundleSlotsOf (cfg.withSkip skip) env =
      ((PlaintextBundleLoader.load env.sax env.files directory reference contents
        (cfg.resources.operatorSpec.spec.polyDegree / 2) skip).map
          LoadedPlaintextBundle.slotsByContent).mapError Failure.bundle := by
  rw [bundleSlotsOf_withSkip, hplan, hdir]
  dsimp only
  rw [hcontents]
  show (PlaintextBundleLoader.load _ _ _ _ _ _ _).mapError Failure.bundle >>= _ = _
  cases PlaintextBundleLoader.load env.sax env.files directory reference contents
    (cfg.resources.operatorSpec.spec.polyDegree / 2) skip <;> rfl

/-- The flag matters where a bundle is loaded only. -/
theorem bundleSlotsOf_cases (cfg : RunConfig V) (env : Environment) :
    (∀ skip skip', bundleSlotsOf (cfg.withSkip skip) env = bundleSlotsOf (cfg.withSkip skip') env) ∨
      ∃ directory reference contents, ∀ skip, bundleSlotsOf (cfg.withSkip skip) env =
        ((PlaintextBundleLoader.load env.sax env.files directory reference contents
          (cfg.resources.operatorSpec.spec.polyDegree / 2) skip).map
            LoadedPlaintextBundle.slotsByContent).mapError Failure.bundle := by
  cases hplan : (plan cfg).plaintextBundle with
  | none =>
    left
    intro skip skip'
    rw [bundleSlotsOf_withSkip, bundleSlotsOf_withSkip, hplan]
  | some reference =>
    cases hdir : cfg.resources.plaintextBundleDir with
    | none =>
      left
      intro skip skip'
      rw [bundleSlotsOf_withSkip, bundleSlotsOf_withSkip, hplan, hdir]
    | some directory =>
      cases hcontents : localContents cfg (plan cfg).initialization with
      | error failure =>
        left
        intro skip skip'
        rw [bundleSlotsOf_withSkip, bundleSlotsOf_withSkip, hplan, hdir]
        dsimp only
        rw [hcontents]
        rfl
      | ok contents =>
        exact Or.inr ⟨directory, reference, contents, fun skip =>
          bundleSlotsOf_of_load hplan hdir hcontents⟩

theorem slots_of_load {x : Except Fault LoadedPlaintextBundle} {slots : List (String × List Double)}
    (h : (x.map LoadedPlaintextBundle.slotsByContent).mapError Failure.bundle = .ok slots) :
    ∃ bundle, x = .ok bundle ∧ bundle.slotsByContent = slots := by
  cases x with
  | error fault => cases h
  | ok bundle => exact ⟨bundle, rfl, Except.ok.inj h⟩

/-- What loads without the flag loads with it. -/
theorem bundleSlotsOf_of_noskip {env : Environment} {slots : List (String × List Double)}
    (h : bundleSlotsOf (cfg.withSkip false) env = .ok slots) :
    bundleSlotsOf (cfg.withSkip true) env = .ok slots := by
  rcases bundleSlotsOf_cases cfg env with hsame | ⟨directory, reference, contents, hload⟩
  · rwa [hsame true false]
  · rw [hload] at h ⊢
    obtain ⟨bundle, hbundle, rfl⟩ := slots_of_load h
    rw [PlaintextBundleLoader.load_of_noskip hbundle]
    rfl

/-- What loads with the flag loads without it, or has the wrong digest. -/
theorem bundleSlotsOf_noskip {env : Environment} {slots : List (String × List Double)}
    (h : bundleSlotsOf (cfg.withSkip true) env = .ok slots) :
    bundleSlotsOf (cfg.withSkip false) env = .ok slots ∨
      bundleSlotsOf (cfg.withSkip false) env =
        .error (.bundle PlaintextBundleLoader.manifestMismatch) := by
  rcases bundleSlotsOf_cases cfg env with hsame | ⟨directory, reference, contents, hload⟩
  · left
    rwa [hsame false true]
  · rw [hload] at h ⊢
    obtain ⟨bundle, hbundle, rfl⟩ := slots_of_load h
    rcases PlaintextBundleLoader.load_noskip hbundle with hok | herror
    · left
      rw [hok]
      rfl
    · right
      rw [herror]
      rfl

end SequentialRuntime

/-! ### Ranks that return no artifact -/

/-- The program returns no artifact, whatever its calls answer. -/
def NeverReturns (p : Prog MockOp MockOp.Ans (RunResult VecValue × ℕ)) : Prop :=
  Prog.Meets ⟨fun _ _ => True, fun _ _ _ _ => True⟩
    (fun (_ : Unit) result => ∀ artifact, result.1 ≠ .returned artifact) () p

theorem NeverReturns.result_ne {s : MockState} {r : CInt}
    (h : NeverReturns (s.ranks r).prog) (artifact : RunArtifact VecValue) :
    (s.ranks r).result? ≠ some (.returned artifact) := by
  intro hresult
  unfold RankState.result? at hresult
  split at hresult
  next hprog =>
    obtain rfl := Option.some.inj hresult
    rw [hprog] at h
    exact Prog.meets_ret.1 h artifact rfl
  next => cases hresult

section
variable [DoubleArith] {cfg : MockClusterConfig} {s t : MockState} {l : MockLabel} {r : CInt}

theorem MockState.perform_prog {op : MockOp} {ans : op.Ans}
    (h : s.perform cfg r op = some (ans, t)) (r' : CInt) :
    (t.ranks r').prog = (s.ranks r').prog := by
  by_cases hregister : ∀ digest skip, op ≠ .register digest skip
  · exact (MockState.perform_kept hregister h).2.2 r'
  · simp only [not_forall, not_not] at hregister
    obtain ⟨digest, skip, rfl⟩ := hregister
    simp only [MockState.perform] at h
    split_ifs at h
    split at h
    all_goals
      obtain ⟨-, rfl⟩ := Prod.mk.inj (Option.some.inj h)
      rfl

/-- What a step does to the thread of a rank. -/
theorem MockStep.prog (hst : MockStep cfg s l t) (r : CInt) :
    (t.ranks r).prog = (s.ranks r).prog ∨
      ∃ op k ans, (s.ranks r).prog = .call op k ∧ (t.ranks r).prog = k ans := by
  by_cases hl : ∃ r event, l = .call r event
  · obtain ⟨r', event, rfl⟩ := hl
    cases hst with
    | @call u r' op k ans halive hprog hperform =>
      by_cases hr : r = r'
      · subst hr
        refine Or.inr ⟨op, k, ans, hprog, ?_⟩
        rw [u.setRank_self]
      · left
        rw [u.setRank_of_ne _ hr]
        exact MockState.perform_prog hperform r
  · simp only [not_exists] at hl
    left
    rw [← MockState.silent_kept hst hl]
    rfl

theorem NeverReturns.step (h : NeverReturns (s.ranks r).prog) (hst : MockStep cfg s l t) :
    NeverReturns (t.ranks r).prog := by
  rcases hst.prog r with hsame | ⟨op, k, ans, hprog, hprog'⟩
  · rwa [hsame]
  · rw [hprog']
    rw [hprog] at h
    exact (Prog.meets_call.1 h).2 ans () trivial

theorem NeverReturns.run {group : MockGroup} {ls : List MockLabel} (hrun : group.system.Run s ls t)
    (h : NeverReturns (s.ranks r).prog) : NeverReturns (t.ranks r).prog := by
  induction hrun with
  | nil => exact h
  | cons hst _ ih => exact ih (h.step hst)

end

/-- A failure before the first call. -/
theorem neverReturns_handle {cluster : MockClusterConfig} {api : MockApiConfig}
    {cfg : RunConfig VecValue} (failure : Failure) (l : ℕ) :
    NeverReturns (Prog.interp (MockVecApi.handle cluster api cfg.rank)
      (SequentialRuntime.handle cfg (.error failure, {})) l) := by
  show Prog.Meets _ _ () (Prog.interp _ (if failure.isException then _ else _) l)
  by_cases hexc : failure.isException = true
  · rw [if_pos hexc]
    refine .call trivial ?_
    rintro (fault | never) w -
    · exact .ret (by simp)
    · exact never.elim
  · rw [if_neg hexc]
    exact .ret (by simp)

/-- The run of a rank passes what comes before its preflight. -/
structure RunConfig.Prepared (cfg : RunConfig VecValue) (env : Environment)
    (requirements : PlanRequirements) (slots : List (String × List Double)) : Prop where
  opened : SequentialRuntime.openTrace env cfg.rank = .ok ()
  verified : SequentialRuntime.verifyPlan cfg = .ok requirements
  loaded : SequentialRuntime.bundleSlotsOf cfg env = .ok slots

/-- A rank that may return an artifact passes what comes before its preflight. -/
theorem prepared_of_not_neverReturns {cluster : MockClusterConfig} {api : MockApiConfig}
    {cfg : RunConfig VecValue} {env : Environment}
    (h : ¬ NeverReturns (MockVecApi.rankProgram cluster api cfg env)) :
    ∃ requirements slots, cfg.Prepared env requirements slots := by
  unfold MockVecApi.rankProgram at h
  cases hopen : SequentialRuntime.openTrace env cfg.rank with
  | error failure =>
    refine absurd ?_ h
    rw [SequentialRuntime.run, hopen]
    exact .ret (by simp)
  | ok u =>
    cases hverify : SequentialRuntime.verifyPlan cfg with
    | error failure =>
      rw [SequentialRuntime.run_of_verify_error hopen hverify] at h
      exact absurd (neverReturns_handle failure _) h
    | ok requirements =>
      cases hbundle : SequentialRuntime.bundleSlotsOf cfg env with
      | error failure =>
        rw [SequentialRuntime.run_of_bundle_error hopen hverify hbundle] at h
        exact absurd (neverReturns_handle failure _) h
      | ok slots => exact ⟨requirements, slots, hopen, hverify, hbundle⟩

namespace RunConfig.Prepared

variable {cfg : RunConfig VecValue} {env : Environment} {requirements : PlanRequirements}
  {slots : List (String × List Double)}

/-- The flag makes no run fail. -/
theorem withSkip (h : (cfg.withSkip false).Prepared env requirements slots) (skip : Bool) :
    (cfg.withSkip skip).Prepared env requirements slots := by
  cases skip with
  | false => exact h
  | true =>
    exact ⟨h.opened, SequentialRuntime.verifyPlan_of_noskip h.verified,
      SequentialRuntime.bundleSlotsOf_of_noskip h.loaded⟩

/-- Without the flag the run is prepared too, or ends with a wrong digest. -/
theorem noskip (h : (cfg.withSkip true).Prepared env requirements slots) :
    (cfg.withSkip false).Prepared env requirements slots ∨
      ∃ failure : Failure, (failure = .verifier PlanVerifier.specMismatch ∨
        failure = .bundle PlaintextBundleLoader.manifestMismatch) ∧
        (SequentialRuntime.run (cfg.withSkip false) env :
            Prog (ApiOp VecValue CommHandle) ApiOp.Ans _) =
          SequentialRuntime.handle (cfg.withSkip false) (.error failure, {}) := by
  have hopen : SequentialRuntime.openTrace env (cfg.withSkip false).rank = .ok () := h.opened
  rcases SequentialRuntime.verifyPlan_noskip h.verified with hverify | hverify
  · rcases SequentialRuntime.bundleSlotsOf_noskip h.loaded with hbundle | hbundle
    · exact Or.inl ⟨hopen, hverify, hbundle⟩
    · exact Or.inr ⟨_, Or.inr rfl,
        SequentialRuntime.run_of_bundle_error hopen hverify hbundle⟩
  · exact Or.inr ⟨_, Or.inl rfl, SequentialRuntime.run_of_verify_error hopen hverify⟩

end RunConfig.Prepared

/-! ### Groups -/

/-- Prepared runs have an open trace. -/
theorem MockGroup.openTrace_of_prepared (group : MockGroup) {skip : Bool}
    (h : ∀ r, InWorld group.cluster.worldSize r → ∃ requirements slots,
      ((group.withSkip skip).run r).Prepared ((group.withSkip skip).env r) requirements slots) :
    ∀ r, InWorld group.cluster.worldSize r →
      SequentialRuntime.openTrace (group.env r) r = .ok () := by
  intro r hr
  obtain ⟨requirements, slots, hprepared⟩ := h r hr
  have hopened := hprepared.opened
  rwa [show ((group.withSkip skip).run r).rank = r from group.rank_eq r hr] at hopened

theorem MockLabel.parties_eq {ls ls' : List MockLabel}
    (h : List.Forall₂ (fun l l' : MockLabel => l.party = l'.party) ls ls') :
    ls'.map MockLabel.party = ls.map MockLabel.party := by
  induction h with
  | nil => rfl
  | cons hl _ ih => rw [List.map_cons, List.map_cons, hl, ih]

section
variable {group : MockGroup} {s t : MockState} {W : CInt → Progress} {r : CInt}

/-- A rank registers the flag it was given. -/
theorem MockInv.flag_eq (h : MockInv group s W) {digest : String} {skip : Bool} {k}
    (hprog : (s.ranks r).prog = .call (.register digest skip) k) : skip = group.flag r := by
  obtain ⟨hmeets, -⟩ := h.rank r (h.inWorld_of_call hprog)
  rw [hprog, Prog.meets_call] at hmeets
  exact hmeets.1.2

/-- A rank that was refused has no artifact. -/
theorem MockInv.no_artifact (h : MockInv group s W) (hr : InWorld group.cluster.worldSize r)
    (hrefused : (W r).refused = true) (artifact : RunArtifact VecValue) :
    (s.ranks r).result? ≠ some (.returned artifact) := by
  intro hresult
  obtain ⟨hmeets, -⟩ := h.rank r hr
  unfold RankState.result? at hresult
  split at hresult
  next hprog =>
    obtain rfl := Option.some.inj hresult
    rw [hprog, Prog.meets_ret] at hmeets
    have hnot := hmeets.2.1
    rw [hrefused] at hnot
    cases hnot
  next => cases hresult

namespace Beside

variable {s' : MockState}

/-- The two groups at the start. -/
theorem initial (h : ∀ r, InWorld group.cluster.worldSize r → ∃ requirements slots,
    ((group.run r).withSkip false).Prepared (group.env r) requirements slots) :
    Beside (group.withSkip false).initial (group.withSkip true).initial := by
  refine ⟨by simp [MockGroup.initial], rfl,
    fun r => ((group.withSkip true).initial.ranks r).prog, rfl, fun r => ?_⟩
  by_cases hr : InWorld group.cluster.worldSize r
  · obtain ⟨requirements, slots, hprepared⟩ := h r hr
    have htwin := @MockVecApi.rankProgram_twin group.cluster (group.api r) (group.run r)
      (group.env r) hprepared.opened requirements slots
      (fun skip => (hprepared.withSkip skip).verified)
      fun skip => (hprepared.withSkip skip).loaded
    dsimp only
    rw [show ((group.withSkip false).initial.ranks r).prog = _ from if_pos hr,
      show ((group.withSkip true).initial.ranks r).prog = _ from if_pos hr]
    exact htwin
  · dsimp only
    rw [show ((group.withSkip false).initial.ranks r).prog = _ from if_neg hr,
      show ((group.withSkip true).initial.ranks r).prog = _ from if_neg hr]
    exact .refl _

/-- Where every thread has ended the two groups have the same ranks. -/
theorem ranks_eq (h : Beside s s') (hended : ∀ r, ∃ a, (s.ranks r).prog = .ret a) :
    s'.ranks = s.ranks := by
  obtain ⟨progs, rfl, htwin⟩ := h.twin
  funext r
  obtain ⟨a, ha⟩ := hended r
  have hr := htwin r
  rw [ha] at hr
  show { s.ranks r with prog := progs r } = s.ranks r
  cases hprogs : progs r with
  | ret b =>
    rw [hprogs] at hr
    cases hr
    rw [← ha]
  | call op k =>
    rw [hprogs] at hr
    cases hr

theorem succeeded_iff (h : Beside s s') (worldSize : CInt) :
    s'.Succeeded worldSize ↔ s.Succeeded worldSize := by
  refine forall₂_congr fun r _ => exists_congr fun artifact => ?_
  rw [h.result_eq]

end Beside

variable [DoubleArith]

/-- The refusal of a preflight. -/
theorem MockInv.refused (h : MockInv group s W) {fault : Fault}
    (hst : MockStep group.cluster s (.call r ⟨.awaitPreflight, .error fault⟩) t) :
    InWorld group.cluster.worldSize r ∧ ∃ W', MockInv group t W' ∧ (W' r).refused = true := by
  cases hst with
  | call halive hprog hperform =>
    obtain ⟨w', rfl, hinv⟩ := h.call hprog hperform
    exact ⟨h.inWorld_of_call hprog, _, hinv, by rw [Function.update_self]⟩

theorem MockInv.run_refused {ls : List MockLabel} (hrun : group.system.Run s ls t)
    (h : MockInv group s W) (hrefused : (W r).refused = true) :
    ∃ W', MockInv group t W' ∧ (W' r).refused = true := by
  induction hrun generalizing W with
  | nil => exact ⟨W, h, hrefused⟩
  | cons hst _ ih =>
    obtain ⟨W', h', hkeep⟩ := h.step hst
    exact ih h' (hkeep r hrefused)

/-- In a group that ends with artifacts every run was prepared. -/
theorem prepared_of_succeeded {ls : List MockLabel} (hrun : group.system.Run group.initial ls t)
    (h : t.Succeeded group.cluster.worldSize) (hr : InWorld group.cluster.worldSize r) :
    ∃ requirements slots, (group.run r).Prepared (group.env r) requirements slots := by
  refine @prepared_of_not_neverReturns group.cluster (group.api r) _ _ fun hnever => ?_
  have hinit : NeverReturns (group.initial.ranks r).prog := by
    rwa [show (group.initial.ranks r).prog = _ from if_pos hr]
  obtain ⟨artifact, hresult⟩ := h r hr
  exact (hinit.run hrun).result_ne artifact hresult

/-- What a group without the flag may report where the one with it succeeds: a rank
    ends with a wrong digest of an artifact, or finds other digests of the plan. -/
inductive MockGroup.DigestError (group : MockGroup) (schedule : List Party) : Prop
  | artifact (r : CInt) (failure : Failure) : InWorld group.cluster.worldSize r →
    failure = .verifier PlanVerifier.specMismatch ∨
      failure = .bundle PlaintextBundleLoader.manifestMismatch →
    (SequentialRuntime.run ((group.run r).withSkip false) (group.env r) :
        Prog (ApiOp VecValue CommHandle) ApiOp.Ans _) =
      SequentialRuntime.handle ((group.run r).withSkip false) (.error failure, {}) →
    group.DigestError schedule
  | plans (r : CInt) (ls : List MockLabel) (s t : MockState) :
    (group.withSkip false).system.Run (group.withSkip false).initial ls s →
    MockStep group.cluster s
      (.call r ⟨.awaitPreflight, .error (.runtimeError MockCluster.planMismatch)⟩) t →
    ls.map MockLabel.party ++ [.thread r] <+: schedule →
    group.DigestError schedule

/-- Two groups beside each other, each in a state that it reaches. -/
structure Along (group : MockGroup) (s s' : MockState) : Prop where
  beside : Beside s s'
  left : (group.withSkip false).system.Reachable s
  right : (group.withSkip true).system.Reachable s'

namespace Along

variable {s' t' : MockState} {l l' : MockLabel}

/-- Which flags are registered. -/
theorem flags (h : Along group s s')
    (hopen : ∀ r, InWorld group.cluster.worldSize r →
      SequentialRuntime.openTrace (group.env r) r = .ok ()) :
    (∀ r digest k, (s.ranks r).prog ≠ .call (.register digest true) k) ∧
      ∀ r digest k, (s'.ranks r).prog ≠ .call (.register digest false) k := by
  obtain ⟨W, hinv⟩ := @MockInv.of_reachable (group.withSkip false) s _ hopen h.left
  obtain ⟨W', hinv'⟩ := @MockInv.of_reachable (group.withSkip true) s' _ hopen h.right
  constructor
  · intro r digest k hprog
    cases hinv.flag_eq hprog
  · intro r digest k hprog
    cases hinv'.flag_eq hprog

/-- **A run without the flag that ends with artifacts** is a run with it. -/
theorem forward (hopen : ∀ r, InWorld group.cluster.worldSize r →
      SequentialRuntime.openTrace (group.env r) r = .ok ()) (h : Along group s s')
    {ls : List MockLabel} (hrun : (group.withSkip false).system.Run s ls t)
    (hsucceeded : t.Succeeded group.cluster.worldSize) :
    ∃ ls' t', (group.withSkip true).system.Run s' ls' t' ∧ Along group t t' ∧
      ls'.map MockLabel.party = ls.map MockLabel.party := by
  have hsim := hrun.simulate (group.withSkip true).system (R := Along group)
    (Q := fun l l' => l.party = l'.party)
    (D := fun _ l _ _ => ∃ r,
      l = .call r ⟨.awaitPreflight, .error (.runtimeError MockCluster.planMismatch)⟩)
    (fun s s' l t h hst => ?_) h
  · rcases hsim with ⟨ls', t', hrun', h', hparties⟩ |
      ⟨ls₁, l, ls₂, u, v, ls', u', rfl, hst, hrest, hu, -, -, r, rfl⟩
    · exact ⟨ls', t', hrun', h', MockLabel.parties_eq hparties⟩
    · obtain ⟨W, hinv⟩ := @MockInv.of_reachable (group.withSkip false) u _ hopen hu.left
      obtain ⟨hr, W', hinv', hrefused⟩ := hinv.refused hst
      obtain ⟨W'', hinv'', hrefused'⟩ := hinv'.run_refused hrest hrefused
      obtain ⟨artifact, hresult⟩ := hsucceeded r hr
      exact absurd hresult (hinv''.no_artifact hr hrefused' artifact)
  · obtain ⟨hflag, hflag'⟩ := h.flags hopen
    refine (h.beside.step hst hflag hflag').imp_left ?_
    rintro ⟨l', t', hst', hbeside, hparty⟩
    exact ⟨l', t', hst', ⟨hbeside, .step h.left hst, .step h.right hst'⟩, hparty⟩

/-- **A run with the flag** is a run without it, or one that finds other digests of the
    plan. -/
theorem backward (hopen : ∀ r, InWorld group.cluster.worldSize r →
      SequentialRuntime.openTrace (group.env r) r = .ok ())
    (h : Along group (group.withSkip false).initial s') {ls : List MockLabel}
    (hrun : (group.withSkip true).system.Run s' ls t') :
    (∃ ls' t, (group.withSkip false).system.Run (group.withSkip false).initial ls' t ∧
      Along group t t' ∧ ls'.map MockLabel.party = ls.map MockLabel.party) ∨
      group.DigestError (ls.map MockLabel.party) := by
  have hsim := hrun.simulate (group.withSkip false).system
    (R := fun s' s => Along group s s') (Q := fun l l' => l.party = l'.party)
    (D := fun _ l' _ s => ∃ r t, l'.party = .thread r ∧ MockStep group.cluster s
      (.call r ⟨.awaitPreflight, .error (.runtimeError MockCluster.planMismatch)⟩) t)
    (fun s' s l' t' h hst => ?_) h
  · rcases hsim with ⟨ls', t, hrun', h', hparties⟩ |
      ⟨ls₁, l, ls₂, u', v', ls', u, rfl, -, -, -, hrun', hparties, r, t, hparty, hst⟩
    · exact Or.inl ⟨ls', t, hrun', h', MockLabel.parties_eq hparties⟩
    · refine Or.inr (.plans r ls' u t hrun' hst ?_)
      rw [MockLabel.parties_eq hparties, List.map_append, List.map_cons, hparty]
      exact ⟨ls₂.map MockLabel.party, by simp⟩
  · obtain ⟨hflag, hflag'⟩ := h.flags hopen
    refine (h.beside.step_back hst hflag hflag').imp_left ?_
    rintro ⟨l, t, hst', hbeside, hparty⟩
    exact ⟨l, t, hst', ⟨hbeside, .step h.left hst', .step h.right hst⟩, hparty⟩

/-- At the end the ranks of the two groups are the same. -/
theorem ranks_eq (h : Along group s s')
    (hopen : ∀ r, InWorld group.cluster.worldSize r →
      SequentialRuntime.openTrace (group.env r) r = .ok ())
    (hsucceeded : s.Succeeded group.cluster.worldSize) : s'.ranks = s.ranks := by
  refine h.beside.ranks_eq fun r => ?_
  by_cases hr : InWorld group.cluster.worldSize r
  · obtain ⟨artifact, hresult⟩ := hsucceeded r hr
    unfold RankState.result? at hresult
    split at hresult
    next hprog => exact ⟨_, hprog⟩
    next => cases hresult
  · obtain ⟨W, hinv⟩ := @MockInv.of_reachable (group.withSkip false) s _ hopen h.left
    rw [hinv.idle r hr]
    exact ⟨_, if_neg hr⟩

end Along

/-- **`skip_artifact_digest_checks` skips the three digest comparisons and nothing
    else**: in the verifier, in the bundle loader and in the preflight; and of a group,
    every run without it that ends with artifacts is one with it, with the same
    artifacts, and conversely, unless a digest differs. -/
theorem skip_only_digests :
    (∀ plan spec, PlanVerifier.verify plan spec true =
      PlanVerifier.verify (plan.withSpecDigest spec.sourceSha256) spec false) ∧
    (∀ sax files directory reference contents slotCapacity,
      PlaintextBundleLoader.load sax files directory reference contents slotCapacity true =
        PlaintextBundleLoader.actualManifestDigest files directory >>= fun digest =>
          PlaintextBundleLoader.load sax files directory
            { reference with manifestSha256 := digest } contents slotCapacity false) ∧
    (∀ cfg digest common, (MockPreflight.system cfg digest fun _ => true).Bisimulation
      (MockPreflight.system cfg (fun _ => common) fun _ => false)
      fun s s' => (MockPreflight.system cfg digest fun _ => true).Reachable s ∧
        s' = s.agreeing common) ∧
    ∀ group : MockGroup,
      (∀ ls t, (group.withSkip false).system.Run (group.withSkip false).initial ls t →
        t.Succeeded group.cluster.worldSize →
        ∃ ls' t', (group.withSkip true).system.Run (group.withSkip true).initial ls' t' ∧
          ls'.map MockLabel.party = ls.map MockLabel.party ∧ t'.ranks = t.ranks) ∧
      (∀ ls t, (group.withSkip true).system.Run (group.withSkip true).initial ls t →
        t.Succeeded group.cluster.worldSize →
        (∃ ls' t', (group.withSkip false).system.Run (group.withSkip false).initial ls' t' ∧
          ls'.map MockLabel.party = ls.map MockLabel.party ∧ t'.ranks = t.ranks) ∨
        group.DigestError (ls.map MockLabel.party)) := by
  refine ⟨PlanVerifier.verify_skip, PlaintextBundleLoader.load_skip,
    MockPreflight.preflight_skip, fun group => ⟨fun ls t hrun hsucceeded => ?_,
      fun ls t hrun hsucceeded => ?_⟩⟩
  · have hprepared := fun r (hr : InWorld group.cluster.worldSize r) =>
      prepared_of_succeeded hrun hsucceeded hr
    have hopen := group.openTrace_of_prepared hprepared
    have hstart : Along group (group.withSkip false).initial (group.withSkip true).initial :=
      ⟨.initial hprepared, .init rfl, .init rfl⟩
    obtain ⟨ls', t', hrun', h, hparties⟩ := hstart.forward hopen hrun hsucceeded
    exact ⟨ls', t', hrun', hparties, h.ranks_eq hopen hsucceeded⟩
  · have hprepared := fun r (hr : InWorld group.cluster.worldSize r) =>
      prepared_of_succeeded hrun hsucceeded hr
    have hopen := group.openTrace_of_prepared hprepared
    by_cases hall : ∀ r, InWorld group.cluster.worldSize r → ∃ requirements slots,
        ((group.run r).withSkip false).Prepared (group.env r) requirements slots
    · have hstart : Along group (group.withSkip false).initial (group.withSkip true).initial :=
        ⟨.initial hall, .init rfl, .init rfl⟩
      refine (hstart.backward hopen hrun).imp_left ?_
      rintro ⟨ls', t', hrun', h, hparties⟩
      have hsucceeded' := (h.beside.succeeded_iff _).1 hsucceeded
      exact ⟨ls', t', hrun', hparties, (h.ranks_eq hopen hsucceeded').symm⟩
    · simp only [not_forall] at hall
      obtain ⟨r, hr, hnot⟩ := hall
      obtain ⟨requirements, slots, h⟩ := hprepared r hr
      rcases h.noskip with h' | ⟨failure, hfailure, hrun'⟩
      · exact absurd ⟨requirements, slots, h'⟩ hnot
      · exact Or.inr (.artifact r failure hr hfailure hrun')

end

theorem verifyPlan_echoGroup :
    SequentialRuntime.verifyPlan ((echoGroup.withSkip false).run 0) = .ok ⟨[], []⟩ := by
  have hverify : PlanVerifier.verify echoPlan makeTestOperatorSpec false = .ok ⟨[], []⟩ := by decide
  show (PlanVerifier.verify echoPlan makeTestOperatorSpec false).mapError Failure.verifier >>= _ = _
  rw [hverify]
  rfl


/-- The calls of the rank. -/
theorem echo_calls : ∃ k, ((echoGroup.withSkip false).initial.ranks 0).prog =
      .call (.register testSpecSha256 false) k ∧
    ∃ k', k (.ok ()) = .call .awaitPreflight k' ∧
      ∃ k'', k' (.ok ()) = .call (.materialize (.ready (fanoutPayload .ciphertext 2))) k'' ∧
        ∃ artifact n, k'' (.ok (fanoutPayload .ciphertext 2)) = .ret (.returned artifact, n) := by
  have hprog : ((echoGroup.withSkip false).initial.ranks 0).prog = MockVecApi.rankProgram
    echoGroup.cluster (echoGroup.api 0) ((echoGroup.withSkip false).run 0)
    ((echoGroup.withSkip false).env 0) := rfl
  rw [hprog, MockVecApi.rankProgram, SequentialRuntime.run_eq_scriptRun _ verifyPlan_echoGroup]
  exact ⟨_, rfl, _, rfl, _, rfl, _, _, rfl⟩

/-- The rank has still to do `p`. -/
structure EchoAt (s : MockState) (p : Prog MockOp MockOp.Ans (RunResult VecValue × ℕ)) : Prop where
  crashed : s.crashed = false
  prog : (s.ranks 0).prog = p
  other : ∀ r ≠ 0, (s.ranks r).prog = .ret (.threw .access, 0)

/-- A call of the rank. -/
theorem EchoAt.call [DoubleArith] {s s' : MockState} {p} {op : MockOp} {k} (h : EchoAt s p)
    (hp : p = .call op k) (ans : op.Ans) (hcrashed : s'.crashed = false)
    (hperform : s.perform echoGroup.cluster 0 op = some (ans, s')) :
    MockStep echoGroup.cluster s (.call 0 ⟨op, ans⟩)
        (s'.setRank 0 { s'.ranks 0 with prog := k ans }) ∧
      EchoAt (s'.setRank 0 { s'.ranks 0 with prog := k ans }) (k ans) := by
  have hprog := h.prog.trans hp
  refine ⟨.call ?_ hprog hperform, hcrashed, by rw [s'.setRank_self], fun r hr => ?_⟩
  · rintro (hdead | ⟨r, hr⟩)
    · rw [h.crashed] at hdead
      cases hdead
    · unfold RankState.result? at hr
      by_cases h0 : r = 0
      · rw [h0, hprog] at hr
        cases hr
      · rw [h.other r h0] at hr
        cases hr
  · rw [s'.setRank_of_ne _ hr]
    exact (MockState.perform_prog hperform r).trans (h.other r hr)

/-- The group returns its artifact. -/
theorem echo_succeeds [DoubleArith] : ∃ ls t,
    (echoGroup.withSkip false).system.Run (echoGroup.withSkip false).initial ls t ∧
      t.Succeeded 1 := by
  obtain ⟨k, hk, k', hk', k'', hk'', artifact, n, hret⟩ := echo_calls
  have h₀ : EchoAt (echoGroup.withSkip false).initial _ :=
    ⟨rfl, hk, fun r hr => if_neg fun hw => hr (eq_zero_of_inWorld_one hw)⟩
  obtain ⟨hst₁, h₁⟩ := h₀.call rfl (.ok ()) rfl rfl
  obtain ⟨hst₂, h₂⟩ := h₁.call hk' (.ok ()) rfl rfl
  obtain ⟨hst₃, h₃⟩ := h₂.call hk'' (.ok (fanoutPayload .ciphertext 2)) rfl rfl
  refine ⟨_, _, .cons hst₁ (.cons hst₂ (.cons hst₃ .nil)), fun r hr => ?_⟩
  obtain rfl := eq_zero_of_inWorld_one hr
  exact ⟨artifact, by rw [RankState.result?, h₃.prog, hret]⟩

/-- With the flag the group returns its artifact too. -/
theorem skip_only_digests_echoGroup : ∃ ls t,
    @System.Run _ _ (@MockGroup.system zeroArith (echoGroup.withSkip true))
      (echoGroup.withSkip true).initial ls t ∧ t.Succeeded 1 := by
  obtain ⟨ls, t, hrun, hsucceeded⟩ := @echo_succeeds zeroArith
  obtain ⟨ls', t', hrun', -, hranks⟩ :=
    ((@skip_only_digests zeroArith).2.2.2 echoGroup).1 ls t hrun hsucceeded
  exact ⟨ls', t', hrun', fun r hr => hranks ▸ hsucceeded r hr⟩

end CkksRuntime
