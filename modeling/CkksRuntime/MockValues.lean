/-
  ckks-runtime formalization — what the calls of a mock rank bring, when the
  evaluation of its plan succeeds.

  `Ledger` is what a rank has been promised: the payloads of its pending values.
  `valueProtocol` is the protocol of its calls: it computes on values that stand for
  payloads of the evaluation, sends the payload that each transfer carries, and
  never aborts; in return nothing throws, and a message brings what its transfer
  carries.

  `rankProgram_stands`: without injected faults every rank keeps to it, and returns
  values that stand for the payloads of the evaluation.
-/
import CkksRuntime.MockProgress
import CkksRuntime.Promises

namespace CkksRuntime

open Interaction PlanVerifier

/-! ## The protocol -/

/-- No fault is injected into the cluster. -/
structure MockClusterConfig.Faultless (cfg : MockClusterConfig) : Prop where
  publish : cfg.failPublish = []
  wait : cfg.failWait = []
  outputCount : cfg.corruptOutputCount = []
  outputType : cfg.corruptOutputType = []
  outputMetadata : cfg.corruptOutputMetadata = []
  capabilities : cfg.missingCapabilities = []
  keys : cfg.missingKeys = []

/-- No fault is injected into the Api. -/
structure MockApiConfig.Faultless (cfg : MockApiConfig) : Prop where
  compute : cfg.failCompute = none
  communicate : cfg.failCommunicate = []

/-- What a rank has been promised, and the sends that it has started. -/
structure Ledger where
  promises : List VecPayload := []
  spawned : List (TransferId × ℕ) := []

instance : Preorder Ledger where
  le w w' := w.promises <+: w'.promises
  le_refl w := List.prefix_rfl
  le_trans _ _ _ h h' := List.IsPrefix.trans h h'

section
variable [DoubleArith]

/-- The executor returns `q` on the payloads of the values. -/
def Ledger.Computes (w : Ledger) (op : ComputeOp) (values : List VecValue) (q : VecPayload) :
    Prop :=
  ∃ payloads, List.Forall₂ (VecValue.Promises w.promises) values payloads ∧
    VecExecutor.computeReady op payloads = .ok q

theorem Ledger.Computes.unique {w : Ledger} {op : ComputeOp} {values : List VecValue}
    {q q' : VecPayload} (h : w.Computes op values q) (h' : w.Computes op values q') : q = q' := by
  obtain ⟨payloads, hvalues, hq⟩ := h
  obtain ⟨payloads', hvalues', hq'⟩ := h'
  obtain rfl := VecValue.promises_unique hvalues hvalues'
  exact Except.ok.inj (hq.symm.trans hq')

theorem Ledger.Computes.mono {w w' : Ledger} {op : ComputeOp} {values : List VecValue}
    {q : VecPayload} (h : w.Computes op values q) (hle : w ≤ w') : w'.Computes op values q := by
  obtain ⟨payloads, hvalues, hq⟩ := h
  exact ⟨payloads, hvalues.imp fun v p hv => hv.mono hle, hq⟩

/-- What a rank calls while it evaluates the plan, and what it may rely on. -/
def valueProtocol (plan : RuntimePlan) (f : Payloads) (digest : String) (flag : Bool)
    (rank : CInt) : Protocol MockOp MockOp.Ans Ledger where
  pre w
    | .register planSourceSha256 skip => planSourceSha256 = digest ∧ skip = flag
    | .awaitPreflight | .join _ | .receive .. => True
    | .computeNow op inputs => ∃ q, w.Computes op inputs q
    | .submit op inputs metadata => ∃ q, w.Computes op inputs q ∧ q.kind = .ciphertext ∧
      q.metadata = metadata
    | .spawn id destinations source =>
      (∃ a ∈ plan.actions, a.id = id ∧ a.destinations.length = destinations ∧
        a.sourcedBy rank = true) ∧ id ∉ w.spawned.map (·.1) ∧
      ∃ p, plan.Carries f id p ∧ source.Promises w.promises p
    | .materialize value => ∃ p, value.Promises w.promises p
    | .abortAll _ => False
  post w op ans w' :=
    match op, ans with
    | .register .., ans | .awaitPreflight, ans | .join _, ans => ans = .ok () ∧ w' = w
    | .computeNow op inputs, ans => w' = w ∧ ∃ q, w.Computes op inputs q ∧ ans = .ok q
    | .submit op inputs metadata, ans => ∃ q, w.Computes op inputs q ∧
      ans = .ok (.pending .ciphertext metadata w.promises.length) ∧
      w' = { w with promises := w.promises ++ [q] }
    | .spawn id destinations _, ans => (∃ k, ans = .ok k) ∧
      w' = { w with spawned := w.spawned ++ [(id, destinations)] }
    | .receive id _, ans => w' = w ∧ ∃ p, plan.Carries f id p ∧ ans = .ok p
    | .materialize _, ans => w' = w ∧ ∃ p, ans = .ok p
    | .abortAll _, _ => False

end

/-- The end of the thread of a rank: its artifact holds its values, which stand for
    the payloads of the evaluation. -/
def Ledger.Ended (cfg : RunConfig VecValue) (f : Payloads) (w : Ledger) :
    RunResult VecValue → Prop
  | .returned artifact =>
    (∀ id place v, artifact.values id = some (place, v) → f.Stands w.promises id v) ∧
      ∀ id ∈ (SequentialRuntime.plan cfg).definitions,
        (SequentialRuntime.plan cfg).IsLocal cfg.rank id →
        SequentialRuntime.retainAllValues cfg = true ∨
          id ∈ (SequentialRuntime.plan cfg).finalOutputs → (artifact.values id).isSome
  | _ => False

namespace MockVecApi

variable {cluster : MockClusterConfig} {api : MockApiConfig} {cfg : RunConfig VecValue}
  {slots : List (String × List Double)}

/-- Nothing is corrupted. -/
theorem corrupt_faultless (h : cluster.Faultless) (id : TransferId) (outputs : List VecPayload) :
    corrupt cluster id outputs = .ok outputs := by
  simp [corrupt, h.outputCount, h.outputType, h.outputMetadata, pure, Except.pure]

/-- Nothing is missing. -/
theorem checkRequirements_faultless (h : cluster.Faultless) (requirements : PlanRequirements) :
    checkRequirements cluster requirements = .ok () := by
  simp only [checkRequirements, bind_eq_ok, forM_eq_ok, throwIf_eq_ok, h.capabilities, h.keys]
  exact ⟨(), fun _ _ => by simp, fun _ _ => by simp⟩

/-! ## The calls of a rank -/

variable [DoubleArith]

section
variable {plan : RuntimePlan} {f : Payloads} {digest : String} {flag : Bool} {rank : CInt}
  {w : Ledger} {E : Ledger → Fault → Prop}

theorem serves_register {G : Ledger → Unit → Prop} (hG : G w ()) :
    Serves (valueProtocol plan f digest flag rank) w (.register digest flag) G E := by
  refine ⟨⟨rfl, rfl⟩, ?_⟩
  rintro _ w' ⟨rfl, rfl⟩
  exact hG

theorem serves_awaitPreflight {G : Ledger → Unit → Prop} (hG : G w ()) :
    Serves (valueProtocol plan f digest flag rank) w .awaitPreflight G E := by
  refine ⟨trivial, ?_⟩
  rintro _ w' ⟨rfl, rfl⟩
  exact hG

theorem serves_joinAll {k : ℕ} {G : Ledger → Unit → Prop} (hG : G w ()) :
    Serves (valueProtocol plan f digest flag rank) w (.join k) G E := by
  refine ⟨trivial, ?_⟩
  rintro _ w' ⟨rfl, rfl⟩
  exact hG

theorem serves_computes {op : ComputeOp} {inputs : List VecValue} {q : VecPayload}
    {G : Ledger → VecPayload → Prop} (h : w.Computes op inputs q) (hG : G w q) :
    Serves (valueProtocol plan f digest flag rank) w (.computeNow op inputs) G E := by
  refine ⟨⟨q, h⟩, ?_⟩
  rintro _ w' ⟨rfl, q', hq', rfl⟩
  obtain rfl := h.unique hq'
  exact hG

theorem serves_promise {op : ComputeOp} {inputs : List VecValue} {q : VecPayload}
    {G : Ledger → VecValue → Prop} (h : w.Computes op inputs q) (hkind : q.kind = .ciphertext)
    (hG : G { w with promises := w.promises ++ [q] }
      (.pending .ciphertext q.metadata w.promises.length)) :
    Serves (valueProtocol plan f digest flag rank) w (.submit op inputs q.metadata) G E := by
  refine ⟨⟨q, h, hkind, rfl⟩, ?_⟩
  rintro _ w' ⟨q', hq', rfl, rfl⟩
  obtain rfl := h.unique hq'
  exact hG

theorem serves_send {a : CommAction} {source : VecValue} {p : VecPayload}
    {G : Ledger → ℕ → Prop} (ha : a ∈ plan.actions) (hrank : a.sourcedBy rank = true)
    (hnew : a.id ∉ w.spawned.map (·.1)) (hcarries : plan.Carries f a.id p)
    (hsource : source.Promises w.promises p)
    (hG : ∀ k, G { w with spawned := w.spawned ++ [(a.id, a.destinations.length)] } k) :
    Serves (valueProtocol plan f digest flag rank) w
      (.spawn a.id a.destinations.length source) G E := by
  refine ⟨⟨⟨a, ha, rfl, rfl, hrank⟩, hnew, p, hcarries, hsource⟩, ?_⟩
  rintro _ w' ⟨⟨k, rfl⟩, rfl⟩
  exact hG k

theorem serves_carried {id : TransferId} {slot : ℕ} {G : Ledger → VecPayload → Prop}
    (hG : ∀ p, plan.Carries f id p → G w p) :
    Serves (valueProtocol plan f digest flag rank) w (.receive id slot) G E := by
  refine ⟨trivial, ?_⟩
  rintro _ w' ⟨rfl, p, hp, rfl⟩
  exact hG p hp

theorem serves_promised {v : VecValue} {p : VecPayload} {G : Ledger → VecPayload → Prop}
    (h : v.Promises w.promises p) (hG : ∀ q, G w q) :
    Serves (valueProtocol plan f digest flag rank) w (.materialize v) G E := by
  refine ⟨⟨p, h⟩, ?_⟩
  rintro _ w' ⟨rfl, q, rfl⟩
  exact hG q

end

open SequentialRuntime (plan)

/-- The mock backend: what it keeps of the values of a rank. -/
def valueBackend {spec : OperatorSpec} {env : EvalContext} {f : Payloads}
    (hacc : Accepted (plan cfg) spec) (hf : Solution (plan cfg) env f)
    (hout : Outcome (plan cfg) env f) (hgiven : cfg.Given slots env)
    (hcluster : cluster.Faultless) (hapi : api.Faultless) (digest : String) (flag : Bool) :
    Backend cfg slots env.polyDegree (valueProtocol (plan cfg) f digest flag cfg.rank)
      (handle cluster api cfg.rank) where
  At w acc := w.spawned = sendsOf cfg.rank acc.posts
  Val w id v := f.Stands w.promises id v
  Group _ _ a handle := handle.id = a.id ∧
    handle.localSlots = localSlots cfg.rank a.destinations ∧ handle.waited = false
  Err _ _ := False
  val_mono hle hv := hv.mono hle
  group_mono _ hg := hg
  validate_eq v d := rfl
  encode_eq d values := rfl
  bind {w acc context id} hnext hat := by
    have hlocal : id ∈ (plan cfg).localExternals cfg.rank := hnext.sourced
    rw [hgiven.inputs id hlocal]
    refine ⟨hat.trans (Script.sendsOf_posts_snoc _ rfl).symm, hout.bound hlocal fun hnone => ?_⟩
    rw [hf.input id (List.mem_of_mem_filter hlocal)] at hnone
    cases hnone
  checkInputs {w acc context expected} hnext hat := by
    have hexpected : expected = ((plan cfg).localExternals cfg.rank).length := hnext.sourced
    rw [if_neg (by rw [hexpected, hgiven.count]; exact not_not.2 rfl)]
    exact hat.trans (Script.sendsOf_posts_snoc _ rfl).symm
  encode {w acc context op d values} hnext hat hd hvalues := by
    obtain ⟨⟨i, hi, hbody⟩, -⟩ := hnext.sourced
    have hid : op.output ∈ (plan cfg).definitions :=
      RuntimePlan.mem_definitions_of_instruction hi (by rw [hbody]; exact List.mem_singleton.2 rfl)
    have hencoded := hout.encoded w.promises hgiven.contents hi hbody hd hvalues
    split
    next v hv =>
      rw [hv] at hencoded
      exact ⟨hat.trans (Script.sendsOf_posts_snoc _ rfl).symm, hencoded.checked hacc hout hid⟩
    next fault hv =>
      rw [hv] at hencoded
      obtain ⟨p, hp⟩ := hf.isSome hid
      exact Option.some_ne_none p (hp.symm.trans hencoded)
  compute {w acc context op inputs} hnext hat hvalues := by
    obtain ⟨⟨i, hi, hbody⟩, -⟩ := hnext.sourced
    have hid : op.output ∈ (plan cfg).definitions :=
      RuntimePlan.mem_definitions_of_instruction hi (by rw [hbody]; exact List.mem_singleton.2 rfl)
    obtain ⟨q, hstands⟩ := hf.isSome hid
    obtain ⟨payloads, hpromises, hresult⟩ := hout.computed hi hbody hvalues
    have hq : VecExecutor.computeReady op payloads = .ok q := by
      rw [hstands] at hresult
      cases hready : VecExecutor.computeReady op payloads with
      | error fault =>
        rw [hready] at hresult
        cases hresult
      | ok q' =>
        rw [hready] at hresult
        exact congrArg Except.ok (Option.some.inj hresult).symm
    obtain ⟨hmetadata, hkind⟩ := VecExecutor.computeMetadata_of_computeReady hq
      (hpromises.imp fun v p hv => hv.1)
    have hcomputes : w.Computes op inputs q := ⟨payloads, hpromises, hq⟩
    have hsnoc : w.spawned = sendsOf cfg.rank (Script.posts (acc ++ [⟨context, .compute op⟩])) :=
      hat.trans (Script.sendsOf_posts_snoc _ rfl).symm
    refine (compute_meets (E := fun _ _ => False) (G := fun w' v => w ≤ w' ∧
      w'.spawned = sendsOf cfg.rank (Script.posts (acc ++ [⟨context, .compute op⟩])) ∧
      f.Stands w'.promises op.output v) (fun hfail => ?_) (fun _ => ?_) fun _ => ?_).mono ?_
    · rw [hapi.compute] at hfail
      cases hfail
    · exact serves_computes hcomputes ⟨le_rfl, hsnoc, q, hstands, VecValue.promises_ready q⟩
    · rw [hmetadata]
      refine serves_promise hcomputes hkind ⟨List.prefix_append _ _, hsnoc, q, hstands, ?_⟩
      exact hkind ▸ VecValue.promises_pending w.promises q
    · rintro w' ⟨fault | v, l⟩ ⟨rfl, hend⟩
      · exact hend.elim
      · exact ⟨hend.1, rfl, hend.2.1, hend.2.2.checked hacc hout hid⟩
  post {w acc context g a inputs} hnext hat hvalues := by
    obtain ⟨rest, hposts⟩ := hnext.posts hacc
    have ha : a ∈ (plan cfg).actions := by rw [hposts]; simp [Act.post?]
    obtain ⟨defs, ids, id, d, hok⟩ := hacc.action_ok ha
    have hsource : a.sources[0]? = some d.place := by rw [hok.sources]; rfl
    have hsends : sendsOf cfg.rank (Script.posts (acc ++ [⟨context, .post g a⟩])) =
        w.spawned ++ sendsOf cfg.rank [a] := by
      rw [Script.posts_append, sendsOf_append, hat]
      rfl
    refine (communicateAsync_meets (E := fun _ _ => False)
      (G := fun w' handle => w ≤ w' ∧
        w'.spawned = sendsOf cfg.rank (Script.posts (acc ++ [⟨context, .post g a⟩])) ∧
        handle.id = a.id ∧ handle.localSlots = localSlots cfg.rank a.destinations ∧
        handle.waited = false)
      hsource (fun hfail => ?_) (fun hr => ?_) fun hr => ?_).mono ?_
    · rw [hapi.communicate] at hfail
      cases hfail
    · rw [hok.localInputs_eq, if_pos hr] at hvalues
      obtain ⟨value, rest', ⟨p, hp, hvalue⟩, hrest, rfl⟩ := List.forall₂_cons_left_iff.1 hvalues
      cases hrest
      have hsourced : a.sourcedBy cfg.rank = true := by
        simp [CommAction.sourcedBy, hok.sources, hr]
      have hnew : a.id ∉ w.spawned.map (·.1) := by
        intro hmem
        have hnodup := hacc.transfers_nodup_prefix (plan cfg).instructions [] (by simp)
        change ((plan cfg).actions.map (·.id)).Nodup at hnodup
        rw [hposts, List.append_assoc, List.map_append, List.nodup_append] at hnodup
        refine hnodup.2.2 a.id ?_ a.id (by simp [Act.post?]) rfl
        rw [hat, sendsOf, List.map_map] at hmem
        obtain ⟨b, hb, he⟩ := List.mem_map.1 hmem
        exact List.mem_map.2 ⟨b, List.mem_of_mem_filter hb, he⟩
      have hcarries : (plan cfg).Carries f a.id p := ⟨a, ha, rfl, id, by rw [hok.inputs]; rfl, hp⟩
      refine ⟨value, rfl, serves_send ha hsourced hnew hcarries hvalue fun k => ?_⟩
      refine ⟨List.prefix_rfl, ?_, rfl, rfl, rfl⟩
      rw [hsends]
      simp [sendsOf, hsourced]
    · rw [hok.localInputs_eq, if_neg hr] at hvalues
      cases hvalues
      refine ⟨rfl, le_rfl, ?_, rfl, rfl, rfl⟩
      rw [hsends]
      simp [sendsOf, CommAction.sourcedBy, hok.sources, hr]
    · rintro w' ⟨fault | handle, l⟩ ⟨rfl, hend⟩
      · exact hend.elim
      · exact ⟨hend.1, rfl, hend.2⟩
  wait {w acc context g a handle} hnext hat hgroup := by
    obtain ⟨rest, hposts⟩ := hnext.posts hacc
    obtain ⟨hg, -⟩ := (hnext.ok hacc).wait g a rfl
    obtain ⟨hid, hslots, hwaited⟩ := hgroup
    have ha : a ∈ (plan cfg).actions := by
      rw [hposts, List.append_assoc]
      exact List.mem_append_left _ (List.mem_of_getElem? hg)
    obtain ⟨defs, ids, id, d, hok⟩ := hacc.action_ok ha
    have hsnoc : w.spawned = sendsOf cfg.rank (Script.posts (acc ++ [⟨context, .wait g a⟩])) :=
      hat.trans (Script.sendsOf_posts_snoc _ rfl).symm
    refine (wait_meets (I := fun w' => w' = w) (R := fun _ p => (plan cfg).Carries f a.id p)
      (E := fun _ _ => False) hwaited (fun k _ => serves_joinAll rfl) (fun _ => rfl)
      (fun slot hslot w' hw => ?_) fun w' outputs fault _ hfault => ?_).mono ?_
    · subst hw
      rw [hid]
      exact serves_carried fun p hp => ⟨rfl, hp⟩
    · rw [corrupt_faultless hcluster] at hfault
      cases hfault
    · rintro w' ⟨fault | ⟨outputs, handle'⟩, l⟩ ⟨rfl, hend⟩
      · exact hend.elim
      · obtain ⟨rfl, payloads, outputs', hpayloads, hcorrupt, rfl⟩ := hend
        obtain rfl : payloads = outputs' := by
          rw [corrupt_faultless hcluster] at hcorrupt
          exact Except.ok.inj hcorrupt
        have hlen : (payloads.map VecValue.ready).length = (a.localOutputs cfg.rank).length := by
          rw [List.length_map, ← hpayloads.length_eq, hslots,
            length_localSlots hok.outputs.length_eq]
        refine ⟨le_rfl, rfl, ?_⟩
        dsimp only
        rw [if_neg (not_not.2 hlen)]
        refine ⟨hsnoc, List.forall₂_iff_get.2 ⟨hlen.symm, fun i hi hi' => ?_⟩⟩
        have hmem : (a.localOutputs cfg.rank).get ⟨i, hi⟩ ∈ a.outputs :=
          (hok.mem_localOutputs.1 (List.get_mem _ _)).1
        have hpay : i < payloads.length := by rwa [List.length_map] at hi'
        have hcarries : (plan cfg).Carries f a.id payloads[i] :=
          hpayloads.get (hpayloads.length_eq.symm ▸ hpay) hpay
        refine Payloads.Stands.checked hacc hout (RuntimePlan.mem_definitions_of_action ha hmem)
          ⟨payloads[i], hcarries.output hacc hout ha hmem, ?_⟩
        rw [List.get_eq_getElem, List.getElem_map]
        exact VecValue.promises_ready _
  sync {w acc context id v} hnext hat hval := by
    have hsnoc : w.spawned = sendsOf cfg.rank (Script.posts (acc ++ [⟨context, .sync id⟩])) :=
      hat.trans (Script.sendsOf_posts_snoc _ rfl).symm
    obtain ⟨p, hp, hv⟩ := hval
    refine (synchronize_meets (G := fun w' v' => w' = w ∧ v' = v) (E := fun _ _ => False)
      (serves_promised hv fun _ => ⟨rfl, rfl⟩)).mono ?_
    rintro w' ⟨fault | v', l⟩ ⟨rfl, hend⟩
    · exact hend.elim
    · obtain ⟨rfl, rfl⟩ := hend
      exact ⟨le_rfl, rfl, hsnoc, p, hp, hv⟩

/-- **A rank keeps to the protocol** when the evaluation of its plan succeeds and no
    fault is injected. -/
theorem rankProgram_stands {requirements : PlanRequirements} {env : Environment}
    {ctx : EvalContext} {f : Payloads}
    (hopen : SequentialRuntime.openTrace env cfg.rank = .ok ())
    (hverify : SequentialRuntime.verifyPlan cfg = .ok requirements)
    (hbundle : SequentialRuntime.bundleSlotsOf cfg env = .ok slots)
    (hversion : (plan cfg).target.capabilityVersion = 1)
    (hdegree : cfg.resources.operatorSpec.spec.polyDegree = ctx.polyDegree)
    (hgiven : cfg.Given slots ctx) (hinputs : ctx.InputsDescribed (plan cfg))
    (hcluster : cluster.Faultless) (hapi : api.Faultless)
    (heval : (plan cfg).evaluate ctx = .ok f) :
    Prog.Meets (valueProtocol (plan cfg) f cfg.loadedPlan.sourceSha256
        cfg.resources.skipArtifactDigestChecks cfg.rank)
      (fun w r => w.Ended cfg f r.1) {} (rankProgram cluster api cfg env) := by
  have hacc := SequentialRuntime.accepted_of_verifyPlan hverify
  have hf := solution_of_evaluate hacc heval
  refine (valueBackend hacc hf (hf.outcome hinputs) hgiven hcluster hapi
    cfg.loadedPlan.sourceSha256 cfg.resources.skipArtifactDigestChecks).run_meets hverify hbundle
    ?_ hopen (fun w artifact h => ⟨h.values, h.holds⟩) (fun _ _ h => h.elim) fun _ _ _ _ h => h.elim
  refine (preflight_meets (E := fun _ _ => False) (G := fun w => w.spawned = [])
    (R := fun w => w.spawned = []) (fun h => absurd hversion h) (fun fault hfault => ?_)
    (serves_register rfl) fun w hw => serves_awaitPreflight hw).mono ?_
  · rw [checkRequirements_faultless hcluster] at hfault
    cases hfault
  · rintro w ⟨fault | u, l⟩ ⟨hl, hend⟩
    · exact hend
    · exact ⟨hl.trans hdegree, hend⟩

end MockVecApi

end CkksRuntime
