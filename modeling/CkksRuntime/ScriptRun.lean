/-
  ckks-runtime formalization — the run of a rank is its script.

  * `bindInputs_sim`, `synchronizeFinalOutputs_sim`, `makeArtifact_eq`: what
    comes before and after the three phases;
  * `body_rel`: the body of the `try` and the script of the rank make the same
    calls and end alike, and not in a branch of the interpreter's own;
  * `run_eq_scriptRun`: so the run of a rank is its script.
-/
import CkksRuntime.ScriptSteps

namespace CkksRuntime

open Interaction PlanVerifier

namespace SequentialRuntime

variable {V H α β : Type} {cfg : RunConfig V}

/-! ## The bundle -/

/-- The contents that the local Encodes of a list need are all collected. -/
theorem localContents_spec {spec : OperatorSpec} (hacc : Accepted (plan cfg) spec)
    {list : List Instruction} : (∀ i ∈ list, i ∈ (plan cfg).instructions) →
      ∃ contents, localContents cfg list = .ok contents ∧
        ∀ i ∈ list, ∀ op content, i.body = .encode op → op.payload = .bundle content →
          (plan cfg).IsLocal cfg.rank op.output → content ∈ contents := by
  induction list with
  | nil => intro _; exact ⟨[], rfl, by simp⟩
  | cons i is ih =>
    intro hlist
    obtain ⟨contents, hcontents, hall⟩ := ih fun j hj => hlist j (by simp [hj])
    cases hbody : i.body with
    | encode op =>
      obtain ⟨a, b, phase, hab, -, hok⟩ := hacc.split (hlist i (by simp))
      rw [hbody] at hok
      obtain ⟨d, hd, -⟩ := hok.desc
      have hrest : ∀ {contents'}, contents ⊆ contents' →
          (∀ content, op.payload = .bundle content → d.place.rank = cfg.rank → content ∈ contents') →
          ∀ j ∈ i :: is, ∀ op' content, j.body = .encode op' → op'.payload = .bundle content →
            (plan cfg).IsLocal cfg.rank op'.output → content ∈ contents' := by
        intro contents' hsub hhead j hj op' content hop hpay hl
        rcases List.mem_cons.1 hj with rfl | hj
        · rw [hbody] at hop
          cases hop
          obtain ⟨d', hd', hr⟩ := hl
          rw [hd] at hd'
          cases hd'
          exact hhead content hpay hr
        · exact hsub (hall j hj op' content hop hpay hl)
      simp only [localContents, hbody, desc, hd, hcontents, bind, Except.bind, pure, Except.pure]
      by_cases hr : d.place.rank = cfg.rank
      · cases hpay : op.payload with
        | inline values =>
          exact ⟨contents, by simp [hr], hrest (List.Subset.refl _) (by simp [hpay])⟩
        | bundle content =>
          refine ⟨content :: contents, by simp [hr], hrest (List.subset_cons_self _ _) ?_⟩
          intro content' hpay' _
          rw [hpay] at hpay'
          cases hpay'
          exact List.mem_cons_self
      · exact ⟨contents, by simp [hr], hrest (List.Subset.refl _) fun _ _ hr' => absurd hr' hr⟩
    | compute op =>
      refine ⟨contents, by simp [localContents, hbody, hcontents], ?_⟩
      rintro j hj op' content hop hpay hl
      rcases List.mem_cons.1 hj with rfl | hj
      · rw [hbody] at hop; cases hop
      · exact hall j hj op' content hop hpay hl
    | comm action =>
      refine ⟨contents, by simp [localContents, hbody, hcontents], ?_⟩
      rintro j hj op' content hop hpay hl
      rcases List.mem_cons.1 hj with rfl | hj
      · rw [hbody] at hop; cases hop
      · exact hall j hj op' content hop hpay hl

/-- Every Encode is in the initialization. -/
theorem encode_mem_initialization {spec : OperatorSpec} (hacc : Accepted (plan cfg) spec)
    {i : Instruction} (hi : i ∈ (plan cfg).instructions) {op : EncodeOp} (hbody : i.body = .encode op) :
    i ∈ (plan cfg).initialization := by
  rw [RuntimePlan.instructions, List.append_assoc, List.mem_append] at hi
  exact hi.resolve_right fun hi => hacc.encode_phase i hi op hbody

/-- **A loaded bundle covers the local Encodes**; a failure to load is none of
    the interpreter's own. -/
theorem bundleSlotsOf_spec {spec : OperatorSpec} (hacc : Accepted (plan cfg) spec)
    (env : Environment) : match bundleSlotsOf cfg env with
      | .ok slots => SlotsOk cfg slots
      | .error f => f.isInternal = false := by
  unfold bundleSlotsOf
  cases hbundle : (plan cfg).plaintextBundle with
  | none =>
    intro i hi op hbody _
    cases hpay : op.payload with
    | inline values => exact ⟨values, rfl⟩
    | bundle content => exact absurd hpay (hacc.bundle hbundle i hi op content hbody)
  | some reference =>
    cases hdir : cfg.resources.plaintextBundleDir with
    | none => rfl
    | some directory =>
      have hinit : ∀ i ∈ (plan cfg).initialization, i ∈ (plan cfg).instructions :=
        fun i hi => by simp [RuntimePlan.instructions, hi]
      obtain ⟨contents, hcontents, hall⟩ := localContents_spec hacc hinit
      simp only [hcontents, bind, Except.bind]
      cases hload : PlaintextBundleLoader.load env.sax env.files directory reference contents
          (cfg.resources.operatorSpec.spec.polyDegree / 2)
          cfg.resources.skipArtifactDigestChecks with
      | error f => rfl
      | ok bundle =>
        intro i hi op hbody hl
        cases hpay : op.payload with
        | inline values => exact ⟨values, rfl⟩
        | bundle content =>
          obtain ⟨values, hlookup, -⟩ := PlaintextBundleLoader.load_eq_ok hload content
            (hall i (encode_mem_initialization hacc hi hbody) op content hbody hpay hl)
          exact ⟨values, by simp [payloadSlots, hlookup]⟩

/-! ## The external inputs -/

section
variable {spec : OperatorSpec} (hacc : Accepted (plan cfg) spec)
include hacc

/-- The external inputs, by induction over the list. -/
theorem bindExternal_sim (ids : List ValueId) : ∀ {ext : List ValueId} {acc : Script},
    (plan cfg).externalInputs = ext ++ ids → Covers (plan cfg) cfg.rank ext [] acc →
    Sim (V := V) (H := H) cfg ⟨ext, [], (plan cfg).instructions, {}, acc⟩
      ⟨ext ++ ids, [], (plan cfg).instructions, {},
        acc ++ (ids.filter fun id => (plan cfg).IsLocal cfg.rank id).map fun id => ⟨{}, .bind id⟩⟩
      ((ids.filter fun id => (plan cfg).IsLocal cfg.rank id).map fun id => ⟨{}, .bind id⟩)
      (fun _ => True)
      (fun n _ => n = (ids.filter fun id => (plan cfg).IsLocal cfg.rank id).length)
      (bindExternal cfg ids) := by
  induction ids with
  | nil =>
    intro ext acc _ _
    simp only [List.append_nil, List.filter_nil, List.map_nil]
    exact Sim.pure fun _ _ => rfl
  | cons id ids ih =>
    intro ext acc hext hcov
    obtain ⟨d, hd, -⟩ := hacc.input id (by rw [hext]; simp)
    have hext' : (plan cfg).externalInputs = ext ++ [id] ++ ids := by simpa using hext
    have hnew : id ∉ ext := by
      have hn := hacc.inputs_nodup
      rw [hext] at hn
      exact fun hm => (List.nodup_append.1 hn).2.2 id hm id (by simp) rfl
    have hlocal : (plan cfg).IsLocal cfg.rank id ↔ d.place.rank = cfg.rank := by
      constructor
      · rintro ⟨d', hd', hr⟩
        rw [hd] at hd'
        cases hd'
        exact hr
      · intro hr; exact ⟨d, hd, hr⟩
    intro s e hi hp
    rw [bindExternal, desc, hd]
    simp only [Comp.ofExcept_bind_ok]
    by_cases hr : d.place.rank = cfg.rank
    · have hl := hlocal.2 hr
      have hcov' := hcov.bind {} hl hnew
      rw [if_neg (not_not.2 hr)]
      simp only [List.filter_cons, hl, decide_true, if_true, List.map_cons, execScript, execLine,
        Comp.bind_assoc, Comp.modify_bind, Act.exec, desc, hd, Comp.ofExcept_bind_ok]
      cases hinput : cfg.localInputs.lookup id with
      | none => exact .ret ⟨rfl, hi.current, hi.value, rfl⟩
      | some v =>
        have htail := @defineTail_rel_nil V H cfg spec hacc ⟨ext, [], (plan cfg).instructions, {}, acc⟩
          rfl ⟨ext ++ [id], [], (plan cfg).instructions, {}, acc ++ [⟨{}, .bind id⟩]⟩ s e hi _ id d v
          hcov' hd (by simpa using hnew) rfl rfl rfl rfl rfl rfl rfl
        show Prog.Rel _ ((api (.validateValue v d) >>= fun _ => define id (.ready d.place v) >>=
            fun _ => bindExternal cfg ids >>= fun n => pure (n + 1)) s)
          (((scriptApi (.validateValue v d) >>= fun _ => setValue id v) >>= fun _ =>
            execScript cfg _) _)
        rw [← Comp.bind_assoc (api (.validateValue v d))]
        refine Comp.rel_bind htail ?_
        rintro _ s' _ e' hi'
        refine Comp.rel_bind_left (ih hext' hcov' s' e' hi' trivial) ?_
        rintro n s'' _ e'' ⟨hi'', hn⟩
        refine .ret ⟨?_, by simp [hn]⟩
        simpa using hi''
    · have hl : ¬ (plan cfg).IsLocal cfg.rank id := mt hlocal.1 hr
      have hcov' := hcov.skip hl
      rw [if_pos hr]
      simp only [List.filter_cons, hl, decide_false, Bool.false_eq_true, if_false]
      have := ih hext' hcov' s e (hi.skip hcov' rfl rfl rfl rfl) hp
      simpa using this

end

namespace Inv

variable {st : Stage} {s : RuntimeState V H} {e : ScriptState V H}

/-- A line that makes nothing ready, and is no wait and no post. -/
theorem idle (h : Inv cfg st s e) (context : Context) (act : Act)
    (hread : ∀ id ∈ act.reads cfg.rank, id ∈ st.acc.ready cfg.rank)
    (hdef : act.defines cfg.rank = []) (hp : act.post? = none) (hw : act.wait? = none) :
    Inv cfg { st with acc := st.acc ++ [⟨context, act⟩] } s { e with context := context } := by
  have hwaited : ∀ g, Script.Waited (st.acc ++ [⟨context, act⟩]) g ↔ st.acc.Waited g := by
    intro g; rw [Script.waited_append, Script.waited_singleton]; simp [hw]
  have hposts : Script.posts (st.acc ++ [⟨context, act⟩]) = st.acc.posts := by
    rw [Script.posts_append, Script.posts_singleton]; simp [hp]
  obtain ⟨full, hfull, hs⟩ := h.store
  refine ⟨h.covers.idle context hread hdef hp hw, h.current, h.value, h.bundle, h.slots, h.timing,
    ?_, h.groups_length, ?_, ⟨full, ⟨hfull.ready, ?_, ?_⟩, hs⟩, h.uses⟩
  · intro id
    rw [Script.ready_append, Script.ready_singleton, hdef, List.append_nil]
    exact h.values id
  · intro g a hg
    simp only [hwaited]
    exact h.groups g a hg
  · intro g a hg hw'
    rw [hposts] at hg
    exact hfull.pending g a hg fun hw'' => hw' ((hwaited g).2 hw'')
  · intro id hv hno
    refine hfull.absent id hv fun g a hg hw' => ?_
    exact hno g a (by rw [hposts]; exact hg) fun hw'' => hw' ((hwaited g).1 hw'')

/-- A ready value is replaced. -/
theorem replace (h : Inv cfg st s e) {id : ValueId} {d : ValueDesc}
    (hid : id ∈ st.acc.ready cfg.rank) (hlive : ¬ Released cfg s.remainingUses id)
    (hd : (plan cfg).desc? id = some d) (v : V) :
    Inv cfg st { s with store := Function.update s.store id (some (.ready d.place v)) }
      (e.setValue id v) := by
  obtain ⟨full, hfull, hs⟩ := h.store
  refine ⟨h.covers, h.current, h.value, h.bundle, h.slots, h.timing, fun id' => ?_,
    h.groups_length, h.groups, ⟨_, hfull.set v hd, ?_⟩, h.uses⟩
  · by_cases heq : id' = id
    · subst heq
      simp [ScriptState.setValue, hid]
    · rw [← h.values id']
      simp [ScriptState.setValue, Function.update_of_ne heq]
  · rw [hs]; exact (visible_update hlive).symm

end Inv

section
variable {spec : OperatorSpec} (hacc : Accepted (plan cfg) spec)
include hacc

/-- **The external inputs are bound**, or the run fails. -/
theorem bindInputs_sim :
    Sim (V := V) (H := H) cfg ⟨[], [], (plan cfg).instructions, {}, []⟩
      ⟨(plan cfg).externalInputs, [], (plan cfg).instructions, {}, (plan cfg).inputLines cfg.rank⟩
      ((plan cfg).inputLines cfg.rank) (fun _ => True) (fun _ _ => True) (bindInputs cfg) := by
  refine (bindExternal_sim hacc (plan cfg).externalInputs rfl .nil).bind fun n => ?_
  intro s e hi hn
  obtain rfl : n = ((plan cfg).localExternals cfg.rank).length := hn
  rw [execScript_singleton, execLine, Comp.modify_bind, Comp.throwIf_apply, Act.exec,
    Comp.throwIf_apply]
  by_cases hlen : cfg.localInputs.length ≠ ((plan cfg).localExternals cfg.rank).length
  · rw [if_pos hlen]
    exact .ret ⟨rfl, hi.current, hi.value, rfl⟩
  · rw [if_neg hlen]
    exact .ret ⟨hi.idle _ _ (by simp [Act.reads]) rfl rfl rfl, trivial⟩

/-! ## The final outputs -/

/-- The local final outputs, by induction over the list. -/
theorem synchronizeOutputs_sim (ids : List ValueId) : ∀ {acc : Script} (context : Context),
    (∀ id ∈ ids, id ∈ (plan cfg).finalOutputs) →
    (∀ id ∈ ids, (plan cfg).IsLocal cfg.rank id → id ∈ acc.ready cfg.rank) →
    context.current = none →
    ∃ context', Sim (V := V) (H := H) cfg
      ⟨(plan cfg).externalInputs, (plan cfg).instructions, [], context, acc⟩
      ⟨(plan cfg).externalInputs, (plan cfg).instructions, [], context',
        acc ++ (ids.filter fun id => (plan cfg).IsLocal cfg.rank id).map fun id =>
          ⟨{ value := some id }, .sync id⟩⟩
      ((ids.filter fun id => (plan cfg).IsLocal cfg.rank id).map fun id =>
        ⟨{ value := some id }, .sync id⟩)
      (fun _ => True) (fun _ _ => context'.current = none) (synchronizeOutputs cfg ids) := by
  induction ids with
  | nil =>
    intro acc context _ _ hcurrent
    refine ⟨context, ?_⟩
    simp only [List.filter_nil, List.map_nil, List.append_nil]
    exact Sim.pure fun _ _ => hcurrent
  | cons id ids ih =>
    intro acc context hfinal hready hcurrent
    obtain ⟨d, hd⟩ := Option.isSome_iff_exists.1 (hacc.described id (hacc.final id (hfinal id (by simp))))
    have hlocal : (plan cfg).IsLocal cfg.rank id ↔ d.place.rank = cfg.rank := by
      constructor
      · rintro ⟨d', hd', hr⟩
        rw [hd] at hd'
        cases hd'
        exact hr
      · intro hr; exact ⟨d, hd, hr⟩
    by_cases hr : d.place.rank = cfg.rank
    · have hl := hlocal.2 hr
      have hid := hready id (by simp) hl
      obtain ⟨context', hsim⟩ := @ih (acc ++ [⟨{ value := some id }, .sync id⟩]) { value := some id }
        (fun x hx => hfinal x (by simp [hx]))
        (fun x hx hxl => by
          rw [Script.ready_append]
          exact List.mem_append_left _ (hready x (by simp [hx]) hxl)) rfl
      refine ⟨context', fun s e hi hp => ?_⟩
      have hcur : s.current = none := hi.current.trans hcurrent
      have hi₀ : Inv cfg ⟨(plan cfg).externalInputs, (plan cfg).instructions, [],
          { value := some id }, acc⟩ { s with currentValue := some id } e := by
        have h := hi.setContext { value := some id }
        rwa [show ({ s with current := none, currentValue := some id } : RuntimeState V H) =
          { s with currentValue := some id } by rw [← hcur]] at h
      have huse : id ∈ localUses cfg.rank ([] : List Instruction) ++ (plan cfg).finalsOf cfg.rank := by
        simp [RuntimePlan.finalsOf, hfinal id (by simp), hl]
      obtain ⟨v, hv⟩ := hi₀.keeps_isSome hid
      have hstore : s.store id = some (.ready d.place v) := by
        obtain ⟨full, hfull, hs⟩ := hi.store
        obtain ⟨d', hd', hentry⟩ := hfull.ready id v hv
        rw [hd] at hd'
        cases hd'
        rw [hs, visible, if_neg (hi.live_of_use huse), hentry]
      have hensure : ensureReady cfg id d.place { s with currentValue := some id } =
          .ret (.ok v, { s with currentValue := some id }) := by
        simp [ensureReady, lookup, Comp.bind_apply, hstore]
      simp only [List.filter_cons, hl, decide_true, if_true, List.map_cons, execScript, execLine,
        synchronizeOutputs, desc, hd, Comp.ofExcept_bind_ok, hr, ne_eq, not_true_eq_false, if_false,
        Comp.bind_assoc, Comp.modify_bind, Act.exec]
      rw [Comp.bind_apply, hensure]
      simp only [Prog.ret_bind, Comp.next_ok, readValue, Comp.bind_assoc, Comp.get_bind, hv,
        Comp.pure_bind]
      refine rel_api hi₀.current hi₀.value fun (v' : V) => ?_
      have hstore₀ : ({ s with currentValue := some id } : RuntimeState V H).store id = _ := hstore
      show Prog.Rel _ ((assign id (.ready d.place v') >>= fun _ => synchronizeOutputs cfg ids) _)
        ((setValue id v' >>= fun _ => execScript cfg _) _)
      rw [Comp.bind_apply, assign_eq _ hstore₀, Prog.ret_bind, Comp.next_ok, setValue,
        Comp.modify_bind]
      have hi₁ := (hi₀.replace hid (hi₀.live_of_use huse) hd v').idle { value := some id }
        (.sync id) (by simpa [Act.reads] using hid) rfl rfl rfl
      have hrel := hsim _ _ hi₁ trivial
      simp only [List.append_assoc, List.singleton_append] at hrel
      exact hrel
    · have hl : ¬ (plan cfg).IsLocal cfg.rank id := mt hlocal.1 hr
      obtain ⟨context', hsim⟩ := @ih acc context (fun x hx => hfinal x (by simp [hx]))
        (fun x hx => hready x (by simp [hx])) hcurrent
      refine ⟨context', fun s e hi hp => ?_⟩
      simp only [List.filter_cons, hl, decide_false, Bool.false_eq_true, if_false]
      rw [synchronizeOutputs, desc, hd, Comp.ofExcept_bind_ok, if_pos hr]
      exact hsim s e hi hp

end

/-- **`synchronize_final_outputs`.** -/
theorem synchronizeFinalOutputs_sim {spec : OperatorSpec} (hacc : Accepted (plan cfg) spec) :
    Sim (V := V) (H := H) cfg
      ⟨(plan cfg).externalInputs, (plan cfg).instructions, [], {},
        ((plan cfg).instructionScript cfg.rank).finishAll⟩
      ⟨(plan cfg).externalInputs, (plan cfg).instructions, [], {}, (plan cfg).script cfg.rank⟩
      ((plan cfg).syncLines cfg.rank) (fun _ => True) (fun _ _ => True)
      (synchronizeFinalOutputs cfg) := by
  obtain ⟨context', hsim⟩ := synchronizeOutputs_sim (V := V) (H := H) hacc (plan cfg).finalOutputs {}
    (fun _ h => h) (fun id hid hl => hacc.finished_ready.2 ⟨hl, hacc.final id hid⟩) rfl
  intro s e hi hp
  refine Comp.rel_bind_left (hsim s e hi hp) ?_
  rintro _ s' _ e' ⟨hi', hcurrent⟩
  have hc : s'.current = none := hi'.current.trans hcurrent
  have h := hi'.setContext {}
  rw [show ({ s' with current := none, currentValue := none } : RuntimeState V H) =
    { s' with currentValue := none } by rw [← hc]] at h
  exact .ret ⟨h, trivial⟩

/-! ## The artifact -/

section
variable {spec : OperatorSpec} {st : Stage} {s : RuntimeState V H} {e : ScriptState V H}

/-- The local final outputs are collected; nothing is called. -/
theorem collectFinals_eq (hacc : Accepted (plan cfg) spec) (hi : Inv cfg st s e)
    (hready : ∀ id ∈ (plan cfg).definitions, (plan cfg).IsLocal cfg.rank id →
      id ∈ st.acc.ready cfg.rank) (ids : List ValueId) :
    ∀ (values : ValueId → Option (Place × V)), (∀ id ∈ ids, id ∈ (plan cfg).finalOutputs) →
      collectFinals cfg values ids s = .ret (.ok (fun id =>
        if (values id).isSome then values id
        else if id ∈ ids then do
          let d ← (plan cfg).desc? id
          let value ← e.values id
          return (d.place, value)
        else none), s) := by
  induction ids with
  | nil =>
    intro values _
    rw [collectFinals, Comp.pure_apply]
    congr 3
    funext id
    cases h : values id <;> simp
  | cons id ids ih =>
    intro values hids
    have hfinal := hids id (by simp)
    obtain ⟨d, hd⟩ := Option.isSome_iff_exists.1 (hacc.described id (hacc.final id hfinal))
    rw [collectFinals, desc, hd, Comp.ofExcept_bind_ok]
    by_cases hr : d.place.rank = cfg.rank
    · have hl : (plan cfg).IsLocal cfg.rank id := ⟨d, hd, hr⟩
      obtain ⟨v, hv⟩ := hi.keeps_isSome (hready id (hacc.final id hfinal) hl)
      obtain ⟨full, hfull, hs⟩ := hi.store
      obtain ⟨d', hd', hentry⟩ := hfull.ready id v hv
      rw [hd] at hd'
      cases hd'
      have huse : id ∈ localUses cfg.rank st.rest ++ (plan cfg).finalsOf cfg.rank := by
        simp [RuntimePlan.finalsOf, hfinal, hl]
      have hstore : s.store id = some (.ready d.place v) := by
        rw [hs, visible, if_neg (hi.live_of_use huse), hentry]
      have hensure : ensureReady cfg id d.place s = .ret (.ok v, s) := by
        simp [ensureReady, lookup, Comp.bind_apply, hstore]
      rw [if_neg (not_not.2 hr), Comp.bind_apply, hensure, Prog.ret_bind, Comp.next_ok, ih]
      · congr 3
        funext id'
        by_cases heq : id' = id
        · subst heq
          cases hval : values id' with
          | none => simp [hv, hd]
          | some x => simp [hval]
        · have hupd : (if (values id).isSome then values
              else Function.update values id (some (d.place, v))) id' = values id' := by
            split_ifs
            · rfl
            · exact Function.update_of_ne heq _ _
          simp only [hupd, List.mem_cons, heq, false_or]
      · exact fun x hx => hids x (by simp [hx])
    · have hnone : e.values id = none := by
        rw [← Option.not_isSome_iff_eq_none, hi.values]
        intro hready
        obtain ⟨d', hd', hr'⟩ := hi.covers.isLocal hready
        rw [hd] at hd'
        cases hd'
        exact hr hr'
      rw [if_pos hr, ih _ fun x hx => hids x (by simp [hx])]
      congr 3
      funext id'
      by_cases heq : id' = id
      · subst heq
        simp [hnone]
      · simp [heq]

/-- **`make_artifact`.** -/
theorem makeArtifact_eq (hacc : Accepted (plan cfg) spec) (hi : Inv cfg st s e)
    (hready : ∀ id ∈ (plan cfg).definitions, (plan cfg).IsLocal cfg.rank id →
      id ∈ st.acc.ready cfg.rank) :
    makeArtifact cfg s = .ret (.ok (scriptArtifact cfg e), s) := by
  rw [makeArtifact, Comp.get_bind]
  by_cases hretain : retainAllValues cfg = true
  · rw [if_pos hretain, Comp.pure_apply]
    obtain ⟨full, hfull, hs⟩ := hi.store
    have hvisible : s.store = full := by
      rw [hs]
      funext id
      exact if_neg fun h => absurd h.1 (by simp [hretain])
    have hvalues : readyValues s.store = (scriptArtifact cfg e).values := by
      funext id
      simp only [scriptArtifact, hretain, true_or, if_true, readyValues, hvisible]
      cases hv : e.values id with
      | some v =>
        obtain ⟨d, hd, hentry⟩ := hfull.ready id v hv
        simp [hd, hentry]
      | none =>
        cases hentry : full id with
        | none => cases (plan cfg).desc? id <;> simp
        | some entry =>
          cases entry with
          | pending place group slot => cases (plan cfg).desc? id <;> simp
          | ready place v =>
            have := hfull.isSome_of_ready hentry
            simp [hv] at this
    rw [hvalues, hi.timing]
    rfl
  · rw [if_neg hretain, Comp.bind_apply, collectFinals_eq hacc hi hready _ _ fun _ h => h]
    simp only [Prog.ret_bind, Comp.next_ok, Comp.pure_apply, hi.timing, Option.isSome_none,
      Bool.false_eq_true, if_false, scriptArtifact, hretain, false_or]

end

/-! ## The body of the `try` -/

theorem countUses_eq (uses : List ValueId) : countUses uses = fun id => uses.count id := by
  have hfold : ∀ (uses : List ValueId) (counts : ValueId → ℕ),
      uses.foldl (fun counts id => Function.update counts id (counts id + 1)) counts =
        fun id => counts id + uses.count id := by
    intro uses
    induction uses with
    | nil => intro counts; simp
    | cons a uses ih =>
      intro counts
      rw [List.foldl_cons, ih]
      funext id
      by_cases heq : id = a
      · subst heq
        rw [Function.update_self, List.count_cons_self]
        omega
      · rw [Function.update_of_ne heq, List.count_cons_of_ne (Ne.symm heq)]
  rw [countUses, hfold]
  simp

section
variable {spec : OperatorSpec} (hacc : Accepted (plan cfg) spec)
include hacc

theorem phaseUses_eq {list : List Instruction} :
    (∀ i ∈ list, i ∈ (plan cfg).instructions) →
      phaseUses cfg.rank list = .ok (localUses cfg.rank list) := by
  induction list with
  | nil => intro _; rfl
  | cons i is ih =>
    intro hlist
    have hi : instructionUses cfg.rank i = .ok (i.localUses cfg.rank) := by
      unfold instructionUses Instruction.localUses
      cases hbody : i.body with
      | encode op => rfl
      | compute op => rfl
      | comm action =>
        obtain ⟨a, b, phase, -, -, hok⟩ := hacc.split (hlist i (by simp))
        rw [hbody] at hok
        obtain ⟨src, d, hok⟩ := hok
        simp only [hok.inputs, hok.sources, hok.localInputs_eq, localSources, bind, Except.bind,
          pure, Except.pure]
        split_ifs <;> rfl
    rw [phaseUses, hi, ih fun j hj => hlist j (by simp [hj]), localUses_cons]
    rfl

theorem localFinals_eq {ids : List ValueId} : (∀ id ∈ ids, id ∈ (plan cfg).finalOutputs) →
    localFinals (plan cfg) cfg.rank ids =
      .ok (ids.filter fun id => (plan cfg).IsLocal cfg.rank id) := by
  induction ids with
  | nil => intro _; rfl
  | cons id ids ih =>
    intro hids
    obtain ⟨d, hd⟩ := Option.isSome_iff_exists.1 (hacc.described id (hacc.final id (hids id (by simp))))
    rw [localFinals, desc, hd, ih fun x hx => hids x (by simp [hx]), List.filter_cons]
    have hlocal : (plan cfg).IsLocal cfg.rank id ↔ d.place.rank = cfg.rank := by
      constructor
      · rintro ⟨d', hd', hr⟩
        rw [hd] at hd'
        cases hd'
        exact hr
      · intro hr; exact ⟨d, hd, hr⟩
    by_cases hr : d.place.rank = cfg.rank <;>
      simp [hlocal, hr, bind, Except.bind, pure, Except.pure]

/-- **The use counts** hold every local use. -/
theorem initializeUseCounts_eq (s : RuntimeState V H) :
    initializeUseCounts cfg s = .ret (.ok (),
      { s with
        remainingUses :=
          if retainAllValues cfg then s.remainingUses else fun id => (totalUses cfg).count id }) := by
  unfold initializeUseCounts
  by_cases hretain : retainAllValues cfg = true
  · simp [hretain]
  · rw [if_neg hretain, phaseUses_eq hacc fun _ h => h, localFinals_eq hacc fun _ h => h]
    simp only [Comp.ofExcept_bind_ok, Comp.modify_apply, hretain, countUses_eq]
    rfl

omit hacc in
/-- The invariant before the first line. -/
theorem initial_inv (slots : List (String × List Double)) (hslots : SlotsOk cfg slots) :
    Inv cfg ⟨[], [], (plan cfg).instructions, {}, []⟩
      { ({} : RuntimeState V H) with
        remainingUses := if retainAllValues cfg then fun _ => 0 else fun id => (totalUses cfg).count id
        bundleSlots := slots }
      { ({} : ScriptState V H) with bundleSlots := slots } := by
  refine ⟨.nil, rfl, rfl, rfl, hslots, rfl, by simp, rfl, by simp,
    ⟨fun _ => none, ⟨by simp, by simp, fun _ _ _ => rfl⟩, ?_⟩, ?_⟩
  · funext id
    simp [visible]
  · intro hretain id
    simp only [hretain, Bool.false_eq_true, if_false]
    simp [totalUses, pendingUses]

/-- **The setup** and the lines of the external inputs. -/
theorem setup_rel (env : Environment) {requirements : PlanRequirements}
    (hverify : verifyPlan cfg = .ok requirements) :
    Prog.Rel (Comp.Ends (fun _ s _ e => Inv (V := V) cfg ⟨(plan cfg).externalInputs, [],
        (plan cfg).instructions, {}, (plan cfg).inputLines cfg.rank⟩ s e) Fails)
      (setup (H := H) cfg env {})
      ((scriptPrelude cfg env requirements >>= fun _ =>
        execScript cfg ((plan cfg).inputLines cfg.rank)) {}) := by
  have hbundle := bundleSlotsOf_spec hacc env
  simp only [setup, Comp.bind_assoc, hverify, Comp.ofExcept_bind_ok, loadBundle, scriptPrelude]
  rw [Comp.bind_apply, initializeUseCounts_eq hacc, Prog.ret_bind, Comp.next_ok]
  cases hslots : bundleSlotsOf cfg env with
  | error f =>
    rw [hslots] at hbundle
    exact .ret ⟨rfl, rfl, rfl, hbundle⟩
  | ok slots =>
    rw [hslots] at hbundle
    simp only [Comp.ofExcept_bind_ok, Comp.modify_bind]
    have hinit := initial_inv (H := H) slots hbundle
    refine rel_api hinit.current hinit.value fun _ => ?_
    exact (bindInputs_sim hacc _ _ hinit trivial).mono fun r r' hr =>
      Comp.Ends.mono (fun _ _ _ _ h => h.1) hr

/-- **The body of the `try` is the script**, and it fails in no branch of the
    interpreter's own. -/
theorem body_rel (env : Environment) {requirements : PlanRequirements}
    (hverify : verifyPlan cfg = .ok requirements) :
    Prog.Rel (Comp.Ends (fun (a : RunArtifact V) s b e => a = b ∧ Inv cfg ⟨(plan cfg).externalInputs,
        (plan cfg).instructions, [], {}, (plan cfg).script cfg.rank⟩ s e) Fails)
      (body (H := H) cfg env {}) (scriptBody cfg env requirements {}) := by
  obtain ⟨lines, hlines, hexec⟩ := execute_sim (V := V) (H := H) hacc
  have hall := hexec.bind fun _ => synchronizeFinalOutputs_sim hacc
  have hscript : (plan cfg).script cfg.rank =
      (plan cfg).inputLines cfg.rank ++ (lines ++ (plan cfg).syncLines cfg.rank) := by
    rw [RuntimePlan.script, hlines, List.append_assoc]
  rw [scriptBody, hscript, execScript_append, Comp.bind_assoc, ← Comp.bind_assoc (scriptPrelude _ _ _)]
  refine Comp.rel_bind (setup_rel hacc env hverify) ?_
  intro _ s _ e hi
  rw [← Comp.bind_assoc (execute cfg)]
  refine Comp.rel_bind (hall s e hi trivial) ?_
  rintro _ s' _ e' ⟨hi', -⟩
  rw [makeArtifact_eq hacc hi', Comp.get_bind]
  · exact .ret ⟨rfl, hscript ▸ hi'⟩
  · intro id hid hl
    show id ∈ ((plan cfg).script cfg.rank).ready cfg.rank
    rw [RuntimePlan.script, Script.ready_append]
    exact List.mem_append_left _ (hacc.finished_ready.2 ⟨hl, hid⟩)

end

theorem verifyPlan_eq_ok {requirements : PlanRequirements}
    (h : verifyPlan cfg = .ok requirements) :
    PlanVerifier.verify (plan cfg) cfg.resources.operatorSpec
        cfg.resources.skipArtifactDigestChecks = .ok requirements ∧
      PlanVerifier.verifyRuntimeTarget (plan cfg) cfg.rank cfg.worldSize cfg.localDevices = .ok () := by
  unfold verifyPlan at h
  cases hv : PlanVerifier.verify (plan cfg) cfg.resources.operatorSpec
      cfg.resources.skipArtifactDigestChecks with
  | error f => simp [hv, Except.mapError, bind, Except.bind] at h
  | ok r =>
    cases ht : PlanVerifier.verifyRuntimeTarget (plan cfg) cfg.rank cfg.worldSize
        cfg.localDevices with
    | error f => simp [hv, ht, Except.mapError, bind, Except.bind] at h
    | ok u =>
      simp only [hv, ht, Except.mapError, bind, Except.bind, pure, Except.pure,
        Except.ok.injEq] at h
      exact ⟨by rw [h], rfl⟩

theorem accepted_of_verifyPlan {requirements : PlanRequirements}
    (h : verifyPlan cfg = .ok requirements) :
    Accepted (plan cfg) cfg.resources.operatorSpec.spec := verify_accepted (verifyPlan_eq_ok h).1

/-- The handler reads the diagnostics only. -/
theorem handle_congr {r : Except Failure (RunArtifact V)} {s s' : RuntimeState V H}
    (hc : s.current = s'.current) (hv : s.currentValue = s'.currentValue) :
    handle cfg (r, s) = handle cfg (r, s') := by
  have hformat : formatError cfg s = formatError cfg s' := by
    funext reason
    unfold formatError
    rw [hc, hv]
  simp only [handle, hformat]

/-- **The run of a rank is its script**, for a plan that was verified. -/
theorem run_eq_scriptRun (env : Environment) {requirements : PlanRequirements}
    (hverify : verifyPlan cfg = .ok requirements) :
    run (H := H) cfg env = scriptRun cfg env requirements := by
  have hacc := accepted_of_verifyPlan hverify
  unfold run scriptRun
  cases openTrace env cfg.rank with
  | error failure => rfl
  | ok u =>
    refine Prog.Rel.eq ((body_rel hacc env hverify).bind ?_)
    rintro ⟨r, s⟩ ⟨r', e⟩ h
    have heq : handle cfg (r, s) = scriptHandle cfg (r', e) := by
      cases r with
      | ok artifact =>
        cases r' with
        | ok artifact' =>
          obtain ⟨rfl, -⟩ := h
          rfl
        | error f => exact absurd h id
      | error f =>
        cases r' with
        | ok artifact' => exact absurd h id
        | error f' =>
          obtain ⟨rfl, hc, hv, -⟩ := h
          exact handle_congr hc hv
    rw [heq]
    exact .refl (fun _ => rfl) _

/-- **A verified plan never breaks the interpreter**: whatever the Api answers, no
    failure of the body comes from a branch of the interpreter's own. -/
theorem body_not_internal (env : Environment) {requirements : PlanRequirements}
    (hverify : verifyPlan cfg = .ok requirements) {log : List (Event (ApiOp V H) ApiOp.Ans)}
    {r : Except Failure (RunArtifact V)} {s : RuntimeState V H}
    (hrun : (body cfg env {}).Runs log (r, s)) :
    ∀ failure, r = .error failure → failure.isInternal = false := by
  rintro failure rfl
  obtain ⟨⟨r', e⟩, -, h⟩ := (body_rel (accepted_of_verifyPlan hverify) env hverify).runs hrun
  cases r' with
  | ok artifact => exact absurd h id
  | error failure' =>
    obtain ⟨rfl, -, -, hinternal⟩ := h
    exact hinternal

/-- The fan-out plan passes the check of its run. -/
theorem verifyPlan_fanoutConfig (zero one : V) :
    verifyPlan (fanoutConfig zero one) = .ok ⟨[.transfer, .replicate], []⟩ := by
  have hverify : PlanVerifier.verify (fanoutPlan [2] ⟨.device, 0, 0⟩ [⟨.device, 0, 1⟩]).plan
      makeTestOperatorSpec false = .ok ⟨[.transfer, .replicate], []⟩ := by decide
  have htarget : PlanVerifier.verifyRuntimeTarget
      (fanoutPlan [2] ⟨.device, 0, 0⟩ [⟨.device, 0, 1⟩]).plan 0 1 2 = .ok () := by decide
  simp only [verifyPlan, fanoutConfig, plan, hverify, htarget, Except.mapError, bind, Except.bind,
    pure, Except.pure]

/-- The fan-out run on an Api whose calls succeed. -/
theorem body_fanoutConfig_not_internal :
    verifyPlan (fanoutConfig () ()) = .ok ⟨[.transfer, .replicate], []⟩ ∧
      ∀ failure, ((body (fanoutConfig () ()) bareEnvironment {}).play (succeed 0)).2.1 =
        .error failure → failure.isInternal = false := by
  have hrun := Prog.runs_play (succeed 0) (body (fanoutConfig () ()) bareEnvironment {})
  generalize (body (fanoutConfig () ()) bareEnvironment {}).play (succeed 0) = x at hrun ⊢
  obtain ⟨log, r, s⟩ := x
  exact ⟨verifyPlan_fanoutConfig () (),
    body_not_internal bareEnvironment (verifyPlan_fanoutConfig () ()) hrun⟩

end SequentialRuntime

end CkksRuntime
