/-
  ckks-runtime formalization — an MPI rank keeps to the protocol of its messages.

  `MpiLedger.At` is what a rank has called after some lines of its script: it has
  sent and received exactly the messages of the actions that it has posted, the
  slots of those that it has waited for.

  `rankProgram_wires`: every rank keeps to `wireProtocol`, whatever goes wrong, and
  the values it returns stand for the payloads of the evaluation.
-/
import CkksRuntime.DigestRuns
import CkksRuntime.MpiMessages

namespace CkksRuntime

open Interaction PlanVerifier
open MockVecApi (localSlots)

/-! ## What has been called -/

/-- What the rank has called after the lines `acc`. -/
structure MpiLedger.At (group : MpiGroup) (rank : CInt) (w : MpiLedger) (acc : Script) : Prop where
  preflight : w.contributed = group.prelude rank
  posts : w.posts = acc.posts
  waited : ∀ g, acc.Waited g → g < acc.posts.length
  sent : ∀ o, o ∈ w.sent.map (·.2) ↔ ∃ a ∈ acc.posts, a.id = o.id ∧
    ∃ destination, o.Crosses group.plan rank destination
  received : ∀ o, o ∈ w.received.map (·.2) ↔ ∃ g a, acc.posts[g]? = some a ∧ a.id = o.id ∧
    (o.part = .slots → acc.Waited g) ∧ ∃ source, o.Crosses group.plan source rank

/-- The end of a rank: it has called for every action, and its artifact holds its values. -/
def MpiLedger.Ended (group : MpiGroup) (f : Payloads) (rank : CInt) (w : MpiLedger) :
    RunResult VecValue → Prop
  | .returned artifact => w.Steady group rank ∧ w.posts = group.plan.actions ∧
    (∀ g, w.Collected group rank g) ∧
    (∀ id place v, artifact.values id = some (place, v) → ∃ p, f id = some p ∧ v = .ready p) ∧
    ∀ id ∈ group.plan.definitions, group.plan.IsLocal rank id →
      SequentialRuntime.retainAllValues (group.run rank) = true ∨ id ∈ group.plan.finalOutputs →
        (artifact.values id).isSome
  | .crashed => ¬ group.Fits f
  | .threw _ => False

namespace MpiLedger.At

variable {group : MpiGroup} {f : Payloads} {spec : OperatorSpec} {rank : CInt} {w w' : MpiLedger}
  {acc rest : Script} {context : Context} {g : ℕ} {a : CommAction}

/-- Only posts and waits call. -/
theorem snoc (h : w.At group rank acc) {line : Line} (hpost : line.act.post? = none)
    (hwait : line.act.wait? = none) : w.At group rank (acc ++ [line]) := by
  have hposts : Script.posts (acc ++ [line]) = acc.posts := by
    rw [Script.posts_append, Script.posts_singleton, hpost, Option.toList_none, List.append_nil]
  have hwaited : ∀ g, Script.Waited (acc ++ [line]) g ↔ acc.Waited g := by
    intro g
    rw [Script.waited_append, Script.waited_singleton, hwait]
    simp
  exact ⟨h.preflight, h.posts.trans hposts.symm, by simpa only [hposts, hwaited] using h.waited,
    by simpa only [hposts] using h.sent, by simpa only [hposts, hwaited] using h.received⟩

theorem post (h : w.At group rank acc) (hposted : w.Posted group rank a w') :
    w'.At group rank (acc ++ [⟨context, .post g a⟩]) := by
  have hposts : Script.posts (acc ++ [⟨context, .post g a⟩]) = acc.posts ++ [a] := by
    rw [Script.posts_append]
    rfl
  have hwaited : ∀ g', Script.Waited (acc ++ [⟨context, .post g a⟩]) g' ↔ acc.Waited g' := by
    intro g'
    rw [Script.waited_append, Script.waited_singleton]
    simp [Act.wait?]
  refine ⟨hposted.contributed.trans h.preflight, by rw [hposted.posts, h.posts, hposts],
    fun g' hg' => ?_, fun o => ?_, fun o => ?_⟩
  · rw [hposts, List.length_append]
    exact Nat.lt_add_right _ (h.waited g' ((hwaited g').1 hg'))
  · rw [hposted.sent, h.sent, hposts]
    constructor
    · rintro (⟨b, hb, hrest⟩ | ⟨hid, hcross⟩)
      exacts [⟨b, List.mem_append_left _ hb, hrest⟩, ⟨a, by simp, hid.symm, hcross⟩]
    · rintro ⟨b, hb, hid, hcross⟩
      rcases List.mem_append.1 hb with hb | hb
      · exact Or.inl ⟨b, hb, hid, hcross⟩
      · obtain rfl := List.mem_singleton.1 hb
        exact Or.inr ⟨hid.symm, hcross⟩
  · rw [hposted.received, h.received, hposts]
    simp only [hwaited]
    constructor
    · rintro (⟨g', b, hb, hrest⟩ | ⟨hid, hpart, hcross⟩)
      · have hlt := (List.getElem?_eq_some_iff.1 hb).1
        exact ⟨g', b, (List.getElem?_append_left hlt).trans hb, hrest⟩
      · refine ⟨acc.posts.length, a, by simp, hid.symm, fun hslots => ?_, hcross⟩
        rw [hpart] at hslots
        cases hslots
    · rintro ⟨g', b, hb, hid, hslots, hcross⟩
      rcases Nat.lt_or_ge g' acc.posts.length with hlt | hge
      · exact Or.inl ⟨g', b, (List.getElem?_append_left hlt).symm.trans hb, hid, hslots, hcross⟩
      · -- the new action has not been waited for
        right
        rw [List.getElem?_append_right hge, List.getElem?_singleton] at hb
        split_ifs at hb
        obtain rfl := Option.some.inj hb
        refine ⟨hid.symm, ?_, hcross⟩
        cases hpart : o.part with
        | header => rfl
        | slots => exact absurd (h.waited g' (hslots hpart)) (Nat.not_lt.2 hge)

theorem wait (h : w.At group rank acc) (hg : acc.posts[g]? = some a)
    (harrived : w.Arrived group rank a w') : w'.At group rank (acc ++ [⟨context, .wait g a⟩]) := by
  have hposts : Script.posts (acc ++ [⟨context, .wait g a⟩]) = acc.posts := by
    rw [Script.posts_append, Script.posts_singleton]
    exact List.append_nil _
  have hwaited : ∀ g', Script.Waited (acc ++ [⟨context, .wait g a⟩]) g' ↔
      acc.Waited g' ∨ g' = g := by
    intro g'
    rw [Script.waited_append, Script.waited_singleton]
    simp [Act.wait?, eq_comm]
  refine ⟨harrived.contributed.trans h.preflight, by rw [harrived.posts, h.posts, hposts],
    fun g' hg' => ?_, fun o => ?_, fun o => ?_⟩
  · rw [hposts]
    rcases (hwaited g').1 hg' with hw | rfl
    exacts [h.waited g' hw, (List.getElem?_eq_some_iff.1 hg).1]
  · rw [harrived.sent, h.sent, hposts]
  · rw [harrived.received, h.received, hposts]
    simp only [hwaited]
    constructor
    · rintro (⟨g', b, hb, hid, hslots, hcross⟩ | ⟨hid, hpart, hcross⟩)
      exacts [⟨g', b, hb, hid, fun hpart => Or.inl (hslots hpart), hcross⟩,
        ⟨g, a, hg, hid.symm, fun _ => Or.inr rfl, hcross⟩]
    · rintro ⟨g', b, hb, hid, hslots, hcross⟩
      by_cases hnew : o.part = .slots ∧ g' = g
      · obtain ⟨hpart, rfl⟩ := hnew
        obtain rfl := Option.some.inj (hb.symm.trans hg)
        exact Or.inr ⟨hid.symm, hpart, hcross⟩
      · refine Or.inl ⟨g', b, hb, hid, fun hpart => ?_, hcross⟩
        exact (hslots hpart).resolve_right fun he => hnew ⟨hpart, he⟩

/-- A group that has been waited for has been received. -/
theorem collected (h : w.At group rank acc) (hposts : acc.posts <+: group.plan.actions)
    (hw : acc.Waited g) : w.Collected group rank g := by
  intro a ha source o hid _ hcross
  obtain ⟨rest, hrest⟩ := hposts
  have hlt := h.waited g hw
  rw [← hrest, List.getElem?_append_left hlt] at ha
  exact (h.received o).2 ⟨g, a, ha, hid.symm, fun _ => hw, source, hcross⟩

/-- **Between its calls a rank is steady.** -/
theorem steady (h : w.At group rank acc) (hacc : Accepted group.plan spec)
    (hscript : group.plan.script rank = acc ++ rest) : w.Steady group rank := by
  have hprefix : acc.posts <+: group.plan.actions := by
    have hposts : (group.plan.script rank).posts = group.plan.actions := hacc.script_posts
    rw [← hposts, hscript, Script.posts_append]
    exact List.prefix_append _ _
  refine ⟨h.preflight, h.posts ▸ hprefix, fun a ha destination o hid hcross => ?_,
    fun a ha source o hid hpart hcross => ?_, fun hposts g hg => ?_⟩
  · exact (h.sent o).2 ⟨a, h.posts ▸ ha, hid.symm, destination, hcross⟩
  · rw [h.posts] at ha
    obtain ⟨g, hg⟩ := List.getElem?_of_mem ha
    refine (h.received o).2 ⟨g, a, hg, hid.symm, fun hslots => ?_, source, hcross⟩
    rw [hpart] at hslots
    cases hslots
  · rw [h.posts] at hposts
    exact h.collected hprefix (RuntimePlan.script_initialized hacc hscript hposts g hg)

end MpiLedger.At

/-! ## The calls of a rank -/

/-- Where no value is pending, a value that stands for a payload is that payload. -/
theorem VecValue.Promises.ready {v : VecValue} {p : VecPayload} (h : v.Promises [] p) :
    v = .ready p := by
  cases v with
  | ready q => exact congrArg VecValue.ready h.2
  | pending kind metadata cell => cases h.2

theorem Payloads.stands_nil {f : Payloads} {id : ValueId} {v : VecValue} :
    f.Stands [] id v ↔ ∃ p, f id = some p ∧ v = .ready p := by
  constructor
  · rintro ⟨p, hp, hv⟩
    exact ⟨p, hp, hv.ready⟩
  · rintro ⟨p, hp, rfl⟩
    exact ⟨p, hp, VecValue.promises_ready p⟩

namespace MpiVecApi

variable [DoubleArith] {group : MpiGroup} {f : Payloads} {spec : OperatorSpec}
  {cfg : RunConfig VecValue} {slots : List (String × List Double)}

/-- The executor computes in the thread of the rank. -/
theorem inThread_computeNow {op : ComputeOp} {values : List VecValue} {payloads : List VecPayload}
    (h : List.Forall₂ (VecValue.Promises []) values payloads) :
    inThread (VecExecutor.computeNow (fun _ => .waiting) op values) =
      VecExecutor.computeReady op payloads := by
  have hcomplete : List.Forall₂ (fun v p => v.Completes (fun _ => .waiting) p) values payloads :=
    h.imp fun v p hv => hv.ready ▸ ⟨rfl, rfl, rfl⟩
  rw [VecExecutor.computeNow_completes hcomplete]
  rfl

open SequentialRuntime (plan)

/-- The MPI backend: what it keeps of the values and the messages of a rank. -/
def wireBackend {env : EvalContext} (hplan : plan cfg = group.plan)
    (hacc : Accepted (plan cfg) spec) (hout : Outcome (plan cfg) env f) (hgiven : cfg.Given slots env)
    (hcontexts : ∀ id p, group.plan.Carries f id p → NulFree p.metadata.context) :
    Backend cfg slots env.polyDegree (wireProtocol group f cfg.rank)
      (handle group.world.tagUpperBound cfg.rank) where
  At w acc := w.At group cfg.rank acc
  Val _ id v := f.Stands [] id v
  Group w _ a handle := w.Holds group f cfg.rank a handle
  Err _ _ := ¬ group.Fits f
  val_mono _ hv := hv
  group_mono hle hg := hg.mono hle
  validate_eq v d := rfl
  encode_eq d values := rfl
  bind {w acc context id} hnext hat := by
    have hlocal : id ∈ (plan cfg).localExternals cfg.rank := hnext.sourced
    have hid : id ∈ (plan cfg).definitions :=
      List.mem_append_left _ (List.mem_of_mem_filter hlocal)
    rw [hgiven.inputs id hlocal]
    exact ⟨hat.snoc rfl rfl, hout.bound hlocal fun hnone _ hfits =>
      hfits.evaluates id (hplan ▸ hid) hnone⟩
  checkInputs {w acc context expected} hnext hat := by
    have hexpected : expected = ((plan cfg).localExternals cfg.rank).length := hnext.sourced
    rw [if_neg (by rw [hexpected, hgiven.count]; exact not_not.2 rfl)]
    exact hat.snoc rfl rfl
  encode {w acc context op d values} hnext hat hd hvalues := by
    obtain ⟨⟨i, hi, hbody⟩, -⟩ := hnext.sourced
    have hid : op.output ∈ (plan cfg).definitions :=
      RuntimePlan.mem_definitions_of_instruction hi (by rw [hbody]; exact List.mem_singleton.2 rfl)
    have hencoded := hout.encoded [] hgiven.contents hi hbody hd hvalues
    split
    next v hv =>
      rw [hv] at hencoded
      exact ⟨hat.snoc rfl rfl, hencoded.checked hacc hout hid⟩
    next fault hv =>
      rw [hv] at hencoded
      exact fun hfits => hfits.evaluates _ (hplan ▸ hid) hencoded
  compute {w acc context op inputs} hnext hat hvalues := by
    obtain ⟨⟨i, hi, hbody⟩, -⟩ := hnext.sourced
    have hid : op.output ∈ (plan cfg).definitions :=
      RuntimePlan.mem_definitions_of_instruction hi (by rw [hbody]; exact List.mem_singleton.2 rfl)
    obtain ⟨payloads, hpromises, hresult⟩ := hout.computed hi hbody hvalues
    show Prog.Meets _ _ w (compute op inputs _)
    rw [compute, inThread_computeNow hpromises]
    cases hready : VecExecutor.computeReady op payloads with
    | error fault =>
      rw [hready] at hresult
      exact .ret ⟨le_rfl, rfl, fun hfits => hfits.evaluates _ (hplan ▸ hid) hresult⟩
    | ok q =>
      rw [hready] at hresult
      have hstands : f.Stands [] op.output (.ready q) := ⟨q, hresult, VecValue.promises_ready q⟩
      exact .ret ⟨le_rfl, rfl, hat.snoc rfl rfl, hstands.checked hacc hout hid⟩
  post {w acc context g a inputs} hnext hat hvalues := by
    obtain ⟨rest, hposts⟩ := hnext.posts hacc
    have ha : a ∈ (plan cfg).actions := by rw [hposts]; simp [Act.post?]
    obtain ⟨defs, ids, id, d, hok⟩ := hacc.action_ok ha
    have hsource : a.sources[0]? = some d.place := by rw [hok.sources]; rfl
    have hnew : ∀ b ∈ acc.posts, b.id ≠ a.id := by
      intro b hb he
      have hnodup := hacc.transfers_nodup_prefix (plan cfg).instructions [] (by simp)
      change ((plan cfg).actions.map (·.id)).Nodup at hnodup
      rw [hposts, List.append_assoc, List.map_append, List.nodup_append] at hnodup
      exact hnodup.2.2 a.id (List.mem_map.2 ⟨b, hb, he⟩) a.id (by simp [Act.post?]) rfl
    have hinputs := hvalues
    rw [hok.localInputs_eq] at hinputs
    refine (communicateAsync_meets (hplan ▸ hacc) (hplan ▸ ha) hsource ⟨hplan ▸ ha, hvalues⟩
      (fun hr => ?_) (fun hr => ?_) (fun o hid ho => ?_) fun o hid ho => ?_).mono ?_
    · rw [if_pos hr] at hinputs
      obtain ⟨value, rest', ⟨p, hp, hvalue⟩, hrest, rfl⟩ := List.forall₂_cons_left_iff.1 hinputs
      cases hrest
      exact ⟨p, by rw [hvalue.ready], a, hplan ▸ ha, rfl, id, by rw [hok.inputs]; rfl, hp⟩
    · rw [if_neg hr] at hinputs
      cases hinputs
      rfl
    · obtain ⟨b, hb, hbid, -⟩ := (hat.sent o).1 ho
      exact hnew b hb (hbid.trans hid)
    · obtain ⟨g', b, hb, hbid, -⟩ := (hat.received o).1 ho
      exact hnew b (List.mem_of_getElem? hb) (hbid.trans hid)
    · rintro w' ⟨fault | handle, l⟩ ⟨hle, rfl, hend⟩
      · exact ⟨hle, rfl, hend⟩
      · exact ⟨hle, rfl, hat.post hend.1, hend.2⟩
  wait {w acc context g a handle} hnext hat hgroup := by
    obtain ⟨rest, hscript⟩ := id hnext
    obtain ⟨rest', hposts⟩ := hnext.posts hacc
    obtain ⟨hg, hwaited⟩ := (hnext.ok hacc).wait g a rfl
    have hlt : g < acc.posts.length := (List.getElem?_eq_some_iff.1 hg).1
    have hga : (plan cfg).actions[g]? = some a := by
      rw [hposts, List.append_assoc, List.getElem?_append_left hlt]
      exact hg
    have ha := List.mem_of_getElem? hga
    obtain ⟨defs, ids, id, d, hok⟩ := hacc.action_ok ha
    have hsource : a.sources[0]? = some d.place := by rw [hok.sources]; rfl
    have hacc' : Accepted group.plan spec := hplan ▸ hacc
    have hscript' : group.plan.script cfg.rank = acc ++ ⟨context, .wait g a⟩ :: rest :=
      hplan ▸ hscript
    have hprefix : acc.posts <+: group.plan.actions := by
      rw [← hplan, hposts, List.append_assoc]
      exact List.prefix_append _ _
    refine (wait_meets hacc' hcontexts (hat.steady hacc' hscript') (hplan ▸ hga)
      (hat.posts.symm ▸ hlt) hsource hgroup (fun hnone => ?_) fun o hid hpart ho => ?_).mono ?_
    · obtain ⟨hends, hbefore⟩ := RuntimePlan.script_late hacc' cfg.rank _ _ _ hscript' g a rfl hnone
      exact ⟨hat.posts.symm ▸ hends, fun g' hg' => hat.collected hprefix (hbefore g' hg')⟩
    · -- the group would have been waited for
      obtain ⟨g', b, hb, hbid, hslots, -⟩ := (hat.received o).1 ho
      have hnodup := hacc.transfers_nodup_prefix (plan cfg).instructions [] (by simp)
      change ((plan cfg).actions.map (·.id)).Nodup at hnodup
      have hga' : ((plan cfg).actions.map (·.id))[g']? = some a.id := by
        rw [List.getElem?_map, hposts, List.append_assoc,
          List.getElem?_append_left (List.getElem?_eq_some_iff.1 hb).1, hb, ← hid, ← hbid]
        rfl
      have heq : g' = g := by
        refine (List.getElem?_inj (List.getElem?_eq_some_iff.1 hga').1 hnodup).1 ?_
        rw [hga', List.getElem?_map, hga]
        rfl
      exact hwaited (heq ▸ hslots hpart)
    · rintro w' ⟨fault | ⟨outputs, handle'⟩, l⟩ ⟨hle, rfl, hend⟩
      · exact ⟨hle, rfl, hend⟩
      · obtain ⟨harrived, hlength, houtputs⟩ := hend
        have hlen : outputs.length = (a.localOutputs cfg.rank).length := by
          rw [← MockVecApi.length_localSlots hok.outputs.length_eq]
          exact hlength
        refine ⟨hle, rfl, ?_⟩
        dsimp only
        rw [if_neg (not_not.2 hlen)]
        refine ⟨hat.wait hg harrived, List.forall₂_iff_get.2 ⟨hlen.symm, fun i hi hi' => ?_⟩⟩
        have hmem : (a.localOutputs cfg.rank).get ⟨i, hi⟩ ∈ a.outputs :=
          (hok.mem_localOutputs.1 (List.get_mem _ _)).1
        obtain ⟨p, hcarries, hvalue⟩ := houtputs _ (List.get_mem outputs ⟨i, hi'⟩)
        rw [← hplan] at hcarries
        refine Payloads.Stands.checked hacc hout (RuntimePlan.mem_definitions_of_action ha hmem)
          ⟨p, hcarries.output hacc hout ha hmem, ?_⟩
        rw [hvalue]
        exact VecValue.promises_ready p
  sync {w acc context id v} hnext hat hval := by
    obtain ⟨p, hp, hv⟩ := hval
    obtain rfl := hv.ready
    exact .ret ⟨le_rfl, rfl, hat.snoc rfl rfl, p, hp, hv⟩

/-- **A rank keeps to the protocol**, whatever goes wrong. -/
theorem rankProgram_wires {r : CInt} (hr : InWorld group.world.worldSize r)
    {requirements : PlanRequirements} {ctx : EvalContext}
    (hprepared : (group.run r).Prepared (group.env r) requirements slots)
    (hdegree : (group.run r).resources.operatorSpec.spec.polyDegree = ctx.polyDegree)
    (hgiven : (group.run r).Given slots ctx) (hout : Outcome group.plan ctx f)
    (hcontexts : ∀ id p, group.plan.Carries f id p → NulFree p.metadata.context) :
    Prog.Meets (wireProtocol group f r) (fun w result => w.Ended group f r result.1) {}
      (rankProgram group.world.tagUpperBound (group.run r) (group.env r)) := by
  have hrank := group.rank_eq r hr
  have hplan := group.plan_eq r hr
  have hacc := SequentialRuntime.accepted_of_verifyPlan hprepared.verified
  have hmeets : Prog.Meets (wireProtocol group f (group.run r).rank)
      (fun w (result : RunResult VecValue × ℕ) => w.Ended group f r result.1) {} _ :=
    (wireBackend hplan hacc (hplan ▸ hout) hgiven hcontexts).run_meets
      (Q := fun w result => w.Ended group f r result) hprepared.verified hprepared.loaded
      ?_ hprepared.opened (fun w artifact h => ?_) (fun w failure h _ => h)
      fun w failure reason l h _ => .call h fun ans => ans.elim
  · unfold rankProgram
    rw [hrank] at hmeets ⊢
    exact hmeets
  · refine (preflight_meets (congrArg group.digest hrank.symm) (congrArg group.flag hrank.symm)
      (congrArg RuntimePlan.target hplan) (hrank.symm ▸ hr) rfl).mono ?_
    rintro w ⟨fault | u, l⟩ ⟨-, rfl, hend⟩
    · exact hend
    · obtain rfl := hend
      exact ⟨hdegree, rfl, rfl, by simp, by simp, by simp⟩
  · have hacc' : Accepted group.plan _ := hplan ▸ hacc
    have hlines : w.At group (group.run r).rank
        ((plan (group.run r)).script (group.run r).rank) := h.lines
    rw [hplan, hrank] at hlines
    have hsteady := MpiLedger.At.steady hlines hacc' (List.append_nil _).symm
    have hposts : (group.plan.script r).posts = group.plan.actions := hacc'.script_posts
    refine ⟨hsteady, hlines.posts.trans hposts, fun g => ?_, fun id place v hv =>
      Payloads.stands_nil.1 (h.values id place v hv), fun id hid hlocal hretain => ?_⟩
    · by_cases hlt : g < group.plan.actions.length
      · exact hlines.collected (hposts ▸ List.prefix_rfl) (hacc'.script_waited.2 hlt)
      · intro a ha
        exact absurd (List.getElem?_eq_some_iff.1 ha).1 hlt
    · exact h.holds id (hplan.symm ▸ hid) (by rw [hplan, hrank]; exact hlocal)
        (by rw [hplan]; exact hretain)

end MpiVecApi

end CkksRuntime
