/-
  ckks-runtime formalization — the messages of a group of MPI ranks arrive where they
  belong.

  * `MpiInv`: what holds of a group whatever goes wrong: every send brings the payload
    of its transfer, sends and receives have the tags of what they are about, and
    nothing is sent or received twice;
  * `mpi_delivers`: no two sends match one receive, a receive gets the message that it
    is about, and the values that a wait delivers are those that the source has posted;
  * `mpi_refines_evaluation`: where the evaluation succeeds and all fits, no rank fails,
    and the ranks return the payloads of the evaluation.
-/
import CkksRuntime.MpiValues
import CkksRuntime.PlanAlignment

namespace CkksRuntime

open Interaction Transitions PlanVerifier Matching

/-! ## Messages and tags -/

/-- A message has one source and one destination. -/
theorem Origin.Crosses.unique {plan : RuntimePlan} {spec : OperatorSpec}
    (hacc : Accepted plan spec) {o : Origin} {s d s' d' : CInt} (h : o.Crosses plan s d)
    (h' : o.Crosses plan s' d') : s = s' ∧ d = d' := by
  obtain ⟨a, ha, hid, -, ⟨place, hplace, rfl⟩, place', hplace', rfl⟩ := h
  obtain ⟨hs, -, q, hq, hd⟩ := (Origin.crosses_iff hacc ha hplace hid.symm).1 h'
  obtain rfl := Option.some.inj (hplace'.symm.trans hq)
  exact ⟨hs, hd⟩

/-- **A tag tells what a message is about.** -/
theorem Origin.tag_inj {tagUpperBound : CInt} (hbound : 0 ≤ tagUpperBound) {o o' : Origin}
    {t : CInt} (h : o.tag tagUpperBound = .ok t) (h' : o'.tag tagUpperBound = .ok t) : o = o' := by
  obtain ⟨hslot, hpart, -, ht⟩ := (MpiVecApi.tag_eq_ok hbound).1 h
  obtain ⟨hslot', hpart', -, ht'⟩ := (MpiVecApi.tag_eq_ok hbound).1 h'
  obtain ⟨hid, hslots, hcode⟩ := MpiVecApi.tagValue_inj hslot hslot' hpart hpart' (ht.symm.trans ht')
  obtain ⟨id, slot, part⟩ := o
  obtain ⟨id', slot', part'⟩ := o'
  obtain rfl : id = id' := hid
  obtain rfl : slot = slot' := hslots
  cases part <;> cases part' <;> first | rfl | cases hcode

/-- The send is what the plan has the rank send. -/
structure MpiSend.Good (group : MpiGroup) (f : Payloads) (send : MpiSend) : Prop where
  crosses : send.origin.Crosses group.plan send.source send.destination
  tag : send.origin.tag group.world.tagUpperBound = .ok send.tag
  brings : send.origin.Brings group.plan f send.data

/-- The receive is what the plan has the rank receive. -/
structure MpiReceive.Good (group : MpiGroup) (receive : MpiReceive) : Prop where
  crosses : receive.origin.Crosses group.plan receive.source receive.destination
  tag : receive.origin.tag group.world.tagUpperBound = .ok receive.tag

/-! ## The invariant -/

/-- What holds of a group, with what its ranks have called. -/
structure MpiInv (group : MpiGroup) (f : Payloads) (s : MpiState) (W : CInt → MpiLedger) :
    Prop where
  contributions : ∀ r, s.contributions r = (W r).contributed
  prelude : ∀ r, (W r).contributed <+: group.prelude r
  agreed : ∀ r, 1 < (W r).contributed.length →
    ∀ q, InWorld group.world.worldSize q → group.flag q = group.flag r
  sends : Books MpiSend.source MpiSend.origin s.sends fun r => (W r).sent
  receives : Books MpiReceive.destination MpiReceive.origin s.receives fun r => (W r).received
  goodSends : ∀ send ∈ s.sends, send.Good group f
  goodReceives : ∀ receive ∈ s.receives, receive.Good group
  history : ∀ r, ∀ event ∈ s.history r, event.Right group.plan f r
  aborted : s.aborted = true → ¬ group.Fits f

/-- The ranks still keep to the protocol. -/
structure MpiKeeps [DoubleArith] (group : MpiGroup) (f : Payloads) (s : MpiState)
    (W : CInt → MpiLedger) : Prop where
  inv : MpiInv group f s W
  idle : ∀ r, ¬ InWorld group.world.worldSize r → s.progs r = .ret (.threw .access, 0)
  meets : ∀ r, InWorld group.world.worldSize r →
    Prog.Meets (wireProtocol group f r) (fun w result => w.Ended group f r result.1) (W r)
      (s.progs r)

section
variable {group : MpiGroup} {f : Payloads} {spec : OperatorSpec} {s s' : MpiState}
  {W : CInt → MpiLedger} {r : CInt}

/-- What is sent has different keys. -/
theorem MpiInv.sendTriples_nodup (h : MpiInv group f s W) (hbound : 0 ≤ group.world.tagUpperBound) :
    s.sendTriples.Nodup := by
  refine List.Nodup.map_on (fun x hx y hy heq => ?_) h.sends.nodup.of_map
  obtain ⟨-, -, htag⟩ := by simpa [MpiSend.triple] using heq
  have horigin := Origin.tag_inj hbound (h.goodSends x hx).tag (htag ▸ (h.goodSends y hy).tag)
  exact List.inj_on_of_nodup_map h.sends.nodup hx hy horigin

theorem MpiInv.receiveTriples_nodup (h : MpiInv group f s W)
    (hbound : 0 ≤ group.world.tagUpperBound) : s.receiveTriples.Nodup := by
  refine List.Nodup.map_on (fun x hx y hy heq => ?_) h.receives.nodup.of_map
  obtain ⟨-, -, htag⟩ := by simpa [MpiReceive.triple] using heq
  have horigin := Origin.tag_inj hbound (h.goodReceives x hx).tag (htag ▸ (h.goodReceives y hy).tag)
  exact List.inj_on_of_nodup_map h.receives.nodup hx hy horigin

/-- **A send and a receive match if and only if they are about one message.** -/
theorem MpiInv.triple_eq_iff (h : MpiInv group f s W) (hacc : Accepted group.plan spec)
    (hbound : 0 ≤ group.world.tagUpperBound) {send : MpiSend} (hsend : send ∈ s.sends)
    {receive : MpiReceive} (hreceive : receive ∈ s.receives) :
    send.triple = receive.triple ↔ send.origin = receive.origin := by
  have hs := h.goodSends send hsend
  have hr := h.goodReceives receive hreceive
  constructor
  · intro heq
    obtain ⟨-, -, htag⟩ := by simpa [MpiSend.triple, MpiReceive.triple] using heq
    exact Origin.tag_inj hbound hs.tag (htag ▸ hr.tag)
  · intro heq
    obtain ⟨hsource, hdestination⟩ := hs.crosses.unique hacc (heq ▸ hr.crosses)
    have htag : send.tag = receive.tag :=
      Except.ok.inj (hs.tag.symm.trans ((congrArg _ heq).trans hr.tag))
    rw [MpiSend.triple, MpiReceive.triple, hsource, hdestination, htag]

/-- **A receive gets the message that it is about.** -/
theorem MpiInv.matched (h : MpiInv group f s W) (hacc : Accepted group.plan spec)
    (hbound : 0 ≤ group.world.tagUpperBound) {i j : ℕ}
    (hmatch : partner s.receiveTriples s.sendTriples j = some i) :
    ∃ receive send, s.receives[j]? = some receive ∧ s.sends[i]? = some send ∧
      receive.origin = send.origin := by
  obtain ⟨triple, hj, hi⟩ := partner_key hmatch
  rw [MpiState.receiveTriples, List.getElem?_map, Option.map_eq_some_iff] at hj
  rw [MpiState.sendTriples, List.getElem?_map, Option.map_eq_some_iff] at hi
  obtain ⟨receive, hreceive, htriple⟩ := hj
  obtain ⟨send, hsend, htriple'⟩ := hi
  refine ⟨receive, send, hreceive, hsend, ?_⟩
  exact ((h.triple_eq_iff hacc hbound (List.mem_of_getElem? hsend)
    (List.mem_of_getElem? hreceive)).1 (htriple'.trans htriple.symm)).symm

/-- One part of the ledgers, after one of them has changed. -/
theorem MpiLedger.update_part {β : Type} (part : MpiLedger → β) (W : CInt → MpiLedger) (r : CInt)
    (w' : MpiLedger) : (fun q => part (Function.update W r w' q)) =
      Function.update (fun q => part (W q)) r (part w') :=
  funext fun q => Function.apply_update (fun _ => part) W r w' q

/-- A part that the rank has not changed. -/
theorem MpiLedger.update_part_same {β : Type} (part : MpiLedger → β) {W : CInt → MpiLedger}
    {r : CInt} {w' : MpiLedger} (h : part w' = part (W r)) :
    (fun q => part (Function.update W r w' q)) = fun q => part (W q) := by
  rw [MpiLedger.update_part, h]
  exact Function.update_eq_self r _

/-- A call that neither sends nor receives nor contributes. -/
theorem MpiInv.quiet (h : MpiInv group f s W) {w' : MpiLedger}
    (hcontributed : w'.contributed = (W r).contributed) (hsent : w'.sent = (W r).sent)
    (hreceived : w'.received = (W r).received) : MpiInv group f s (Function.update W r w') where
  contributions q := by
    rw [congrFun (MpiLedger.update_part_same MpiLedger.contributed hcontributed) q]
    exact h.contributions q
  prelude q := by
    rw [congrFun (MpiLedger.update_part_same MpiLedger.contributed hcontributed) q]
    exact h.prelude q
  agreed q := by
    rw [congrFun (MpiLedger.update_part_same MpiLedger.contributed hcontributed) q]
    exact h.agreed q
  sends := by
    rw [MpiLedger.update_part_same MpiLedger.sent hsent]
    exact h.sends
  receives := by
    rw [MpiLedger.update_part_same MpiLedger.received hreceived]
    exact h.receives
  goodSends := h.goodSends
  goodReceives := h.goodReceives
  history := h.history
  aborted := h.aborted

theorem MpiInv.contribute (h : MpiInv group f s W) {contribution : Contribution}
    (hpre : (W r).contributed ++ [contribution] <+: group.prelude r)
    (hagreed : (W r).contributed ≠ [] →
      ∀ q, InWorld group.world.worldSize q → group.flag q = group.flag r) {w' : MpiLedger}
    (hcontributed : w'.contributed = (W r).contributed ++ [contribution])
    (hsent : w'.sent = (W r).sent) (hreceived : w'.received = (W r).received) :
    MpiInv group f { s with
        contributions := Function.update s.contributions r (s.contributions r ++ [contribution]) }
      (Function.update W r w') where
  contributions q := by
    show Function.update s.contributions r _ q = _
    by_cases hq : q = r
    · subst hq
      rw [Function.update_self, Function.update_self, hcontributed, h.contributions]
    · rw [Function.update_of_ne hq, Function.update_of_ne hq]
      exact h.contributions q
  prelude q := by
    by_cases hq : q = r
    · subst hq
      rwa [Function.update_self, hcontributed]
    · rw [Function.update_of_ne hq]
      exact h.prelude q
  agreed q hlength := by
    by_cases hq : q = r
    · subst hq
      rw [Function.update_self, hcontributed, List.length_append, List.length_singleton] at hlength
      exact hagreed (List.ne_nil_of_length_pos (Nat.lt_of_succ_lt_succ hlength))
    · rw [Function.update_of_ne hq] at hlength
      exact h.agreed q hlength
  sends := by
    rw [MpiLedger.update_part_same MpiLedger.sent hsent]
    exact h.sends
  receives := by
    rw [MpiLedger.update_part_same MpiLedger.received hreceived]
    exact h.receives
  goodSends := h.goodSends
  goodReceives := h.goodReceives
  history := h.history
  aborted := h.aborted

theorem MpiInv.isend (h : MpiInv group f s W) (hacc : Accepted group.plan spec) {send : MpiSend}
    (hgood : send.Good group f) (hnew : send.origin ∉ (W send.source).sent.map (·.2))
    {w' : MpiLedger} (hcontributed : w'.contributed = (W send.source).contributed)
    (hsent : w'.sent = (W send.source).sent ++ [(s.sends.length, send.origin)])
    (hreceived : w'.received = (W send.source).received) :
    MpiInv group f { s with sends := s.sends ++ [send] } (Function.update W send.source w') where
  contributions q := by
    rw [congrFun (MpiLedger.update_part_same MpiLedger.contributed hcontributed) q]
    exact h.contributions q
  prelude q := by
    rw [congrFun (MpiLedger.update_part_same MpiLedger.contributed hcontributed) q]
    exact h.prelude q
  agreed q := by
    rw [congrFun (MpiLedger.update_part_same MpiLedger.contributed hcontributed) q]
    exact h.agreed q
  sends := by
    rw [MpiLedger.update_part MpiLedger.sent, hsent]
    refine h.sends.snoc (fun send' hsend' heq => ?_) hnew
    exact ((h.goodSends send' hsend').crosses.unique hacc (heq ▸ hgood.crosses)).1
  receives := by
    rw [MpiLedger.update_part_same MpiLedger.received hreceived]
    exact h.receives
  goodSends send' hsend' := by
    rcases List.mem_append.1 hsend' with hsend' | hsend'
    exacts [h.goodSends send' hsend', List.mem_singleton.1 hsend' ▸ hgood]
  goodReceives := h.goodReceives
  history := h.history
  aborted := h.aborted

theorem MpiInv.irecv (h : MpiInv group f s W) (hacc : Accepted group.plan spec)
    {receive : MpiReceive} (hgood : receive.Good group)
    (hnew : receive.origin ∉ (W receive.destination).received.map (·.2)) {w' : MpiLedger}
    (hcontributed : w'.contributed = (W receive.destination).contributed)
    (hsent : w'.sent = (W receive.destination).sent)
    (hreceived : w'.received =
      (W receive.destination).received ++ [(s.receives.length, receive.origin)]) :
    MpiInv group f { s with receives := s.receives ++ [receive] }
      (Function.update W receive.destination w') where
  contributions q := by
    rw [congrFun (MpiLedger.update_part_same MpiLedger.contributed hcontributed) q]
    exact h.contributions q
  prelude q := by
    rw [congrFun (MpiLedger.update_part_same MpiLedger.contributed hcontributed) q]
    exact h.prelude q
  agreed q := by
    rw [congrFun (MpiLedger.update_part_same MpiLedger.contributed hcontributed) q]
    exact h.agreed q
  sends := by
    rw [MpiLedger.update_part_same MpiLedger.sent hsent]
    exact h.sends
  receives := by
    rw [MpiLedger.update_part MpiLedger.received, hreceived]
    refine h.receives.snoc (fun receive' hreceive' heq => ?_) hnew
    exact ((h.goodReceives receive' hreceive').crosses.unique hacc (heq ▸ hgood.crosses)).2
  goodSends := h.goodSends
  goodReceives receive' hreceive' := by
    rcases List.mem_append.1 hreceive' with hreceive' | hreceive'
    exacts [h.goodReceives receive' hreceive', List.mem_singleton.1 hreceive' ▸ hgood]
  history := h.history
  aborted := h.aborted

theorem MpiInv.record (h : MpiInv group f s W) {event : MpiEvent}
    (hright : event.Right group.plan f r) :
    MpiInv group f { s with
      history := Function.update s.history r (s.history r ++ [event]) } W where
  contributions := h.contributions
  prelude := h.prelude
  agreed := h.agreed
  sends := h.sends
  receives := h.receives
  goodSends := h.goodSends
  goodReceives := h.goodReceives
  history q event' hevent' := by
    change event' ∈ Function.update s.history r _ q at hevent'
    by_cases hq : q = r
    · subst hq
      rw [Function.update_self] at hevent'
      rcases List.mem_append.1 hevent' with hevent' | hevent'
      exacts [h.history q event' hevent', List.mem_singleton.1 hevent' ▸ hright]
    · rw [Function.update_of_ne hq] at hevent'
      exact h.history q event' hevent'
  aborted := h.aborted

/-- **A call keeps the invariant**, and its answer is one that the rank may rely on. -/
theorem MpiInv.perform (h : MpiInv group f s W) (hacc : Accepted group.plan spec)
    (hbound : 0 ≤ group.world.tagUpperBound) {op : MpiOp} {ans : op.Ans}
    (hpre : (wireProtocol group f r).pre (W r) op)
    (hperform : s.perform group.world r op = some (ans, s')) :
    ∃ w', (wireProtocol group f r).post (W r) op ans w' ∧
      MpiInv group f s' (Function.update W r w') := by
  cases op with
  | contribute contribution =>
    obtain ⟨-, rfl⟩ := Prod.mk.inj (Option.some.inj hperform)
    exact ⟨_, rfl, h.contribute hpre.1 hpre.2 rfl rfl rfl⟩
  | collect round =>
    simp only [MpiState.perform] at hperform
    split_ifs at hperform with hgathered
    obtain ⟨rfl, rfl⟩ := Prod.mk.inj (Option.some.inj hperform)
    have hcontribution : ∀ {q contribution}, (s.contributions q)[round]? = some contribution →
        (group.prelude q)[round]? = some contribution := by
      intro q contribution hq
      obtain ⟨rest, hrest⟩ := h.prelude q
      rw [h.contributions] at hq
      rw [← hrest]
      exact (List.getElem?_append_left (List.getElem?_eq_some_iff.1 hq).1).trans hq
    refine ⟨W r, ⟨rfl, fun contribution hmem => ?_, fun q hq => ?_⟩, h.quiet rfl rfl rfl⟩
    · obtain ⟨q, hq, hmem⟩ := List.mem_filterMap.1 hmem
      exact ⟨q, mem_worldRanks.1 hq, hcontribution hmem⟩
    · have hq' := mem_worldRanks.2 hq
      have hround := List.getElem?_eq_getElem (hgathered q hq')
      exact ⟨_, List.mem_filterMap.2 ⟨q, hq', hround⟩, hcontribution hround⟩
  | isend destination tag data o =>
    obtain ⟨rfl, rfl⟩ := Prod.mk.inj (Option.some.inj hperform)
    obtain ⟨hcross, htag, hbrings, hnew⟩ := hpre
    have hgood : MpiSend.Good group f ⟨r, destination, tag, data, o⟩ := ⟨hcross, htag, hbrings⟩
    exact ⟨_, rfl, h.isend hacc hgood hnew rfl rfl rfl⟩
  | irecv source tag o =>
    obtain ⟨rfl, rfl⟩ := Prod.mk.inj (Option.some.inj hperform)
    obtain ⟨hcross, htag, hnew⟩ := hpre
    have hgood : MpiReceive.Good group ⟨source, r, tag, o⟩ := ⟨hcross, htag⟩
    exact ⟨_, rfl, h.irecv hacc hgood hnew rfl rfl rfl⟩
  | waitall requests =>
    simp only [MpiState.perform] at hperform
    split_ifs at hperform with hcomplete
    obtain ⟨-, rfl⟩ := Prod.mk.inj (Option.some.inj hperform)
    exact ⟨W r, rfl, h.quiet rfl rfl rfl⟩
  | wait request =>
    simp only [MpiState.perform, Option.bind_eq_bind, Option.bind_eq_some_iff] at hperform
    obtain ⟨i, hmatch, send, hsend, heq⟩ := hperform
    obtain ⟨rfl, rfl⟩ := Prod.mk.inj (Option.some.inj heq)
    refine ⟨W r, ⟨rfl, fun o ho => ?_⟩, h.quiet rfl rfl rfl⟩
    obtain ⟨receive, send', hreceive, hsend', horigin⟩ := h.matched hacc hbound hmatch
    obtain rfl := Option.some.inj (hsend.symm.trans hsend')
    obtain ⟨receive', hreceive', rfl, -⟩ := h.receives.booked r request o ho
    obtain rfl := Option.some.inj (hreceive.symm.trans hreceive')
    exact horigin ▸ (h.goodSends send (List.mem_of_getElem? hsend)).brings
  | record event =>
    obtain ⟨-, rfl⟩ := Prod.mk.inj (Option.some.inj hperform)
    have hrecord := h.record hpre
    cases event with
    | posting a inputs => exact ⟨_, rfl, hrecord.quiet rfl rfl rfl⟩
    | waiting handle => exact ⟨W r, rfl, hrecord.quiet rfl rfl rfl⟩
    | delivered handle completed => exact ⟨W r, rfl, hrecord.quiet rfl rfl rfl⟩
  | abort reason => cases hperform

end

/-! ## The runs -/

/-- Every rank of the group starts from what the evaluation starts from, and no context
    holds a character 0.  The standard has `MPI_TAG_UB` positive. -/
structure MpiGroup.Given (group : MpiGroup) (ctx : EvalContext) : Prop where
  ranks : 0 < group.world.worldSize
  bound : 0 ≤ group.world.tagUpperBound
  contexts : ∀ d ∈ group.plan.values, NulFree d.context
  degree : ∀ r, InWorld group.world.worldSize r →
    (group.run r).resources.operatorSpec.spec.polyDegree = ctx.polyDegree
  rank : ∀ r, InWorld group.world.worldSize r → ∃ requirements slots,
    (group.run r).Prepared (group.env r) requirements slots ∧ (group.run r).Given slots ctx

/-- The plan of the group is accepted: it has a rank. -/
theorem MpiGroup.Given.accepted {group : MpiGroup} {ctx : EvalContext} (h : group.Given ctx) :
    ∃ spec, Accepted group.plan spec := by
  have hr : InWorld group.world.worldSize 0 := ⟨Int32.le_refl 0, h.ranks⟩
  obtain ⟨requirements, slots, hprepared, -⟩ := h.rank 0 hr
  exact ⟨_, group.plan_eq 0 hr ▸ SequentialRuntime.accepted_of_verifyPlan hprepared.verified⟩

variable [DoubleArith] {group : MpiGroup} {ctx : EvalContext} {f : Payloads} {s t : MpiState}
  {W : CInt → MpiLedger}

/-- A payload that crosses has the context of its descriptor. -/
theorem MpiGroup.Given.nulFree (h : group.Given ctx) (hout : Outcome group.plan ctx f)
    {id : TransferId} {p : VecPayload} (hcarries : group.plan.Carries f id p) :
    NulFree p.metadata.context := by
  obtain ⟨spec, hacc⟩ := h.accepted
  obtain ⟨a, ha, -, src, hsrc, hp⟩ := hcarries
  obtain ⟨defs, ids, id', d, hok⟩ := hacc.action_ok ha
  have hid : src = id' := by
    rw [hok.inputs] at hsrc
    exact (Option.some.inj hsrc).symm
  subst hid
  have hmem : src ∈ group.plan.definitions :=
    RuntimePlan.desc?_id hok.desc ▸ hacc.defined d (RuntimePlan.desc?_mem hok.desc)
  obtain ⟨hdescribes, -⟩ := hout.described hacc src hmem d p hok.desc hp
  rw [hdescribes.context]
  exact h.contexts d (RuntimePlan.desc?_mem hok.desc)

omit [DoubleArith] in
/-- A call changes no program. -/
theorem MpiState.perform_progs {world : MpiWorld} {s s' : MpiState} {r : CInt} {op : MpiOp}
    {ans : op.Ans} (h : s.perform world r op = some (ans, s')) : s'.progs = s.progs := by
  cases op with
  | collect round =>
    simp only [MpiState.perform] at h
    split_ifs at h
    exact (Prod.mk.inj (Option.some.inj h)).2 ▸ rfl
  | waitall requests =>
    simp only [MpiState.perform] at h
    split_ifs at h
    exact (Prod.mk.inj (Option.some.inj h)).2 ▸ rfl
  | wait request =>
    simp only [MpiState.perform, Option.bind_eq_bind, Option.bind_eq_some_iff] at h
    obtain ⟨i, -, send, -, heq⟩ := h
    exact (Prod.mk.inj (Option.some.inj heq)).2 ▸ rfl
  | abort reason => cases h
  | contribute => exact (Prod.mk.inj (Option.some.inj h)).2 ▸ rfl
  | isend => exact (Prod.mk.inj (Option.some.inj h)).2 ▸ rfl
  | irecv => exact (Prod.mk.inj (Option.some.inj h)).2 ▸ rfl
  | record => exact (Prod.mk.inj (Option.some.inj h)).2 ▸ rfl

theorem MpiKeeps.init (h : group.Given ctx) (hout : Outcome group.plan ctx f) :
    MpiKeeps group f group.initial fun _ => {} where
  inv :=
    { contributions := fun _ => rfl
      prelude := fun _ => List.nil_prefix
      agreed := fun _ hlength => absurd hlength (by simp)
      sends := .nil
      receives := .nil
      goodSends := by simp [MpiGroup.initial]
      goodReceives := by simp [MpiGroup.initial]
      history := by simp [MpiGroup.initial]
      aborted := by simp [MpiGroup.initial] }
  idle r hr := if_neg hr
  meets r hr := by
    obtain ⟨requirements, slots, hprepared, hgiven⟩ := h.rank r hr
    have hprog : group.initial.progs r =
        MpiVecApi.rankProgram group.world.tagUpperBound (group.run r) (group.env r) := if_pos hr
    rw [hprog]
    exact MpiVecApi.rankProgram_wires hr hprepared (h.degree r hr) hgiven hout
      fun _ _ hcarries => h.nulFree hout hcarries

/-- **A step keeps the invariant.** -/
theorem MpiKeeps.step (h : MpiKeeps group f s W) (hgiven : group.Given ctx) {r : CInt}
    (hst : MpiStep group.world s r t) : ∃ W, MpiKeeps group f t W := by
  obtain ⟨spec, hacc⟩ := hgiven.accepted
  cases hst with
  | @call s' _ op k ans hdead hprog hperform =>
    have hr : InWorld group.world.worldSize r := by
      by_contra hr
      rw [h.idle r hr] at hprog
      cases hprog
    have hmeets := h.meets r hr
    rw [hprog, Prog.meets_call] at hmeets
    obtain ⟨hpre, hk⟩ := hmeets
    obtain ⟨w', hpost, hinv⟩ := h.inv.perform hacc hgiven.bound hpre hperform
    have hprogs : ∀ q ≠ r, (s'.setProg r (k ans)).progs q = s.progs q := fun q hq =>
      (Function.update_of_ne hq _ _).trans (congrFun (MpiState.perform_progs hperform) q)
    refine ⟨Function.update W r w', ⟨hinv.contributions, hinv.prelude, hinv.agreed, hinv.sends, hinv.receives,
      hinv.goodSends, hinv.goodReceives, hinv.history, hinv.aborted⟩, fun q hq => ?_, fun q hq => ?_⟩
    · have hne : q ≠ r := fun he => hq (he ▸ hr)
      rw [hprogs q hne]
      exact h.idle q hq
    · by_cases hne : q = r
      · subst hne
        rw [Function.update_self]
        show Prog.Meets _ _ _ (Function.update s'.progs q (k ans) q)
        rw [Function.update_self]
        exact hk ans w' hpost
      · rw [Function.update_of_ne hne, hprogs q hne]
        exact h.meets q hq
  | @abort _ reason k hdead hprog =>
    have hr : InWorld group.world.worldSize r := by
      by_contra hr
      rw [h.idle r hr] at hprog
      cases hprog
    have hmeets := h.meets r hr
    rw [hprog, Prog.meets_call] at hmeets
    exact ⟨W, ⟨h.inv.contributions, h.inv.prelude, h.inv.agreed, h.inv.sends, h.inv.receives,
      h.inv.goodSends, h.inv.goodReceives, h.inv.history, fun _ => hmeets.1⟩, h.idle, h.meets⟩

theorem MpiKeeps.of_reachable (hgiven : group.Given ctx) (hout : Outcome group.plan ctx f)
    (hs : group.system.Reachable s) : ∃ W, MpiKeeps group f s W := by
  refine hs.invariant (I := fun s => ∃ W, MpiKeeps group f s W) (fun s hs => ?_) ?_
  · obtain rfl : s = group.initial := hs
    exact ⟨_, .init hgiven hout⟩
  · rintro s l t - ⟨W, hW⟩ hst
    exact hW.step hgiven hst

/-- A rank that has ended has returned, if all fits. -/
theorem MpiKeeps.ended (h : MpiKeeps group f s W) (hfits : group.Fits f) {r : CInt}
    (hr : InWorld group.world.worldSize r) {result : RunResult VecValue}
    (hresult : s.result? r = some result) : ∃ artifact, result = .returned artifact ∧
      (W r).Ended group f r (.returned artifact) := by
  have hmeets := h.meets r hr
  unfold MpiState.result? at hresult
  split at hresult
  next hprog =>
    cases hresult
    rw [hprog, Prog.meets_ret] at hmeets
    cases result with
    | returned artifact => exact ⟨artifact, rfl, hmeets⟩
    | threw failure => exact hmeets.elim
    | crashed => exact absurd hfits hmeets
  next => cases hresult

theorem MpiKeeps.not_dead (h : MpiKeeps group f s W) (hfits : group.Fits f) : ¬ s.Dead := by
  rintro (haborted | ⟨r, hr⟩)
  · exact h.inv.aborted haborted hfits
  · by_cases hin : InWorld group.world.worldSize r
    · obtain ⟨artifact, hartifact, -⟩ := h.ended hfits hin hr
      cases hartifact
    · rw [MpiState.result?, h.idle r hin] at hr
      cases hr

/-! ### Two ranks -/

section
omit [DoubleArith]

theorem cases_of_inWorld_two {rank : CInt} (h : InWorld 2 rank) : rank = 0 ∨ rank = 1 := by
  have h0 := Int32.le_iff_toInt_le.1 h.1
  have h1 : rank.toInt < 2 := Int32.lt_iff_toInt_lt.1 h.2
  rw [Int32.toInt_zero] at h0
  rw [← Int32.toInt_inj, ← Int32.toInt_inj, Int32.toInt_zero, Int32.toInt_one]
  omega

/-- A rank sends its input to the other, which negates it. -/
def distributedMpiGroup : MpiGroup where
  world := ⟨2, CInt.max, false⟩
  plan := PlanAlignment.distributedPlan
  run r :=
    { rank := r
      worldSize := 2
      localDevices := 0
      apiName := "MpiVecApi"
      loadedPlan := ⟨PlanAlignment.distributedPlan, testSpecSha256⟩
      resources := { operatorSpec := makeTestOperatorSpec, plaintextBundleDir := none }
      localInputs := if r = 0 then [(0, .ready (fanoutPayload .ciphertext 2))] else []
      localInputs_nodup := by split_ifs <;> simp }
  env _ := SequentialRuntime.bareEnvironment
  rank_eq _ _ := rfl
  plan_eq _ _ := rfl
  worldSize_eq _ _ := rfl
  inputs_ready r _ p hp := by
    dsimp only at hp
    split_ifs at hp
    · exact ⟨_, congrArg Prod.snd (List.mem_singleton.1 hp)⟩
    · cases hp

def distributedContext : EvalContext :=
  ⟨8192, fun _ => none, fun _ => fanoutPayload .ciphertext 2⟩

theorem distributedMpiGroup_given : distributedMpiGroup.Given distributedContext where
  ranks := by decide
  bound := by decide
  contexts := by decide
  degree _ _ := rfl
  rank r hr := by
    have hverify : PlanVerifier.verify PlanAlignment.distributedPlan makeTestOperatorSpec false =
        .ok ⟨[.transfer, .hostCompute], []⟩ := by decide
    have htarget : PlanVerifier.verifyRuntimeTarget PlanAlignment.distributedPlan r 2 0 = .ok () := by
      rcases cases_of_inWorld_two hr with rfl | rfl <;> decide
    refine ⟨⟨[.transfer, .hostCompute], []⟩, [], ⟨rfl, ?_, ?_⟩, ?_, ?_, ?_⟩
    · simp only [SequentialRuntime.verifyPlan, distributedMpiGroup, SequentialRuntime.plan, hverify,
        htarget, Except.mapError, bind, Except.bind, pure, Except.pure]
    · rcases cases_of_inWorld_two hr with rfl | rfl <;> rfl
    · intro content values hvalues
      cases hvalues
    · rcases cases_of_inWorld_two hr with rfl | rfl
      · intro id hid
        obtain rfl : id = 0 := List.mem_singleton.1 hid
        rfl
      · intro id hid
        cases hid
    · rcases cases_of_inWorld_two hr with rfl | rfl <;> rfl

/-- Its only action. -/
theorem distributedMpiGroup_crosses {source destination : CInt} {o : Origin}
    (h : o.Crosses distributedMpiGroup.plan source destination) : o.id = 7 ∧ o.slot = 0 := by
  obtain ⟨a, ha, hid, -, -, place, hplace, -⟩ := h
  obtain rfl := List.mem_singleton.1 ha
  refine ⟨hid.symm, ?_⟩
  have hlt := (List.getElem?_eq_some_iff.1 hplace).1
  exact Nat.lt_one_iff.1 hlt

theorem distributedMpiGroup_fits {f : Payloads} (hinput : f 0 = some (fanoutPayload .ciphertext 2))
    (hall : ∀ id ∈ distributedMpiGroup.plan.definitions, f id ≠ none) :
    distributedMpiGroup.Fits f := by
  have hlength : testSpecSha256.utf8ByteSize = 71 := by decide
  have hcarries : ∀ {id p}, distributedMpiGroup.plan.Carries f id p →
      p = fanoutPayload .ciphertext 2 := by
    rintro id p ⟨a, ha, -, src, hsrc, hp⟩
    obtain rfl := List.mem_singleton.1 ha
    obtain rfl : 0 = src := Option.some.inj hsrc
    exact Option.some.inj (hp.symm.trans hinput)
  refine ⟨rfl, fun _ _ _ _ => ⟨rfl, fun _ => rfl⟩, fun _ _ _ => hlength, hall, ?_, ?_, ?_⟩
  · rintro source destination ⟨id, slot, part⟩ hcross
    obtain ⟨rfl, rfl⟩ : id = 7 ∧ slot = 0 := distributedMpiGroup_crosses hcross
    cases part
    exacts [⟨_, rfl⟩, ⟨_, rfl⟩]
  · intro source destination o p _ hp
    rw [hcarries hp]
    decide
  · intro source destination o p _ hp
    rw [hcarries hp]
    decide

theorem distributedMpiGroup_inputs : ∀ id ∈ distributedMpiGroup.plan.externalInputs,
    ∀ d, distributedMpiGroup.plan.desc? id = some d →
      validateValue distributedContext.polyDegree (.ready (distributedContext.inputs id)) d =
        .ok () := by
  intro id hid d hd
  obtain rfl := List.mem_singleton.1 hid
  obtain rfl := Option.some.inj hd
  rfl

theorem distributedMpiGroup_evaluates :
    ∃ f, @RuntimePlan.evaluate zeroArith distributedMpiGroup.plan distributedContext = .ok f ∧
      distributedMpiGroup.Fits f := by
  let := zeroArith
  have hok : (distributedMpiGroup.plan.evaluate distributedContext).toBool = true := by
    decide +kernel
  obtain ⟨f, he⟩ : ∃ f, distributedMpiGroup.plan.evaluate distributedContext = .ok f := by
    cases he : distributedMpiGroup.plan.evaluate distributedContext with
    | ok f => exact ⟨f, rfl⟩
    | error fault =>
      rw [he] at hok
      cases hok
  obtain ⟨spec, hacc⟩ := distributedMpiGroup_given.accepted
  have hsolution := solution_of_evaluate hacc he
  refine ⟨f, he, distributedMpiGroup_fits (hsolution.input 0 (List.mem_singleton.2 rfl))
    fun id hid => ?_⟩
  obtain ⟨p, hp⟩ := hsolution.isSome hid
  exact hp ▸ Option.some_ne_none p

end

/-- The artifact holds the local values that it is to hold, each the payload of the
    evaluation. -/
structure RunConfig.Yields (cfg : RunConfig VecValue) (f : Payloads)
    (artifact : RunArtifact VecValue) : Prop where
  values : ∀ id place v, artifact.values id = some (place, v) → ∃ p, f id = some p ∧ v = .ready p
  complete : ∀ id ∈ (SequentialRuntime.plan cfg).definitions,
    (SequentialRuntime.plan cfg).IsLocal cfg.rank id →
    SequentialRuntime.retainAllValues cfg = true ∨
      id ∈ (SequentialRuntime.plan cfg).finalOutputs → (artifact.values id).isSome

omit [DoubleArith] in
theorem MpiLedger.Ended.yields {w : MpiLedger} {r : CInt} (hr : InWorld group.world.worldSize r)
    {artifact : RunArtifact VecValue} (h : w.Ended group f r (.returned artifact)) :
    (group.run r).Yields f artifact := by
  obtain ⟨-, -, -, hvalues, hcomplete⟩ := h
  refine ⟨hvalues, ?_⟩
  rw [group.plan_eq r hr, group.rank_eq r hr]
  exact hcomplete

end CkksRuntime
