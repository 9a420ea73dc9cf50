/-
  ckks-runtime formalization — the MPI ranks of a group never get stuck.

  * `MpiWaits`: what a rank waits for: a rank that has not called the gather, the send
    of a message, the receive of a message;
  * `all_finished`: if every rank has ended or waits, then all have ended;
  * `mpi_never_stuck`: some rank can step until all have ended;
  * `mpi_completes`: every run ends, with the payloads of the evaluation.

  A send waits for its receive unless MPI buffers it, and the receive of the slots is
  only posted in the wait of its rank.  A rank waits for an action when it needs an
  output of it: two ranks that each need their own copy of what they send to the other
  wait for each other.  So without buffers an action is not to have outputs both on the
  rank of its source and on others (`RuntimePlan.Unmixed`).
-/
import CkksRuntime.Halting
import CkksRuntime.MpiDelivery
import CkksRuntime.Ranks

namespace CkksRuntime

open Interaction Transitions PlanVerifier Matching

/-- No action has outputs both on the rank of its source and on others. -/
def RuntimePlan.Unmixed (plan : RuntimePlan) : Prop :=
  ∀ a ∈ plan.actions, ∀ source, a.sources[0]? = some source →
    (∀ place ∈ a.destinations, place.rank = source.rank) ∨
      ∀ place ∈ a.destinations, place.rank ≠ source.rank

instance (plan : RuntimePlan) : Decidable plan.Unmixed := by
  unfold RuntimePlan.Unmixed
  refine @List.decidableBAll _ _ (fun a => ?_) _
  cases h : a.sources[0]? with
  | none => exact isTrue fun _ h' => by cases h'
  | some place =>
    exact decidable_of_iff ((∀ p ∈ a.destinations, p.rank = place.rank) ∨
      ∀ p ∈ a.destinations, p.rank ≠ place.rank)
      ⟨fun hp source hs => Option.some.inj hs ▸ hp, fun hp => hp place rfl⟩

/-- A message goes from one rank of the plan to another. -/
theorem Origin.Crosses.inWorld {plan : RuntimePlan} {spec : OperatorSpec} {o : Origin}
    {source destination : CInt} (h : o.Crosses plan source destination)
    (hacc : Accepted plan spec) : plan.InWorld source ∧ plan.InWorld destination := by
  obtain ⟨a, ha, -, -, ⟨place, hplace, rfl⟩, place', hplace', rfl⟩ := h
  obtain ⟨defs, ids, id, d, hok⟩ := hacc.action_ok ha
  obtain rfl : d.place = place := by
    rw [hok.sources] at hplace
    exact Option.some.inj hplace
  refine ⟨hacc.desc_inWorld hok.desc, ?_⟩
  obtain ⟨out, -, hout⟩ := forall₂_mem_left hok.outputs.flip (List.mem_of_getElem? hplace')
  exact checkPlace_inWorld hout.place

/-! ## Waiting -/

section
variable {group : MpiGroup} {f : Payloads} {spec : OperatorSpec} {s : MpiState}
  {W : CInt → MpiLedger} {r : CInt}

/-- The send of a message that waits for its receive: the rank waits for action `g`. -/
structure MpiLedger.Sending (group : MpiGroup) (r : CInt) (w : MpiLedger) (g : ℕ) (a : CommAction)
    (o : Origin) (destination : CInt) : Prop where
  action : group.plan.actions[g]? = some a
  posted : g < w.posts.length
  origin : o.id = a.id
  crosses : o.Crosses group.plan r destination
  late : a.localOutputs r = [] → group.plan.Ends w.posts.length ∧
    ∀ g' < g, w.Collected group r g'

/-- What a rank waits for. -/
inductive MpiWaits (group : MpiGroup) (W : CInt → MpiLedger) (r : CInt) : Prop
  /-- in a gather: for a rank that has not called it -/
  | gather (q : CInt) : InWorld group.world.worldSize q →
    (W q).contributed.length < (W r).contributed.length → MpiWaits group W r
  /-- in `MPI_Wait`: for the send of the message -/
  | receive (a : CommAction) (o : Origin) (source : CInt) : (W r).Steady group r →
    a ∈ (W r).posts → o.id = a.id → o.Crosses group.plan source r →
    o ∉ (W source).sent.map (·.2) → MpiWaits group W r
  /-- in `MPI_Waitall`: for the receive of the message -/
  | send (g : ℕ) (a : CommAction) (o : Origin) (destination : CInt) :
    group.world.buffered = false → (W r).Steady group r →
    (W r).Sending group r g a o destination →
    o ∉ (W destination).received.map (·.2) → MpiWaits group W r

/-- The rank has posted and received everything. -/
structure MpiLedger.Finished (group : MpiGroup) (r : CInt) (w : MpiLedger) : Prop where
  steady : w.Steady group r
  posts : w.posts = group.plan.actions
  collected : ∀ g, w.Collected group r g

/-- **A rank that cannot step waits.** -/
theorem MpiKeeps.waits [DoubleArith] (h : MpiKeeps group f s W) (hacc : Accepted group.plan spec)
    (hbound : 0 ≤ group.world.tagUpperBound) (halive : ¬ s.Dead)
    (hr : InWorld group.world.worldSize r) {op : MpiOp} {k} (hprog : s.progs r = .call op k)
    (hstuck : ∀ t, ¬ MpiStep group.world s r t) : MpiWaits group W r := by
  have hmeets := h.meets r hr
  rw [hprog, Prog.meets_call] at hmeets
  have hpre := hmeets.1
  have hserved : s.perform group.world r op = none := by
    by_contra hne
    obtain ⟨⟨ans, s'⟩, hperform⟩ := Option.ne_none_iff_exists'.1 hne
    exact hstuck _ (.call halive hprog hperform)
  cases op with
  | contribute contribution => cases hserved
  | isend destination tag data o => cases hserved
  | irecv source tag o => cases hserved
  | record event => cases hserved
  | abort reason => exact absurd (.abort halive hprog) (hstuck _)
  | collect round =>
    have hround : round + 1 = (W r).contributed.length := hpre
    simp only [MpiState.perform] at hserved
    split_ifs at hserved with hgathered
    simp only [MpiState.Gathered, not_forall, Nat.not_lt] at hgathered
    obtain ⟨q, hq, hle⟩ := hgathered
    rw [h.inv.contributions] at hle
    exact .gather q (mem_worldRanks.1 hq) (hround ▸ Nat.lt_succ_of_le hle)
  | wait request =>
    obtain ⟨hsteady, o, ho, a, ha, hid⟩ := hpre
    obtain ⟨receive, hreceive, rfl, rfl⟩ := h.inv.receives.booked r request o ho
    have hgood := h.inv.goodReceives receive (List.mem_of_getElem? hreceive)
    refine .receive a receive.origin receive.source hsteady ha hid.symm hgood.crosses fun hsent => ?_
    -- the send has been posted: it matches
    obtain ⟨⟨i, o⟩, hi, rfl : o = receive.origin⟩ := List.mem_map.1 hsent
    obtain ⟨send, hsend, horigin, -⟩ := h.inv.sends.booked _ i _ hi
    have htriple := (h.inv.triple_eq_iff hacc hbound (List.mem_of_getElem? hsend)
      (List.mem_of_getElem? hreceive)).2 horigin
    have hkey : s.receiveTriples[request]? = some receive.triple := by
      rw [MpiState.receiveTriples, List.getElem?_map, hreceive]
      rfl
    obtain ⟨j, hj⟩ := partner_of_nodup (h.inv.receiveTriples_nodup hbound) hkey
      (htriple ▸ List.mem_map_of_mem (List.mem_of_getElem? hsend) : receive.triple ∈ s.sendTriples)
    obtain ⟨-, send', -, hsend', -⟩ := h.inv.matched hacc hbound hj
    simp [MpiState.perform, hj, hsend'] at hserved
  | waitall requests =>
    obtain ⟨hsteady, g, a, ha, hg, hrequests, hlate⟩ := hpre
    simp only [MpiState.perform] at hserved
    split_ifs at hserved with hcomplete
    simp only [not_forall] at hcomplete
    obtain ⟨request, hmem, hcomplete⟩ := hcomplete
    obtain ⟨hbuffered, hpartner⟩ := not_or.1 hcomplete
    obtain ⟨o, ho, hid⟩ := hrequests request hmem
    obtain ⟨send, hsend, rfl, rfl⟩ := h.inv.sends.booked r request o ho
    have hgood := h.inv.goodSends send (List.mem_of_getElem? hsend)
    refine .send g a send.origin send.destination (by simpa using hbuffered) hsteady
      ⟨ha, hg, hid, hgood.crosses, hlate⟩ fun hreceived => hpartner ?_
    obtain ⟨⟨i, o⟩, hi, rfl : o = send.origin⟩ := List.mem_map.1 hreceived
    obtain ⟨receive, hreceive, horigin, -⟩ := h.inv.receives.booked _ i _ hi
    have htriple := (h.inv.triple_eq_iff hacc hbound (List.mem_of_getElem? hsend)
      (List.mem_of_getElem? hreceive)).2 horigin.symm
    have hkey : s.sendTriples[request]? = some send.triple := by
      rw [MpiState.sendTriples, List.getElem?_map, hsend]
      rfl
    obtain ⟨j, hj⟩ := partner_of_nodup (h.inv.sendTriples_nodup hbound) hkey
      (htriple ▸ List.mem_map_of_mem (List.mem_of_getElem? hreceive) :
        send.triple ∈ s.receiveTriples)
    rw [hj]
    rfl

/-! ## Nobody waits for ever -/

/-- Where all ranks have ended or wait, no rank waits in a gather: of the ranks that
    have called the fewest gathers, none does, and those have called as many as there
    are. -/
theorem MpiInv.no_gather (h : MpiInv group f s W)
    (hall : ∀ r, InWorld group.world.worldSize r →
      (W r).Finished group r ∨ MpiWaits group W r) {q : CInt}
    (hq : InWorld group.world.worldSize q) :
    ¬ (W q).contributed.length < (W r).contributed.length := by
  obtain ⟨n, hn⟩ : ∃ n, (W q).contributed.length = n := ⟨_, rfl⟩
  induction n using Nat.strong_induction_on generalizing q with
  | _ n ih =>
    intro hlt
    have hsteady : (W q).Steady group q := by
      rcases hall q hq with hfinished | ⟨q', hq', hlt'⟩ | ⟨-, -, -, hsteady⟩ | ⟨-, -, -, -, -, hsteady⟩
      · exact hfinished.steady
      · exact absurd (hlt'.trans hlt) (ih _ (hn ▸ hlt') hq' rfl)
      · exact hsteady
      · exact hsteady
    have hpos : 0 < (W q).contributed.length := by
      rw [hsteady.preflight]
      exact Nat.succ_pos _
    have hflag : group.flag q = group.flag r := h.agreed r (by omega) q hq
    have hle := (h.prelude r).length_le
    have hsame : (group.prelude q).length = (group.prelude r).length := by
      simp only [MpiGroup.prelude, hflag]
      split_ifs <;> rfl
    rw [hsteady.preflight] at hlt
    omega

/-- The outputs of an action that crosses the ranks, on the rank of its source. -/
theorem RuntimePlan.Unmixed.localOutputs (hunmixed : group.plan.Unmixed) {a : CommAction}
    (hacc : Accepted group.plan spec) (ha : a ∈ group.plan.actions) {o : Origin} (hid : o.id = a.id)
    {destination : CInt} (hcross : o.Crosses group.plan r destination) : a.localOutputs r = [] := by
  obtain ⟨defs, ids, id, d, hok⟩ := hacc.action_ok ha
  have hsource : a.sources[0]? = some d.place := by rw [hok.sources]; rfl
  obtain ⟨rfl, hne, place, hplace, rfl⟩ := (Origin.crosses_iff hacc ha hsource hid).1 hcross
  have hothers := (hunmixed a ha _ hsource).resolve_left fun hsame =>
    hne (hsame place (List.mem_of_getElem? hplace)).symm
  refine List.map_eq_nil_iff.2 (List.filter_eq_nil_iff.2 fun x hx => ?_)
  simpa using hothers x.2 (List.of_mem_zip hx).2

/-- The actions that a steady rank has posted, by their positions. -/
theorem MpiLedger.Steady.mem_posts {w : MpiLedger} (h : w.Steady group r) {g : ℕ} {a : CommAction}
    (ha : group.plan.actions[g]? = some a) (hg : g < w.posts.length) : a ∈ w.posts := by
  obtain ⟨rest, hrest⟩ := h.posts
  rw [← hrest, List.getElem?_append_left hg] at ha
  exact List.mem_of_getElem? ha

/-- A message that has not been received is one of the slots of an action that the rank
    has not waited for. -/
theorem MpiLedger.Steady.not_collected {w : MpiLedger} (h : w.Steady group r) {g : ℕ}
    {a : CommAction} (ha : group.plan.actions[g]? = some a) (hg : g < w.posts.length) {o : Origin}
    (hid : o.id = a.id) {source : CInt} (hcross : o.Crosses group.plan source r)
    (hreceived : o ∉ w.received.map (·.2)) : ¬ w.Collected group r g := by
  intro hcollected
  cases hpart : o.part with
  | header => exact hreceived (h.headers a (h.mem_posts ha hg) source o hid hpart hcross)
  | slots => exact hreceived (hcollected a ha source o hid hpart hcross)

/-- **If every rank has ended or waits, then all have ended**, by induction on the number
    of actions that a rank has posted. -/
theorem MpiInv.all_finished (h : MpiInv group f s W) (hacc : Accepted group.plan spec)
    (hworld : ∀ r, group.plan.InWorld r → InWorld group.world.worldSize r)
    (hfree : group.world.buffered = true ∨ group.plan.Unmixed)
    (hall : ∀ r, InWorld group.world.worldSize r →
      (W r).Finished group r ∨ MpiWaits group W r)
    (hr : InWorld group.world.worldSize r) : (W r).Finished group r := by
  have hsteady : ∀ q, InWorld group.world.worldSize q → (W q).Steady group q := by
    intro q hq
    rcases hall q hq with hfinished | ⟨q', hq', hlt⟩ | ⟨-, -, -, hsteady⟩ | ⟨-, -, -, -, -, hsteady⟩
    · exact hfinished.steady
    · exact absurd hlt (h.no_gather hall hq')
    · exact hsteady
    · exact hsteady
  obtain ⟨n, hn⟩ : ∃ n, (W r).posts.length = n := ⟨_, rfl⟩
  induction n using Nat.strong_induction_on generalizing r with
  | _ n ih =>
    -- who has posted `n` actions, and has not ended, waits for a receive
    have hsending : ∀ q, InWorld group.world.worldSize q → (W q).posts.length = n →
        ¬ (W q).Finished group q → group.world.buffered = false ∧ ∃ g a o destination,
          (W q).Sending group q g a o destination ∧ o ∉ (W destination).received.map (·.2) := by
      intro q hq hlength hunfinished
      rcases (hall q hq).resolve_left hunfinished with ⟨q', hq', hlt⟩ |
        ⟨a, o, source, -, ha, hid, hcross, hsent⟩ | ⟨g, a, o, destination, hbuffered, -, hsend, hreceived⟩
      · exact absurd hlt (h.no_gather hall hq')
      · -- the source has not posted the action: it has posted fewer
        exfalso
        have hsource := hworld _ (hcross.inWorld hacc).1
        have hnot : a ∉ (W source).posts := fun ha' =>
          hsent ((hsteady source hsource).sent a ha' q o hid hcross)
        obtain ⟨rest, hrest⟩ := (hsteady q hq).posts
        refine hnot ((ih _ ?_ hsource rfl).posts ▸ hrest ▸ List.mem_append_left rest ha)
        by_contra hge
        obtain ⟨g, hg⟩ := List.getElem?_of_mem ha
        have hlt := (List.getElem?_eq_some_iff.1 hg).1
        refine hnot ((hsteady source hsource).mem_posts (g := g) ?_ (by omega))
        rw [← hrest, List.getElem?_append_left hlt]
        exact hg
      · exact ⟨hbuffered, g, a, o, destination, hsend, hreceived⟩
    by_contra hunfinished
    obtain ⟨hbuffered, g, a, o, destination, hsend, hreceived⟩ := hsending r hr hn hunfinished
    have hunmixed := hfree.resolve_left (by rw [hbuffered]; exact Bool.false_ne_true)
    -- the destination, too, waits for a receive, of an earlier action
    induction g using Nat.strong_induction_on generalizing r a o destination with
    | _ g ihg =>
      obtain ⟨ha, hg, hid, hcross, hlate⟩ := hsend
      have hmem := List.mem_of_getElem? ha
      have hd := hworld _ (hcross.inWorld hacc).2
      obtain ⟨hends, -⟩ := hlate (hunmixed.localOutputs hacc hmem hid hcross)
      have hge : n ≤ (W destination).posts.length := by
        by_contra hlt
        have hposts := (ih _ (Nat.not_le.1 hlt) hd rfl).posts
        have hle := (hsteady r hr).posts.length_le
        rw [hposts] at hlt
        omega
      have hnot := (hsteady _ hd).not_collected ha (by omega) hid hcross hreceived
      have hlength : (W destination).posts.length = n := by
        rcases hends with hinitial | hactions
        · by_contra hne
          exact hnot ((hsteady _ hd).initialized (by omega) g (by omega))
        · have hle := (hsteady _ hd).posts.length_le
          omega
      have hunfinished' : ¬ (W destination).Finished group destination := fun hfinished =>
        hnot (hfinished.collected g)
      obtain ⟨-, g', a', o', destination', hsend', hreceived'⟩ :=
        hsending destination hd hlength hunfinished'
      have hmem' := List.mem_of_getElem? hsend'.action
      obtain ⟨-, hbefore⟩ :=
        hsend'.late (hunmixed.localOutputs hacc hmem' hsend'.origin hsend'.crosses)
      refine ihg g' ?_ hd hlength hunfinished' a' o' destination' hsend' hreceived'
      refine Nat.lt_of_le_of_ne (Nat.not_lt.1 fun hlt => hnot (hbefore g hlt)) fun heq => ?_
      -- it is not the same action: that has another source
      subst heq
      obtain rfl := Option.some.inj (hsend'.action.symm.trans ha)
      obtain ⟨defs, ids, id, d, hok⟩ := hacc.action_ok hmem
      have hsource : a'.sources[0]? = some d.place := by rw [hok.sources]; rfl
      obtain ⟨hrank, hne, -⟩ := (Origin.crosses_iff hacc hmem hsource hid).1 hcross
      obtain ⟨hrank', -⟩ := (Origin.crosses_iff hacc hmem hsource hsend'.origin).1 hsend'.crosses
      exact hne (hrank.symm.trans hrank')

/-- **If every rank has ended or waits, then none waits.** -/
theorem MpiInv.no_waits (h : MpiInv group f s W) (hacc : Accepted group.plan spec)
    (hworld : ∀ r, group.plan.InWorld r → InWorld group.world.worldSize r)
    (hfree : group.world.buffered = true ∨ group.plan.Unmixed)
    (hall : ∀ r, InWorld group.world.worldSize r →
      (W r).Finished group r ∨ MpiWaits group W r) : ¬ MpiWaits group W r := by
  have hfinished : ∀ q, InWorld group.world.worldSize q → (W q).Finished group q := fun q hq =>
    h.all_finished hacc hworld hfree hall hq
  rintro (⟨q, hq, hlt⟩ | ⟨a, o, source, hsteady, ha, hid, hcross, hsent⟩ |
    ⟨g, a, o, destination, -, -, ⟨ha, -, hid, hcross, -⟩, hreceived⟩)
  · exact h.no_gather hall hq hlt
  · have hsource := hfinished _ (hworld _ (hcross.inWorld hacc).1)
    exact hsent (hsource.steady.sent a (hsource.posts ▸ hsteady.posts.subset ha) r o hid hcross)
  · have hd := hfinished _ (hworld _ (hcross.inWorld hacc).2)
    refine hd.steady.not_collected ha ?_ hid hcross hreceived (hd.collected g)
    rw [hd.posts]
    exact (List.getElem?_eq_some_iff.1 ha).1

/-- **Where all ranks have posted and received everything**, every message that was sent
    has been received, and no other. -/
theorem MpiInv.perm_triples (h : MpiInv group f s W) (hacc : Accepted group.plan spec)
    (hbound : 0 ≤ group.world.tagUpperBound)
    (hworld : ∀ r, group.plan.InWorld r → InWorld group.world.worldSize r)
    (hfinished : ∀ r, InWorld group.world.worldSize r → (W r).Finished group r) :
    s.sendTriples.Perm s.receiveTriples := by
  refine (List.perm_ext_iff_of_nodup (h.sendTriples_nodup hbound) (h.receiveTriples_nodup hbound)).2
    fun triple => ⟨fun hmem => ?_, fun hmem => ?_⟩
  · obtain ⟨send, hsend, rfl⟩ := List.mem_map.1 hmem
    have hcross := (h.goodSends send hsend).crosses
    have hd := hfinished _ (hworld _ (hcross.inWorld hacc).2)
    obtain ⟨a, ha, hid, -⟩ := id hcross
    obtain ⟨g, hg⟩ := List.getElem?_of_mem ha
    have hreceived : send.origin ∈ (W send.destination).received.map (·.2) := by
      by_contra hnot
      refine hd.steady.not_collected hg ?_ hid.symm hcross hnot (hd.collected g)
      rw [hd.posts]
      exact (List.getElem?_eq_some_iff.1 hg).1
    obtain ⟨⟨j, o⟩, hj, rfl : o = send.origin⟩ := List.mem_map.1 hreceived
    obtain ⟨receive, hreceive, horigin, -⟩ := h.receives.booked _ j _ hj
    rw [(h.triple_eq_iff hacc hbound hsend (List.mem_of_getElem? hreceive)).2 horigin.symm]
    exact List.mem_map_of_mem (List.mem_of_getElem? hreceive)
  · obtain ⟨receive, hreceive, rfl⟩ := List.mem_map.1 hmem
    have hcross := (h.goodReceives receive hreceive).crosses
    have hsource := hfinished _ (hworld _ (hcross.inWorld hacc).1)
    obtain ⟨a, ha, hid, -⟩ := id hcross
    have hsent := hsource.steady.sent a (hsource.posts.symm ▸ ha) _ _ hid.symm hcross
    obtain ⟨⟨i, o⟩, hi, rfl : o = receive.origin⟩ := List.mem_map.1 hsent
    obtain ⟨send, hsend, horigin, -⟩ := h.sends.booked _ i _ hi
    rw [← (h.triple_eq_iff hacc hbound (List.mem_of_getElem? hsend) hreceive).2 horigin]
    exact List.mem_map_of_mem (List.mem_of_getElem? hsend)

end

/-! ## The runs -/

/-- What the ranks have left to do, and whether the job lives. -/
def MpiState.left (s : MpiState) :
    (Fin (2 ^ 32) → Prog MpiOp MpiOp.Ans (RunResult VecValue × ℕ)) × ℕ :=
  (fun i => s.progs (rankAt i), if s.aborted then 0 else 1)

abbrev MpiState.Less :=
  Prod.Lex (OneLower (ι := Fin (2 ^ 32)) (@Prog.Rest MpiOp MpiOp.Ans (RunResult VecValue × ℕ)))
    (· < · : ℕ → ℕ → Prop)

theorem MpiState.less_wf : WellFounded MpiState.Less :=
  WellFounded.prod_lex (one_lower_wf Prog.rest_wf) Nat.lt_wfRel.wf

/-- The ranks of the plan are those of the communicator. -/
theorem MpiGroup.Given.inWorld {group : MpiGroup} {ctx : EvalContext} (h : group.Given ctx)
    {r : CInt} (hr : group.plan.InWorld r) : InWorld group.world.worldSize r := by
  have h0 : InWorld group.world.worldSize 0 := ⟨Int32.le_refl 0, h.ranks⟩
  obtain ⟨requirements, slots, hprepared, -⟩ := h.rank 0 h0
  have htarget := (SequentialRuntime.verifyPlan_eq_ok hprepared.verified).2
  simp only [verifyRuntimeTarget, bind_eq_ok, failIf_eq_ok, exists_const, not_not] at htarget
  have hsize := htarget.1
  rw [group.worldSize_eq 0 h0, group.plan_eq 0 h0] at hsize
  exact ⟨hr.1, hsize ▸ hr.2⟩

section
variable [DoubleArith] {group : MpiGroup} {ctx : EvalContext} {f : Payloads} {spec : OperatorSpec}
  {s t : MpiState} {W : CInt → MpiLedger} {r : CInt}

/-- **Where no rank can step, all have ended.** -/
theorem MpiKeeps.all_ended (h : MpiKeeps group f s W) (hgiven : group.Given ctx)
    (hfree : group.world.buffered = true ∨ group.plan.Unmixed) (halive : ¬ s.Dead)
    (hstuck : ∀ r t, ¬ MpiStep group.world s r t) :
    ∀ r, InWorld group.world.worldSize r → (W r).Finished group r ∧ (s.result? r).isSome := by
  obtain ⟨spec, hacc⟩ := hgiven.accepted
  have hcases : ∀ r, InWorld group.world.worldSize r →
      (W r).Finished group r ∧ (s.result? r).isSome ∨ MpiWaits group W r := by
    intro r hr
    have hmeets := h.meets r hr
    cases hprog : s.progs r with
    | call op k => exact Or.inr (h.waits hacc hgiven.bound halive hr hprog (hstuck r))
    | ret result =>
      obtain ⟨result, l⟩ := result
      have hresult : s.result? r = some result := by rw [MpiState.result?, hprog]
      rw [hprog, Prog.meets_ret] at hmeets
      cases result with
      | returned artifact =>
        exact Or.inl ⟨⟨hmeets.1, hmeets.2.1, hmeets.2.2.1⟩, by rw [hresult]; rfl⟩
      | threw failure => exact hmeets.elim
      | crashed => exact absurd (Or.inr ⟨r, hresult⟩) halive
  exact fun r hr => (hcases r hr).resolve_right
    (h.inv.no_waits hacc (fun _ => hgiven.inWorld) hfree fun q hq => (hcases q hq).imp_left (·.1))

omit [DoubleArith] in
theorem distributedMpiGroup_unmixed : distributedMpiGroup.plan.Unmixed := by decide

omit [DoubleArith] in
/-- **A step leaves less to do.** -/
theorem MpiStep.less {world : MpiWorld} (h : MpiStep world s r t) :
    MpiState.Less t.left s.left := by
  cases h with
  | @call s' _ op k ans halive hprog hperform =>
    refine Prod.Lex.left _ _ ⟨r.toBitVec.toFin, ?_, fun i hi => ?_⟩
    · show Prog.Rest (Function.update s'.progs r (k ans) r) (s.progs r)
      rw [Function.update_self]
      exact ⟨op, k, ans, hprog, rfl⟩
    · show Function.update s'.progs r (k ans) (rankAt i) = s.progs (rankAt i)
      rw [Function.update_of_ne (rankAt_ne hi), MpiState.perform_progs hperform]
  | abort halive hprog =>
    have haborted : s.aborted = false := by
      by_contra hne
      exact halive (Or.inl (by simpa using hne))
    refine Prod.Lex.right _ ?_
    rw [haborted]
    exact Nat.one_pos

end

end CkksRuntime
