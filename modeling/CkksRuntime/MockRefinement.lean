/-
  ckks-runtime formalization — a group of mock ranks computes what the sequential
  evaluation computes.

  * `NodeStands`: the pending values of a rank are, or will be, the payloads that it
    was promised; its tasks compute them, and its senders send what their transfers
    carry;
  * `Faithful`: so it is on every rank, every message is what its transfer carries,
    and nothing has gone wrong;
  * `mock_refines_evaluation`: whatever the order of the steps, no rank fails, what
    the ranks return are the payloads of the evaluation, and the group stops only
    when every rank has returned.
-/
import CkksRuntime.Deadlock
import CkksRuntime.DigestRuns
import CkksRuntime.MockValues

namespace CkksRuntime

open Interaction Transitions PlanVerifier

variable [DoubleArith]

/-! ## The parts -/

/-- The sender may have published the slot. -/
def Sender.Covers (x : Sender) (slot : ℕ) : Prop :=
  match x.status with
  | .publishing n | .copying n => slot < n
  | _ => True

/-- The sender works, or has returned. -/
def SenderStatus.Sane : SenderStatus → Prop
  | publishing _ | copying _ | done (.ok _) => True
  | aborting _ | done (.error _) => False

/-- The executor and the senders of a rank, with what it was promised. -/
structure NodeStands (plan : RuntimePlan) (f : Payloads) (r : CInt) (w : Ledger)
    (node : RankState) : Prop where
  allocated : w.promises.length = node.allocated
  cells : ∀ c p, w.promises[c]? = some p → node.cells c = .waiting ∨ node.cells c = .ready p
  tasks : ∀ place, ∀ task ∈ node.queues place, ∃ q, w.Computes task.op task.inputs q ∧
    w.promises[task.cell]? = some q ∧ q.kind = .ciphertext ∧ q.metadata = task.metadata
  spawned : w.spawned = node.senders.map fun x => (x.id, x.destinations)
  sourced : ∀ x ∈ node.senders, ∃ a ∈ plan.actions, a.id = x.id ∧ a.sourcedBy r = true
  sends : ∀ x ∈ node.senders, ∃ p, plan.Carries f x.id p ∧ x.source.Promises w.promises p
  sane : ∀ x ∈ node.senders, x.status.Sane
  nodup : (node.senders.map (·.id)).Nodup

def MockGroup.digest (group : MockGroup) (r : CInt) : String :=
  (group.run r).loadedPlan.sourceSha256

/-- What holds of a group that computes the payloads `f`. -/
structure Faithful (group : MockGroup) (f : Payloads) (s : MockState) (W : CInt → Ledger) :
    Prop where
  alive : s.crashed = false
  calm : s.cluster.abortReason = none
  keys : s.cluster.skipDigestChecks.map (·.1) = s.cluster.planDigests.map (·.1)
  skips : ∀ e ∈ s.cluster.skipDigestChecks, e.2 = group.flag e.1
  digests : ∀ e ∈ s.cluster.planDigests, e.2 = group.digest e.1
  messages : ∀ id slot p, s.cluster.messages (id, slot) = some p → group.plan.Carries f id p ∧
    ∃ r, ∃ x ∈ (s.ranks r).senders, x.id = id ∧ x.Covers slot
  node : ∀ r, NodeStands group.plan f r (W r) (s.ranks r)

/-! ## One rank -/

section
variable {plan : RuntimePlan} {spec : OperatorSpec} {f : Payloads} {r : CInt} {w : Ledger}
  {node : RankState}

/-- The complete values are the ones that were promised. -/
theorem NodeStands.settled (h : NodeStands plan f r w node) (hnode : NodeOk node) (c : ℕ) :
    node.cells c = .waiting ∨ settledCells w.promises c = node.cells c := by
  rcases Nat.lt_or_ge c w.promises.length with hc | hc
  · have hp : w.promises[c]? = some w.promises[c] := List.getElem?_eq_getElem hc
    refine (h.cells c _ hp).imp_right fun hready => ?_
    rw [settledCells, hp, hready]
  · exact Or.inl (hnode.fresh c (h.allocated ▸ hc))

/-- What a value becomes. -/
theorem NodeStands.materialize (h : NodeStands plan f r w node) {v : VecValue} {p : VecPayload}
    (hv : v.Promises w.promises p) {result : Except Fault VecPayload}
    (hresult : (v.materialize node.cells).run = some result) : result = .ok p :=
  hv.materialize h.cells hresult

/-- What the executor returns. -/
theorem NodeStands.computeNow (h : NodeStands plan f r w node) (hnode : NodeOk node)
    {op : ComputeOp} {values : List VecValue} {q : VecPayload} (hq : w.Computes op values q)
    {result : Except Fault VecPayload}
    (hresult : (VecExecutor.computeNow node.cells op values).run = some result) :
    result = .ok q := by
  obtain ⟨payloads, hvalues, hq⟩ := hq
  rw [computeNow_promised (h.settled hnode) hvalues hresult, hq]

/-- A new pending value. -/
theorem NodeStands.submit (h : NodeStands plan f r w node) (hnode : NodeOk node) {op : ComputeOp}
    {inputs : List VecValue} {q : VecPayload} (hq : w.Computes op inputs q)
    (hkind : q.kind = .ciphertext) :
    NodeStands plan f r { w with promises := w.promises ++ [q] }
      { node with
        allocated := node.allocated + 1
        queues := Function.update node.queues op.place
          (node.queues op.place ++ [⟨op, inputs, q.metadata, node.allocated⟩]) } := by
  have hle : w.promises <+: w.promises ++ [q] := List.prefix_append _ _
  have hmono : ∀ {op' values q'}, w.Computes op' values q' → Ledger.Computes
      { w with promises := w.promises ++ [q] } op' values q' := fun hq' => hq'.mono hle
  refine ⟨?_, fun c p hp => ?_, fun place task htask => ?_, h.spawned, h.sourced, fun x hx => ?_,
    h.sane, h.nodup⟩
  · rw [List.length_append, h.allocated]
    rfl
  · rcases Nat.lt_or_ge c w.promises.length with hc | hc
    · rw [List.getElem?_append_left hc] at hp
      exact h.cells c p hp
    · exact Or.inl (hnode.fresh c (h.allocated ▸ hc))
  · have hold : ∀ task ∈ node.queues place, ∃ q', Ledger.Computes
        { w with promises := w.promises ++ [q] } task.op task.inputs q' ∧
        (w.promises ++ [q])[task.cell]? = some q' ∧ q'.kind = .ciphertext ∧
        q'.metadata = task.metadata := by
      intro task htask
      obtain ⟨q', hq', hcell, hrest⟩ := h.tasks place task htask
      exact ⟨q', hmono hq',
        (List.getElem?_append_left (List.getElem?_eq_some_iff.1 hcell).1).trans hcell, hrest⟩
    change task ∈ Function.update node.queues op.place _ place at htask
    by_cases hplace : place = op.place
    · subst hplace
      rw [Function.update_self, List.mem_append, List.mem_singleton] at htask
      rcases htask with htask | rfl
      · exact hold task htask
      · exact ⟨q, hmono hq, by simp [← h.allocated], hkind, rfl⟩
    · rw [Function.update_of_ne hplace] at htask
      exact hold task htask
  · obtain ⟨p, hp, hsource⟩ := h.sends x hx
    exact ⟨p, hp, hsource.mono hle⟩

/-- A new sender. -/
theorem NodeStands.spawn (h : NodeStands plan f r w node) {x : Sender}
    (ha : ∃ a ∈ plan.actions, a.id = x.id ∧ a.sourcedBy r = true)
    (hp : ∃ p, plan.Carries f x.id p ∧ x.source.Promises w.promises p)
    (hnew : x.id ∉ w.spawned.map (·.1)) (hsane : x.status.Sane) :
    NodeStands plan f r { w with spawned := w.spawned ++ [(x.id, x.destinations)] }
      { node with senders := node.senders ++ [x] } := by
  have hsenders : ∀ {Q : Sender → Prop}, (∀ y ∈ node.senders, Q y) → Q x →
      ∀ y ∈ node.senders ++ [x], Q y := by
    intro Q hQ hx y hy
    rcases List.mem_append.1 hy with hy | hy
    exacts [hQ y hy, List.mem_singleton.1 hy ▸ hx]
  refine ⟨h.allocated, h.cells, h.tasks, ?_, hsenders h.sourced ha, hsenders h.sends hp,
    hsenders h.sane hsane, ?_⟩
  · simp [h.spawned]
  · rw [h.spawned, List.map_map] at hnew
    rw [List.map_append, List.nodup_append]
    refine ⟨h.nodup, List.nodup_singleton _, ?_⟩
    rintro _ hid _ hid' rfl
    obtain rfl := List.mem_singleton.1 hid'
    exact hnew hid

/-- A step of a sender. -/
theorem NodeStands.setSender (h : NodeStands plan f r w node) (k : ℕ) {status : SenderStatus}
    (hstatus : status.Sane) : NodeStands plan f r w (node.setSender k status) := by
  have hsenders : ∀ y ∈ (node.setSender k status).senders, ∃ x ∈ node.senders,
      y.id = x.id ∧ y.source = x.source ∧ (y.status = x.status ∨ y.status = status) := by
    intro y hy
    obtain ⟨k', hk'⟩ := List.getElem?_of_mem hy
    rcases RankState.setSender_getElem? hk' with ⟨-, hy'⟩ | ⟨-, x, hx, rfl⟩
    · exact ⟨y, List.mem_of_getElem? hy', rfl, rfl, Or.inl rfl⟩
    · exact ⟨x, List.mem_of_getElem? hx, rfl, rfl, Or.inr rfl⟩
  have hspawned := node.setSender_spawned k status
  refine ⟨h.allocated, h.cells, h.tasks, h.spawned.trans hspawned.symm, fun y hy => ?_,
    fun y hy => ?_, fun y hy => ?_, ?_⟩
  · obtain ⟨x, hx, hid, -, -⟩ := hsenders y hy
    exact hid ▸ h.sourced x hx
  · obtain ⟨x, hx, hid, hsource, -⟩ := hsenders y hy
    rw [hid, hsource]
    exact h.sends x hx
  · obtain ⟨x, hx, -, -, hsame | hnew⟩ := hsenders y hy
    exacts [hsame ▸ h.sane x hx, hnew ▸ hstatus]
  · have hids := congrArg (List.map Prod.fst) hspawned
    rw [List.map_map, List.map_map] at hids
    change (node.setSender k status).senders.map (·.id) = node.senders.map (·.id) at hids
    exact hids ▸ h.nodup

/-- **A worker completes the value that was promised.** -/
theorem NodeStands.runTask (h : NodeStands plan f r w node) (hnode : NodeOk node) {place : Place}
    {result : Except Fault RankState} (hrun : node.runTask place = some result) :
    ∃ node', result = .ok node' ∧ NodeStands plan f r w node' ∧ node'.senders = node.senders ∧
      node'.prog = node.prog := by
  unfold RankState.runTask at hrun
  cases hqueue : node.queues place with
  | nil => simp [hqueue] at hrun
  | cons task rest =>
    have hhead : task ∈ node.queues place := by rw [hqueue]; exact List.mem_cons_self
    obtain ⟨q, hq, hcell, hkind, hmetadata⟩ := h.tasks place task hhead
    cases hnow : (VecExecutor.computeNow node.cells task.op task.inputs).run with
    | none =>
      simp only [hqueue, hnow] at hrun
      cases hrun
    | some value =>
      obtain rfl := h.computeNow hnode hq hnow
      have hcomplete : task.complete (node.cells task.cell) (.ok q) = .ok (.ready q) := by
        rw [hnode.waiting place task hhead]
        exact Task.complete_ok hkind hmetadata
      simp only [hqueue, hnow, hcomplete] at hrun
      obtain rfl := Option.some.inj hrun
      refine ⟨_, rfl, ⟨h.allocated, fun c p hp => ?_, fun place' t ht => ?_, h.spawned, h.sourced,
        h.sends, h.sane, h.nodup⟩, rfl, rfl⟩
      · change Function.update node.cells task.cell (.ready q) c = .waiting ∨
          Function.update node.cells task.cell (.ready q) c = .ready p
        by_cases hc : c = task.cell
        · subst hc
          rw [Function.update_self]
          exact Or.inr (congrArg Cell.ready (Option.some.inj (hcell.symm.trans hp)))
        · rw [Function.update_of_ne hc]
          exact h.cells c p hp
      · change t ∈ Function.update node.queues place rest place' at ht
        by_cases hp : place' = place
        · subst hp
          rw [Function.update_self] at ht
          exact h.tasks place' t (by rw [hqueue]; exact List.mem_cons_of_mem _ ht)
        · rw [Function.update_of_ne hp] at ht
          exact h.tasks place' t ht

end

/-! ## The group -/

section
variable {group : MockGroup} {spec : OperatorSpec} {f : Payloads} {s t : MockState} {r : CInt}
  {W : CInt → Ledger}

omit [DoubleArith] in
/-- The comparison of a preflight passes. -/
theorem MockCluster.agree_of_agreement {c : MockCluster} {worldSize : CInt} {digest : CInt → String}
    {flag : CInt → Bool} (habort : c.abortReason = none)
    (hkeys : c.skipDigestChecks.map (·.1) = c.planDigests.map (·.1))
    (hskips : ∀ e ∈ c.skipDigestChecks, e.2 = flag e.1)
    (hdigests : ∀ e ∈ c.planDigests, e.2 = digest e.1)
    (hworld : ∀ r ∈ c.planDigests.map (·.1), InWorld worldSize r) (hne : c.planDigests ≠ [])
    (h : Agreement worldSize digest flag) : c.agree = (.ok (), c) := by
  obtain ⟨⟨r, d⟩, digests, hd⟩ := List.exists_cons_of_ne_nil hne
  obtain ⟨⟨r', b⟩, skips, hs⟩ : ∃ e es, c.skipDigestChecks = e :: es := by
    refine List.exists_cons_of_ne_nil fun hnil => hne ?_
    rw [hnil] at hkeys
    exact List.map_eq_nil_iff.1 hkeys.symm
  have hr : r' = r := by
    rw [hd, hs, List.map_cons, List.map_cons] at hkeys
    exact (List.cons.inj hkeys).1
  have hin : InWorld worldSize r := hworld r (by rw [hd]; simp)
  have hb : b = flag r := hr ▸ hskips (r', b) (by rw [hs]; exact List.mem_cons_self)
  have hd' : d = digest r := hdigests (r, d) (by rw [hd]; exact List.mem_cons_self)
  have hflags : ¬ ∃ e ∈ c.skipDigestChecks, e.2 ≠ b := by
    rintro ⟨e, he, hne⟩
    have hin' : InWorld worldSize e.1 :=
      hworld e.1 (hkeys ▸ List.mem_map.2 ⟨e, he, rfl⟩)
    exact hne ((hskips e he).trans ((h e.1 r hin' hin).1.trans hb.symm))
  have hsame : b = false → ¬ ∃ e ∈ c.planDigests, e.2 ≠ d := by
    rintro hfalse ⟨e, he, hne⟩
    have hin' : InWorld worldSize e.1 := hworld e.1 (List.mem_map.2 ⟨e, he, rfl⟩)
    refine hne ((hdigests e he).trans (hd' ▸ ((h r e.1 hin hin').2 ?_).symm))
    exact hb.symm.trans hfalse
  unfold MockCluster.agree
  simp only [habort, hs, hd]
  rw [hs] at hflags
  rw [hd] at hsame
  rw [if_neg hflags]
  cases b with
  | true => rfl
  | false => rw [if_neg (by simp), if_neg (hsame rfl)]

/-- Senders of one transfer are one. -/
theorem Faithful.sender_unique (h : Faithful group f s W) (hacc : Accepted group.plan spec)
    {r r' : CInt} {x x' : Sender} (hx : x ∈ (s.ranks r).senders) (hx' : x' ∈ (s.ranks r').senders)
    (hid : x.id = x'.id) : x = x' := by
  obtain ⟨a, ha, hax, har⟩ := (h.node r).sourced x hx
  obtain ⟨a', ha', hax', har'⟩ := (h.node r').sourced x' hx'
  obtain rfl := hacc.action_inj ha ha' (hax.trans (hid.trans hax'.symm))
  have hrank : r = r' := by
    unfold CommAction.sourcedBy at har har'
    cases hsource : a.sources[0]? with
    | none => simp [hsource] at har
    | some place =>
      simp only [hsource, Option.any_some, decide_eq_true_eq] at har har'
      exact har.symm.trans har'
  subst hrank
  exact List.inj_on_of_nodup_map (h.node r).nodup hx hx' hid

/-- A step of one rank, which may publish. -/
theorem Faithful.update (h : Faithful group f s W) {u : Ledger} (hcrashed : t.crashed = s.crashed)
    (hcluster : t.cluster = { s.cluster with messages := t.cluster.messages })
    (hother : ∀ r' ≠ r, t.ranks r' = s.ranks r')
    (hnode : NodeStands group.plan f r u (t.ranks r))
    (hcovers : ∀ x ∈ (s.ranks r).senders, ∀ slot, x.Covers slot →
      ∃ y ∈ (t.ranks r).senders, y.id = x.id ∧ y.Covers slot)
    (hmessages : ∀ id slot p, t.cluster.messages (id, slot) = some p →
      s.cluster.messages (id, slot) = some p ∨ group.plan.Carries f id p ∧
        ∃ x ∈ (t.ranks r).senders, x.id = id ∧ x.Covers slot) :
    Faithful group f t (Function.update W r u) where
  alive := hcrashed.trans h.alive
  calm := by
    rw [hcluster]
    exact h.calm
  keys := by
    rw [hcluster]
    exact h.keys
  skips := by
    rw [hcluster]
    exact h.skips
  digests := by
    rw [hcluster]
    exact h.digests
  messages id slot p hp := by
    rcases hmessages id slot p hp with hp | ⟨hcarries, hx⟩
    · obtain ⟨hcarries, r', x, hx, hid, hslot⟩ := h.messages id slot p hp
      refine ⟨hcarries, ?_⟩
      by_cases he : r' = r
      · subst he
        obtain ⟨y, hy, hyid, hyslot⟩ := hcovers x hx slot hslot
        exact ⟨r', y, hy, hyid.trans hid, hyslot⟩
      · exact ⟨r', x, by rw [hother r' he]; exact hx, hid, hslot⟩
    · exact ⟨hcarries, r, hx⟩
  node r' := by
    by_cases he : r' = r
    · subst he
      rw [Function.update_self]
      exact hnode
    · rw [Function.update_of_ne he, hother r' he]
      exact h.node r'

/-- A step of one rank that leaves the cluster alone. -/
theorem Faithful.setRank (h : Faithful group f s W) {node : RankState} {w' : Ledger}
    (hnode : NodeStands group.plan f r w' node)
    (hcovers : ∀ x ∈ (s.ranks r).senders, ∀ slot, x.Covers slot →
      ∃ y ∈ node.senders, y.id = x.id ∧ y.Covers slot) :
    Faithful group f (s.setRank r node) (Function.update W r w') :=
  h.update rfl rfl (fun r' hr => s.setRank_of_ne node hr) (by rwa [s.setRank_self])
    (by rwa [s.setRank_self]) fun _ _ _ hp => Or.inl hp

/-- **A call that the protocol allows is served as the protocol promises.** -/
theorem MockState.perform_faithful (h : Faithful group f s W) (hfaultless : group.cluster.Faultless)
    (hagree : Agreement group.cluster.worldSize group.digest group.flag)
    (hworld : ∀ r ∈ s.cluster.planDigests.map (·.1), InWorld group.cluster.worldSize r)
    (hnode : NodeOk (s.ranks r)) {op : MockOp} {ans : op.Ans}
    (hnew : ∀ digest skip, op = .register digest skip → r ∉ s.cluster.planDigests.map (·.1))
    (hpre : (valueProtocol group.plan f (group.digest r) (group.flag r) r).pre (W r) op)
    (hperform : s.perform group.cluster r op = some (ans, t)) :
    ∃ w', (valueProtocol group.plan f (group.digest r) (group.flag r) r).post (W r) op ans w' ∧
      Faithful group f t (Function.update W r w') := by
  have hstands := h.node r
  have hsame : Faithful group f s (Function.update W r (W r)) := by rwa [Function.update_eq_self]
  cases op with
  | register digest skip =>
    obtain ⟨rfl, rfl⟩ := hpre
    simp only [perform] at hperform
    split_ifs at hperform with hfree
    have hfresh := hnew _ _ rfl
    have hregister : s.cluster.register r (group.digest r) (group.flag r) = .ok
        { s.cluster with
          planDigests := emplace r (group.digest r) s.cluster.planDigests
          skipDigestChecks := emplace r (group.flag r) s.cluster.skipDigestChecks } :=
      MockCluster.register_eq_ok.2 ⟨hfresh, rfl⟩
    rw [hregister] at hperform
    obtain ⟨rfl, rfl⟩ := Prod.mk.inj (Option.some.inj hperform)
    refine ⟨W r, ⟨rfl, rfl⟩, ?_⟩
    rw [Function.update_eq_self]
    refine ⟨h.alive, h.calm, keys_emplace h.keys, fun e he => ?_, fun e he => ?_, h.messages, h.node⟩
    · rcases (mem_emplace (by rw [h.keys]; exact hfresh)).1 he with rfl | he
      exacts [rfl, h.skips e he]
    · rcases (mem_emplace hfresh).1 he with rfl | he
      exacts [rfl, h.digests e he]
  | awaitPreflight =>
    simp only [perform] at hperform
    split_ifs at hperform with hready
    have hne : s.cluster.planDigests ≠ [] := by
      rcases hready.2 with habort | hlen
      · rw [h.calm] at habort
        cases habort
      · intro hnil
        have hpos := Int32.lt_iff_toInt_lt.1 group.cluster.worldSize_pos
        rw [hnil, List.length_nil] at hlen
        rw [Int32.toInt_zero] at hpos
        omega
    rw [MockCluster.agree_of_agreement h.calm h.keys h.skips h.digests hworld hne hagree]
      at hperform
    obtain ⟨rfl, rfl⟩ := Prod.mk.inj (Option.some.inj hperform)
    exact ⟨W r, ⟨rfl, rfl⟩, hsame⟩
  | computeNow op inputs =>
    obtain ⟨q, hq⟩ := hpre
    obtain ⟨result, hnow, hresult⟩ := Option.map_eq_some_iff.1 hperform
    obtain ⟨rfl, rfl⟩ := Prod.mk.inj hresult
    exact ⟨W r, ⟨rfl, q, hq, hstands.computeNow hnode hq hnow⟩, hsame⟩
  | submit op inputs metadata =>
    obtain ⟨q, hq, hkind, rfl⟩ := hpre
    obtain ⟨rfl, rfl⟩ := Prod.mk.inj (Option.some.inj hperform)
    refine ⟨_, ⟨q, hq, by rw [hstands.allocated], rfl⟩,
      h.setRank (hstands.submit hnode hq hkind) fun x hx slot hslot => ⟨x, hx, rfl, hslot⟩⟩
  | spawn id destinations source =>
    obtain ⟨⟨a, ha, hid, -, hrank⟩, hfresh, hsends⟩ := hpre
    obtain ⟨rfl, rfl⟩ := Prod.mk.inj (Option.some.inj hperform)
    refine ⟨_, ⟨⟨_, rfl⟩, rfl⟩, h.setRank (hstands.spawn (x := ⟨id, destinations, source, _⟩)
      ⟨a, ha, hid, hrank⟩ hsends hfresh trivial) fun x hx slot hslot => ?_⟩
    exact ⟨x, List.mem_append_left _ hx, rfl, hslot⟩
  | join k =>
    simp only [perform] at hperform
    split at hperform
    next id destinations source result hx =>
      obtain ⟨rfl, rfl⟩ := Prod.mk.inj (Option.some.inj hperform)
      have hsane := hstands.sane _ (List.mem_of_getElem? hx)
      cases result with
      | ok u => exact ⟨W r, ⟨rfl, rfl⟩, hsame⟩
      | error thrown => exact hsane.elim
    · cases hperform
  | receive id slot =>
    simp only [perform] at hperform
    split_ifs at hperform with hready
    obtain ⟨p, hp⟩ : ∃ p, s.cluster.messages (id, slot) = some p := by
      rcases hready.2 with habort | hmessage
      · rw [h.calm] at habort
        cases habort
      · exact Option.isSome_iff_exists.1 hmessage
    have htake : s.cluster.take group.cluster id slot = .ok p := by
      simp [MockCluster.take, h.calm, hfaultless.wait, hp]
    rw [htake] at hperform
    obtain ⟨rfl, rfl⟩ := Prod.mk.inj (Option.some.inj hperform)
    exact ⟨W r, ⟨rfl, p, (h.messages id slot p hp).1, rfl⟩, hsame⟩
  | materialize value =>
    obtain ⟨p, hp⟩ := hpre
    obtain ⟨result, hvalue, hresult⟩ := Option.map_eq_some_iff.1 hperform
    obtain ⟨rfl, rfl⟩ := Prod.mk.inj hresult
    exact ⟨W r, ⟨rfl, p, hstands.materialize hp hvalue⟩, hsame⟩
  | abortAll reason => exact hpre.elim

/-- **A step that is no call.** -/
theorem Faithful.silent (h : Faithful group f s W) (hacc : Accepted group.plan spec)
    (hfaultless : group.cluster.Faultless) (hsound : Sound s) {l : MockLabel}
    (hst : MockStep group.cluster s l t) (hl : ∀ r event, l ≠ .call r event) :
    Faithful group f t W := by
  -- the sender steps on, from one working status to another
  have hcovers : ∀ {r : CInt} {k : ℕ} {x : Sender} {status : SenderStatus},
      (s.ranks r).senders[k]? = some x →
      (∀ slot, x.Covers slot → Sender.Covers { x with status := status } slot) →
      ∀ y ∈ (s.ranks r).senders, ∀ slot, y.Covers slot →
        ∃ z ∈ ((s.ranks r).setSender k status).senders, z.id = y.id ∧ z.Covers slot := by
    intro r k x status hx hmono y hy slot hslot
    obtain ⟨k', hk'⟩ := List.getElem?_of_mem hy
    by_cases hk : k' = k
    · subst hk
      obtain rfl := Option.some.inj (hx.symm.trans hk')
      exact ⟨{ x with status := status },
        List.mem_of_getElem? (by rw [RankState.setSender_getElem?_self, hx]; rfl), rfl,
        hmono slot hslot⟩
    · exact ⟨y, List.mem_of_getElem? (by rw [RankState.setSender_getElem?_of_ne hk]; exact hk'),
        rfl, hslot⟩
  cases hst with
  | call => exact absurd rfl (hl _ _)
  | @acquire r k slot x hdead hx hstatus hslot hfree hadmit =>
    have hnode : NodeStands group.plan f r (W r) ((s.ranks r).setSender k (.copying slot)) :=
      (h.node r).setSender k trivial
    have hstep := h.setRank hnode
      (hcovers hx fun slot' hslot' => by simpa [Sender.Covers, hstatus] using hslot')
    rw [Function.update_eq_self] at hstep
    exact ⟨hstep.alive, hstep.calm, hstep.keys, hstep.skips, hstep.digests, hstep.messages,
      hstep.node⟩
  | @refuse r k slot x thrown hdead hx hstatus hslot hfree hadmit =>
    simp [MockCluster.admitPublish, h.calm, hfaultless.publish] at hadmit
  | @store r k slot x payload c hdead hx hstatus hpayload hstore =>
    obtain ⟨hnone, rfl⟩ := MockCluster.store_eq_ok hstore
    obtain ⟨p, hcarries, hp⟩ := (h.node r).sends x (List.mem_of_getElem? hx)
    obtain rfl := Except.ok.inj ((h.node r).materialize hp hpayload)
    have hself := s.setRank_self r ((s.ranks r).setSender k (.publishing (slot + 1)))
    have hmono : ∀ slot', x.Covers slot' →
        Sender.Covers { x with status := .publishing (slot + 1) } slot' := by
      intro slot' hslot'
      rw [Sender.Covers, hstatus] at hslot'
      exact Nat.lt_succ_of_lt hslot'
    have hstep := h.update (r := r) (u := W r)
      (t := { s.setRank r ((s.ranks r).setSender k (.publishing (slot + 1))) with
        cluster := { s.cluster with
          messages := Function.update s.cluster.messages (x.id, slot) (some payload) }
        copier := none }) rfl rfl (fun r' hr => s.setRank_of_ne _ hr)
      (hself.symm ▸ (h.node r).setSender k trivial) (hself.symm ▸ hcovers hx hmono) ?_
    · rwa [Function.update_eq_self] at hstep
    · intro id slot' p' hp'
      change Function.update s.cluster.messages (x.id, slot) (some payload) (id, slot') = some p'
        at hp'
      by_cases he : (id, slot') = (x.id, slot)
      · obtain ⟨rfl, rfl⟩ := Prod.mk.inj he
        rw [Function.update_self] at hp'
        obtain rfl := Option.some.inj hp'
        refine Or.inr ⟨hcarries, { x with status := .publishing (slot' + 1) }, ?_, rfl,
          Nat.lt_succ_self _⟩
        show _ ∈ ((s.setRank r _).ranks r).senders
        rw [hself]
        exact List.mem_of_getElem? (by rw [RankState.setSender_getElem?_self, hx]; rfl)
      · rw [Function.update_of_ne he] at hp'
        exact Or.inl hp'
  | @spoil r k slot x thrown hdead hx hstatus hspoil =>
    have hmem := List.mem_of_getElem? hx
    obtain ⟨p, -, hp⟩ := (h.node r).sends x hmem
    rcases hspoil with ⟨fault, hpayload, -⟩ | ⟨payload, -, hstore⟩
    · cases (h.node r).materialize hp hpayload
    · cases hmessage : s.cluster.messages (x.id, slot) with
      | none => simp [MockCluster.store, hmessage] at hstore
      | some q =>
        -- nobody else publishes the slot, and this sender has not come to it
        obtain ⟨-, r', y, hy, hid, hslot⟩ := h.messages x.id slot q hmessage
        obtain rfl := h.sender_unique hacc hy hmem hid
        rw [Sender.Covers, hstatus] at hslot
        exact absurd hslot (Nat.lt_irrefl _)
  | @finish r k slot x hdead hx hstatus hslot =>
    have hnode : NodeStands group.plan f r (W r) ((s.ranks r).setSender k (.done (.ok ()))) :=
      (h.node r).setSender k trivial
    have hstep := h.setRank hnode
      (hcovers hx fun _ _ => trivial)
    rwa [Function.update_eq_self] at hstep
  | @abort r k x reason hdead hx hstatus hfree =>
    have hsane := (h.node r).sane x (List.mem_of_getElem? hx)
    rw [hstatus] at hsane
    exact hsane.elim
  | @worker r place node hdead hrun =>
    obtain ⟨node', hnode', hstands, hsenders, -⟩ := (h.node r).runTask (hsound.node r) hrun
    obtain rfl := Except.ok.inj hnode'
    have hstep := h.setRank hstands fun x hx slot hslot =>
      ⟨x, by rw [hsenders]; exact hx, rfl, hslot⟩
    rwa [Function.update_eq_self] at hstep
  | @crash r place fault hdead hrun =>
    obtain ⟨node', hnode', -⟩ := (h.node r).runTask (hsound.node r) hrun
    cases hnode'

end

/-! ## The runs -/

/-- Every rank of the group starts from what the evaluation starts from, the ranks
    agree, and no fault is injected. -/
structure MockGroup.Given (group : MockGroup) (ctx : EvalContext) : Prop where
  cluster : group.cluster.Faultless
  version : group.plan.target.capabilityVersion = 1
  agreement : Agreement group.cluster.worldSize group.digest group.flag
  inputs : ∀ id ∈ group.plan.externalInputs, ∀ d, group.plan.desc? id = some d →
    validateValue ctx.polyDegree (.ready (ctx.inputs id)) d = .ok ()
  api : ∀ r, InWorld group.cluster.worldSize r → (group.api r).Faultless
  degree : ∀ r, InWorld group.cluster.worldSize r →
    (group.run r).resources.operatorSpec.spec.polyDegree = ctx.polyDegree
  rank : ∀ r, InWorld group.cluster.worldSize r → ∃ requirements slots,
    (group.run r).Prepared (group.env r) requirements slots ∧ (group.run r).Given slots ctx

/-- The invariant with the threads of the ranks. -/
structure Computing (group : MockGroup) (f : Payloads) (s : MockState) (W : CInt → Ledger) :
    Prop where
  faithful : Faithful group f s W
  meets : ∀ r, InWorld group.cluster.worldSize r →
    Prog.Meets (valueProtocol group.plan f (group.digest r) (group.flag r) r)
      (fun w result => w.Ended (group.run r) f result.1) (W r) (s.ranks r).prog

section
variable {group : MockGroup} {ctx : EvalContext} {f : Payloads} {s t : MockState}
  {W : CInt → Ledger}

omit [DoubleArith] in
theorem MockGroup.Given.opened (h : group.Given ctx) {r : CInt}
    (hr : InWorld group.cluster.worldSize r) :
    SequentialRuntime.openTrace (group.env r) r = .ok () := by
  obtain ⟨requirements, slots, hprepared, -⟩ := h.rank r hr
  have hopened := hprepared.opened
  rwa [group.rank_eq r hr] at hopened

omit [DoubleArith] in
/-- The plan of the group is accepted: it has a rank. -/
theorem MockGroup.Given.accepted (h : group.Given ctx) : ∃ spec, Accepted group.plan spec := by
  have hr : InWorld group.cluster.worldSize 0 := ⟨Int32.le_refl 0, group.cluster.worldSize_pos⟩
  obtain ⟨requirements, slots, hprepared, -⟩ := h.rank 0 hr
  exact ⟨_, group.plan_eq 0 hr ▸ SequentialRuntime.accepted_of_verifyPlan hprepared.verified⟩

theorem Computing.init (h : group.Given ctx) (heval : group.plan.evaluate ctx = .ok f) :
    Computing group f group.initial fun _ => {} where
  faithful :=
    { alive := rfl
      calm := rfl
      keys := rfl
      skips := by simp [MockGroup.initial]
      digests := by simp [MockGroup.initial]
      messages := fun id slot p hp => by cases hp
      node := fun r => ⟨rfl, by simp, by simp [MockGroup.initial], rfl, by simp [MockGroup.initial],
        by simp [MockGroup.initial], by simp [MockGroup.initial], List.nodup_nil⟩ }
  meets r hr := by
    obtain ⟨requirements, slots, hprepared, hgiven⟩ := h.rank r hr
    have hinputs : ctx.InputsDescribed (SequentialRuntime.plan (group.run r)) := by
      rw [group.plan_eq r hr]
      exact fun id hid d hd => validateValue_eq_ok.1 (h.inputs id hid d hd)
    have hmeets := MockVecApi.rankProgram_stands hprepared.opened hprepared.verified
      hprepared.loaded (by rw [group.plan_eq r hr]; exact h.version) (h.degree r hr) hgiven hinputs
      h.cluster (h.api r hr) (by rw [group.plan_eq r hr]; exact heval)
    rw [group.rank_eq r hr, group.plan_eq r hr] at hmeets
    simpa [MockGroup.initial, MockGroup.digest, MockGroup.flag, if_pos hr] using hmeets

/-- **A step keeps the invariant.** -/
theorem Computing.step (h : Computing group f s W) (hgiven : group.Given ctx)
    {W' : CInt → Progress} (hinv : MockInv group s W') {l : MockLabel}
    (hst : MockStep group.cluster s l t) : ∃ W, Computing group f t W := by
  obtain ⟨spec, hacc⟩ := hgiven.accepted
  by_cases hl : ∃ r event, l = .call r event
  · obtain ⟨r, event, rfl⟩ := hl
    cases hst with
    | @call s' _ op k ans hdead hprog hperform =>
      have hr := hinv.inWorld_of_call hprog
      have hmeets := h.meets r hr
      rw [hprog, Prog.meets_call] at hmeets
      obtain ⟨hpre, hk⟩ := hmeets
      obtain ⟨hprogress, hw⟩ := hinv.rank r hr
      rw [hprog, Prog.meets_call] at hprogress
      obtain ⟨w', hpost, hfaithful⟩ := MockState.perform_faithful h.faithful hgiven.cluster
        hgiven.agreement hinv.world (hinv.sound.node r) (fun digest skip he hmem => by
          subst he
          have := hw.registered.2 hmem
          rw [hprogress.1.1] at this
          cases this) hpre hperform
      have hself := s'.setRank_self r { s'.ranks r with prog := k ans }
      have hnode : NodeStands group.plan f r w' { s'.ranks r with prog := k ans } := by
        have hsame := hfaithful.node r
        rw [Function.update_self] at hsame
        exact ⟨hsame.allocated, hsame.cells, hsame.tasks, hsame.spawned, hsame.sourced,
          hsame.sends, hsame.sane, hsame.nodup⟩
      refine ⟨Function.update W r w', ?_, fun r' hr' => ?_⟩
      · have hstep := hfaithful.setRank hnode fun x hx slot hslot => ⟨x, hx, rfl, hslot⟩
        rwa [Function.update_idem] at hstep
      · by_cases he : r' = r
        · subst he
          rw [Function.update_self, hself]
          exact hk ans w' hpost
        · rw [Function.update_of_ne he, s'.setRank_of_ne _ he,
            MockState.perform_prog hperform r']
          exact h.meets r' hr'
  · simp only [not_exists] at hl
    refine ⟨W, h.faithful.silent hacc hgiven.cluster hinv.sound hst hl, fun r hr => ?_⟩
    have hsame : (t.ranks r).prog = (s.ranks r).prog := by
      rw [← MockState.silent_kept hst hl]
      rfl
    rw [hsame]
    exact h.meets r hr

theorem Computing.of_reachable (hgiven : group.Given ctx)
    (heval : group.plan.evaluate ctx = .ok f) (hs : group.system.Reachable s) :
    ∃ W, Computing group f s W := by
  refine hs.invariant (I := fun s => ∃ W, Computing group f s W) (fun s hs => ?_) ?_
  · obtain rfl : s = group.initial := hs
    exact ⟨_, .init hgiven heval⟩
  · rintro s l t hs ⟨W, hW⟩ hst
    obtain ⟨W', hinv⟩ := MockInv.of_reachable (fun r hr => hgiven.opened hr) hs
    exact hW.step hgiven hinv hst

/-- The thread of a rank that has ended has returned. -/
theorem Computing.returned (h : Computing group f s W) {r : CInt}
    (hr : InWorld group.cluster.worldSize r) {result : RunResult VecValue}
    (hresult : (s.ranks r).result? = some result) : ∃ artifact, result = .returned artifact ∧
      (W r).Ended (group.run r) f (.returned artifact) := by
  have hmeets := h.meets r hr
  unfold RankState.result? at hresult
  split at hresult
  next hprog =>
    cases hresult
    rw [hprog, Prog.meets_ret] at hmeets
    cases result with
    | returned artifact => exact ⟨artifact, rfl, hmeets⟩
    | threw failure => exact hmeets.elim
    | crashed => exact hmeets.elim
  next => cases hresult

theorem Computing.not_dead (h : Computing group f s W)
    (hidle : ∀ r, ¬ InWorld group.cluster.worldSize r → s.ranks r = group.initial.ranks r) :
    ¬ s.Dead := by
  rintro (hcrashed | ⟨r, hr⟩)
  · rw [h.faithful.alive] at hcrashed
    cases hcrashed
  · by_cases hin : InWorld group.cluster.worldSize r
    · obtain ⟨artifact, hartifact, -⟩ := h.returned hin hr
      cases hartifact
    · rw [hidle r hin] at hr
      simp [MockGroup.initial, RankState.result?, if_neg hin] at hr

/-- The value is the payload, or becomes it. -/
structure VecValue.Becomes (cells : ℕ → Cell) (v : VecValue) (p : VecPayload) : Prop where
  kind : v.kind = p.kind
  metadata : v.metadata = p.metadata
  payload : ∀ result, (v.materialize cells).run = some result → result = .ok p

/-- The artifact of a rank holds the local values that it is to hold, each the payload
    of the evaluation, or about to become it. -/
structure RunConfig.Holds (cfg : RunConfig VecValue) (f : Payloads) (cells : ℕ → Cell)
    (artifact : RunArtifact VecValue) : Prop where
  values : ∀ id place v, artifact.values id = some (place, v) →
    ∃ p, f id = some p ∧ v.Becomes cells p
  complete : ∀ id ∈ (SequentialRuntime.plan cfg).definitions,
    (SequentialRuntime.plan cfg).IsLocal cfg.rank id →
    SequentialRuntime.retainAllValues cfg = true ∨
      id ∈ (SequentialRuntime.plan cfg).finalOutputs → (artifact.values id).isSome

end

/-- The inputs of the fan-out group. -/
def fanoutContext : EvalContext :=
  ⟨8192, fun _ => none, fun id =>
    if id = 0 then fanoutPayload .ciphertext 2 else fanoutPayload .plaintext 1⟩

omit [DoubleArith] in
theorem fanoutMockGroup_given : fanoutMockGroup.Given fanoutContext where
  cluster := ⟨rfl, rfl, rfl, rfl, rfl, rfl, rfl⟩
  version := rfl
  agreement _ _ _ _ := ⟨rfl, fun _ => rfl⟩
  inputs id hid d hd := by
    rcases List.mem_pair.1 hid with rfl | rfl
    · obtain rfl := Option.some.inj hd
      rfl
    · obtain rfl := Option.some.inj hd
      rfl
  api _ _ := ⟨rfl, rfl⟩
  degree _ _ := rfl
  rank r _ := by
    refine ⟨_, [], ⟨rfl, SequentialRuntime.verifyPlan_fanoutConfig _ _, rfl⟩, ?_, ?_, rfl⟩
    · intro content values hvalues
      cases hvalues
    · intro id hid
      rcases List.mem_pair.1 (List.mem_of_mem_filter hid) with rfl | rfl <;> rfl

end CkksRuntime
