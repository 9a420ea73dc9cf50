/-
  ckks-runtime formalization — the invariant of a group of mock ranks.

  * `NodeOk`: a value still being computed has its task in exactly one queue, behind
    tasks of smaller values only, and a task reads smaller values only;
  * `SenderOk`: how many slots a sender has published;
  * `Sound`: both for every rank, and the mutex is held by one copying sender;
  * `Linked`: the ghost state of a rank is what the group knows of it;
  * `MockInv.of_reachable`: the invariant holds in every reachable state, for some
    ghost states of the ranks.
-/
import CkksRuntime.MockProgress

namespace CkksRuntime

open Interaction Transitions

/-! ## The parts -/

/-- The executor of a rank: its promised values and its queues. -/
structure NodeOk (node : RankState) : Prop where
  lt : ∀ place, ∀ task ∈ node.queues place, task.cell < node.allocated
  waiting : ∀ place, ∀ task ∈ node.queues place, node.cells task.cell = .waiting
  inputs : ∀ place, ∀ task ∈ node.queues place, ∀ v ∈ task.inputs, v.Below task.cell
  ascending : ∀ place, (node.queues place).Pairwise fun task task' => task.cell < task'.cell
  place : ∀ place place', ∀ task ∈ node.queues place, ∀ task' ∈ node.queues place',
    task.cell = task'.cell → place = place'
  queued : ∀ c < node.allocated, node.cells c = .waiting →
    ∃ place, ∃ task ∈ node.queues place, task.cell = c
  source : ∀ sender ∈ node.senders, sender.source.Below node.allocated
  fresh : ∀ c, node.allocated ≤ c → node.cells c = .waiting

/-- The first slots of a transfer are published. -/
def MockState.Published (s : MockState) (id : TransferId) (n : ℕ) : Prop :=
  ∀ slot < n, (s.cluster.messages (id, slot)).isSome

/-- How far a sender has come. -/
def SenderOk (s : MockState) (r : CInt) (k : ℕ) (sender : Sender) : Prop :=
  match sender.status with
  | .publishing slot => slot ≤ sender.destinations ∧ s.Published sender.id slot
  | .copying slot => s.copier = some (r, k) ∧ slot < sender.destinations ∧
    s.Published sender.id slot
  | .aborting _ => True
  | .done (.ok _) => s.Published sender.id sender.destinations
  | .done (.error _) => s.cluster.abortReason.isSome

/-- What holds of the executors, the senders and the mutex. -/
structure Sound (s : MockState) : Prop where
  node : ∀ r, NodeOk (s.ranks r)
  sender : ∀ r k sender, (s.ranks r).senders[k]? = some sender → SenderOk s r k sender
  holder : ∀ r k, s.copier = some (r, k) → ∃ sender slot, (s.ranks r).senders[k]? = some sender ∧
    sender.status = .copying slot
  /-- An abort waits for the mutex. -/
  quiet : s.copier ≠ none → s.cluster.abortReason = none

/-- The ghost state of a rank is what the group knows of it. -/
structure Linked (s : MockState) (r : CInt) (w : Progress) : Prop where
  cells : w.cells = (s.ranks r).allocated
  spawned : w.spawned = (s.ranks r).senders.map fun sender => (sender.id, sender.destinations)
  registered : w.registered = true ↔ r ∈ s.cluster.planDigests.map (·.1)
  aborted : w.aborted = true → s.cluster.abortReason.isSome

/-- The flag that a rank brings. -/
def MockGroup.flag (group : MockGroup) (r : CInt) : Bool :=
  (group.run r).resources.skipArtifactDigestChecks

/-- The thread of a rank keeps to the protocol from its ghost state on. -/
structure RankOk (group : MockGroup) (s : MockState) (r : CInt) (w : Progress) : Prop where
  meets : Prog.Meets (progressProtocol group.cluster.worldSize group.plan (group.flag r) r)
    (fun w result => w.Ended group.plan r result.1) w (s.ranks r).prog
  linked : Linked s r w

/-- The invariant of a group, with the ghost states of its ranks. -/
structure MockInv (group : MockGroup) (s : MockState) (W : CInt → Progress) : Prop where
  sound : Sound s
  rank : ∀ r, InWorld group.cluster.worldSize r → RankOk group s r (W r)
  idle : ∀ r, ¬ InWorld group.cluster.worldSize r → s.ranks r = group.initial.ranks r
  nodup : (s.cluster.planDigests.map (·.1)).Nodup
  world : ∀ r ∈ s.cluster.planDigests.map (·.1), InWorld group.cluster.worldSize r

/-! ## Steps of a sender -/

namespace RankState

theorem setSender_getElem?_of_ne {node : RankState} {k k' : ℕ} {status : SenderStatus}
    (h : k' ≠ k) : (node.setSender k status).senders[k']? = node.senders[k']? := by
  show (node.senders.modify k _)[k']? = _
  rw [List.getElem?_modify]
  simp [Ne.symm h]

theorem setSender_getElem?_self {node : RankState} {k : ℕ} {status : SenderStatus} :
    (node.setSender k status).senders[k]? =
      node.senders[k]?.map fun sender => { sender with status := status } := by
  show (node.senders.modify k _)[k]? = _
  rw [List.getElem?_modify]
  simp

/-- A sender after a step of sender `k`. -/
theorem setSender_getElem? {node : RankState} {k k' : ℕ} {status : SenderStatus} {x : Sender}
    (h : (node.setSender k status).senders[k']? = some x) :
    (k' ≠ k ∧ node.senders[k']? = some x) ∨
      k' = k ∧ ∃ x', node.senders[k]? = some x' ∧ x = { x' with status := status } := by
  by_cases hk : k' = k
  · subst hk
    rw [setSender_getElem?_self] at h
    obtain ⟨x', hx', rfl⟩ := Option.map_eq_some_iff.1 h
    exact Or.inr ⟨rfl, x', hx', rfl⟩
  · rw [setSender_getElem?_of_ne hk] at h
    exact Or.inl ⟨hk, h⟩

theorem setSender_spawned (node : RankState) (k : ℕ) (status : SenderStatus) :
    (node.setSender k status).senders.map (fun sender => (sender.id, sender.destinations)) =
      node.senders.map fun sender => (sender.id, sender.destinations) := by
  refine List.ext_getElem? fun k' => ?_
  rw [List.getElem?_map, List.getElem?_map]
  by_cases hk : k' = k
  · rw [hk, setSender_getElem?_self, Option.map_map]
    rfl
  · rw [setSender_getElem?_of_ne hk]

end RankState

/-! ## Frames -/

section
variable {s t : MockState} {r : CInt} {k : ℕ}

@[simp] theorem MockState.setRank_self (s : MockState) (r : CInt) (node : RankState) :
    (s.setRank r node).ranks r = node := Function.update_self ..

theorem MockState.setRank_of_ne (s : MockState) {r r' : CInt} (node : RankState) (h : r' ≠ r) :
    (s.setRank r node).ranks r' = s.ranks r' := Function.update_of_ne h ..

theorem SenderOk.mono {sender : Sender} (h : SenderOk s r k sender) (hgrows : s.cluster.Grows t.cluster)
    (hcopier : s.copier = some (r, k) → t.copier = some (r, k)) : SenderOk t r k sender := by
  unfold SenderOk at h ⊢
  split
  next slot hslot =>
    rw [hslot] at h
    exact ⟨h.1, fun j hj => hgrows.messages _ (h.2 j hj)⟩
  next slot hslot =>
    rw [hslot] at h
    exact ⟨hcopier h.1, h.2.1, fun j hj => hgrows.messages _ (h.2.2 j hj)⟩
  next => trivial
  next hdone =>
    rw [hdone] at h
    exact fun j hj => hgrows.messages _ (h j hj)
  next error hdone =>
    rw [hdone] at h
    exact hgrows.abort h

/-- A step of one rank. -/
theorem Sound.update (h : Sound s) (hgrows : s.cluster.Grows t.cluster)
    (hother : ∀ r' ≠ r, t.ranks r' = s.ranks r')
    (hcopier : ∀ r' ≠ r, ∀ k, s.copier = some (r', k) ↔ t.copier = some (r', k))
    (hnode : NodeOk (t.ranks r))
    (hsender : ∀ (k : ℕ) x, (t.ranks r).senders[k]? = some x → SenderOk t r k x)
    (hholder : ∀ k, t.copier = some (r, k) → ∃ sender slot,
      (t.ranks r).senders[k]? = some sender ∧ sender.status = .copying slot)
    (hquiet : t.copier ≠ none → t.cluster.abortReason = none) : Sound t where
  node r' := by
    by_cases hr : r' = r
    · exact hr ▸ hnode
    · exact hother r' hr ▸ h.node r'
  sender r' k x hx := by
    by_cases hr : r' = r
    · subst hr
      exact hsender k x hx
    · rw [hother r' hr] at hx
      exact (h.sender r' k x hx).mono hgrows (hcopier r' hr k).1
  holder r' k hk := by
    by_cases hr : r' = r
    · subst hr
      exact hholder k hk
    · rw [hother r' hr]
      exact h.holder r' k ((hcopier r' hr k).2 hk)
  quiet := hquiet

/-- A step in which no sender takes part. -/
theorem Sound.setNode (h : Sound s) {node : RankState} (hnode : NodeOk node)
    (hold : ∀ (k : ℕ) x, (s.ranks r).senders[k]? = some x → node.senders[k]? = some x)
    (hnew : ∀ (k : ℕ) x, node.senders[k]? = some x → (s.ranks r).senders[k]? = some x ∨
      SenderOk s r k x) : Sound (s.setRank r node) := by
  refine h.update (r := r) .refl (fun r' hr => s.setRank_of_ne node hr) (fun _ _ _ => Iff.rfl)
    (by rwa [s.setRank_self]) (fun k x hx => ?_) (fun k hk => ?_) h.quiet
  · rw [s.setRank_self] at hx
    exact ((hnew k x hx).elim (h.sender r k x) id).mono MockCluster.Grows.refl id
  · obtain ⟨x, slot, hx, hslot⟩ := h.holder r k hk
    exact ⟨x, slot, by rw [s.setRank_self]; exact hold k x hx, hslot⟩

/-- The cluster changes, and nobody holds the mutex. -/
theorem Sound.setCluster (h : Sound s) (hfree : s.copier = none) {c : MockCluster}
    (hgrows : s.cluster.Grows c) : Sound { s with cluster := c } where
  node := h.node
  sender r k x hx := (h.sender r k x hx).mono hgrows id
  holder := h.holder
  quiet hheld := absurd hfree hheld

/-- **A step of a sender.** -/
theorem Sound.setSender (h : Sound s) {x : Sender} (hx : (s.ranks r).senders[k]? = some x)
    {status : SenderStatus} {c : MockCluster} {p : Option (CInt × ℕ)}
    (hgrows : s.cluster.Grows c)
    (hbefore : ∀ q, q ≠ (r, k) → (s.copier = some q ↔ p = some q))
    (hok : SenderOk { s with cluster := c, copier := p } r k { x with status := status })
    (hholder : p = some (r, k) → ∃ slot, status = .copying slot)
    (hquiet : p ≠ none → c.abortReason = none) :
    Sound { s.setRank r ((s.ranks r).setSender k status) with cluster := c, copier := p } := by
  have hnode := h.node r
  have hself : ({ s.setRank r ((s.ranks r).setSender k status) with cluster := c, copier := p } :
      MockState).ranks r = (s.ranks r).setSender k status := s.setRank_self r _
  refine h.update (r := r) hgrows (fun r' hr => s.setRank_of_ne _ hr)
    (fun r' hr k' => hbefore (r', k') fun he => hr (congrArg Prod.fst he)) ?_ (fun k' y hy => ?_)
    (fun k' hk' => ?_) hquiet
  · rw [hself]
    refine ⟨hnode.lt, hnode.waiting, hnode.inputs, hnode.ascending, hnode.place, hnode.queued, ?_,
      hnode.fresh⟩
    intro y hy
    obtain ⟨k', hk'⟩ := List.getElem?_of_mem hy
    rcases RankState.setSender_getElem? hk' with ⟨-, hy'⟩ | ⟨-, x', hx', rfl⟩
    · exact hnode.source y (List.mem_of_getElem? hy')
    · exact hnode.source x' (List.mem_of_getElem? hx')
  · rw [hself] at hy
    rcases RankState.setSender_getElem? hy with ⟨hk, hy'⟩ | ⟨rfl, x', hx', rfl⟩
    · refine (h.sender r k' y hy').mono (t := { s with cluster := c, copier := p }) hgrows ?_
      exact (hbefore (r, k') fun he => hk (congrArg Prod.snd he)).1
    · obtain rfl : x = x' := Option.some.inj (hx.symm.trans hx')
      exact hok
  · rw [hself]
    by_cases hk : k' = k
    · subst hk
      obtain ⟨slot, rfl⟩ := hholder hk'
      exact ⟨_, slot, by rw [RankState.setSender_getElem?_self, hx]; rfl, rfl⟩
    · obtain ⟨y, slot, hy, hslot⟩ := h.holder r k'
        ((hbefore (r, k') fun he => hk (congrArg Prod.snd he)).2 hk')
      exact ⟨y, slot, by rw [RankState.setSender_getElem?_of_ne hk]; exact hy, hslot⟩

end

/-! ## Steps of an executor -/

namespace Task

/-- A task that is done has completed its value. -/
theorem complete_ne_waiting {task : Task} {cell cell' : Cell} {result : Except Fault VecPayload}
    (h : task.complete cell result = .ok cell') : cell' ≠ .waiting := by
  have hfail : ∀ fault, VecValue.fail cell fault = .ok cell' → cell' ≠ .waiting := by
    intro fault hf
    unfold VecValue.fail at hf
    split at hf
    · exact Except.ok.inj hf ▸ Cell.noConfusion
    · cases hf
  unfold complete at h
  split at h
  next payload =>
    split at h
    next cell'' hfulfill =>
      obtain rfl := Except.ok.inj h
      unfold VecValue.fulfill at hfulfill
      split_ifs at hfulfill
      split at hfulfill
      · exact Except.ok.inj hfulfill ▸ Cell.noConfusion
      · cases hfulfill
    next fault _ => exact hfail fault h
  next fault =>
    split_ifs at h
    exact hfail fault h

@[simp] theorem complete_error (task : Task) (cell : Cell) (fault : Fault) :
    task.complete cell (.error fault) =
      if fault.isException then VecValue.fail cell fault else .error fault := rfl

theorem complete_ok {task : Task} {payload : VecPayload} (hkind : payload.kind = .ciphertext)
    (hmetadata : payload.metadata = task.metadata) :
    task.complete .waiting (.ok payload) = .ok (.ready payload) := by
  simp [complete, VecValue.fulfill, hkind, hmetadata]

/-- A payload that was not promised becomes an exception. -/
theorem complete_ok_of_ne {task : Task} {payload : VecPayload}
    (h : payload.kind ≠ .ciphertext ∨ payload.metadata ≠ task.metadata) :
    task.complete .waiting (.ok payload) =
      .ok (.failed (.runtimeError "VecValue fulfilled with wrong kind or metadata")) := by
  simp only [complete, VecValue.fulfill, if_pos h]
  rfl

/-- The value of a task that is not done yet can be completed. -/
theorem complete_waiting (task : Task) (result : Except Fault VecPayload)
    (h : ∀ fault, result = .error fault → fault.isException = true) :
    ∃ cell, task.complete .waiting result = .ok cell := by
  cases result with
  | error fault => exact ⟨.failed fault, by rw [complete_error, if_pos (h fault rfl)]; rfl⟩
  | ok payload =>
    by_cases hp : payload.kind ≠ .ciphertext ∨ payload.metadata ≠ task.metadata
    · exact ⟨_, complete_ok_of_ne hp⟩
    · simp only [not_or, not_not] at hp
      exact ⟨_, complete_ok hp.1 hp.2⟩

end Task

section
variable {node node' : RankState} {place : Place}

/-- A new task goes to the end of a queue, with a new value. -/
theorem NodeOk.submit (h : NodeOk node) {op : ComputeOp} {inputs : List VecValue}
    (metadata : VecMetadata) (hinputs : ∀ v ∈ inputs, v.Below node.allocated) :
    NodeOk { node with
      allocated := node.allocated + 1
      queues := Function.update node.queues op.place
        (node.queues op.place ++ [⟨op, inputs, metadata, node.allocated⟩]) } := by
  have hmem : ∀ place, ∀ t ∈ Function.update node.queues op.place
      (node.queues op.place ++ [⟨op, inputs, metadata, node.allocated⟩]) place,
      t ∈ node.queues place ∨ place = op.place ∧ t = ⟨op, inputs, metadata, node.allocated⟩ := by
    intro place t ht
    by_cases hp : place = op.place
    · subst hp
      rw [Function.update_self, List.mem_append, List.mem_singleton] at ht
      exact ht.imp_right fun h => ⟨rfl, h⟩
    · rw [Function.update_of_ne hp] at ht
      exact Or.inl ht
  have hold : ∀ place, ∀ t ∈ node.queues place, t ∈ Function.update node.queues op.place
      (node.queues op.place ++ [⟨op, inputs, metadata, node.allocated⟩]) place := by
    intro place t ht
    by_cases hp : place = op.place
    · subst hp
      rw [Function.update_self]
      exact List.mem_append_left _ ht
    · rwa [Function.update_of_ne hp]
  refine ⟨fun place t ht => ?_, fun place t ht => ?_, fun place t ht => ?_, fun place => ?_,
    fun place place' t ht t' ht' he => ?_, fun c hc hw => ?_,
    fun sender hs => (h.source sender hs).mono (Nat.le_succ _),
    fun c hc => h.fresh c (Nat.le_of_succ_le hc)⟩
  · rcases hmem place t ht with ht | ⟨-, rfl⟩
    exacts [Nat.lt_succ_of_lt (h.lt place t ht), Nat.lt_succ_self _]
  · rcases hmem place t ht with ht | ⟨-, rfl⟩
    exacts [h.waiting place t ht, h.fresh _ le_rfl]
  · rcases hmem place t ht with ht | ⟨-, rfl⟩
    exacts [h.inputs place t ht, hinputs]
  · show (Function.update node.queues op.place _ place).Pairwise _
    by_cases hp : place = op.place
    · subst hp
      rw [Function.update_self, List.pairwise_append]
      refine ⟨h.ascending _, List.pairwise_singleton _ _, fun t ht t' ht' => ?_⟩
      rw [List.mem_singleton.1 ht']
      exact h.lt _ t ht
    · rw [Function.update_of_ne hp]
      exact h.ascending place
  · rcases hmem place t ht with ht | ⟨hp, rfl⟩ <;> rcases hmem place' t' ht' with ht' | ⟨hp', rfl⟩
    · exact h.place place place' t ht t' ht' he
    · exact absurd he (Nat.ne_of_lt (h.lt place t ht))
    · exact absurd he (Nat.ne_of_gt (h.lt place' t' ht'))
    · exact hp.trans hp'.symm
  · rcases Nat.lt_succ_iff_lt_or_eq.1 hc with hc | rfl
    · obtain ⟨place, t, ht, he⟩ := h.queued c hc hw
      exact ⟨place, t, hold place t ht, he⟩
    · refine ⟨op.place, ⟨op, inputs, metadata, node.allocated⟩, ?_, rfl⟩
      show _ ∈ Function.update node.queues op.place _ op.place
      rw [Function.update_self]
      simp

theorem NodeOk.spawn (h : NodeOk node) (sender : Sender)
    (hsource : sender.source.Below node.allocated) :
    NodeOk { node with senders := node.senders ++ [sender] } := by
  refine ⟨h.lt, h.waiting, h.inputs, h.ascending, h.place, h.queued, fun x hx => ?_, h.fresh⟩
  rcases List.mem_append.1 hx with hx | hx
  exacts [h.source x hx, List.mem_singleton.1 hx ▸ hsource]

theorem NodeOk.setProg (h : NodeOk node)
    (p : Prog MockOp MockOp.Ans (RunResult VecValue × ℕ)) : NodeOk { node with prog := p } :=
  ⟨h.lt, h.waiting, h.inputs, h.ascending, h.place, h.queued, h.source, h.fresh⟩

variable [DoubleArith]

/-- What a worker does. -/
theorem RankState.runTask_eq_ok (h : node.runTask place = some (.ok node')) :
    ∃ task rest result cell, node.queues place = task :: rest ∧
      (VecExecutor.computeNow node.cells task.op task.inputs).run = some result ∧
      task.complete (node.cells task.cell) result = .ok cell ∧
      node' = { node with
        cells := Function.update node.cells task.cell cell
        queues := Function.update node.queues place rest } := by
  unfold runTask at h
  split at h
  · cases h
  next task rest hqueue =>
    split at h
    · cases h
    next result hresult =>
      obtain h := Option.some.inj h
      split at h
      · cases h
      next cell hcell => exact ⟨task, rest, result, cell, hqueue, hresult, hcell, (Except.ok.inj h).symm⟩

/-- A worker ends the process by undefined behaviour only. -/
theorem RankState.runTask_eq_error (hok : NodeOk node) {fault : Fault}
    (h : node.runTask place = some (.error fault)) : fault.isException = false := by
  unfold runTask at h
  split at h
  · cases h
  next task rest hqueue =>
    split at h
    · cases h
    next result hresult =>
      obtain h := Option.some.inj h
      have hwaiting : node.cells task.cell = .waiting :=
        hok.waiting place task (by rw [hqueue]; exact List.mem_cons_self)
      rw [hwaiting] at h
      split at h
      next fault' hcomplete =>
        obtain rfl := Except.error.inj h
        by_contra hexc
        by_cases hresult : ∀ fault, result = .error fault → fault.isException = true
        · obtain ⟨cell, hcell⟩ := task.complete_waiting result hresult
          rw [hcell] at hcomplete
          cases hcomplete
        · simp only [not_forall] at hresult
          obtain ⟨fault, rfl, hfault⟩ := hresult
          rw [Task.complete_error, if_neg hfault] at hcomplete
          exact hexc (Except.error.inj hcomplete ▸ by simpa using hfault)
      · cases h

/-- A value that is completed leaves its queue. -/
theorem NodeOk.runTask (h : NodeOk node) (hrun : node.runTask place = some (.ok node')) :
    NodeOk node' := by
  obtain ⟨task, rest, result, cell, hqueue, -, hcomplete, rfl⟩ := RankState.runTask_eq_ok hrun
  have hhead : task ∈ node.queues place := by rw [hqueue]; exact List.mem_cons_self
  have hmem : ∀ place', ∀ t ∈ Function.update node.queues place rest place',
      t ∈ node.queues place' := by
    intro place' t ht
    by_cases hp : place' = place
    · subst hp
      rw [Function.update_self] at ht
      rw [hqueue]
      exact List.mem_cons_of_mem _ ht
    · rwa [Function.update_of_ne hp] at ht
  have hpair := h.ascending place
  rw [hqueue, List.pairwise_cons] at hpair
  have hne : ∀ place', ∀ t ∈ Function.update node.queues place rest place',
      t.cell ≠ task.cell := by
    intro place' t ht he
    obtain rfl := h.place place' place t (hmem place' t ht) task hhead he
    rw [Function.update_self] at ht
    exact absurd he (Nat.ne_of_gt (hpair.1 t ht))
  refine ⟨fun place' t ht => h.lt place' t (hmem place' t ht), fun place' t ht => ?_,
    fun place' t ht => h.inputs place' t (hmem place' t ht), fun place' => ?_,
    fun p p' t ht t' ht' => h.place p p' t (hmem p t ht) t' (hmem p' t' ht'), fun c hc hw => ?_,
    h.source, fun c hc => ?_⟩
  · show Function.update node.cells task.cell cell t.cell = .waiting
    rw [Function.update_of_ne (hne place' t ht)]
    exact h.waiting place' t (hmem place' t ht)
  · show (Function.update node.queues place rest place').Pairwise _
    by_cases hp : place' = place
    · subst hp
      rw [Function.update_self]
      exact hpair.2
    · rw [Function.update_of_ne hp]
      exact h.ascending place'
  · change Function.update node.cells task.cell cell c = .waiting at hw
    by_cases he : c = task.cell
    · rw [he, Function.update_self] at hw
      exact absurd hw (Task.complete_ne_waiting hcomplete)
    · rw [Function.update_of_ne he] at hw
      obtain ⟨place', t, ht, rfl⟩ := h.queued c hc hw
      refine ⟨place', t, ?_, rfl⟩
      show t ∈ Function.update node.queues place rest place'
      by_cases hp : place' = place
      · subst hp
        rw [Function.update_self]
        rw [hqueue] at ht
        exact (List.mem_cons.1 ht).resolve_left fun h => he (h ▸ rfl)
      · rwa [Function.update_of_ne hp]
  · show Function.update node.cells task.cell cell c = .waiting
    have hlt := h.lt place task hhead
    have hne' : c ≠ task.cell := fun he => absurd (he ▸ hc) (Nat.not_le.2 hlt)
    rw [Function.update_of_ne hne']
    exact h.fresh c hc

end

/-! ## Steps of a thread -/

section
variable {group : MockGroup} {s s' t : MockState} {r : CInt} {w : Progress}
  {W : CInt → Progress}

/-- What a call has done. -/
structure Served (s s' : MockState) (r : CInt) (w' : Progress) : Prop where
  sound : Sound s'
  linked : Linked s' r w'
  other : ∀ r' ≠ r, s'.ranks r' = s.ranks r'
  grows : s.cluster.Grows s'.cluster
  keys : s'.cluster.planDigests.map (·.1) = s.cluster.planDigests.map (·.1) ∨
    r ∉ s.cluster.planDigests.map (·.1) ∧
      (s'.cluster.planDigests.map (·.1)).Perm (r :: s.cluster.planDigests.map (·.1))

theorem Served.refl (hs : Sound s) (hw : Linked s r w) : Served s s r w :=
  ⟨hs, hw, fun _ _ => rfl, .refl, Or.inl rfl⟩

/-- What a rank knows stays so while other ranks step. -/
theorem RankOk.other (h : RankOk group s r w) (hgrows : s.cluster.Grows t.cluster)
    (hrank : t.ranks r = s.ranks r)
    (hkeys : r ∈ t.cluster.planDigests.map (·.1) ↔ r ∈ s.cluster.planDigests.map (·.1)) :
    RankOk group t r w := by
  obtain ⟨hmeets, hw⟩ := h
  exact ⟨hrank ▸ hmeets, hrank ▸ hw.cells, hrank ▸ hw.spawned, hw.registered.trans hkeys.symm,
    fun ha => hgrows.abort (hw.aborted ha)⟩

/-- A step of one rank that is no call. -/
theorem MockInv.local (h : MockInv group s W) (hsound : Sound t) (hr : InWorld group.cluster.worldSize r)
    (hgrows : s.cluster.Grows t.cluster) (hother : ∀ r' ≠ r, t.ranks r' = s.ranks r')
    (hprog : (t.ranks r).prog = (s.ranks r).prog)
    (hcells : (t.ranks r).allocated = (s.ranks r).allocated)
    (hsenders : (t.ranks r).senders.map (fun sender => (sender.id, sender.destinations)) =
      (s.ranks r).senders.map fun sender => (sender.id, sender.destinations))
    (hkeys : t.cluster.planDigests = s.cluster.planDigests) : MockInv group t W where
  sound := hsound
  rank r' hr' := by
    by_cases he : r' = r
    · subst he
      obtain ⟨hmeets, hw⟩ := h.rank r' hr'
      exact ⟨hprog ▸ hmeets, hw.cells.trans hcells.symm, hw.spawned.trans hsenders.symm,
        hkeys ▸ hw.registered, fun ha => hgrows.abort (hw.aborted ha)⟩
    · exact (h.rank r' hr').other hgrows (hother r' he) (by rw [hkeys])
  idle r' hr' := by
    rw [hother r' fun he => hr' (he ▸ hr)]
    exact h.idle r' hr'
  nodup := hkeys ▸ h.nodup
  world := hkeys ▸ h.world

/-- Only ranks of the world have senders. -/
theorem MockInv.inWorld_of_sender (h : MockInv group s W) {k : ℕ} {x : Sender}
    (hx : (s.ranks r).senders[k]? = some x) : InWorld group.cluster.worldSize r := by
  by_contra hr
  rw [h.idle r hr] at hx
  cases hx

/-- Only ranks of the world have something to do. -/
theorem MockInv.inWorld_of_call (h : MockInv group s W) {op : MockOp} {k}
    (hprog : (s.ranks r).prog = .call op k) : InWorld group.cluster.worldSize r := by
  by_contra hr
  rw [h.idle r hr] at hprog
  simp [MockGroup.initial, if_neg hr] at hprog

theorem MockInv.senderStep (h : MockInv group s W) {k : ℕ} {x : Sender}
    (hx : (s.ranks r).senders[k]? = some x) {status : SenderStatus} {c : MockCluster}
    {p : Option (CInt × ℕ)} (hgrows : s.cluster.Grows c)
    (hbefore : ∀ q, q ≠ (r, k) → (s.copier = some q ↔ p = some q))
    (hok : SenderOk { s with cluster := c, copier := p } r k { x with status := status })
    (hholder : p = some (r, k) → ∃ slot, status = .copying slot)
    (hquiet : p ≠ none → c.abortReason = none) (hkeys : c.planDigests = s.cluster.planDigests) :
    MockInv group
      { s.setRank r ((s.ranks r).setSender k status) with cluster := c, copier := p } W := by
  have hself := s.setRank_self r ((s.ranks r).setSender k status)
  refine h.local (r := r) (h.sound.setSender hx hgrows hbefore hok hholder hquiet)
    (h.inWorld_of_sender hx) hgrows (fun r' hr' => s.setRank_of_ne _ hr') ?_ ?_ ?_ hkeys
  · show ((s.setRank r _).ranks r).prog = _
    rw [hself]
    rfl
  · show ((s.setRank r _).ranks r).allocated = _
    rw [hself]
    rfl
  · show List.map _ ((s.setRank r _).ranks r).senders = _
    rw [hself]
    exact (s.ranks r).setSender_spawned k status

/-- A sender that has caught an exception. -/
theorem SenderOk.thrown {k : ℕ} {x : Sender} {thrown : Thrown}
    (h : ∀ reason, thrown = .clusterPanic reason → s.cluster.abortReason.isSome) :
    SenderOk s r k { x with status := .thrown thrown } := by
  cases thrown with
  | clusterPanic reason => exact h reason rfl
  | fault fault => trivial

theorem MockInv.init (group : MockGroup)
    (hopen : ∀ r, InWorld group.cluster.worldSize r →
      SequentialRuntime.openTrace (group.env r) r = .ok ()) :
    MockInv group group.initial fun _ => {} where
  sound :=
    { node := fun r => ⟨by simp [MockGroup.initial], by simp [MockGroup.initial],
        by simp [MockGroup.initial], fun _ => List.Pairwise.nil, by simp [MockGroup.initial],
        fun c hc => absurd hc (Nat.not_lt_zero c), by simp [MockGroup.initial], fun _ _ => rfl⟩
      sender := fun r k x hx => by cases hx
      holder := fun r k hk => by cases hk
      quiet := fun hheld => absurd rfl hheld }
  rank r hr := by
    refine ⟨?_, rfl, rfl, by simp [MockGroup.initial], by simp⟩
    have hopen' : SequentialRuntime.openTrace (group.env r) (group.run r).rank = .ok () := by
      rw [group.rank_eq r hr]
      exact hopen r hr
    have hmeets := @MockVecApi.rankProgram_meets group.cluster (group.api r) (group.run r)
      (group.env r) hopen' (group.inputs_ready r hr)
    rw [group.rank_eq r hr, group.plan_eq r hr, group.worldSize_eq r hr] at hmeets
    simpa [MockGroup.initial, MockGroup.flag, if_pos hr] using hmeets
  idle _ _ := rfl
  nodup := List.nodup_nil
  world := by simp [MockGroup.initial]

variable [DoubleArith]

/-- **A call that the protocol allows is served as the protocol promises.** -/
theorem MockState.perform_served (hs : Sound s) (hw : Linked s r w) {op : MockOp} {ans : op.Ans}
    (hpre : (progressProtocol group.cluster.worldSize group.plan (group.flag r) r).pre w op)
    (h : s.perform group.cluster r op = some (ans, s')) :
    ∃ w', (progressProtocol group.cluster.worldSize group.plan (group.flag r) r).post w op ans w' ∧
      Served s s' r w' := by
  cases op with
  | register digest skip =>
    simp only [perform] at h
    split_ifs at h with hfree
    split at h
    next c hc =>
      obtain ⟨rfl, rfl⟩ := Prod.mk.inj (Option.some.inj h)
      obtain ⟨hfresh, rfl⟩ := MockCluster.register_eq_ok.1 hc
      have hperm := (emplace_perm digest hfresh).map (·.1)
      refine ⟨_, rfl, hs.setCluster hfree ⟨fun _ h => h, fun h => h⟩,
        ⟨hw.cells, hw.spawned, ?_, hw.aborted⟩, fun _ _ => rfl, ⟨fun _ h => h, fun h => h⟩,
        Or.inr ⟨hfresh, hperm⟩⟩
      show true = true ↔ r ∈ (emplace r digest s.cluster.planDigests).map (·.1)
      rw [hperm.mem_iff]
      simp
    next thrown hc =>
      obtain ⟨rfl, rfl⟩ := Prod.mk.inj (Option.some.inj h)
      exact ⟨w, rfl, .refl hs hw⟩
  | awaitPreflight =>
    simp only [perform] at h
    split_ifs at h with hready
    obtain ⟨rfl, rfl⟩ := Prod.mk.inj (Option.some.inj h)
    have hkeys : s.cluster.agree.2.planDigests = s.cluster.planDigests := by
      rw [s.cluster.agree_tables]
    obtain ⟨refused, hpost⟩ : ∃ refused,
        (progressProtocol group.cluster.worldSize group.plan (group.flag r) r).post w .awaitPreflight
          (s.cluster.agree.1.mapError Thrown.toFault) { w with refused := refused } := by
      cases s.cluster.agree.1 with
      | ok u => exact ⟨w.refused, rfl⟩
      | error thrown => exact ⟨true, rfl⟩
    refine ⟨_, hpost, hs.setCluster hready.1 s.cluster.agree_grows,
      ⟨hw.cells, hw.spawned, ?_, fun ha => s.cluster.agree_grows.abort (hw.aborted ha)⟩,
      fun _ _ => rfl, s.cluster.agree_grows, Or.inl ?_⟩
    · show w.registered = true ↔ r ∈ s.cluster.agree.2.planDigests.map (·.1)
      rw [hkeys]
      exact hw.registered
    · show s.cluster.agree.2.planDigests.map (·.1) = _
      rw [hkeys]
  | computeNow op inputs =>
    obtain ⟨result, -, hresult⟩ := Option.map_eq_some_iff.1 h
    obtain ⟨rfl, rfl⟩ := Prod.mk.inj hresult
    exact ⟨w, rfl, .refl hs hw⟩
  | submit op inputs metadata =>
    obtain ⟨rfl, rfl⟩ := Prod.mk.inj (Option.some.inj h)
    refine ⟨_, ⟨by rw [hw.cells], rfl⟩, ?_, ⟨?_, ?_, hw.registered, hw.aborted⟩,
      fun r' hr => s.setRank_of_ne _ hr, .refl, Or.inl rfl⟩
    · refine hs.setNode ((hs.node r).submit metadata fun v hv => hw.cells ▸ hpre v hv)
        (fun _ _ hx => hx) fun _ _ hx => Or.inl hx
    · rw [s.setRank_self, ← hw.cells]
    · rw [s.setRank_self]
      exact hw.spawned
  | spawn id destinations source =>
    obtain ⟨rfl, rfl⟩ := Prod.mk.inj (Option.some.inj h)
    refine ⟨_, ⟨by rw [hw.spawned, List.length_map], rfl⟩, ?_, ⟨?_, ?_, hw.registered, hw.aborted⟩,
      fun r' hr => s.setRank_of_ne _ hr, .refl, Or.inl rfl⟩
    · refine hs.setNode ((hs.node r).spawn _ (hw.cells ▸ hpre)) (fun k x hx => ?_)
        fun k x hx => ?_
      · exact (List.getElem?_append_left (List.getElem?_eq_some_iff.1 hx).1).trans hx
      · rcases Nat.lt_or_ge k (s.ranks r).senders.length with hk | hk
        · rw [List.getElem?_append_left hk] at hx
          exact Or.inl hx
        · rw [List.getElem?_append_right hk] at hx
          obtain rfl := List.mem_singleton.1 (List.mem_of_getElem? hx)
          exact Or.inr ⟨Nat.zero_le _, fun j hj => absurd hj (Nat.not_lt_zero j)⟩
    · rw [s.setRank_self]
      exact hw.cells
    · rw [s.setRank_self]
      simp [hw.spawned]
  | join k =>
    simp only [perform] at h
    split at h
    · obtain ⟨rfl, rfl⟩ := Prod.mk.inj (Option.some.inj h)
      exact ⟨w, rfl, .refl hs hw⟩
    · cases h
  | receive id slot =>
    simp only [perform] at h
    split_ifs at h
    obtain ⟨rfl, rfl⟩ := Prod.mk.inj (Option.some.inj h)
    exact ⟨w, rfl, .refl hs hw⟩
  | materialize value =>
    obtain ⟨result, -, hresult⟩ := Option.map_eq_some_iff.1 h
    obtain ⟨rfl, rfl⟩ := Prod.mk.inj hresult
    exact ⟨w, rfl, .refl hs hw⟩
  | abortAll reason =>
    simp only [perform] at h
    split_ifs at h with hfree
    obtain ⟨rfl, rfl⟩ := Prod.mk.inj (Option.some.inj h)
    have hgrows : s.cluster.Grows (s.cluster.abort reason) := ⟨fun _ h => h, fun _ => rfl⟩
    exact ⟨_, rfl, hs.setCluster hfree hgrows, ⟨hw.cells, hw.spawned, hw.registered, fun _ => rfl⟩,
      fun _ _ => rfl, hgrows, Or.inl rfl⟩

/-- Only ranks of the world have workers. -/
theorem MockInv.inWorld_of_worker (h : MockInv group s W) {place : Place}
    {result : Except Fault RankState} (hrun : (s.ranks r).runTask place = some result) :
    InWorld group.cluster.worldSize r := by
  by_contra hr
  rw [h.idle r hr] at hrun
  cases hrun

/-- **A call keeps the invariant**; the ghost state of its rank moves on. -/
theorem MockInv.call {op : MockOp} {k : op.Ans → _} {ans : op.Ans} (h : MockInv group s W)
    (hprog : (s.ranks r).prog = .call op k)
    (hperform : s.perform group.cluster r op = some (ans, s')) :
    ∃ w', (progressProtocol group.cluster.worldSize group.plan (group.flag r) r).post (W r) op ans w' ∧
      MockInv group (s'.setRank r { s'.ranks r with prog := k ans })
        (Function.update W r w') := by
  have hr := h.inWorld_of_call hprog
  obtain ⟨hmeets, hw⟩ := h.rank r hr
  rw [hprog, Prog.meets_call] at hmeets
  obtain ⟨w', hpost, hserved⟩ := MockState.perform_served h.sound hw hmeets.1 hperform
  have hself := s'.setRank_self r { s'.ranks r with prog := k ans }
  refine ⟨w', hpost, hserved.sound.setNode ((hserved.sound.node r).setProg _) (fun _ _ hx => hx)
    (fun _ _ hx => Or.inl hx), fun r' hr' => ?_, fun r' hr' => ?_, ?_, ?_⟩
  · by_cases he : r' = r
    · subst he
      rw [Function.update_self]
      refine ⟨by rw [hself]; exact hmeets.2 ans w' hpost, ?_, ?_, hserved.linked.registered,
        hserved.linked.aborted⟩ <;> rw [hself]
      exacts [hserved.linked.cells, hserved.linked.spawned]
    · rw [Function.update_of_ne he]
      refine (h.rank r' hr').other hserved.grows
        ((s'.setRank_of_ne _ he).trans (hserved.other r' he)) ?_
      show r' ∈ s'.cluster.planDigests.map (·.1) ↔ _
      rcases hserved.keys with hkeys | ⟨-, hperm⟩
      · rw [hkeys]
      · rw [hperm.mem_iff, List.mem_cons, or_iff_right he]
  · have he : r' ≠ r := fun he => hr' (he ▸ hr)
    exact ((s'.setRank_of_ne _ he).trans (hserved.other r' he)).trans (h.idle r' hr')
  · rcases hserved.keys with hkeys | ⟨hfresh, hperm⟩
    · exact hkeys ▸ h.nodup
    · exact hperm.nodup_iff.2 (List.nodup_cons.2 ⟨hfresh, h.nodup⟩)
  · rcases hserved.keys with hkeys | ⟨-, hperm⟩
    · exact hkeys ▸ h.world
    · intro r' hmem
      rcases List.mem_cons.1 (hperm.mem_iff.1 hmem) with rfl | hmem
      exacts [hr, h.world r' hmem]

/-- A step that is no call. -/
theorem MockInv.silent (h : MockInv group s W) {l : MockLabel} (hst : MockStep group.cluster s l t)
    (hl : ∀ r event, l ≠ .call r event) : MockInv group t W := by
  have hs := h.sound
  cases hst with
  | call => exact absurd rfl (hl _ _)
  | @acquire r k slot x hdead hx hstatus hslot hfree hadmit =>
    have hx' := hs.sender r k x hx
    rw [SenderOk, hstatus] at hx'
    refine h.senderStep (c := s.cluster) hx .refl (fun q hq => ?_) ⟨rfl, hslot, hx'.2⟩
      (fun _ => ⟨slot, rfl⟩) (fun _ => MockCluster.admitPublish_eq_ok hadmit) rfl
    rw [hfree]
    simpa using Ne.symm hq
  | @refuse r k slot x thrown hdead hx hstatus hslot hfree hadmit =>
    refine h.senderStep (c := s.cluster) (p := s.copier) hx .refl (fun q _ => Iff.rfl)
      (.thrown fun reason hreason => ?_) (fun hheld => ?_) (fun hheld => absurd hfree hheld) rfl
    · exact MockCluster.admitPublish_eq_panic (hreason ▸ hadmit)
    · rw [hfree] at hheld
      cases hheld
  | @store r k slot x payload c hdead hx hstatus hpayload hstore =>
    have hx' := hs.sender r k x hx
    rw [SenderOk, hstatus] at hx'
    have hgrows := MockCluster.store_grows hstore
    obtain ⟨-, rfl⟩ := MockCluster.store_eq_ok hstore
    refine h.senderStep (p := none) hx hgrows (fun q hq => ?_) ⟨hx'.2.1, fun j hj => ?_⟩
      (fun hheld => by cases hheld) (fun hheld => absurd rfl hheld) rfl
    · rw [hx'.1]
      simpa using Ne.symm hq
    · rcases Nat.lt_succ_iff_lt_or_eq.1 hj with hj | rfl
      · exact hgrows.messages _ (hx'.2.2 j hj)
      · show (Function.update s.cluster.messages _ _ _).isSome
        rw [Function.update_self]
        rfl
  | @spoil r k slot x thrown hdead hx hstatus hspoil =>
    have hx' := hs.sender r k x hx
    rw [SenderOk, hstatus] at hx'
    refine h.senderStep (c := s.cluster) (p := none) hx .refl (fun q hq => ?_)
      (.thrown fun reason hreason => ?_) (fun hheld => by cases hheld)
      (fun hheld => absurd rfl hheld) rfl
    · rw [hx'.1]
      simpa using Ne.symm hq
    · subst hreason
      rcases hspoil with ⟨fault, -, hfault⟩ | ⟨payload, -, hstore⟩
      · cases hfault
      · exact absurd hstore MockCluster.store_ne_panic
  | @finish r k slot x hdead hx hstatus hslot =>
    have hx' := hs.sender r k x hx
    rw [SenderOk, hstatus] at hx'
    refine h.senderStep (c := s.cluster) (p := s.copier) hx .refl (fun q _ => Iff.rfl)
      (fun j hj => hx'.2 j (hj.trans_le hslot)) (fun hheld => ?_) hs.quiet rfl
    obtain ⟨x', slot', hx'', hstatus'⟩ := hs.holder r k hheld
    rw [hx] at hx''
    obtain rfl := Option.some.inj hx''
    rw [hstatus] at hstatus'
    cases hstatus'
  | @abort r k x reason hdead hx hstatus hfree =>
    refine h.senderStep (p := s.copier) hx ⟨fun _ h => h, fun _ => rfl⟩ (fun q _ => Iff.rfl)
      (by rfl) (fun hheld => ?_) (fun hheld => absurd hfree hheld) rfl
    rw [hfree] at hheld
    cases hheld
  | @worker r place node hdead hrun =>
    have hnode := (hs.node r).runTask hrun
    have hr := h.inWorld_of_worker hrun
    obtain ⟨task, rest, result, cell, -, -, -, rfl⟩ := RankState.runTask_eq_ok hrun
    have hself := s.setRank_self r { s.ranks r with
      cells := Function.update (s.ranks r).cells task.cell cell
      queues := Function.update (s.ranks r).queues place rest }
    refine h.local (r := r) (hs.setNode hnode (fun _ _ hx => hx) fun _ _ hx => Or.inl hx) hr .refl
      (fun r' hr' => s.setRank_of_ne _ hr') ?_ ?_ ?_ rfl
    all_goals rw [hself]
  | crash hdead hrun =>
    exact ⟨⟨hs.node, hs.sender, hs.holder, hs.quiet⟩,
      fun r hr => (h.rank r hr).other .refl rfl Iff.rfl, h.idle, h.nodup, h.world⟩

/-- **Every step keeps the invariant**, and no rank forgets that it was refused. -/
theorem MockInv.step (h : MockInv group s W) {l : MockLabel}
    (hst : MockStep group.cluster s l t) :
    ∃ W', MockInv group t W' ∧ ∀ r, (W r).refused = true → (W' r).refused = true := by
  by_cases hl : ∃ r event, l = .call r event
  · obtain ⟨r, event, rfl⟩ := hl
    cases hst with
    | call hdead hprog hperform =>
      obtain ⟨w', hpost, hinv⟩ := h.call hprog hperform
      refine ⟨_, hinv, fun r' hrefused => ?_⟩
      by_cases he : r' = r
      · subst he
        rw [Function.update_self]
        exact progressProtocol_refused hpost hrefused
      · rwa [Function.update_of_ne he]
  · simp only [not_exists] at hl
    exact ⟨W, h.silent hst hl, fun _ hr => hr⟩

/-- **The invariant holds in every reachable state**, once every trace is open. -/
theorem MockInv.of_reachable
    (hopen : ∀ r, InWorld group.cluster.worldSize r →
      SequentialRuntime.openTrace (group.env r) r = .ok ())
    (h : group.system.Reachable s) : ∃ W, MockInv group s W := by
  refine h.invariant (I := fun s => ∃ W, MockInv group s W)
    (fun s hs => ⟨_, (show s = group.initial from hs) ▸ MockInv.init group hopen⟩) ?_
  rintro s l t - ⟨W, hI⟩ hst
  obtain ⟨W', hI', -⟩ := hI.step hst
  exact ⟨W', hI'⟩

end

end CkksRuntime
