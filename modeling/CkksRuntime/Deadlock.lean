/-
  ckks-runtime formalization — the mock cluster never gets stuck.

  The parties are the threads, the senders and the workers of all ranks.
  `MockState.WaitsFor` says what a party waits for: the mutex, a value, the
  registration of a rank, a sender, a message.

  * values wait for smaller values of the same executor (`worker_helps`);
  * a message waits for its sender, or for a thread that has yet to post an action
    which comes no later in the plan than any it waits for (`receive_helps`).

  `mock_never_stuck`: whatever is unfinished can step, or waits, through some others,
  for a party that can; after an abort nothing returns normally from the cluster.
-/
import CkksRuntime.MockInvariant

namespace CkksRuntime

open Interaction Transitions Relation

/-! ## Waiting -/

/-- Who can step. -/
inductive Party where
  | thread (rank : CInt)
  | sender (rank : CInt) (sender : ℕ)
  | worker (rank : CInt) (place : Place)

/-- Who takes a step. -/
def MockLabel.party : MockLabel → Party
  | call r _ => .thread r
  | published r k _ | sender r k => .sender r k
  | worker r place => .worker r place

/-- `preflight`, `publish` or `receive` returns normally. -/
def MockLabel.ReturnsNormally : MockLabel → Prop
  | call _ ⟨.awaitPreflight, .ok _⟩ | call _ ⟨.receive .., .ok _⟩ | published .. => True
  | _ => False

/-- The calls that take the mutex of the cluster. -/
def MockOp.Locks : MockOp → Prop
  | register .. | awaitPreflight | receive .. | abortAll _ => True
  | _ => False

/-- The sender has to take the mutex of the cluster. -/
def Sender.Locks (sender : Sender) : Prop :=
  (∃ slot, sender.status = .publishing slot) ∨ ∃ reason, sender.status = .aborting reason

namespace MockState

variable (group : MockGroup) (s : MockState)

def Unfinished : Party → Prop
  | .thread r => ∃ op k, (s.ranks r).prog = .call op k
  | .sender r k => ∃ sender, (s.ranks r).senders[k]? = some sender ∧
    ∀ result, sender.status ≠ .done result
  | .worker r place => (s.ranks r).queues place ≠ []

def CanStep [DoubleArith] (p : Party) : Prop := ∃ l t, MockStep group.cluster s l t ∧ l.party = p

/-- The values of a rank that a party materializes next. -/
inductive Reads : Party → CInt → VecValue → Prop
  | computeNow {r op inputs k v} : (s.ranks r).prog = .call (.computeNow op inputs) k →
    v ∈ inputs → Reads (.thread r) r v
  | materialize {r v k} : (s.ranks r).prog = .call (.materialize v) k → Reads (.thread r) r v
  | copy {r k sender slot} : (s.ranks r).senders[k]? = some sender →
    sender.status = .copying slot → Reads (.sender r k) r sender.source
  | task {r place task rest v} : (s.ranks r).queues place = task :: rest → v ∈ task.inputs →
    Reads (.worker r place) r v

/-- The rank has started the sender of an action. -/
def Spawned (r : CInt) (id : TransferId) (destinations : ℕ) : Prop :=
  ∃ sender ∈ (s.ranks r).senders, sender.id = id ∧ sender.destinations = destinations

/-- A party waits for another. -/
inductive WaitsFor : Party → Party → Prop
  /-- for the mutex: for the sender that holds it -/
  | mutex {r op k p} : (s.ranks r).prog = .call op k → op.Locks → s.copier = some p →
    WaitsFor (.thread r) (.sender p.1 p.2)
  | mutexSender {r k sender p} : (s.ranks r).senders[k]? = some sender → sender.Locks →
    s.copier = some p → WaitsFor (.sender r k) (.sender p.1 p.2)
  /-- for a value: for the worker that has its task -/
  | value {p r kind metadata place task} : s.Reads p r (.pending kind metadata task.cell) →
    task ∈ (s.ranks r).queues place → WaitsFor p (.worker r place)
  /-- in `preflight`: for a rank that has not registered -/
  | preflight {r r' k} : (s.ranks r).prog = .call .awaitPreflight k →
    s.cluster.abortReason = none → InWorld group.cluster.worldSize r' →
    r' ∉ s.cluster.planDigests.map (·.1) → WaitsFor (.thread r) (.thread r')
  /-- in `sender.get()` -/
  | join {r k next sender} : (s.ranks r).prog = .call (.join k) next →
    (s.ranks r).senders[k]? = some sender → (∀ result, sender.status ≠ .done result) →
    WaitsFor (.thread r) (.sender r k)
  /-- in `receive`: for the sender of the message -/
  | message {r id slot next r' k sender} : (s.ranks r).prog = .call (.receive id slot) next →
    ¬ s.cluster.Arrived id slot → (s.ranks r').senders[k]? = some sender → sender.id = id →
    slot < sender.destinations → WaitsFor (.thread r) (.sender r' k)
  /-- in `receive`: for the rank that is to start the sender -/
  | source {r id slot next a place} : (s.ranks r).prog = .call (.receive id slot) next →
    ¬ s.cluster.Arrived id slot → a ∈ group.plan.actions → a.id = id →
    a.sources[0]? = some place → ¬ s.Spawned place.rank id a.destinations.length →
    WaitsFor (.thread r) (.thread place.rank)

/-- The party can step, or waits, through some others, for one that can. -/
def Helped [DoubleArith] (p : Party) : Prop :=
  ∃ q, ReflTransGen (s.WaitsFor group) p q ∧ s.CanStep group q

end MockState

/-! ## Everybody is helped -/

section
variable {group : MockGroup} {s : MockState} {r : CInt} {p q : Party} {W : CInt → Progress}

/-- The thread of a rank that has not aborted has something to do until it has
    registered, and posted every action. -/
theorem unfinished_of_thread (halive : ¬ s.Dead) (hinv : MockInv group s W)
    (habort : s.cluster.abortReason = none) (hr : InWorld group.cluster.worldSize r) :
    (∃ op k, (s.ranks r).prog = .call op k) ∨ r ∈ s.cluster.planDigests.map (·.1) ∧
      (s.ranks r).senders.map (fun sender => (sender.id, sender.destinations)) =
        sendsOf r group.plan.actions := by
  obtain ⟨hmeets, hw⟩ := hinv.rank r hr
  cases hprog : (s.ranks r).prog with
  | call op k => exact Or.inl ⟨op, k, rfl⟩
  | ret result =>
    obtain ⟨result, l⟩ := result
    rw [hprog, Prog.meets_ret] at hmeets
    cases result with
    | returned artifact =>
      exact Or.inr ⟨hw.registered.1 hmeets.1, hw.spawned.symm.trans hmeets.2.2⟩
    | threw e =>
      have := hw.aborted hmeets
      rw [habort] at this
      cases this
    | crashed => exact absurd (Or.inr ⟨r, by rw [RankState.result?, hprog]⟩) halive

/-- A sender of an action that has been posted. -/
theorem spawned_of_posted {actions : List CommAction} {a : CommAction} {place : Place}
    (hspawned : (s.ranks r).senders.map (fun sender => (sender.id, sender.destinations)) =
      sendsOf r actions) (ha : a ∈ actions) (hsource : a.sources[0]? = some place)
    (hr : place.rank = r) : s.Spawned r a.id a.destinations.length := by
  have hmem : (a.id, a.destinations.length) ∈ sendsOf r actions := by
    refine List.mem_map.2 ⟨a, List.mem_filter.2 ⟨ha, ?_⟩, rfl⟩
    simp [CommAction.sourcedBy, hsource, hr]
  rw [← hspawned] at hmem
  obtain ⟨x, hx, he⟩ := List.mem_map.1 hmem
  exact ⟨x, hx, (Prod.mk.inj he).1, (Prod.mk.inj he).2⟩

variable [DoubleArith]

theorem MockState.CanStep.helped (h : s.CanStep group p) : s.Helped group p := ⟨p, .refl, h⟩

theorem MockState.Helped.of_waitsFor (h : s.Helped group q) (hw : s.WaitsFor group p q) :
    s.Helped group p := by
  obtain ⟨q', hq, hstep⟩ := h
  exact ⟨q', .head hw hq, hstep⟩

/-- A thread whose call is served can step. -/
theorem canStep_thread (halive : ¬ s.Dead) {op : MockOp} {k} (hprog : (s.ranks r).prog = .call op k)
    (h : (s.perform group.cluster r op).isSome) : s.CanStep group (.thread r) := by
  obtain ⟨⟨ans, s'⟩, hperform⟩ := Option.isSome_iff_exists.1 h
  exact ⟨_, _, .call halive hprog hperform, rfl⟩

/-- A worker whose task need not wait can step. -/
theorem canStep_worker (halive : ¬ s.Dead) {place : Place} {task : Task} {rest : List Task}
    (hqueue : (s.ranks r).queues place = task :: rest)
    (h : ∀ v ∈ task.inputs, v.Settled (s.ranks r).cells) : s.CanStep group (.worker r place) := by
  obtain ⟨result, hresult⟩ := Option.isSome_iff_exists.1
    (@VecExecutor.computeNow_isSome _ _ task.op _ h)
  have hrun : ((s.ranks r).runTask place).isSome := by
    unfold RankState.runTask
    rw [hqueue]
    dsimp only
    rw [hresult]
    rfl
  obtain ⟨result', hrun⟩ := Option.isSome_iff_exists.1 hrun
  cases result' with
  | ok node => exact ⟨_, _, .worker halive hrun, rfl⟩
  | error fault => exact ⟨_, _, .crash halive hrun, rfl⟩

/-- The worker that has the task of a value, by induction on the value: the task at
    the head of the queue completes no larger value, and reads smaller ones. -/
theorem worker_helps (halive : ¬ s.Dead) (hnode : NodeOk (s.ranks r)) (c : ℕ) :
    ∀ place, ∀ task ∈ (s.ranks r).queues place, task.cell = c →
      s.Helped group (.worker r place) := by
  induction c using Nat.strong_induction_on with
  | _ c ih =>
    rintro place task htask rfl
    obtain ⟨head, rest, hqueue⟩ := List.exists_cons_of_ne_nil (List.ne_nil_of_mem htask)
    have hhead : head ∈ (s.ranks r).queues place := by rw [hqueue]; exact List.mem_cons_self
    have hle : head.cell ≤ task.cell := by
      have hpair := hnode.ascending place
      rw [hqueue] at hpair htask
      rcases List.mem_cons.1 htask with rfl | htask
      exacts [le_rfl, Nat.le_of_lt ((List.pairwise_cons.1 hpair).1 task htask)]
    by_cases hsettled : ∀ v ∈ head.inputs, v.Settled (s.ranks r).cells
    · exact (canStep_worker halive hqueue hsettled).helped
    · simp only [not_forall] at hsettled
      obtain ⟨v, hv, hunsettled⟩ := hsettled
      obtain ⟨kind, metadata, c, rfl, hwaiting⟩ := VecValue.waiting_of_not_settled hunsettled
      have hc : c < head.cell := hnode.inputs place head hhead _ hv
      obtain ⟨place', task', htask', rfl⟩ :=
        hnode.queued c (hc.trans (hnode.lt place head hhead)) hwaiting
      exact (ih _ (hc.trans_le hle) place' task' htask' rfl).of_waitsFor
        (.value (.task hqueue hv) htask')

/-- A party that materializes a promised value. -/
theorem reads_helps (halive : ¬ s.Dead) (hnode : NodeOk (s.ranks r)) {v : VecValue}
    (hreads : s.Reads p r v) (hbelow : v.Below (s.ranks r).allocated)
    (hunsettled : ¬ v.Settled (s.ranks r).cells) : s.Helped group p := by
  obtain ⟨kind, metadata, c, rfl, hwaiting⟩ := VecValue.waiting_of_not_settled hunsettled
  obtain ⟨place, task, htask, rfl⟩ := hnode.queued c hbelow hwaiting
  exact (worker_helps halive hnode _ place task htask rfl).of_waitsFor (.value hreads htask)

/-- The sender that holds the mutex. -/
theorem copying_helps (halive : ¬ s.Dead) (hnode : NodeOk (s.ranks r)) {k slot : ℕ} {x : Sender}
    (hx : (s.ranks r).senders[k]? = some x) (hstatus : x.status = .copying slot) :
    s.Helped group (.sender r k) := by
  by_cases hsettled : x.source.Settled (s.ranks r).cells
  · obtain ⟨result, hresult⟩ := Option.isSome_iff_exists.1 hsettled
    refine MockState.CanStep.helped ?_
    cases result with
    | error fault =>
      exact ⟨_, _, .spoil halive hx hstatus (Or.inl ⟨fault, hresult, rfl⟩), rfl⟩
    | ok payload =>
      cases hstore : s.cluster.store x.id slot payload with
      | ok cluster => exact ⟨_, _, .store halive hx hstatus hresult hstore, rfl⟩
      | error thrown =>
        exact ⟨_, _, .spoil halive hx hstatus (Or.inr ⟨payload, hresult, hstore⟩), rfl⟩
  · exact reads_helps halive hnode (.copy hx hstatus)
      (hnode.source x (List.mem_of_getElem? hx)) hsettled

/-- A party that finds the mutex taken. -/
theorem holder_helps (halive : ¬ s.Dead) (hs : Sound s) {p : CInt × ℕ} (hheld : s.copier = some p) :
    s.Helped group (.sender p.1 p.2) := by
  obtain ⟨x, slot, hx, hstatus⟩ := hs.holder p.1 p.2 hheld
  exact copying_helps halive (hs.node p.1) hx hstatus

/-- A sender that is not done. -/
theorem sender_helps (halive : ¬ s.Dead) (hs : Sound s) {k : ℕ} {x : Sender}
    (hx : (s.ranks r).senders[k]? = some x) (hundone : ∀ result, x.status ≠ .done result) :
    s.Helped group (.sender r k) := by
  cases hstatus : x.status with
  | publishing slot =>
    rcases Nat.lt_or_ge slot x.destinations with hslot | hslot
    · cases hfree : s.copier with
      | some p =>
        exact (holder_helps halive hs hfree).of_waitsFor
          (.mutexSender hx (Or.inl ⟨slot, hstatus⟩) hfree)
      | none =>
        refine MockState.CanStep.helped ?_
        cases hadmit : s.cluster.admitPublish group.cluster x.id with
        | ok u => exact ⟨_, _, .acquire halive hx hstatus hslot hfree hadmit, rfl⟩
        | error thrown => exact ⟨_, _, .refuse halive hx hstatus hslot hfree hadmit, rfl⟩
    · exact MockState.CanStep.helped ⟨_, _, .finish halive hx hstatus hslot, rfl⟩
  | copying slot => exact copying_helps halive (hs.node r) hx hstatus
  | aborting reason =>
    cases hfree : s.copier with
    | some p =>
      exact (holder_helps halive hs hfree).of_waitsFor
        (.mutexSender hx (Or.inr ⟨reason, hstatus⟩) hfree)
    | none => exact MockState.CanStep.helped ⟨_, _, .abort halive hx hstatus hfree, rfl⟩
  | done result => exact absurd hstatus (hundone result)

/-- A thread that waits for no other thread. -/
theorem thread_helps (halive : ¬ s.Dead) (hinv : MockInv group s W)
    (hr : InWorld group.cluster.worldSize r) {op : MockOp} {k}
    (hprog : (s.ranks r).prog = .call op k)
    (hpreflight : op = .awaitPreflight → s.cluster.Gathered group.cluster)
    (hreceive : ∀ id slot, op = .receive id slot → s.cluster.Arrived id slot) :
    s.Helped group (.thread r) := by
  have hs := hinv.sound
  obtain ⟨hmeets, hw⟩ := hinv.rank r hr
  rw [hprog, Prog.meets_call] at hmeets
  have hpre := hmeets.1
  have hlock : op.Locks → (s.copier = none → (s.perform group.cluster r op).isSome) →
      s.Helped group (.thread r) := by
    intro hlocks hperform
    cases hfree : s.copier with
    | some p => exact (holder_helps halive hs hfree).of_waitsFor (.mutex hprog hlocks hfree)
    | none => exact (canStep_thread halive hprog (hperform hfree)).helped
  cases op with
  | register digest skip =>
    refine hlock trivial fun hfree => ?_
    rw [MockState.perform, if_pos hfree]
    split <;> rfl
  | awaitPreflight =>
    refine hlock trivial fun hfree => ?_
    rw [MockState.perform, if_pos ⟨hfree, hpreflight rfl⟩]
    rfl
  | computeNow op inputs =>
    by_cases hsettled : ∀ v ∈ inputs, v.Settled (s.ranks r).cells
    · refine (canStep_thread halive hprog ?_).helped
      rw [MockState.perform, Option.isSome_map]
      exact VecExecutor.computeNow_isSome hsettled
    · simp only [not_forall] at hsettled
      obtain ⟨v, hv, hunsettled⟩ := hsettled
      exact reads_helps halive (hs.node r) (.computeNow hprog hv) (hw.cells ▸ hpre v hv) hunsettled
  | submit op inputs metadata => exact (canStep_thread halive hprog rfl).helped
  | spawn id destinations source => exact (canStep_thread halive hprog rfl).helped
  | join j =>
    have hj : j < (s.ranks r).senders.length := by
      have hlen := congrArg List.length hw.spawned
      rw [List.length_map] at hlen
      exact hlen ▸ hpre
    obtain ⟨x, hx⟩ : ∃ x, (s.ranks r).senders[j]? = some x := ⟨_, List.getElem?_eq_getElem hj⟩
    by_cases hdone : ∃ result, x.status = .done result
    · obtain ⟨id, destinations, source, status⟩ := x
      obtain ⟨result, rfl : status = .done result⟩ := hdone
      refine (canStep_thread halive hprog ?_).helped
      rw [MockState.perform, hx]
      rfl
    · simp only [not_exists] at hdone
      exact (sender_helps halive hs hx hdone).of_waitsFor (.join hprog hx hdone)
  | receive id slot =>
    refine hlock trivial fun hfree => ?_
    rw [MockState.perform, if_pos ⟨hfree, hreceive id slot rfl⟩]
    rfl
  | materialize value =>
    by_cases hsettled : value.Settled (s.ranks r).cells
    · refine (canStep_thread halive hprog ?_).helped
      rw [MockState.perform, Option.isSome_map]
      exact hsettled
    · exact reads_helps halive (hs.node r) (.materialize hprog) (hw.cells ▸ hpre) hsettled
  | abortAll reason =>
    refine hlock trivial fun hfree => ?_
    rw [MockState.perform, if_pos hfree]
    rfl

/-- A thread in `preflight`: a rank that has not registered yet is not in `preflight`
    itself, nor in `receive`. -/
theorem preflight_helps (halive : ¬ s.Dead) (hinv : MockInv group s W)
    (hr : InWorld group.cluster.worldSize r) {k} (hprog : (s.ranks r).prog = .call .awaitPreflight k) :
    s.Helped group (.thread r) := by
  by_cases hgathered : s.cluster.Gathered group.cluster
  · exact thread_helps halive hinv hr hprog (fun _ => hgathered) (by simp)
  · have habort : s.cluster.abortReason = none := by
      by_contra hne
      exact hgathered (Or.inl (Option.ne_none_iff_isSome.1 hne))
    obtain ⟨r', hr', hnew⟩ : ∃ r', InWorld group.cluster.worldSize r' ∧
        r' ∉ s.cluster.planDigests.map (·.1) := by
      by_contra hall
      simp only [not_exists, not_and, not_not] at hall
      refine hgathered (Or.inr ?_)
      have hperm := (List.perm_ext_iff_of_nodup hinv.nodup (nodup_worldRanks _)).2 fun r' =>
        ⟨fun h => mem_worldRanks.2 (hinv.world r' h), fun h => hall r' (mem_worldRanks.1 h)⟩
      rw [← List.length_map (f := (·.1)), hperm.length_eq, length_worldRanks]
    refine MockState.Helped.of_waitsFor ?_ (.preflight hprog habort hr' hnew)
    obtain ⟨hmeets, hw⟩ := hinv.rank r' hr'
    have hunregistered : ¬ (W r').registered = true := fun h => hnew (hw.registered.1 h)
    rcases unfinished_of_thread halive hinv habort hr' with ⟨op, k', hprog'⟩ | ⟨hmem, -⟩
    · rw [hprog', Prog.meets_call] at hmeets
      refine thread_helps halive hinv hr' hprog' ?_ ?_
      · rintro rfl
        exact absurd hmeets.1 hunregistered
      · rintro id slot rfl
        obtain ⟨g, hg⟩ := hmeets.1
        exact absurd hg.1 hunregistered
    · exact absurd hmem hnew

/-- A thread in `receive`, by induction on the position of the action in the plan:
    who has not started its sender has posted fewer actions. -/
theorem receive_helps (halive : ¬ s.Dead) (hinv : MockInv group s W) (g : ℕ) :
    ∀ r, InWorld group.cluster.worldSize r → ∀ w, Linked s r w → ∀ id slot k,
      (s.ranks r).prog = .call (.receive id slot) k →
      w.Awaits group.cluster.worldSize group.plan r id slot g → s.Helped group (.thread r) := by
  induction g using Nat.strong_induction_on with
  | _ g ih =>
    rintro r hr w hw id slot k hprog ⟨-, m, a, place, -, hgm, ha, rfl, hslot, hsource, hplace⟩
    by_cases harrived : s.cluster.Arrived a.id slot
    · refine thread_helps halive hinv hr hprog (by simp) fun id' slot' he => ?_
      obtain ⟨rfl, rfl⟩ := MockOp.receive.inj he
      exact harrived
    have habort : s.cluster.abortReason = none := by
      by_contra hne
      exact harrived (Or.inl (Option.ne_none_iff_isSome.1 hne))
    have hmem : a ∈ group.plan.actions := List.mem_of_getElem? ha
    by_cases hspawned : s.Spawned place.rank a.id a.destinations.length
    · obtain ⟨x, hx, hid, hdest⟩ := hspawned
      obtain ⟨k', hk'⟩ := List.getElem?_of_mem hx
      refine (sender_helps halive hinv.sound hk' fun result hdone => ?_).of_waitsFor
        (.message hprog harrived hk' hid (hdest ▸ hslot))
      have hx' := hinv.sound.sender _ _ x hk'
      rw [SenderOk, hdone] at hx'
      cases result with
      | ok u => exact harrived (Or.inr (hid ▸ hx' slot (hdest ▸ hslot)))
      | error thrown => exact harrived (Or.inl hx')
    · refine MockState.Helped.of_waitsFor ?_ (.source hprog harrived hmem rfl hsource hspawned)
      obtain ⟨hmeets', hw'⟩ := hinv.rank _ hplace
      rcases unfinished_of_thread halive hinv habort hplace with ⟨op, k', hprog'⟩ | ⟨-, hall⟩
      · rw [hprog', Prog.meets_call] at hmeets'
        by_cases hpreflight : op = .awaitPreflight
        · subst hpreflight
          exact preflight_helps halive hinv hplace hprog'
        by_cases hreceive : ∃ id' slot', op = .receive id' slot'
        · obtain ⟨id', slot', rfl⟩ := hreceive
          obtain ⟨g', hg'⟩ := hmeets'.1
          refine ih g' ?_ _ hplace _ hw' id' slot' k' hprog' hg'
          by_contra hle
          obtain ⟨-, m', a', place', hposts', hgm', -⟩ := hg'
          refine hspawned (spawned_of_posted (hw'.spawned.symm.trans hposts') ?_ hsource rfl)
          refine List.mem_of_getElem? (i := g) ?_
          rw [List.getElem?_take_of_lt (by omega)]
          exact ha
        · exact thread_helps halive hinv hplace hprog' (fun he => absurd he hpreflight)
            fun id' slot' he => absurd ⟨id', slot', he⟩ hreceive
      · exact absurd (spawned_of_posted hall hmem hsource rfl) hspawned

/-- **Whatever is unfinished is helped.** -/
theorem MockInv.helped (halive : ¬ s.Dead) (hinv : MockInv group s W) (hp : s.Unfinished p) :
    s.Helped group p := by
  cases p with
  | thread r =>
    obtain ⟨op, k, hprog⟩ := hp
    have hr := hinv.inWorld_of_call hprog
    by_cases hpreflight : op = .awaitPreflight
    · subst hpreflight
      exact preflight_helps halive hinv hr hprog
    by_cases hreceive : ∃ id slot, op = .receive id slot
    · obtain ⟨id, slot, rfl⟩ := hreceive
      obtain ⟨hmeets, hw⟩ := hinv.rank r hr
      rw [hprog, Prog.meets_call] at hmeets
      obtain ⟨g, hg⟩ := hmeets.1
      exact receive_helps halive hinv g r hr _ hw id slot k hprog hg
    · exact thread_helps halive hinv hr hprog (fun he => absurd he hpreflight)
        fun id slot he => absurd ⟨id, slot, he⟩ hreceive
  | sender r k =>
    obtain ⟨x, hx, hundone⟩ := hp
    exact sender_helps halive hinv.sound hx hundone
  | worker r place =>
    obtain ⟨task, rest, hqueue⟩ := List.exists_cons_of_ne_nil hp
    exact worker_helps halive (hinv.sound.node r) task.cell place task
      (by rw [hqueue]; exact List.mem_cons_self) rfl

/-! ## After an abort -/

/-- The abort stays, and nothing returns normally from the cluster. -/
theorem MockInv.aborted_step {t : MockState} {l : MockLabel} (hinv : MockInv group s W)
    (habort : s.cluster.abortReason.isSome) (hst : MockStep group.cluster s l t) :
    t.cluster.abortReason.isSome ∧ ¬ l.ReturnsNormally := by
  obtain ⟨reason, hreason⟩ := Option.isSome_iff_exists.1 habort
  cases hst with
  | @call s' r op k ans halive hprog hperform =>
    obtain ⟨hmeets, hw⟩ := hinv.rank r (hinv.inWorld_of_call hprog)
    rw [hprog, Prog.meets_call] at hmeets
    obtain ⟨w', -, hserved⟩ := MockState.perform_served hinv.sound hw hmeets.1 hperform
    refine ⟨hserved.grows.abort habort, ?_⟩
    cases op with
    | awaitPreflight =>
      simp only [MockState.perform] at hperform
      split_ifs at hperform
      obtain ⟨rfl, -⟩ := Prod.mk.inj (Option.some.inj hperform)
      rw [MockCluster.agree, hreason]
      exact id
    | receive transfer slot =>
      simp only [MockState.perform] at hperform
      split_ifs at hperform
      obtain ⟨rfl, -⟩ := Prod.mk.inj (Option.some.inj hperform)
      rw [MockCluster.take, hreason]
      exact id
    | register digest skip => exact id
    | computeNow op inputs => exact id
    | submit op inputs metadata => exact id
    | spawn transfer destinations source => exact id
    | join j => exact id
    | materialize value => exact id
    | abortAll reason => exact id
  | @store r k slot x payload c halive hx hstatus =>
    have hx' := hinv.sound.sender r k x hx
    rw [SenderOk, hstatus] at hx'
    have hnone := hinv.sound.quiet (by rw [hx'.1]; simp)
    rw [hreason] at hnone
    cases hnone
  | acquire => exact ⟨habort, id⟩
  | refuse => exact ⟨habort, id⟩
  | spoil => exact ⟨habort, id⟩
  | finish => exact ⟨habort, id⟩
  | abort => exact ⟨rfl, id⟩
  | worker => exact ⟨habort, id⟩
  | crash => exact ⟨habort, id⟩

/-- **The mock cluster never gets stuck**: while the process is alive, whatever is
    unfinished can step or waits for a party that can; and after an abort nothing
    returns normally from `preflight`, `publish` or `receive`. -/
theorem mock_never_stuck (group : MockGroup)
    (hopen : ∀ r, InWorld group.cluster.worldSize r →
      SequentialRuntime.openTrace (group.env r) r = .ok ()) :
    (∀ s, group.system.Reachable s → ¬ s.Dead → ∀ p, s.Unfinished p →
      ∃ q, ReflTransGen (s.WaitsFor group) p q ∧ s.CanStep group q) ∧
    (∀ s ls t, group.system.Reachable s → s.cluster.abortReason.isSome →
      group.system.Run s ls t → ∀ l ∈ ls, ¬ l.ReturnsNormally) := by
  refine ⟨fun s hs halive p hp => ?_, fun s ls t hs habort hrun => ?_⟩
  · obtain ⟨W, hinv⟩ := MockInv.of_reachable hopen hs
    exact hinv.helped halive hp
  · refine (hrun.labels (I := fun s => s.cluster.abortReason.isSome)
      (Q := fun l => ¬ l.ReturnsNormally) (fun s l t hs hI hst => ?_) hs habort).2
    obtain ⟨W, hinv⟩ := MockInv.of_reachable hopen hs
    exact hinv.aborted_step hI hst

end

/-- The rank of the fan-out group starts with its preflight. -/
theorem fanoutMockGroup_call : ∃ op k, (fanoutMockGroup.initial.ranks 0).prog = .call op k := by
  have hprog : (fanoutMockGroup.initial.ranks 0).prog = MockVecApi.rankProgram
    fanoutMockGroup.cluster (fanoutMockGroup.api 0) (fanoutMockGroup.run 0)
    (fanoutMockGroup.env 0) := rfl
  have hverify : SequentialRuntime.verifyPlan (fanoutMockGroup.run 0) =
    .ok ⟨[.transfer, .replicate], []⟩ := SequentialRuntime.verifyPlan_fanoutConfig _ _
  rw [hprog, MockVecApi.rankProgram, SequentialRuntime.run_eq_scriptRun _ hverify]
  exact ⟨_, _, rfl⟩

/-- At the start of the fan-out group its rank can step or waits for a party that can. -/
theorem mock_never_stuck_fanoutMockGroup :
    ∃ q, ReflTransGen (fanoutMockGroup.initial.WaitsFor fanoutMockGroup) (.thread 0) q ∧
      @MockState.CanStep fanoutMockGroup fanoutMockGroup.initial zeroArith q := by
  obtain ⟨op, k, hprog⟩ := fanoutMockGroup_call
  refine (@mock_never_stuck zeroArith fanoutMockGroup fun _ _ => rfl).1 _ (.init rfl) ?_ (.thread 0)
    ⟨op, k, hprog⟩
  rintro (hcrashed | ⟨r, hr⟩)
  · cases hcrashed
  · by_cases h0 : r = 0
    · rw [h0, RankState.result?, hprog] at hr
      cases hr
    · have hidle : (fanoutMockGroup.initial.ranks r).prog = .ret (.threw .access, 0) :=
        if_neg fun hw => h0 (eq_zero_of_inWorld_one hw)
      rw [RankState.result?, hidle] at hr
      cases hr

end CkksRuntime
