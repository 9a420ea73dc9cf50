/-
  ckks-runtime formalization — the steps of the runtime and the lines of its script.

  The invariant `Inv` ties the state of the runtime to the lines executed so far:
  what the store holds, which groups are open, and how many uses are left.  A part
  of the interpreter *simulates* its lines (`Sim`) if it makes the same calls,
  keeps the invariant, and fails only as the lines do, never in a branch that only
  a broken interpreter reaches.

  * `releaseAll_eq`: uses that remain can be released;
  * `finishGroup_sim`, `ensureReady_sim`, `collectOperands_sim`: waiting on demand;
  * `executeInstruction_sim`, by the kind of the instruction, and
    `executeInstructions_sim`, by induction over a list;
  * `execute_sim`: the three phases.
-/
import CkksRuntime.ScriptOrder

namespace CkksRuntime

open Interaction PlanVerifier

namespace SequentialRuntime

variable {V H α β : Type}

/-! ## The invariant -/

section
variable (cfg : RunConfig V)

/-- Every local use of a value. -/
def totalUses : List ValueId :=
  localUses cfg.rank (plan cfg).instructions ++ (plan cfg).finalsOf cfg.rank

/-- The value has been erased: it had uses, and all are done. -/
def Released (remaining : ValueId → ℕ) (id : ValueId) : Prop :=
  retainAllValues cfg = false ∧ id ∈ totalUses cfg ∧ remaining id = 0

instance (remaining : ValueId → ℕ) (id : ValueId) : Decidable (Released cfg remaining id) :=
  inferInstanceAs (Decidable (_ ∧ _))

/-- The store, when `full` is what it would hold had nothing been erased. -/
def visible (remaining : ValueId → ℕ) (full : ValueId → Option (Entry V)) :
    ValueId → Option (Entry V) :=
  fun id => if Released cfg remaining id then none else full id

/-- The uses that open groups still owe. -/
def pendingUses (groups : List (PendingGroup H)) (id : ValueId) : ℕ :=
  (groups.map fun group => if group.completed then 0 else group.localInputIds.count id).sum

/-- What the store would hold had nothing been erased. -/
structure Stored (acc : Script) (values : ValueId → Option V)
    (full : ValueId → Option (Entry V)) : Prop where
  ready : ∀ id v, values id = some v →
    ∃ d, (plan cfg).desc? id = some d ∧ full id = some (.ready d.place v)
  pending : ∀ g a, acc.posts[g]? = some a → ¬ acc.Waited g → ∀ id ∈ a.localOutputs cfg.rank,
    values id = none →
      ∃ d slot, (plan cfg).desc? id = some d ∧ full id = some (.pending d.place g slot)
  absent : ∀ id, values id = none →
    (∀ g a, acc.posts[g]? = some a → ¬ acc.Waited g → id ∉ a.localOutputs cfg.rank) →
      full id = none

/-- The payload of every local Encode has been loaded. -/
def SlotsOk (bundleSlots : List (String × List Double)) : Prop :=
  ∀ i ∈ (plan cfg).instructions, ∀ op, i.body = .encode op → (plan cfg).IsLocal cfg.rank op.output →
    ∃ slots, payloadSlots bundleSlots op.payload = .ok slots

/-- A point of the execution: what has been bound and executed, what remains, and
    the lines so far. -/
structure Stage where
  ext : List ValueId
  pre : List Instruction
  rest : List Instruction
  context : Context
  acc : Script

/-- **The invariant** between the runtime and the lines of a stage. -/
structure Inv (st : Stage) (s : RuntimeState V H) (e : ScriptState V H) : Prop where
  covers : Covers (plan cfg) cfg.rank st.ext st.pre st.acc
  current : s.current = st.context.current
  value : s.currentValue = st.context.value
  bundle : s.bundleSlots = e.bundleSlots
  slots : SlotsOk cfg e.bundleSlots
  timing : s.timing = e.timing
  values : ∀ id, (e.values id).isSome ↔ id ∈ st.acc.ready cfg.rank
  groups_length : s.groups.length = (actionsOf st.pre).length
  groups : ∀ g a, (actionsOf st.pre)[g]? = some a → ∃ handle, e.handles g = some handle ∧
    s.groups[g]? = some ⟨a, a.localInputs cfg.rank, a.localOutputs cfg.rank, handle,
      decide (st.acc.Waited g)⟩
  store : ∃ full, Stored cfg st.acc e.values full ∧ s.store = visible cfg s.remainingUses full
  uses : retainAllValues cfg = false → ∀ id, s.remainingUses id =
    (localUses cfg.rank st.rest ++ (plan cfg).finalsOf cfg.rank).count id + pendingUses s.groups id

/-- A failure that both sides report alike, and that is none of the
    interpreter's own. -/
def Fails (f : Failure) (s : RuntimeState V H) (e : ScriptState V H) : Prop :=
  s.current = e.context.current ∧ s.currentValue = e.context.value ∧ f.isInternal = false

/-- A part of the interpreter and its lines. -/
def Sim (st st' : Stage) (lines : Script) (P : ScriptState V H → Prop)
    (Q : α → ScriptState V H → Prop) (c : Runtime V H α) : Prop :=
  ∀ s e, Inv cfg st s e → P e →
    Prog.Rel (Comp.Ends (fun a s' _ e' => Inv cfg st' s' e' ∧ Q a e') Fails) (c s)
      (execScript cfg lines e)

/-- The values known so far. -/
def Keeps (known : List (ValueId × V)) (e : ScriptState V H) : Prop :=
  ∀ p ∈ known, e.values p.1 = some p.2

end

variable {cfg : RunConfig V}

theorem execScript_append (l l' : Script) :
    (execScript cfg (l ++ l') : ScriptComp V H Unit) = execScript cfg l >>= fun _ => execScript cfg l' := by
  induction l with
  | nil => rfl
  | cons line l ih =>
    rw [List.cons_append, execScript, ih, execScript, Comp.bind_assoc]

theorem execScript_singleton (line : Line) :
    (execScript cfg [line] : ScriptComp V H Unit) = execLine cfg line := Comp.bind_pure _

theorem Sim.bind {st st' st'' : Stage} {lines lines' : Script} {P : ScriptState V H → Prop}
    {Q : α → ScriptState V H → Prop} {R : β → ScriptState V H → Prop} {c : Runtime V H α}
    {f : α → Runtime V H β} (hc : Sim cfg st st' lines P Q c)
    (hf : ∀ a, Sim cfg st' st'' lines' (Q a) R (f a)) :
    Sim cfg st st'' (lines ++ lines') P R (c >>= f) := by
  intro s e hi hp
  rw [execScript_append]
  exact Comp.rel_bind (hc s e hi hp) fun a u b v h => hf a u v h.1 h.2

/-- The same call on both sides. -/
theorem rel_api {op : ApiOp V H} {f : op.Result → Runtime V H α} {g : op.Result → ScriptComp V H β}
    {s : RuntimeState V H} {e : ScriptState V H}
    {Q : α → RuntimeState V H → β → ScriptState V H → Prop}
    (hc : s.current = e.context.current) (hv : s.currentValue = e.context.value)
    (h : ∀ r, Prog.Rel (Comp.Ends Q Fails) (f r s) (g r e)) :
    Prog.Rel (Comp.Ends Q Fails) ((api op >>= f) s) ((scriptApi op >>= g) e) := by
  refine .call fun ans => ?_
  cases ans with
  | error fault => exact .ret ⟨rfl, hc, hv, rfl⟩
  | ok r => exact h r

/-- A part of the interpreter without lines. -/
theorem Sim.pure {st : Stage} {P : ScriptState V H → Prop} {Q : α → ScriptState V H → Prop}
    {a : α} (h : ∀ e, P e → Q a e) : Sim cfg st st [] P Q (Pure.pure a : Runtime V H α) :=
  fun _ e hi hp => .ret ⟨hi, h e hp⟩

/-! ## Releasing values -/

theorem not_released_of_pos {remaining : ValueId → ℕ} {id : ValueId} (h : 0 < remaining id) :
    ¬ Released cfg remaining id := fun hr => absurd hr.2.2 (Nat.pos_iff_ne_zero.1 h)

/-- The state after some uses are done. -/
def afterRelease (cfg : RunConfig V) (full : ValueId → Option (Entry V)) (ids : List ValueId)
    (s : RuntimeState V H) : RuntimeState V H :=
  if retainAllValues cfg then s
  else
    { s with
      remainingUses := fun id => s.remainingUses id - ids.count id
      store := visible cfg (fun id => s.remainingUses id - ids.count id) full }

section
variable {full : ValueId → Option (Entry V)} {ids : List ValueId} {s : RuntimeState V H}

@[simp] theorem afterRelease_groups : (afterRelease cfg full ids s).groups = s.groups := by
  unfold afterRelease; split_ifs <;> rfl

@[simp] theorem afterRelease_current : (afterRelease cfg full ids s).current = s.current := by
  unfold afterRelease; split_ifs <;> rfl

@[simp] theorem afterRelease_currentValue :
    (afterRelease cfg full ids s).currentValue = s.currentValue := by
  unfold afterRelease; split_ifs <;> rfl

@[simp] theorem afterRelease_bundleSlots :
    (afterRelease cfg full ids s).bundleSlots = s.bundleSlots := by
  unfold afterRelease; split_ifs <;> rfl

@[simp] theorem afterRelease_timing : (afterRelease cfg full ids s).timing = s.timing := by
  unfold afterRelease; split_ifs <;> rfl

/-- The store shows what is left. -/
theorem afterRelease_store (hs : s.store = visible cfg s.remainingUses full) :
    (afterRelease cfg full ids s).store =
      visible cfg (afterRelease cfg full ids s).remainingUses full := by
  unfold afterRelease
  split_ifs
  · exact hs
  · rfl

end

theorem released_update_of_ne {remaining : ValueId → ℕ} {id id' : ValueId} {n : ℕ}
    (h : id' ≠ id) : Released cfg (Function.update remaining id n) id' ↔ Released cfg remaining id' := by
  simp [Released, Function.update_of_ne h]

/-- One use is done. -/
theorem releaseAfterUse_eq (full : ValueId → Option (Entry V)) {s : RuntimeState V H}
    {id : ValueId} {n : ℕ} (hretain : retainAllValues cfg = false)
    (hs : s.store = visible cfg s.remainingUses full) (hn : s.remainingUses id = n + 1)
    (hid : id ∈ totalUses cfg) (hfull : (full id).isSome) :
    releaseAfterUse (H := H) cfg id s = .ret (.ok (),
      { s with
        remainingUses := Function.update s.remainingUses id n
        store := visible cfg (Function.update s.remainingUses id n) full }) := by
  have hlive : ¬ Released cfg s.remainingUses id := not_released_of_pos (by omega)
  have hother : ∀ id', id' ≠ id →
      visible cfg (Function.update s.remainingUses id n) full id' = s.store id' := by
    intro id' hne
    rw [hs]
    by_cases hr : Released cfg s.remainingUses id'
    · rw [visible, visible, if_pos hr, if_pos ((released_update_of_ne hne).2 hr)]
    · rw [visible, visible, if_neg hr, if_neg fun h => hr ((released_update_of_ne hne).1 h)]
  have hself : s.store id = full id := by rw [hs, visible, if_neg hlive]
  rw [releaseAfterUse, if_neg (by simp [hretain]), Comp.get_bind, hn]
  simp only [Comp.modify_bind]
  by_cases h0 : n = 0
  · have hgone : Released cfg (Function.update s.remainingUses id n) id :=
      ⟨hretain, hid, by simp [h0]⟩
    obtain ⟨entry, hentry⟩ := Option.isSome_iff_exists.1 (hself ▸ hfull)
    rw [if_pos h0, erase, Comp.get_bind]
    simp only [hentry, Comp.modify_apply]
    congr 4
    funext id'
    by_cases hne : id' = id
    · subst hne
      rw [Function.update_self, visible, if_pos hgone]
    · rw [Function.update_of_ne hne, hother id' hne]
  · have hkept : ¬ Released cfg (Function.update s.remainingUses id n) id :=
      not_released_of_pos (by simpa using Nat.pos_of_ne_zero h0)
    rw [if_neg h0, Comp.pure_apply]
    congr 3
    funext id'
    by_cases hne : id' = id
    · subst hne
      rw [hself, visible, if_neg hkept]
    · rw [hother id' hne]

theorem releaseAll_retain (hretain : retainAllValues cfg = true) (ids : List ValueId)
    (s : RuntimeState V H) : releaseAll cfg ids s = .ret (.ok (), s) := by
  induction ids with
  | nil => rfl
  | cons id ids ih =>
    rw [releaseAll, releaseAfterUse, if_pos hretain]
    exact ih

/-- **Uses that remain can be released.** -/
theorem releaseAll_eq (full : ValueId → Option (Entry V)) (ids : List ValueId) :
    ∀ (s : RuntimeState V H), s.store = visible cfg s.remainingUses full →
      (retainAllValues cfg = false → ∀ id, ids.count id ≤ s.remainingUses id) →
      (∀ id ∈ ids, id ∈ totalUses cfg ∧ (full id).isSome) →
      releaseAll cfg ids s = .ret (.ok (), afterRelease cfg full ids s) := by
  by_cases hretain : retainAllValues cfg = true
  · intro s _ _ _
    rw [releaseAll_retain hretain, afterRelease, if_pos hretain]
  · have hretain' : retainAllValues cfg = false := by simpa using hretain
    induction ids with
    | nil =>
      intro s hs _ _
      rw [releaseAll, Comp.pure_apply, afterRelease, if_neg hretain]
      simp [← hs]
    | cons id ids ih =>
      intro s hs hcount hids
      obtain ⟨hid, hfull⟩ := hids id (by simp)
      obtain ⟨n, hn⟩ : ∃ n, s.remainingUses id = n + 1 := by
        have := hcount hretain' id
        rw [List.count_cons_self] at this
        exact ⟨s.remainingUses id - 1, by omega⟩
      have hother : ∀ id', id' ≠ id → (id :: ids).count id' = ids.count id' := fun id' hne =>
        List.count_cons_of_ne (Ne.symm hne)
      rw [releaseAll, Comp.bind_apply, releaseAfterUse_eq full hretain' hs hn hid hfull,
        Prog.ret_bind, Comp.next_ok, ih]
      · have hfun : (fun id' => Function.update s.remainingUses id n id' - ids.count id') =
            fun id' => s.remainingUses id' - (id :: ids).count id' := by
          funext id'
          by_cases heq : id' = id
          · subst heq
            rw [Function.update_self, List.count_cons_self, hn]
            omega
          · rw [Function.update_of_ne heq, hother id' heq]
        simp only [afterRelease, hretain', Bool.false_eq_true, if_false, hfun]
      · rfl
      · intro _ id'
        have := hcount hretain' id'
        by_cases heq : id' = id
        · subst heq
          rw [List.count_cons_self] at this
          simp only [Function.update_self]
          omega
        · rw [hother id' heq] at this
          simp only [Function.update_of_ne heq]
          exact this
      · exact fun id' hid' => hids id' (by simp [hid'])

/-! ## Waiting for a group -/

theorem pendingUses_modify (groups : List (PendingGroup H)) (id : ValueId)
    {f : PendingGroup H → PendingGroup H} (hf : ∀ group, (f group).completed = group.completed ∧
      (f group).localInputIds = group.localInputIds) (g : ℕ) :
    pendingUses (groups.modify g f) id = pendingUses groups id := by
  induction groups generalizing g with
  | nil => simp [pendingUses]
  | cons group groups ih =>
    cases g with
    | zero => simp [pendingUses, (hf group).1, (hf group).2]
    | succ g => simpa [pendingUses] using ih g

/-- A group that is completed no longer owes its uses. -/
theorem pendingUses_complete {groups : List (PendingGroup H)} {g : ℕ} {group : PendingGroup H}
    (hg : groups[g]? = some group) (hc : group.completed = false) (id : ValueId) :
    pendingUses groups id = group.localInputIds.count id +
      pendingUses (groups.modify g fun group => { group with completed := true }) id := by
  induction groups generalizing g with
  | nil => simp at hg
  | cons group' groups ih =>
    cases g with
    | zero =>
      obtain rfl : group' = group := by simpa using hg
      simp [pendingUses, hc]
    | succ g =>
      have := ih (g := g) (by simpa using hg)
      simp only [pendingUses, List.map_cons, List.sum_cons, List.modify_succ_cons] at this ⊢
      omega

/-- The values with some outputs received. -/
def putAll (outputs : List (ValueId × V)) (values : ValueId → Option V) : ValueId → Option V :=
  outputs.foldl (fun values p => Function.update values p.1 (some p.2)) values

theorem putAll_of_not_mem {id : ValueId} (outputs : List (ValueId × V)) :
    ∀ {values : ValueId → Option V}, id ∉ outputs.map (·.1) → putAll outputs values id = values id := by
  induction outputs with
  | nil => intro values _; rfl
  | cons p outputs ih =>
    intro values hid
    rw [List.map_cons, List.mem_cons, not_or] at hid
    rw [putAll, List.foldl_cons]
    exact (ih hid.2).trans (Function.update_of_ne hid.1 _ _)

theorem isSome_putAll {id : ValueId} (outputs : List (ValueId × V)) :
    ∀ {values : ValueId → Option V}, (putAll outputs values id).isSome ↔
      (values id).isSome ∨ id ∈ outputs.map (·.1) := by
  induction outputs with
  | nil => intro values; simp [putAll]
  | cons p outputs ih =>
    intro values
    rw [putAll, List.foldl_cons]
    refine ih.trans ?_
    rw [List.map_cons, List.mem_cons]
    by_cases hid : id = p.1
    · simp [hid]
    · rw [Function.update_of_ne hid]
      simp [hid]

/-- A value becomes ready. -/
theorem Stored.set {acc : Script} {values : ValueId → Option V} {full : ValueId → Option (Entry V)}
    (h : Stored cfg acc values full) {id : ValueId} {d : ValueDesc} (v : V)
    (hd : (plan cfg).desc? id = some d) :
    Stored cfg acc (Function.update values id (some v))
      (Function.update full id (some (.ready d.place v))) := by
  refine ⟨fun id' v' hv => ?_, fun g a hg hw id' hid' hv => ?_, fun id' hv hno => ?_⟩
  · by_cases heq : id' = id
    · subst heq
      rw [Function.update_self] at hv ⊢
      cases hv
      exact ⟨d, hd, rfl⟩
    · rw [Function.update_of_ne heq] at hv ⊢
      exact h.ready id' v' hv
  · by_cases heq : id' = id
    · subst heq
      simp at hv
    · rw [Function.update_of_ne heq] at hv ⊢
      exact h.pending g a hg hw id' hid' hv
  · by_cases heq : id' = id
    · subst heq
      simp at hv
    · rw [Function.update_of_ne heq] at hv ⊢
      exact h.absent id' hv hno

/-- Only ready values have a ready entry. -/
theorem Stored.isSome_of_ready {acc : Script} {values : ValueId → Option V}
    {full : ValueId → Option (Entry V)} (h : Stored cfg acc values full) {id : ValueId}
    {place : Place} {v : V} (hentry : full id = some (.ready place v)) : (values id).isSome := by
  by_contra hno
  have hnone : values id = none := by simpa using hno
  by_cases hpend : ∃ g a, acc.posts[g]? = some a ∧ ¬ acc.Waited g ∧ id ∈ a.localOutputs cfg.rank
  · obtain ⟨g, a, hg, hw, hid⟩ := hpend
    obtain ⟨d, slot, -, hp⟩ := h.pending g a hg hw id hid hnone
    rw [hentry] at hp
    cases hp
  · push Not at hpend
    rw [h.absent id hnone hpend] at hentry
    cases hentry

theorem visible_update {remaining : ValueId → ℕ} {full : ValueId → Option (Entry V)} {id : ValueId}
    {entry : Entry V} (h : ¬ Released cfg remaining id) :
    visible cfg remaining (Function.update full id (some entry)) =
      Function.update (visible cfg remaining full) id (some entry) := by
  funext id'
  by_cases heq : id' = id
  · subst heq
    rw [visible, if_neg h, Function.update_self, Function.update_self]
  · rw [Function.update_of_ne heq, visible, visible, Function.update_of_ne heq]

theorem assign_eq {s : RuntimeState V H} {id : ValueId} {old : Entry V} (entry : Entry V)
    (h : s.store id = some old) :
    assign id entry s = .ret (.ok (), { s with store := Function.update s.store id (some entry) }) := by
  simp [assign, lookup, Comp.bind_apply, h]

/-- The received outputs are stored. -/
theorem storeOutputs_rel {acc : Script} (outputs : List (ValueId × V)) :
    ∀ {s : RuntimeState V H} {e : ScriptState V H} {full : ValueId → Option (Entry V)},
      Stored cfg acc e.values full → s.store = visible cfg s.remainingUses full →
      s.current = e.context.current → s.currentValue = e.context.value →
      (∀ p ∈ outputs, ¬ Released cfg s.remainingUses p.1 ∧ (full p.1).isSome ∧
        ∃ d, (plan cfg).desc? p.1 = some d) →
      Prog.Rel (Comp.Ends (fun _ s' _ e' => ∃ full', Stored cfg acc e'.values full' ∧
          s' = { s with store := visible cfg s.remainingUses full' } ∧
          e' = { e with values := putAll outputs e.values }) Fails)
        (storeOutputs cfg outputs s) (receiveOutputs cfg outputs e) := by
  induction outputs with
  | nil =>
    intro s e full hfull hs _ _ _
    exact .ret ⟨full, hfull, by rw [← hs], rfl⟩
  | cons p outputs ih =>
    obtain ⟨id, output⟩ := p
    intro s e full hfull hs hc hv houts
    obtain ⟨hlive, hsome, d, hd⟩ := houts (id, output) (by simp)
    obtain ⟨entry, hentry⟩ := Option.isSome_iff_exists.1 hsome
    have hlookup : s.store id = some entry := by rw [hs, visible, if_neg hlive, hentry]
    simp only [storeOutputs, receiveOutputs, desc, hd, Comp.ofExcept_bind_ok]
    refine rel_api hc hv fun _ => ?_
    rw [Comp.bind_apply, assign_eq _ hlookup, Prog.ret_bind, Comp.next_ok, setValue, Comp.modify_bind]
    have houts' : ∀ q ∈ outputs, ¬ Released cfg s.remainingUses q.1 ∧
        (Function.update full id (some (.ready d.place output)) q.1).isSome ∧
          ∃ d, (plan cfg).desc? q.1 = some d := by
      intro q hq
      obtain ⟨hlive', hsome', hd'⟩ := houts q (by simp [hq])
      refine ⟨hlive', ?_, hd'⟩
      by_cases heq : q.1 = id
      · rw [heq]; simp
      · rw [Function.update_of_ne heq]; exact hsome'
    have hrel := @ih { s with store := Function.update s.store id (some (.ready d.place output)) }
      (e.setValue id output) _ (hfull.set output hd)
      (by rw [hs]; exact (visible_update hlive).symm) hc hv houts'
    exact hrel.mono fun r r' hr =>
      Comp.Ends.mono (fun _ _ _ _ ⟨full', h1, h2, h3⟩ => ⟨full', h1, h2, h3⟩) hr

namespace Inv

variable {st : Stage} {s : RuntimeState V H} {e : ScriptState V H} {spec : OperatorSpec}

theorem keeps_isSome (h : Inv cfg st s e) {id : ValueId} (hid : id ∈ st.acc.ready cfg.rank) :
    ∃ v, e.values id = some v := Option.isSome_iff_exists.1 ((h.values id).2 hid)

/-- A value with a use to come has not been erased. -/
theorem live_of_use (h : Inv cfg st s e) {id : ValueId}
    (hid : id ∈ localUses cfg.rank st.rest ++ (plan cfg).finalsOf cfg.rank) :
    ¬ Released cfg s.remainingUses id := by
  rintro ⟨hretain, -, h0⟩
  have := h.uses hretain id
  have hpos := List.count_pos_iff.2 hid
  omega

/-- A value that is not ready has not been erased. -/
theorem live_of_not_ready (h : Inv cfg st s e)
    (hpre : (plan cfg).instructions = st.pre ++ st.rest) {id : ValueId}
    (hid : id ∉ st.acc.ready cfg.rank) : ¬ Released cfg s.remainingUses id := by
  intro hr
  have htotal := hr.2.1
  rw [totalUses, hpre, localUses_append, List.append_assoc, List.mem_append] at htotal
  rcases htotal with huse | huse
  · exact hid (h.covers.used id huse)
  · exact h.live_of_use huse hr

end Inv

/-- The uses of an open group are uses of the plan. -/
theorem mem_localUses_of_action {pre : List Instruction} {rank : CInt} {g : ℕ} {a : CommAction}
    (hg : (actionsOf pre)[g]? = some a) {id : ValueId} (hid : id ∈ a.localInputs rank) :
    id ∈ localUses rank pre := by
  obtain ⟨i, hi, hb⟩ := mem_actionsOf.1 (List.mem_of_getElem? hg)
  refine List.mem_flatMap.2 ⟨i, hi, ?_⟩
  simpa [Instruction.localUses, hb] using hid

/-- Waiting for an open group turns its pending values into ready ones. -/
theorem Stored.settle {acc : Script} {values : ValueId → Option V}
    {full : ValueId → Option (Entry V)} (h : Stored cfg acc values full) (context : Context)
    {group : CommAction × ℕ} (hg : acc.posts[group.2]? = some group.1)
    (hall : ∀ id ∈ group.1.localOutputs cfg.rank, (values id).isSome) :
    Stored cfg (acc.settle context group) values full := by
  refine ⟨h.ready, fun g a hg' hw id hid hv => ?_, fun id hv hno => h.absent id hv ?_⟩
  · rw [Script.posts_settle] at hg'
    exact h.pending g a hg' (fun hw' => hw ((Script.waited_settle_iff _ _).2 (Or.inl hw'))) id hid hv
  · intro g a hg' hw hid
    by_cases heq : g = group.2
    · subst heq
      rw [hg] at hg'
      cases hg'
      have := hall id hid
      simp [hv] at this
    · refine hno g a (by rw [Script.posts_settle]; exact hg') (fun hw' => ?_) hid
      exact ((Script.waited_settle_iff _ _).1 hw').elim hw heq

section
variable {spec : OperatorSpec} (hacc : Accepted (plan cfg) spec) {st : Stage}
  (hpre : (plan cfg).instructions = st.pre ++ st.rest)
include hacc hpre

/-- The end of `finish_group`: the inputs are released, the group is completed. -/
theorem complete_inv {s : RuntimeState V H} {e : ScriptState V H} (hi : Inv cfg st s e) {g : ℕ}
    {a : CommAction} (hg : (actionsOf st.pre)[g]? = some a) (hw : ¬ st.acc.Waited g)
    {outputs : List V} (hlen : outputs.length = (a.localOutputs cfg.rank).length) (handle : H)
    {full : ValueId → Option (Entry V)}
    (hfull : Stored cfg st.acc (putAll (List.zip (a.localOutputs cfg.rank) outputs) e.values) full) :
    Prog.Rel (Comp.Ends (fun _ s' _ e' =>
        Inv cfg { st with acc := st.acc.settle st.context (a, g) } s' e' ∧
          e'.values = putAll (List.zip (a.localOutputs cfg.rank) outputs) e.values) Fails)
      ((releaseAll cfg (a.localInputs cfg.rank) >>= fun _ => Comp.modify (complete g))
        { setHandle g handle s with store := visible cfg s.remainingUses full })
      (.ret (.ok (), { e.setHandle g handle with
        context := st.context
        timing := RuntimeTiming.addWait e.timing
        values := putAll (List.zip (a.localOutputs cfg.rank) outputs) e.values })) := by
  obtain ⟨defs, ids, src, d, hok, hdef⟩ := hacc.action hpre hg
  obtain ⟨handle₀, hhandle, hgroup⟩ := hi.groups g a hg
  have hgroup' : (setHandle g handle s).groups[g]? = some ⟨a, a.localInputs cfg.rank,
      a.localOutputs cfg.rank, handle, false⟩ := by
    simp [SequentialRuntime.setHandle, hgroup, hw]
  have hpending : ∀ id, pendingUses s.groups id = (a.localInputs cfg.rank).count id +
      pendingUses ((setHandle g handle s).groups.modify g fun group =>
        { group with completed := true }) id := by
    intro id
    rw [← pendingUses_modify s.groups id (f := fun group => { group with handle := handle })
      (fun _ => ⟨rfl, rfl⟩) g]
    exact pendingUses_complete hgroup' rfl id
  have houts : (List.zip (a.localOutputs cfg.rank) outputs).map (·.1) = a.localOutputs cfg.rank :=
    List.map_fst_zip hlen.ge
  have hrel := releaseAll_eq full (a.localInputs cfg.rank)
    { setHandle g handle s with store := visible cfg s.remainingUses full } rfl ?_ ?_
  rotate_left
  · intro hretain id
    show _ ≤ s.remainingUses id
    have := hi.uses hretain id
    have := hpending id
    omega
  · intro id hid
    have huse := mem_localUses_of_action hg hid
    refine ⟨?_, ?_⟩
    · rw [totalUses, hpre, localUses_append]
      exact List.mem_append_left _ (List.mem_append_left _ huse)
    · obtain ⟨v, hv⟩ := hi.keeps_isSome (hi.covers.used id huse)
      have hv' : (putAll (List.zip (a.localOutputs cfg.rank) outputs) e.values id).isSome :=
        (isSome_putAll _).2 (Or.inl (by simp [hv]))
      obtain ⟨v', hv'⟩ := Option.isSome_iff_exists.1 hv'
      obtain ⟨_, -, hsome⟩ := hfull.ready id v' hv'
      simp [hsome]
  rw [Comp.bind_apply, hrel, Prog.ret_bind, Comp.next_ok]
  refine .ret ?_
  have hcov := hi.covers.settle hacc hpre st.context hg
  refine ⟨⟨hcov, ?_, ?_, ?_, hi.slots, ?_, ?_, ?_, ?_, ⟨full, ?_, ?_⟩, ?_⟩, rfl⟩
  · exact afterRelease_current.trans hi.current
  · exact afterRelease_currentValue.trans hi.value
  · exact afterRelease_bundleSlots.trans hi.bundle
  · exact afterRelease_timing.trans (congrArg RuntimeTiming.addWait hi.timing)
  · intro id
    rw [Script.ready_settle, ← hi.values]
    simp only [hw, not_false_eq_true, true_and]
    rw [isSome_putAll, houts]
  · simp [complete, SequentialRuntime.setHandle, hi.groups_length]
  · intro g' a' hg'
    obtain ⟨handle', hhandle', hgroup'⟩ := hi.groups g' a' hg'
    by_cases heq : g' = g
    · subst heq
      rw [hg] at hg'
      cases hg'
      refine ⟨handle, by simp [ScriptState.setHandle], ?_⟩
      simp [complete, SequentialRuntime.setHandle, hgroup, Script.waited_settle_iff]
    · refine ⟨handle', by simp [ScriptState.setHandle, Function.update_of_ne heq, hhandle'], ?_⟩
      simp [complete, SequentialRuntime.setHandle, hgroup', Script.waited_settle_iff, heq,
        Ne.symm heq]
  · refine hfull.settle st.context (by rw [hi.covers.posts]; exact hg) fun id hid => ?_
    exact (isSome_putAll _).2 (Or.inr (by rw [houts]; exact hid))
  · exact afterRelease_store rfl
  · intro hretain id
    have h1 := hi.uses hretain id
    have h2 := hpending id
    simp only [afterRelease, hretain, Bool.false_eq_true, if_false]
    show s.remainingUses id - _ = _ + pendingUses ((setHandle g handle s).groups.modify g _) id
    omega

/-- **`finish_group`.** -/
theorem finishGroup_sim {g : ℕ} {a : CommAction} (hg : (actionsOf st.pre)[g]? = some a) :
    ∃ lines, st.acc.settle st.context (a, g) = st.acc ++ lines ∧ ∀ known : List (ValueId × V),
      Sim (H := H) cfg st { st with acc := st.acc.settle st.context (a, g) } lines (Keeps known)
        (fun _ => Keeps known) (finishGroup cfg g) := by
  refine ⟨_, Script.settle_eq _ _ _, fun known s e hi hk => ?_⟩
  obtain ⟨handle, hhandle, hgroup⟩ := hi.groups g a hg
  rw [finishGroup, Comp.get_bind, hgroup]
  by_cases hw : st.acc.Waited g
  · have hsettle : st.acc.settle st.context (a, g) = st.acc := if_pos hw
    simp only [hw, decide_true, if_true, hsettle]
    exact .ret ⟨hi, hk⟩
  · simp only [hw, decide_false, Bool.false_eq_true, if_false]
    rw [execScript_singleton, execLine, Comp.modify_bind]
    simp only [Act.exec, Comp.get_bind, hhandle]
    refine rel_api hi.current hi.value fun r => ?_
    obtain ⟨outputs, handle'⟩ := r
    simp only [Comp.modify_bind, Comp.throwIf_bind]
    by_cases hlen : outputs.length = (a.localOutputs cfg.rank).length
    · rw [if_neg (not_not.2 hlen), if_neg (not_not.2 hlen)]
      obtain ⟨defs, ids, src, d, hok, -⟩ := hacc.action hpre hg
      obtain ⟨full, hfull, hs⟩ := hi.store
      refine Comp.rel_bind_left (storeOutputs_rel _ hfull hs hi.current hi.value ?_) ?_
      · intro p hp
        have hout : p.1 ∈ a.localOutputs cfg.rank := (List.of_mem_zip hp).1
        have hnew := hi.covers.not_ready_of_pending hg hw (hok.mem_localOutputs.1 hout).1
        have hnone : e.values p.1 = none := by
          rw [← Option.not_isSome_iff_eq_none, hi.values]; exact hnew
        obtain ⟨d', slot, hd', hentry⟩ := hfull.pending g a (by rw [hi.covers.posts]; exact hg) hw
          p.1 hout hnone
        exact ⟨hi.live_of_not_ready hpre hnew, by simp [hentry], d', hd'⟩
      · rintro _ s' _ e' ⟨full', hfull', rfl, rfl⟩
        refine (complete_inv hacc hpre hi hg hw hlen handle' hfull').mono fun r r' hr =>
          Comp.Ends.mono (fun _ _ _ e' ⟨hi', hvalues⟩ => ⟨hi', fun p hp => ?_⟩) hr
        have hready : p.1 ∈ st.acc.ready cfg.rank := by rw [← hi.values, hk p hp]; rfl
        have hold : p.1 ∉ (List.zip (a.localOutputs cfg.rank) outputs).map (·.1) := by
          rw [List.map_fst_zip hlen.ge, hok.mem_localOutputs]
          exact fun hout => hi.covers.not_ready_of_pending hg hw hout.1 hready
        rw [hvalues, putAll_of_not_mem _ hold]
        exact hk p hp
    · rw [if_pos hlen, if_pos hlen]
      exact .ret ⟨rfl, hi.current, hi.value, rfl⟩

/-- **`ensure_ready`**, for a value with a use to come. -/
theorem ensureReady_sim (hcov : Covers (plan cfg) cfg.rank st.ext st.pre st.acc) {id : ValueId}
    {d : ValueDesc} (hd : (plan cfg).desc? id = some d)
    (hl : d.place.rank = cfg.rank) (hdef : id ∈ st.ext ++ definedBy st.pre)
    (huse : id ∈ localUses cfg.rank st.rest ++ (plan cfg).finalsOf cfg.rank) :
    ∃ lines, st.acc.demand cfg.rank st.context id = st.acc ++ lines ∧
      ∀ known : List (ValueId × V),
        Sim (H := H) cfg st { st with acc := st.acc.demand cfg.rank st.context id } lines
          (Keeps known) (fun v => Keeps ((id, v) :: known)) (ensureReady cfg id d.place) := by
  have hready : ∀ {st' : Stage} {s : RuntimeState V H} {e : ScriptState V H} {v : V},
      Inv cfg st' s e → st'.rest = st.rest → e.values id = some v →
        s.store id = some (.ready d.place v) := by
    intro st' s e v hi hrest hv
    obtain ⟨full, hfull, hs⟩ := hi.store
    obtain ⟨d', hd', hentry⟩ := hfull.ready id v hv
    rw [hd] at hd'
    cases hd'
    rw [hs, visible, if_neg (hi.live_of_use (hrest ▸ huse)), hentry]
  by_cases hr : id ∈ st.acc.ready cfg.rank
  · rw [hcov.demand_of_ready hacc hpre st.context hr]
    refine ⟨[], by simp, fun known s e hi hk => ?_⟩
    obtain ⟨v, hv⟩ := hi.keeps_isSome hr
    have hrun : ensureReady cfg id d.place s = .ret (.ok v, s) := by
      simp [ensureReady, lookup, Comp.bind_apply, hready hi rfl hv]
    rw [hrun]
    refine .ret ⟨hi, fun p hp => ?_⟩
    rcases List.mem_cons.1 hp with rfl | hp
    exacts [hv, hk p hp]
  · rcases hcov.ready_or_pending ⟨d, hd, hl⟩ hdef with hr' | ⟨g, a, hg, hout, hw⟩
    · exact absurd hr' hr
    · obtain ⟨defs, ids, src, d', hok, -⟩ := hacc.action hpre hg
      have hlout : id ∈ a.localOutputs cfg.rank := hok.mem_localOutputs.2 ⟨hout, d, hd, hl⟩
      have hsettle := hcov.demand_of_pending hacc hpre st.context hg hlout
      obtain ⟨lines, hlines, hsim⟩ := finishGroup_sim (V := V) (H := H) hacc hpre hg
      rw [hsettle]
      refine ⟨lines, hlines, fun known s e hi hk => ?_⟩
      obtain ⟨full, hfull, hs⟩ := hi.store
      have hnone : e.values id = none := by
        rw [← Option.not_isSome_iff_eq_none, hi.values]; exact hr
      obtain ⟨d'', slot, hd'', hentry⟩ := hfull.pending g a (by rw [hcov.posts]; exact hg) hw id
        hlout hnone
      rw [hd] at hd''
      cases hd''
      have hlookup : s.store id = some (.pending d.place g slot) := by
        rw [hs, visible, if_neg (hi.live_of_not_ready hpre hr), hentry]
      simp only [ensureReady, Comp.bind_assoc, lookup, Comp.get_bind, hlookup, Comp.pure_bind,
        Comp.throwIf_bind, ne_eq, not_true_eq_false, if_false]
      refine Comp.rel_bind_left (hsim known s e hi hk) ?_
      rintro _ s' _ e' ⟨hi', hk'⟩
      obtain ⟨v, hv⟩ := hi'.keeps_isSome (Script.ready_settle.2 (Or.inr ⟨hw, hlout⟩))
      simp only [Comp.get_bind, hready hi' rfl hv, Comp.pure_bind]
      refine .ret ⟨hi', fun p hp => ?_⟩
      rcases List.mem_cons.1 hp with rfl | hp
      exacts [hv, hk' p hp]

/-- The operands of an instruction. -/
theorem collectOperands_sim {place : Place} (hplace : place.rank = cfg.rank) (ids : List ValueId) :
    ∀ {acc : Script}, Covers (plan cfg) cfg.rank st.ext st.pre acc →
      (∀ id ∈ ids, (∃ d, (plan cfg).desc? id = some d ∧ d.place = place) ∧
        id ∈ st.ext ++ definedBy st.pre ∧
        id ∈ localUses cfg.rank st.rest ++ (plan cfg).finalsOf cfg.rank) →
      ∃ lines, acc.demandAll cfg.rank st.context ids = acc ++ lines ∧
        ∀ known : List (ValueId × V), Sim (H := H) cfg { st with acc := acc }
          { st with acc := acc.demandAll cfg.rank st.context ids } lines (Keeps known)
          (fun values e => ids.map e.values = values.map some ∧ Keeps known e)
          (collectOperands cfg place ids) := by
  induction ids with
  | nil =>
    intro acc _ _
    exact ⟨[], by simp [Script.demandAll], fun known => Sim.pure fun e hk => ⟨rfl, hk⟩⟩
  | cons id ids ih =>
    intro acc hcov hids
    obtain ⟨⟨d, hd, hp⟩, hdef, huse⟩ := hids id (by simp)
    obtain ⟨l₁, h₁, sim₁⟩ := @ensureReady_sim V H cfg spec hacc { st with acc := acc } hpre hcov id d
      hd (by rw [hp]; exact hplace) hdef huse
    obtain ⟨l₂, h₂, sim₂⟩ := ih (hcov.demand hacc hpre st.context)
      fun id' hid' => hids id' (by simp [hid'])
    refine ⟨l₁ ++ l₂, ?_, fun known => ?_⟩
    · show Script.demandAll _ _ (acc.demand cfg.rank st.context id) ids = _
      rw [h₂, h₁, List.append_assoc]
    · subst hp
      refine (sim₁ known).bind fun v => ?_
      intro s e hi hk
      refine Comp.rel_bind_left (sim₂ ((id, v) :: known) s e hi hk) ?_
      rintro values s' _ e' ⟨hi', hvalues, hk'⟩
      refine .ret ⟨hi', ?_, fun p hp => hk' p (by simp [hp])⟩
      rw [List.map_cons, List.map_cons, hvalues, hk' (id, v) (by simp)]

end

/-! ## The instructions -/

theorem readValues_eq {ids : List ValueId} {e : ScriptState V H} : ∀ {values : List V},
    ids.map e.values = values.map some → readValues ids e = .ret (.ok values, e) := by
  induction ids with
  | nil =>
    intro values h
    obtain rfl : values = [] := by simpa using h.symm
    rfl
  | cons id ids ih =>
    intro values h
    cases values with
    | nil => simp at h
    | cons value values =>
      rw [List.map_cons, List.map_cons] at h
      obtain ⟨hv, hvs⟩ := List.cons.inj h
      simp only [readValues, readValue, Comp.bind_assoc, Comp.get_bind, hv, Comp.pure_bind]
      rw [Comp.bind_apply, ih hvs]
      rfl

theorem readValues_bind {ids : List ValueId} {e : ScriptState V H} {values : List V}
    (h : ids.map e.values = values.map some) (f : List V → ScriptComp V H α) :
    (readValues ids >>= f) e = f values e := by
  rw [Comp.bind_apply, readValues_eq h]
  rfl

namespace Inv

variable {spec : OperatorSpec} {st st' : Stage} {s : RuntimeState V H} {e : ScriptState V H}

/-- The instruction being executed. -/
theorem setContext (h : Inv cfg st s e) (context : Context) :
    Inv cfg { st with context := context }
      { s with current := context.current, currentValue := context.value } e :=
  ⟨h.covers, rfl, rfl, h.bundle, h.slots, h.timing, h.values, h.groups_length, h.groups, h.store, h.uses⟩

/-- Nothing happens on the rank. -/
theorem skip (h : Inv cfg st s e) (hcov : Covers (plan cfg) cfg.rank st'.ext st'.pre st'.acc)
    (hacc : st'.acc = st.acc) (hacts : actionsOf st'.pre = actionsOf st.pre)
    (hcontext : st'.context = st.context)
    (huses : localUses cfg.rank st'.rest = localUses cfg.rank st.rest) : Inv cfg st' s e := by
  refine ⟨hcov, by rw [hcontext]; exact h.current, by rw [hcontext]; exact h.value, h.bundle, h.slots,
    h.timing, by rw [hacc]; exact h.values, by rw [hacts]; exact h.groups_length,
    by rw [hacts, hacc]; exact h.groups, by rw [hacc]; exact h.store, by rw [huses]; exact h.uses⟩

/-- A value that the prefix does not define is not in the store. -/
theorem undefined (hacc : Accepted (plan cfg) spec)
    (hpre : (plan cfg).instructions = st.pre ++ st.rest) (h : Inv cfg st s e) {id : ValueId}
    (hid : id ∉ st.ext ++ definedBy st.pre) :
    s.store id = none ∧ ¬ Released cfg s.remainingUses id := by
  have hnew : id ∉ st.acc.ready cfg.rank := fun hr => hid (h.covers.mem_defined hr)
  have hlive := h.live_of_not_ready hpre hnew
  obtain ⟨full, hfull, hs⟩ := h.store
  have hnone : e.values id = none := by
    rw [← Option.not_isSome_iff_eq_none, h.values]; exact hnew
  refine ⟨?_, hlive⟩
  rw [hs, visible, if_neg hlive]
  refine hfull.absent id hnone fun g a hg _ hout => hid ?_
  rw [h.covers.posts] at hg
  obtain ⟨defs, ids, src, d, hok, hdef⟩ := hacc.action hpre hg
  exact List.mem_append_right _ (hdef id (hok.mem_localOutputs.1 hout).1)

/-- **A line makes one value ready**, and the uses of its instruction are done. -/
theorem define (h : Inv cfg st s e) {act : Act} {out : ValueId} {d : ValueDesc} (v : V)
    {full : ValueId → Option (Entry V)} (hfull : Stored cfg st.acc e.values full)
    (hcov : Covers (plan cfg) cfg.rank st'.ext st'.pre st'.acc)
    (hd : (plan cfg).desc? out = some d) (hacts : actionsOf st'.pre = actionsOf st.pre)
    (hacc' : st'.acc = st.acc ++ [⟨st.context, act⟩]) (hdef : act.defines cfg.rank = [out])
    (hp : act.post? = none) (hw : act.wait? = none) (hcontext : st'.context = st.context)
    {used : List ValueId}
    (hused : localUses cfg.rank st.rest = used ++ localUses cfg.rank st'.rest)
    (timing : RuntimeTiming) :
    Inv cfg st'
      (afterRelease cfg (Function.update full out (some (.ready d.place v))) used
        { s with
          timing := timing
          store := visible cfg s.remainingUses (Function.update full out (some (.ready d.place v))) })
      { e with context := st.context, timing := timing,
               values := Function.update e.values out (some v) } := by
  have hwaited : ∀ g, st'.acc.Waited g ↔ st.acc.Waited g := by
    intro g; rw [hacc', Script.waited_append, Script.waited_singleton]; simp [hw]
  have hposts : st'.acc.posts = st.acc.posts := by
    rw [hacc', Script.posts_append, Script.posts_singleton]; simp [hp]
  refine ⟨hcov, ?_, ?_, ?_, h.slots, ?_, ?_, ?_, ?_,
    ⟨Function.update full out (some (.ready d.place v)), ?_, afterRelease_store rfl⟩, ?_⟩
  · rw [afterRelease_current, hcontext]; exact h.current
  · rw [afterRelease_currentValue, hcontext]; exact h.value
  · rw [afterRelease_bundleSlots]; exact h.bundle
  · rw [afterRelease_timing]
  · intro id
    rw [hacc', Script.ready_append, Script.ready_singleton, hdef, List.mem_append,
      List.mem_singleton, ← h.values]
    by_cases heq : id = out
    · simp [heq]
    · simp [heq]
  · rw [afterRelease_groups, hacts]; exact h.groups_length
  · intro g a hg
    rw [afterRelease_groups]
    obtain ⟨handle, hhandle, hgroup⟩ := h.groups g a (hacts ▸ hg)
    refine ⟨handle, hhandle, ?_⟩
    simp only [hwaited]
    exact hgroup
  · refine ⟨(hfull.set v hd).ready, fun g a hg hw' => ?_, fun id hv hno => ?_⟩
    · rw [hposts] at hg
      exact (hfull.set v hd).pending g a hg (fun hw'' => hw' ((hwaited g).2 hw''))
    · refine (hfull.set v hd).absent id hv fun g a hg hw' => ?_
      exact hno g a (by rw [hposts]; exact hg) fun hw'' => hw' ((hwaited g).1 hw'')
  · intro hretain id
    have h1 := h.uses hretain id
    rw [hused, List.append_assoc, List.count_append] at h1
    rw [afterRelease_groups]
    simp only [afterRelease, hretain, Bool.false_eq_true, if_false]
    omega

end Inv

theorem define_eq {s : RuntimeState V H} {id : ValueId} (entry : Entry V) (h : s.store id = none) :
    define id entry s = .ret (.ok (), { s with store := Function.update s.store id (some entry) }) := by
  simp [define, h]

section
variable {spec : OperatorSpec} (hacc : Accepted (plan cfg) spec) {st : Stage}
  (hpre : (plan cfg).instructions = st.pre ++ st.rest)
include hacc hpre

/-- The end of a line that makes one value ready: it is checked and stored, and
    the uses of the instruction are released. -/
theorem defineTail_rel (st' : Stage) {s : RuntimeState V H} {e : ScriptState V H}
    (hi : Inv cfg st s e) {act : Act} {out : ValueId} {d : ValueDesc} (v : V)
    (hcov : Covers (plan cfg) cfg.rank st'.ext st'.pre st'.acc)
    (hd : (plan cfg).desc? out = some d) (hnew : out ∉ st.ext ++ definedBy st.pre)
    (hacts : actionsOf st'.pre = actionsOf st.pre)
    (hacc' : st'.acc = st.acc ++ [⟨st.context, act⟩]) (hdef : act.defines cfg.rank = [out])
    (hp : act.post? = none) (hw : act.wait? = none) (hcontext : st'.context = st.context)
    {used : List ValueId}
    (hused : localUses cfg.rank st.rest = used ++ localUses cfg.rank st'.rest)
    (hready : ∀ id ∈ used, id ∈ st.acc.ready cfg.rank) (timing : RuntimeTiming) :
    Prog.Rel (Comp.Ends (fun _ s' _ e' => Inv cfg st' s' e') Fails)
      ((api (.validateValue v d) >>= fun _ => define out (.ready d.place v) >>= fun _ =>
        releaseAll cfg used) { s with timing := timing })
      ((scriptApi (.validateValue v d) >>= fun _ => setValue out v)
        { e with context := st.context, timing := timing }) := by
  refine rel_api hi.current hi.value fun _ => ?_
  obtain ⟨hnone, hlive⟩ := hi.undefined hacc hpre hnew
  obtain ⟨full, hfull, hs⟩ := hi.store
  have hstore : Function.update s.store out (some (.ready d.place v)) =
      visible cfg s.remainingUses (Function.update full out (some (.ready d.place v))) := by
    rw [hs]; exact (visible_update hlive).symm
  have hdefine : define (H := H) out (.ready d.place v) { s with timing := timing } = _ :=
    define_eq _ hnone
  rw [Comp.bind_apply, hdefine, Prog.ret_bind, Comp.next_ok,
    releaseAll_eq (Function.update full out (some (.ready d.place v)))]
  · rw [hstore]
    exact .ret (hi.define v hfull hcov hd hacts hacc' hdef hp hw hcontext hused timing)
  · exact hstore
  · intro hretain id
    have h1 := hi.uses hretain id
    rw [hused, List.append_assoc, List.count_append] at h1
    show _ ≤ s.remainingUses id
    omega
  · intro id hid
    refine ⟨?_, ?_⟩
    · rw [totalUses, hpre, localUses_append, hused]
      simp [hid]
    · obtain ⟨v', hv'⟩ := hi.keeps_isSome (hready id hid)
      obtain ⟨d', -, hsome⟩ := hfull.ready id v' hv'
      by_cases heq : id = out
      · simp [heq]
      · simp [Function.update_of_ne heq, hsome]

/-- The same for a line whose instruction uses nothing. -/
theorem defineTail_rel_nil (st' : Stage) {s : RuntimeState V H} {e : ScriptState V H}
    (hi : Inv cfg st s e) {act : Act} {out : ValueId} {d : ValueDesc} (v : V)
    (hcov : Covers (plan cfg) cfg.rank st'.ext st'.pre st'.acc)
    (hd : (plan cfg).desc? out = some d) (hnew : out ∉ st.ext ++ definedBy st.pre)
    (hacts : actionsOf st'.pre = actionsOf st.pre)
    (hacc' : st'.acc = st.acc ++ [⟨st.context, act⟩]) (hdef : act.defines cfg.rank = [out])
    (hp : act.post? = none) (hw : act.wait? = none) (hcontext : st'.context = st.context)
    (hused : localUses cfg.rank st.rest = localUses cfg.rank st'.rest) :
    Prog.Rel (Comp.Ends (fun _ s' _ e' => Inv cfg st' s' e') Fails)
      ((api (.validateValue v d) >>= fun _ => define out (.ready d.place v)) s)
      ((scriptApi (.validateValue v d) >>= fun _ => setValue out v) { e with context := st.context }) := by
  have hnil : localUses cfg.rank st.rest = [] ++ localUses cfg.rank st'.rest := hused
  have htail := defineTail_rel hacc hpre st' hi v hcov hd hnew hacts hacc' hdef hp hw hcontext
    hnil (by simp) s.timing
  have hrelease : (define (H := H) out (.ready d.place v) >>= fun _ => releaseAll cfg []) =
      define out (.ready d.place v) := Comp.bind_pure _
  have he : ({ e with context := st.context, timing := s.timing } : ScriptState V H) =
      { e with context := st.context } := by rw [hi.timing]
  rw [hrelease, he] at htail
  exact htail

end

/-- The local outputs of a posted action become pending. -/
theorem definePending_eq {d : ValueDesc} {g : ℕ} {outs : List ValueId} {places : List Place}
    (h : List.Forall₂ (OutputOk (plan cfg) d) outs places) :
    ∀ (slot : ℕ) (s : RuntimeState V H) (full : ValueId → Option (Entry V)), outs.Nodup →
      s.store = visible cfg s.remainingUses full →
      (∀ out ∈ outs, (plan cfg).IsLocal cfg.rank out →
        full out = none ∧ ¬ Released cfg s.remainingUses out) →
      ∃ full', definePending cfg g slot outs places s =
          .ret (.ok (((outs.zip places).filter fun p => p.2.rank = cfg.rank).map (·.1)),
            { s with store := visible cfg s.remainingUses full' }) ∧
        (∀ id, id ∉ ((outs.zip places).filter fun p => p.2.rank = cfg.rank).map (·.1) →
          full' id = full id) ∧
        ∀ id ∈ ((outs.zip places).filter fun p => p.2.rank = cfg.rank).map (·.1),
          ∃ d slot, (plan cfg).desc? id = some d ∧ full' id = some (.pending d.place g slot) := by
  induction h with
  | nil =>
    intro slot s full _ hs _
    refine ⟨full, ?_, by simp, by simp⟩
    rw [← hs]
    rfl
  | @cons out place outs places hout _ ih =>
    intro slot s full hn hs hfull
    obtain ⟨hnot, hn⟩ := List.nodup_cons.1 hn
    obtain ⟨-, d', hd', rfl, -⟩ := hout
    by_cases hr : d'.place.rank = cfg.rank
    · obtain ⟨hnone, hlive⟩ := hfull out (by simp) ⟨d', hd', hr⟩
      obtain ⟨full', hrun, hsame, hpend⟩ := ih (slot + 1)
        { s with store := Function.update s.store out (some (.pending d'.place g slot)) }
        (Function.update full out (some (.pending d'.place g slot))) hn
        (by rw [hs]; exact (visible_update hlive).symm) fun out' hout' hl => by
          have hne : out' ≠ out := fun heq => hnot (heq ▸ hout')
          rw [Function.update_of_ne hne]
          exact hfull out' (by simp [hout']) hl
      have hzip : ((List.zip (out :: outs) (d'.place :: places)).filter fun p =>
          p.2.rank = cfg.rank).map (·.1) =
            out :: ((List.zip outs places).filter fun p => p.2.rank = cfg.rank).map (·.1) := by
        simp [hr]
      have hout : out ∉ ((List.zip outs places).filter fun p => p.2.rank = cfg.rank).map (·.1) := by
        intro hm
        obtain ⟨p, hp, rfl⟩ := List.mem_map.1 hm
        exact hnot (List.of_mem_zip (List.mem_filter.1 hp).1).1
      rw [hzip]
      refine ⟨full', ?_, fun id hid => ?_, fun id hid => ?_⟩
      · have hstore : s.store out = none := by rw [hs, visible, if_neg hlive, hnone]
        rw [definePending, if_pos hr, Comp.bind_apply, define_eq _ hstore, Prog.ret_bind,
          Comp.next_ok, Comp.bind_apply, hrun]
        rfl
      · rw [List.mem_cons, not_or] at hid
        rw [hsame id hid.2, Function.update_of_ne hid.1]
      · rcases List.mem_cons.1 hid with rfl | hid
        · exact ⟨d', slot, hd', by rw [hsame id hout, Function.update_self]⟩
        · exact hpend id hid
    · obtain ⟨full', hrun, hsame, hpend⟩ := ih slot s full hn hs fun out' hout' =>
        hfull out' (by simp [hout'])
      have hzip : ((List.zip (out :: outs) (d'.place :: places)).filter fun p =>
          p.2.rank = cfg.rank).map (·.1) =
            ((List.zip outs places).filter fun p => p.2.rank = cfg.rank).map (·.1) := by
        simp [hr]
      rw [hzip]
      refine ⟨full', ?_, hsame, hpend⟩
      rw [definePending, if_neg hr]
      exact hrun

section
variable {spec : OperatorSpec} (hacc : Accepted (plan cfg) spec) {pre rest : List Instruction}
  {i : Instruction} (hpre : (plan cfg).instructions = pre ++ i :: rest) {acc : Script}
  (hcov : Covers (plan cfg) cfg.rank (plan cfg).externalInputs pre acc)
include hacc hpre hcov

/-- **An Encode.** -/
theorem executeEncode_sim {op : EncodeOp} (hbody : i.body = .encode op) :
    ∃ lines, acc.addInstruction (plan cfg) cfg.rank i = acc ++ lines ∧
      Sim (H := H) cfg ⟨(plan cfg).externalInputs, pre, i :: rest, { current := some i }, acc⟩
        ⟨(plan cfg).externalInputs, pre ++ [i], rest, { current := some i },
          acc.addInstruction (plan cfg) cfg.rank i⟩ lines (fun _ => True) (fun _ _ => True)
        (executeEncode cfg op) := by
  have hcov' := hacc.addInstruction_covers hpre hcov
  obtain ⟨phase, -, hok⟩ := hacc.instruction pre i rest hpre
  rw [hbody] at hok
  obtain ⟨d, hd, -⟩ := hok.desc
  have huse : i.localUses cfg.rank = [] := by simp [Instruction.localUses, hbody]
  have hact : i.action? = none := by simp [Instruction.action?, hbody]
  have hfresh := (hacc.outputs_fresh hpre).2
  rw [hbody, InstructionBody.outputs] at hfresh
  have hlocal : (plan cfg).IsLocal cfg.rank op.output ↔ d.place.rank = cfg.rank := by
    constructor
    · rintro ⟨d', hd', hr⟩
      rw [hd] at hd'
      cases hd'
      exact hr
    · intro hr; exact ⟨d, hd, hr⟩
  by_cases hr : d.place.rank = cfg.rank
  · have hadd : acc.addInstruction (plan cfg) cfg.rank i =
        acc ++ [⟨{ current := some i }, .encode op⟩] := by
      simp [Script.addInstruction, hbody, hlocal.2 hr]
    refine ⟨_, hadd, fun s e hi _ => ?_⟩
    rw [execScript_singleton, execLine, Comp.modify_bind]
    simp only [executeEncode, Act.exec, desc, hd, Comp.ofExcept_bind_ok, hr, ne_eq,
      not_true_eq_false, if_false, Comp.get_bind, hi.bundle]
    obtain ⟨slots, hslots⟩ := hi.slots i (by rw [hpre]; simp) op hbody (hlocal.2 hr)
    simp only [hslots, Comp.ofExcept_bind_ok]
    refine rel_api hi.current hi.value fun output => ?_
    have htail := defineTail_rel_nil hacc hpre ⟨(plan cfg).externalInputs, pre ++ [i], rest,
      { current := some i }, acc.addInstruction (plan cfg) cfg.rank i⟩ hi output hcov' hd
      (hfresh op.output (by simp)) (by simp [actionsOf, hact]) hadd rfl rfl rfl rfl (by simp [huse])
    exact htail.mono fun r r' hr => Comp.Ends.mono (fun _ _ _ _ h => ⟨h, trivial⟩) hr
  · have hadd : acc.addInstruction (plan cfg) cfg.rank i = acc := by
      simp [Script.addInstruction, hbody, mt hlocal.1 hr]
    refine ⟨[], by rw [hadd, List.append_nil], fun s e hi _ => ?_⟩
    simp only [executeEncode, desc, hd, Comp.ofExcept_bind_ok, ne_eq, hr, not_false_eq_true, if_true]
    exact .ret ⟨hi.skip hcov' hadd (by simp [actionsOf, hact]) rfl (by simp [huse]), trivial⟩

/-- **A ComputeOp.** -/
theorem executeCompute_sim {op : ComputeOp} (hbody : i.body = .compute op) :
    ∃ lines, acc.addInstruction (plan cfg) cfg.rank i = acc ++ lines ∧
      Sim (H := H) cfg ⟨(plan cfg).externalInputs, pre, i :: rest, { current := some i }, acc⟩
        ⟨(plan cfg).externalInputs, pre ++ [i], rest, { current := some i },
          acc.addInstruction (plan cfg) cfg.rank i⟩ lines (fun _ => True) (fun _ _ => True)
        (executeCompute cfg op) := by
  have hcov' := hacc.addInstruction_covers hpre hcov
  obtain ⟨phase, -, hok⟩ := hacc.instruction pre i rest hpre
  rw [hbody] at hok
  have hplace := verifyComputeMetadata_place hok.metadata
  obtain ⟨d, hd, hdplace⟩ := hplace op.output (by simp)
  have hact : i.action? = none := by simp [Instruction.action?, hbody]
  have hfresh := (hacc.outputs_fresh hpre).2
  rw [hbody, InstructionBody.outputs] at hfresh
  have hlocal : (plan cfg).IsLocal cfg.rank op.output ↔ op.place.rank = cfg.rank :=
    hacc.compute_isLocal hpre hbody (by simp)
  by_cases hr : op.place.rank = cfg.rank
  · have huse : i.localUses cfg.rank = op.inputs := by simp [Instruction.localUses, hbody, hr]
    have hdefined : ∀ id ∈ op.inputs, (plan cfg).IsLocal cfg.rank id ∧
        id ∈ (plan cfg).externalInputs ++ definedBy pre := by
      intro id hid
      exact hacc.localUses_defined hpre (by rw [huse]; exact hid)
    obtain ⟨lines, hlines, hsim⟩ := @collectOperands_sim V H cfg spec hacc
      ⟨(plan cfg).externalInputs, pre, i :: rest, { current := some i }, acc⟩ hpre op.place hr
      op.inputs acc hcov fun id hid => ⟨hplace id (by simp [hid]), (hdefined id hid).2, by
        simp [huse, hid]⟩
    have hadd : acc.addInstruction (plan cfg) cfg.rank i =
        acc.demandAll cfg.rank { current := some i } op.inputs ++
          [⟨{ current := some i }, .compute op⟩] := by
      simp [Script.addInstruction, hbody, hr]
    refine ⟨lines ++ [⟨{ current := some i }, .compute op⟩], ?_, ?_⟩
    · rw [hadd]
      show Script.demandAll _ _ acc op.inputs ++ _ = _
      rw [hlines, List.append_assoc]
    rw [executeCompute, if_neg (not_not.2 hr)]
    have hcollect : Sim (H := H) cfg
        ⟨(plan cfg).externalInputs, pre, i :: rest, { current := some i }, acc⟩ _ lines
        (fun _ => True) _ (collectOperands cfg op.place op.inputs) :=
      fun s e hi _ => hsim [] s e hi (by simp [Keeps])
    refine hcollect.bind fun inputs => ?_
    rintro s e hi ⟨hinputs, -⟩
    rw [execScript_singleton, execLine, Comp.modify_bind]
    simp only [Act.exec]
    rw [readValues_bind (show op.inputs.map
      ({ e with context := { current := some i } } : ScriptState V H).values = _ from hinputs)]
    refine rel_api hi.current hi.value fun output => ?_
    simp only [Comp.modify_bind, desc, hd, Comp.ofExcept_bind_ok]
    have hready : ∀ id ∈ op.inputs,
        id ∈ (acc.demandAll cfg.rank { current := some i } op.inputs).ready cfg.rank :=
      Covers.demandAll_ready _ hacc hpre op.inputs hcov hdefined
    have hused : localUses cfg.rank (i :: rest) = op.inputs ++ localUses cfg.rank rest := by
      simp [huse]
    have htail := @defineTail_rel V H cfg spec hacc ⟨(plan cfg).externalInputs, pre, i :: rest,
      { current := some i }, acc.demandAll cfg.rank { current := some i } op.inputs⟩ hpre
      ⟨(plan cfg).externalInputs, pre ++ [i], rest, { current := some i },
        acc.addInstruction (plan cfg) cfg.rank i⟩ s e hi (.compute op) op.output d output hcov' hd
      (hfresh op.output (by simp)) (by simp [actionsOf, hact]) hadd rfl rfl rfl rfl op.inputs hused
      hready (RuntimeTiming.addCompute s.timing op.kind)
    rw [hdplace] at htail
    rw [← hi.timing]
    exact htail.mono fun r r' hr => Comp.Ends.mono (fun _ _ _ _ h => ⟨h, trivial⟩) hr
  · have hadd : acc.addInstruction (plan cfg) cfg.rank i = acc := by
      simp [Script.addInstruction, hbody, hr]
    have huse : i.localUses cfg.rank = [] := by simp [Instruction.localUses, hbody, hr]
    refine ⟨[], by rw [hadd, List.append_nil], fun s e hi _ => ?_⟩
    rw [executeCompute, if_pos hr]
    exact .ret ⟨hi.skip hcov' hadd (by simp [actionsOf, hact]) rfl (by simp [huse]), trivial⟩

/-- The end of `execute_communication`: the group is open. -/
theorem post_inv {s : RuntimeState V H} {e : ScriptState V H} {action : CommAction}
    (hbody : i.body = .comm action)
    (hi : Inv cfg ⟨(plan cfg).externalInputs, pre, i :: rest, { current := some i }, acc⟩ s e)
    (hread : ∀ id ∈ action.localInputs cfg.rank, id ∈ acc.ready cfg.rank) (handle : H) :
    ∃ full', definePending cfg s.groups.length 0 action.outputs action.destinations
        { s with timing := RuntimeTiming.addPost s.timing } =
          .ret (.ok (action.localOutputs cfg.rank),
            { s with timing := RuntimeTiming.addPost s.timing
                     store := visible cfg s.remainingUses full' }) ∧
      Inv cfg ⟨(plan cfg).externalInputs, pre ++ [i], rest, { current := some i },
          acc ++ [⟨{ current := some i }, .post acc.posts.length action⟩]⟩
        { s with
          timing := RuntimeTiming.addPost s.timing
          store := visible cfg s.remainingUses full'
          groups := s.groups ++ [⟨action, action.localInputs cfg.rank,
            action.localOutputs cfg.rank, handle, false⟩] }
        { e.setHandle acc.posts.length handle with
          context := { current := some i }
          timing := RuntimeTiming.addPost e.timing } := by
  obtain ⟨phase, -, hok⟩ := hacc.instruction pre i rest hpre
  rw [hbody] at hok
  obtain ⟨src, d, hok⟩ := hok
  have hfresh := (hacc.outputs_fresh hpre).2
  rw [hbody, InstructionBody.outputs] at hfresh
  have hact : i.action? = some action := by simp [Instruction.action?, hbody]
  have hacts : actionsOf (pre ++ [i]) = actionsOf pre ++ [action] := by simp [actionsOf, hact]
  have hposts : acc.posts = actionsOf pre := hcov.posts
  have hwaited : ∀ g, Script.Waited (acc ++ [⟨{ current := some i }, .post acc.posts.length action⟩]) g ↔
      acc.Waited g := by
    intro g; rw [Script.waited_append, Script.waited_singleton]; simp [Act.wait?]
  have huse : i.localUses cfg.rank = action.localInputs cfg.rank := by
    simp [Instruction.localUses, hbody]
  obtain ⟨full, hfull, hs⟩ := hi.store
  -- the values of the new group are not in the store
  have hnew : ∀ out ∈ action.outputs, full out = none ∧ e.values out = none ∧
      ¬ Released cfg s.remainingUses out := by
    intro out hout
    obtain ⟨hnone, hlive⟩ := hi.undefined hacc hpre (hfresh out hout)
    have hnr : out ∉ acc.ready cfg.rank := fun hr => hfresh out hout (hcov.mem_defined hr)
    refine ⟨?_, ?_, hlive⟩
    · rwa [hs, visible, if_neg hlive] at hnone
    · rw [← Option.not_isSome_iff_eq_none, hi.values]; exact hnr
  obtain ⟨full', hrun, hsame, hpend⟩ := definePending_eq (g := s.groups.length) hok.outputs 0
    { s with timing := RuntimeTiming.addPost s.timing } full hok.outputs_nodup hs
    fun out hout _ => ⟨(hnew out hout).1, (hnew out hout).2.2⟩
  refine ⟨full', hrun, hcov.post _ hbody hfresh hread, hi.current, hi.value, hi.bundle, hi.slots,
    congrArg RuntimeTiming.addPost hi.timing, ?_, ?_, ?_, ⟨full', ⟨?_, ?_, ?_⟩, rfl⟩, ?_⟩
  · intro id
    refine (hi.values id).trans ?_
    rw [Script.ready_append, Script.ready_singleton]
    simp [Act.defines]
  · rw [hacts, List.length_append, List.length_append, hi.groups_length]; rfl
  · intro g a hg
    simp only [hwaited]
    rw [hacts] at hg
    rcases Nat.lt_or_ge g (actionsOf pre).length with hlt | hge
    · rw [List.getElem?_append_left hlt] at hg
      obtain ⟨handle', hhandle', hgroup⟩ := hi.groups g a hg
      have hne : g ≠ acc.posts.length := by rw [hposts]; omega
      refine ⟨handle', by simp [ScriptState.setHandle, Function.update_of_ne hne, hhandle'], ?_⟩
      rw [List.getElem?_append_left (by rw [hi.groups_length]; exact hlt)]
      exact hgroup
    · have hlen := (List.getElem?_eq_some_iff.1 hg).1
      rw [List.length_append, List.length_singleton] at hlen
      obtain rfl : g = (actionsOf pre).length := by omega
      obtain rfl : action = a := by simpa using hg
      refine ⟨handle, by simp [ScriptState.setHandle, hposts], ?_⟩
      have hnw : ¬ acc.Waited (actionsOf pre).length := fun hw =>
        absurd (hcov.waited _ hw) (lt_irrefl _)
      have hlen' : s.groups.length = (actionsOf pre).length := hi.groups_length
      rw [← hlen', List.getElem?_append_right le_rfl, hlen']
      simp [hnw]
  · intro id v hv
    obtain ⟨d', hd', hentry⟩ := hfull.ready id v hv
    refine ⟨d', hd', ?_⟩
    rw [hsame id fun hid => ?_, hentry]
    have hnone := (hnew id (hok.mem_localOutputs.1 hid).1).2.1
    exact absurd (hnone.symm.trans hv) (by simp)
  · intro g a hg hw id hid hv
    simp only [hwaited] at hw
    rw [Script.posts_append, Script.posts_singleton, hposts] at hg
    rcases Nat.lt_or_ge g (actionsOf pre).length with hlt | hge
    · rw [List.getElem?_append_left hlt] at hg
      obtain ⟨_, _, _, _, hok', hdef⟩ := hacc.action hpre hg
      have hold := (hok'.mem_localOutputs.1 hid).1
      obtain ⟨d', slot, hd', hentry⟩ := hfull.pending g a (by rw [hposts]; exact hg) hw id hid hv
      refine ⟨d', slot, hd', ?_⟩
      rw [hsame id fun hnewid => ?_, hentry]
      exact hfresh id (hok.mem_localOutputs.1 hnewid).1 (List.mem_append_right _ (hdef id hold))
    · have hlen := (List.getElem?_eq_some_iff.1 hg).1
      rw [List.length_append] at hlen
      simp only [Act.post?, Option.toList_some, List.length_singleton] at hlen
      obtain rfl : g = (actionsOf pre).length := by omega
      obtain rfl : action = a := by simpa [Act.post?] using hg
      obtain ⟨d', slot, hd', hentry⟩ := hpend id hid
      have hlen' : s.groups.length = (actionsOf pre).length := hi.groups_length
      exact ⟨d', slot, hd', by rw [hentry, hlen']⟩
  · intro id hv hno
    rw [hsame id fun hid => ?_]
    · refine hfull.absent id hv fun g a hg hw hid => ?_
      refine hno g a ?_ (fun hw' => hw ((hwaited g).1 hw')) hid
      rw [Script.posts_append, List.getElem?_append_left (List.getElem?_eq_some_iff.1 hg).1]
      exact hg
    · refine hno (actionsOf pre).length action ?_ (fun hw => ?_) hid
      · rw [Script.posts_append, Script.posts_singleton, hposts]; simp [Act.post?]
      · exact absurd (hcov.waited _ ((hwaited _).1 hw)) (lt_irrefl _)
  · intro hretain id
    have h1 := hi.uses hretain id
    simp only [localUses_cons, huse, List.count_append] at h1
    simp only [List.count_append, pendingUses, List.map_append, List.map_cons, List.map_nil,
      List.sum_append, List.sum_cons, List.sum_nil, Bool.false_eq_true, if_false] at h1 ⊢
    omega

/-- **A communication.** -/
theorem executeCommunication_sim {action : CommAction} (hbody : i.body = .comm action) :
    ∃ lines, acc.addInstruction (plan cfg) cfg.rank i = acc ++ lines ∧
      Sim (H := H) cfg ⟨(plan cfg).externalInputs, pre, i :: rest, { current := some i }, acc⟩
        ⟨(plan cfg).externalInputs, pre ++ [i], rest, { current := some i },
          acc.addInstruction (plan cfg) cfg.rank i⟩ lines (fun _ => True) (fun _ _ => True)
        (executeCommunication cfg action) := by
  obtain ⟨phase, -, hok⟩ := hacc.instruction pre i rest hpre
  rw [hbody] at hok
  obtain ⟨src, d, hok⟩ := hok
  have huse : i.localUses cfg.rank = action.localInputs cfg.rank := by
    simp [Instruction.localUses, hbody]
  have hdefined : ∀ id ∈ action.localInputs cfg.rank, (plan cfg).IsLocal cfg.rank id ∧
      id ∈ (plan cfg).externalInputs ++ definedBy pre := by
    intro id hid
    exact hacc.localUses_defined hpre (by rw [huse]; exact hid)
  have hsources : localSources cfg.rank action.inputs action.sources =
      .ok (if d.place.rank = cfg.rank then [(src, d.place)] else []) := by
    simp [localSources, hok.inputs, hok.sources, bind, Except.bind, pure, Except.pure]
  obtain ⟨lines, hlines, hsim⟩ : ∃ lines,
      acc.demandAll cfg.rank { current := some i } (action.localInputs cfg.rank) = acc ++ lines ∧
      Sim (H := H) cfg ⟨(plan cfg).externalInputs, pre, i :: rest, { current := some i }, acc⟩
        ⟨(plan cfg).externalInputs, pre, i :: rest, { current := some i },
          acc.demandAll cfg.rank { current := some i } (action.localInputs cfg.rank)⟩ lines
        (fun _ => True)
        (fun values e => (action.localInputs cfg.rank).map e.values = values.map some)
        (collectSources cfg action.inputs action.sources) := by
    rw [hok.inputs, hok.sources, hok.localInputs_eq]
    by_cases hr : d.place.rank = cfg.rank
    · obtain ⟨lines, hlines, hsim⟩ := @collectOperands_sim V H cfg spec hacc
        ⟨(plan cfg).externalInputs, pre, i :: rest, { current := some i }, acc⟩ hpre d.place hr
        [src] acc hcov fun id hid => by
          obtain rfl := List.mem_singleton.1 hid
          exact ⟨⟨d, hok.desc, rfl⟩, hok.uses, by simp [huse, hok.localInputs_eq, hr]⟩
      rw [if_pos hr]
      refine ⟨lines, hlines, fun s e hi _ => ?_⟩
      have heq : collectSources (H := H) cfg [src] [d.place] = collectOperands cfg d.place [src] := by
        rw [collectSources, if_pos hr]; rfl
      rw [heq]
      exact (hsim [] s e hi (by simp [Keeps])).mono fun r r' hr =>
        Comp.Ends.mono (fun _ _ _ _ h => ⟨h.1, h.2.1⟩) hr
    · rw [if_neg hr]
      refine ⟨[], by simp [Script.demandAll], ?_⟩
      rw [collectSources, if_neg hr]
      exact Sim.pure fun e _ => rfl
  have hadd : acc.addInstruction (plan cfg) cfg.rank i =
      acc.demandAll cfg.rank { current := some i } (action.localInputs cfg.rank) ++
        [⟨{ current := some i }, .post (acc.demandAll cfg.rank { current := some i }
          (action.localInputs cfg.rank)).posts.length action⟩] := by
    simp [Script.addInstruction, hbody]
  rw [hadd]
  refine ⟨lines ++ [⟨{ current := some i }, .post (acc.demandAll cfg.rank { current := some i }
    (action.localInputs cfg.rank)).posts.length action⟩], by rw [hlines, List.append_assoc], ?_⟩
  refine hsim.bind fun inputs => ?_
  intro s e hi hinputs
  have hcov' := hcov.demandAll hacc hpre { current := some i } (action.localInputs cfg.rank)
  have hread : ∀ id ∈ action.localInputs cfg.rank, id ∈
      (acc.demandAll cfg.rank { current := some i } (action.localInputs cfg.rank)).ready cfg.rank :=
    Covers.demandAll_ready _ hacc hpre _ hcov hdefined
  rw [execScript_singleton, execLine, Comp.modify_bind]
  simp only [Act.exec]
  rw [readValues_bind (show (action.localInputs cfg.rank).map
      ({ e with context := { current := some i } } : ScriptState V H).values = _ from hinputs),
    hsources, Comp.ofExcept_bind_ok]
  refine rel_api hi.current hi.value fun handle => ?_
  obtain ⟨full', hrun, hinv⟩ := post_inv hacc hpre hcov' hbody hi hread handle
  have hinputs' : (if d.place.rank = cfg.rank then [(src, d.place)] else []).map (·.1) =
      action.localInputs cfg.rank := by
    rw [hok.localInputs_eq]; split_ifs <;> rfl
  simp only [Comp.modify_bind, Comp.get_bind]
  rw [Comp.bind_apply, hrun, hinputs']
  exact .ret ⟨hinv, trivial⟩

/-- **An instruction.** -/
theorem executeInstruction_sim {context : Context} (hvalue : context.value = none) :
    ∃ lines, acc.addInstruction (plan cfg) cfg.rank i = acc ++ lines ∧
      Sim (H := H) cfg ⟨(plan cfg).externalInputs, pre, i :: rest, context, acc⟩
        ⟨(plan cfg).externalInputs, pre ++ [i], rest, { current := some i },
          acc.addInstruction (plan cfg) cfg.rank i⟩ lines (fun _ => True) (fun _ _ => True)
        (executeInstruction cfg i) := by
  have hcurrent : ∀ {s : RuntimeState V H} {e : ScriptState V H},
      Inv cfg ⟨(plan cfg).externalInputs, pre, i :: rest, context, acc⟩ s e →
      Inv cfg ⟨(plan cfg).externalInputs, pre, i :: rest, { current := some i }, acc⟩
        { s with current := some i } e := by
    intro s e hi
    have hv : s.currentValue = none := hi.value.trans hvalue
    have h := hi.setContext { current := some i }
    rwa [show ({ s with current := some i, currentValue := none } : RuntimeState V H) =
      { s with current := some i } by rw [← hv]] at h
  cases hbody : i.body with
  | encode op =>
    obtain ⟨lines, hlines, hsim⟩ := executeEncode_sim (V := V) (H := H) hacc hpre hcov hbody
    refine ⟨lines, hlines, fun s e hi hp => ?_⟩
    rw [executeInstruction, Comp.modify_bind, hbody]
    exact hsim _ e (hcurrent hi) hp
  | compute op =>
    obtain ⟨lines, hlines, hsim⟩ := executeCompute_sim (V := V) (H := H) hacc hpre hcov hbody
    refine ⟨lines, hlines, fun s e hi hp => ?_⟩
    rw [executeInstruction, Comp.modify_bind, hbody]
    exact hsim _ e (hcurrent hi) hp
  | comm action =>
    obtain ⟨lines, hlines, hsim⟩ := executeCommunication_sim (V := V) (H := H) hacc hpre hcov hbody
    refine ⟨lines, hlines, fun s e hi hp => ?_⟩
    rw [executeInstruction, Comp.modify_bind, hbody]
    exact hsim _ e (hcurrent hi) hp

end

section
variable {spec : OperatorSpec} (hacc : Accepted (plan cfg) spec)
include hacc

/-- **A list of instructions**, by induction over the list. -/
theorem executeInstructions_sim (list : List Instruction) :
    ∀ {pre rest : List Instruction} {acc : Script} (context : Context),
      (plan cfg).instructions = pre ++ (list ++ rest) →
      Covers (plan cfg) cfg.rank (plan cfg).externalInputs pre acc → context.value = none →
      ∃ lines context', acc.addPhase (plan cfg) cfg.rank list = acc ++ lines ∧
        Sim (V := V) (H := H) cfg ⟨(plan cfg).externalInputs, pre, list ++ rest, context, acc⟩
          ⟨(plan cfg).externalInputs, pre ++ list, rest, context',
            acc.addPhase (plan cfg) cfg.rank list⟩ lines (fun _ => True)
          (fun _ _ => context'.value = none) (executeInstructions cfg list) := by
  induction list with
  | nil =>
    intro pre rest acc context _ _ hvalue
    refine ⟨[], context, by simp [Script.addPhase], ?_⟩
    rw [List.append_nil]
    exact Sim.pure fun _ _ => hvalue
  | cons i list ih =>
    intro pre rest acc context hpre hcov hvalue
    obtain ⟨l₁, h₁, sim₁⟩ := @executeInstruction_sim V H cfg spec hacc pre (list ++ rest) i hpre acc
      hcov context hvalue
    have hnext : (plan cfg).instructions = (pre ++ [i]) ++ (list ++ rest) := by simpa using hpre
    obtain ⟨l₂, context', h₂, sim₂⟩ := ih { current := some i } hnext
      (hacc.addInstruction_covers hpre hcov) rfl
    refine ⟨l₁ ++ l₂, context', ?_, ?_⟩
    · show Script.addPhase _ _ (acc.addInstruction (plan cfg) cfg.rank i) list = _
      rw [h₂, h₁, List.append_assoc]
    · rw [List.append_assoc] at sim₂
      exact sim₁.bind fun _ => sim₂

/-- **A phase.** -/
theorem executePhase_sim (list : List Instruction) {pre rest : List Instruction} {acc : Script}
    (hpre : (plan cfg).instructions = pre ++ (list ++ rest))
    (hcov : Covers (plan cfg) cfg.rank (plan cfg).externalInputs pre acc) :
    ∃ lines, acc.addPhase (plan cfg) cfg.rank list = acc ++ lines ∧
      Sim (V := V) (H := H) cfg ⟨(plan cfg).externalInputs, pre, list ++ rest, {}, acc⟩
        ⟨(plan cfg).externalInputs, pre ++ list, rest, {},
          acc.addPhase (plan cfg) cfg.rank list⟩ lines (fun _ => True) (fun _ _ => True)
        (executePhase cfg list) := by
  obtain ⟨lines, context', hlines, hsim⟩ := executeInstructions_sim (V := V) (H := H) hacc list {}
    hpre hcov rfl
  refine ⟨lines, hlines, fun s e hi hp => Comp.rel_bind_left (hsim s e hi hp) ?_⟩
  rintro _ s' _ e' ⟨hi', hvalue⟩
  have hv : s'.currentValue = none := hi'.value.trans hvalue
  have h := hi'.setContext {}
  rw [show ({ s' with current := none, currentValue := none } : RuntimeState V H) =
    { s' with current := none } by rw [← hv]] at h
  exact .ret ⟨h, trivial⟩

/-- The groups of a list, in order. -/
theorem finishGroups_sim {pre rest : List Instruction}
    (hpre : (plan cfg).instructions = pre ++ rest) (groups : List (CommAction × ℕ)) :
    ∀ {acc : Script}, Covers (plan cfg) cfg.rank (plan cfg).externalInputs pre acc →
      (∀ group ∈ groups, (actionsOf pre)[group.2]? = some group.1) →
      ∃ lines, groups.foldl (Script.settle {}) acc = acc ++ lines ∧
        Sim (V := V) (H := H) cfg ⟨(plan cfg).externalInputs, pre, rest, {}, acc⟩
          ⟨(plan cfg).externalInputs, pre, rest, {}, groups.foldl (Script.settle {}) acc⟩ lines
          (fun _ => True) (fun _ _ => True) (finishGroups cfg (groups.map (·.2))) := by
  induction groups with
  | nil =>
    intro acc _ _
    exact ⟨[], by simp, Sim.pure fun _ _ => trivial⟩
  | cons group groups ih =>
    intro acc hcov hgroups
    have hg := hgroups group (by simp)
    obtain ⟨l₁, h₁, sim₁⟩ := @finishGroup_sim V H cfg spec hacc
      ⟨(plan cfg).externalInputs, pre, rest, {}, acc⟩ hpre group.2 group.1 hg
    obtain ⟨l₂, h₂, sim₂⟩ := ih (hcov.settle hacc hpre {} hg) fun x hx => hgroups x (by simp [hx])
    refine ⟨l₁ ++ l₂, ?_, ?_⟩
    · rw [List.foldl_cons, h₂, h₁, List.append_assoc]
    · have hfirst : Sim (V := V) (H := H) cfg ⟨(plan cfg).externalInputs, pre, rest, {}, acc⟩ _ l₁
          (fun _ => True) (fun _ _ => True) (finishGroup cfg group.2) := fun s e hi _ =>
        (sim₁ [] s e hi (by simp [Keeps])).mono fun r r' hr =>
          Comp.Ends.mono (fun _ _ _ _ h => ⟨h.1, trivial⟩) hr
      exact hfirst.bind fun _ => sim₂

/-- **`finish_all_groups`.** -/
theorem finishAllGroups_sim {pre rest : List Instruction}
    (hpre : (plan cfg).instructions = pre ++ rest) {acc : Script}
    (hcov : Covers (plan cfg) cfg.rank (plan cfg).externalInputs pre acc) :
    ∃ lines, acc.finishAll = acc ++ lines ∧
      Sim (V := V) (H := H) cfg ⟨(plan cfg).externalInputs, pre, rest, {}, acc⟩
        ⟨(plan cfg).externalInputs, pre, rest, {}, acc.finishAll⟩ lines
        (fun _ => True) (fun _ _ => True) (finishAllGroups cfg) := by
  obtain ⟨lines, hlines, hsim⟩ := finishGroups_sim (V := V) (H := H) hacc hpre acc.posts.zipIdx hcov
    fun group hgroup => by rw [← hcov.posts]; exact List.mem_zipIdx_iff_getElem?.1 hgroup
  refine ⟨lines, hlines, fun s e hi hp => ?_⟩
  have hrange : List.range s.groups.length = acc.posts.zipIdx.map (·.2) := by
    rw [hi.groups_length, hcov.posts, List.zipIdx_map_snd, List.range_eq_range']
  rw [finishAllGroups, Comp.get_bind, hrange]
  exact hsim s e hi hp

/-- The initialization. -/
theorem initialization_sim :
    ∃ lines, (plan cfg).initialScript cfg.rank = (plan cfg).inputLines cfg.rank ++ lines ∧
      Sim (V := V) (H := H) cfg
        ⟨(plan cfg).externalInputs, [], (plan cfg).instructions, {}, (plan cfg).inputLines cfg.rank⟩
        ⟨(plan cfg).externalInputs, (plan cfg).initialization,
          (plan cfg).execution ++ (plan cfg).finalization, {}, (plan cfg).initialScript cfg.rank⟩
        lines (fun _ => True) (fun _ _ => True)
        (executePhase cfg (plan cfg).initialization >>= fun _ => finishAllGroups cfg) := by
  have hinstr : (plan cfg).instructions = (plan cfg).initialization ++
      ((plan cfg).execution ++ (plan cfg).finalization) := by simp [RuntimePlan.instructions]
  obtain ⟨l₁, h₁, sim₁⟩ := @executePhase_sim V H cfg spec hacc (plan cfg).initialization []
    ((plan cfg).execution ++ (plan cfg).finalization) _ hinstr hacc.inputLines_covers
  obtain ⟨l₂, h₂, sim₂⟩ := @finishAllGroups_sim V H cfg spec hacc (plan cfg).initialization
    ((plan cfg).execution ++ (plan cfg).finalization) hinstr _
    (hacc.addPhase_covers (plan cfg).initialization hinstr hacc.inputLines_covers)
  refine ⟨l₁ ++ l₂, ?_, ?_⟩
  · rw [RuntimePlan.initialScript, h₂, h₁, List.append_assoc]
  · rw [← hinstr] at sim₁
    exact sim₁.bind fun _ => sim₂

/-- The execution and the finalization. -/
theorem afterInitialization_sim :
    ∃ lines, ((plan cfg).instructionScript cfg.rank).finishAll =
        (plan cfg).initialScript cfg.rank ++ lines ∧
      Sim (V := V) (H := H) cfg
        ⟨(plan cfg).externalInputs, (plan cfg).initialization,
          (plan cfg).execution ++ (plan cfg).finalization, {}, (plan cfg).initialScript cfg.rank⟩
        ⟨(plan cfg).externalInputs, (plan cfg).instructions, [], {},
          ((plan cfg).instructionScript cfg.rank).finishAll⟩ lines
        (fun _ => True) (fun _ _ => True)
        (executePhase cfg (plan cfg).execution >>= fun _ =>
          executePhase cfg (plan cfg).finalization >>= fun _ => finishAllGroups cfg) := by
  have hinstr : (plan cfg).instructions = (plan cfg).initialization ++
      ((plan cfg).execution ++ (plan cfg).finalization) := by simp [RuntimePlan.instructions]
  have hinstr' : (plan cfg).instructions = ((plan cfg).initialization ++ (plan cfg).execution) ++
      ((plan cfg).finalization ++ []) := by simp [RuntimePlan.instructions]
  obtain ⟨l₃, h₃, sim₃⟩ := @executePhase_sim V H cfg spec hacc (plan cfg).execution
    (plan cfg).initialization (plan cfg).finalization _ hinstr hacc.initialScript_covers.1
  obtain ⟨l₄, h₄, sim₄⟩ := @executePhase_sim V H cfg spec hacc (plan cfg).finalization
    ((plan cfg).initialization ++ (plan cfg).execution) [] _ hinstr'
    (hacc.addPhase_covers (plan cfg).execution hinstr hacc.initialScript_covers.1)
  obtain ⟨l₅, h₅, sim₅⟩ := @finishAllGroups_sim V H cfg spec hacc (plan cfg).instructions []
    (List.append_nil _).symm _ hacc.instructionScript_covers
  refine ⟨l₃ ++ (l₄ ++ l₅), ?_, ?_⟩
  · rw [h₅, RuntimePlan.instructionScript, h₄, h₃]
    simp only [List.append_assoc]
  · rw [List.append_nil] at sim₄
    exact sim₃.bind fun _ => sim₄.bind fun _ => sim₅

/-- **The three phases.** -/
theorem execute_sim :
    ∃ lines, ((plan cfg).instructionScript cfg.rank).finishAll =
        (plan cfg).inputLines cfg.rank ++ lines ∧
      Sim (V := V) (H := H) cfg
        ⟨(plan cfg).externalInputs, [], (plan cfg).instructions, {}, (plan cfg).inputLines cfg.rank⟩
        ⟨(plan cfg).externalInputs, (plan cfg).instructions, [], {},
          ((plan cfg).instructionScript cfg.rank).finishAll⟩ lines
        (fun _ => True) (fun _ _ => True) (execute cfg) := by
  obtain ⟨lines, hlines, hinit⟩ := initialization_sim (V := V) (H := H) hacc
  obtain ⟨lines', hlines', hafter⟩ := afterInitialization_sim (V := V) (H := H) hacc
  refine ⟨lines ++ lines', ?_, ?_⟩
  · rw [hlines', hlines, List.append_assoc]
  · have hsim := hinit.bind fun _ => hafter
    rwa [Comp.bind_assoc] at hsim

end

end SequentialRuntime

end CkksRuntime
