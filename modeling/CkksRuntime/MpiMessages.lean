/-
  ckks-runtime formalization — what an MPI rank sends and receives.

  * `Origin.Crosses`: the output of an action that goes from one rank to another;
  * `MpiLedger`: what a rank has called: its gathers, the actions it has posted, its
    sends and its receives by their requests;
  * `wireProtocol`: the protocol of its calls.  A rank sends every message once, with
    the payload that the transfer carries, receives every message once, and waits only
    where the plan has it; in return a receive brings the payload of its transfer;
  * `postSends_meets`, `postReceives_meets`, `receiveAll_meets`: what the loops of
    `communicate_async` and `wait` do.
-/
import CkksRuntime.Barriers
import CkksRuntime.MpiSystem
import CkksRuntime.Preflight
import CkksRuntime.Promises

namespace CkksRuntime

open Interaction PlanVerifier
open MockVecApi (localSlots)

/-! ## Messages -/

/-- The message is about an output that goes from one rank to another. -/
def Origin.Crosses (plan : RuntimePlan) (source destination : CInt) (o : Origin) : Prop :=
  ∃ a ∈ plan.actions, a.id = o.id ∧ source ≠ destination ∧
    (∃ place, a.sources[0]? = some place ∧ place.rank = source) ∧
    ∃ place, a.destinations[o.slot]? = some place ∧ place.rank = destination

/-- `MpiVecApi::tag` of a message. -/
def Origin.tag (tagUpperBound : CInt) (o : Origin) : Except Fault CInt :=
  MpiVecApi.tag tagUpperBound o.id o.slot o.part.code

/-- The data is the part of the payload that the message is about. -/
def Origin.Brings (plan : RuntimePlan) (f : Payloads) (o : Origin) (data : WireData) : Prop :=
  ∃ p header, plan.Carries f o.id p ∧ MpiVecApi.encodeHeader p = .ok header ∧
    data = match o.part with
      | .header => .header header
      | .slots => .slots p.slots

namespace MpiGroup

def flag (group : MpiGroup) (r : CInt) : Bool :=
  (group.run r).resources.skipArtifactDigestChecks

def digest (group : MpiGroup) (r : CInt) : String := (group.run r).loadedPlan.sourceSha256

/-- What a rank puts into the gathers of its preflight. -/
def prelude (group : MpiGroup) (r : CInt) : List Contribution :=
  .flag (group.flag r) :: if group.flag r then [] else [.digest (group.digest r)]

/-- What it takes for no rank to fail: the ranks agree, every value has a payload, and
    every payload that crosses the ranks fits the tags and the headers. -/
structure Fits (group : MpiGroup) (f : Payloads) : Prop where
  version : group.plan.target.capabilityVersion = 1
  agreement : Agreement group.world.worldSize group.digest group.flag
  digests : ∀ r, InWorld group.world.worldSize r → group.flag r = false →
    (group.digest r).utf8ByteSize = 71
  evaluates : ∀ id ∈ group.plan.definitions, f id ≠ none
  tags : ∀ source destination (o : Origin), o.Crosses group.plan source destination →
    ∃ tag, o.tag group.world.tagUpperBound = .ok tag
  contexts : ∀ source destination (o : Origin) p, o.Crosses group.plan source destination →
    group.plan.Carries f o.id p → (bytesOf p.metadata.context).length < 64
  counts : ∀ source destination (o : Origin) p, o.Crosses group.plan source destination →
    group.plan.Carries f o.id p → 0 < p.slots.length ∧ p.slots.length ≤ CInt.max.toInt.toNat

end MpiGroup

/-! ## The protocol -/

/-- What a rank has called. -/
structure MpiLedger where
  contributed : List Contribution := []
  posts : List CommAction := []
  /-- the sends, by request -/
  sent : List (ℕ × Origin) := []
  /-- the receives, by request -/
  received : List (ℕ × Origin) := []

instance : Preorder MpiLedger where
  le w w' := w.sent ⊆ w'.sent ∧ w.received ⊆ w'.received
  le_refl w := ⟨List.Subset.refl _, List.Subset.refl _⟩
  le_trans _ _ _ h h' := ⟨List.Subset.trans h.1 h'.1, List.Subset.trans h.2 h'.2⟩

namespace MpiLedger

variable (group : MpiGroup) (rank : CInt) (w : MpiLedger)

/-- The rank has received what group `g` brings it. -/
def Collected (g : ℕ) : Prop :=
  ∀ a, group.plan.actions[g]? = some a → ∀ source (o : Origin), o.id = a.id → o.part = .slots →
    o.Crosses group.plan source rank → o ∈ w.received.map (·.2)

/-- The rank is not inside a call of its communication: what it has posted is under way. -/
structure Steady : Prop where
  preflight : w.contributed = group.prelude rank
  posts : w.posts <+: group.plan.actions
  sent : ∀ a ∈ w.posts, ∀ destination (o : Origin), o.id = a.id →
    o.Crosses group.plan rank destination → o ∈ w.sent.map (·.2)
  headers : ∀ a ∈ w.posts, ∀ source (o : Origin), o.id = a.id → o.part = .header →
    o.Crosses group.plan source rank → o ∈ w.received.map (·.2)
  initialized : group.plan.initialActions < w.posts.length →
    ∀ g < group.plan.initialActions, w.Collected group rank g

end MpiLedger

/-- What is recorded of a rank is right: it posts the payloads of the values, and what it
    delivers is what the transfer carries. -/
def MpiEvent.Right (plan : RuntimePlan) (f : Payloads) (rank : CInt) : MpiEvent → Prop
  | posting action localInputs => action ∈ plan.actions ∧
    List.Forall₂ (f.Stands []) (action.localInputs rank) localInputs
  | waiting _ => True
  | delivered handle completed => ∃ a ∈ plan.actions, a.id = handle.id ∧
    completed.map (·.slot) = localSlots rank a.destinations ∧
      ∀ x ∈ completed, ∃ p, plan.Carries f a.id p ∧ x.value = .ready p

/-- What a rank of the group calls, and what it may rely on. -/
def wireProtocol (group : MpiGroup) (f : Payloads) (rank : CInt) :
    Protocol MpiOp MpiOp.Ans MpiLedger where
  pre w
    | .contribute contribution => w.contributed ++ [contribution] <+: group.prelude rank ∧
      (w.contributed ≠ [] → ∀ q, InWorld group.world.worldSize q → group.flag q = group.flag rank)
    | .collect round => round + 1 = w.contributed.length
    | .isend destination tag data o => o.Crosses group.plan rank destination ∧
      o.tag group.world.tagUpperBound = .ok tag ∧ o.Brings group.plan f data ∧
      o ∉ w.sent.map (·.2)
    | .irecv source tag o => o.Crosses group.plan source rank ∧
      o.tag group.world.tagUpperBound = .ok tag ∧ o ∉ w.received.map (·.2)
    | .waitall requests => w.Steady group rank ∧ ∃ g a, group.plan.actions[g]? = some a ∧
      g < w.posts.length ∧ (∀ k ∈ requests, ∃ o, (k, o) ∈ w.sent ∧ o.id = a.id) ∧
      (a.localOutputs rank = [] → group.plan.Ends w.posts.length ∧
        ∀ g' < g, w.Collected group rank g')
    | .wait request => w.Steady group rank ∧ ∃ o, (request, o) ∈ w.received ∧
      ∃ a ∈ w.posts, a.id = o.id
    | .record event => event.Right group.plan f rank
    | .abort _ => ¬ group.Fits f
  post w op ans w' :=
    match op, ans with
    | .contribute contribution, _ => w' = { w with contributed := w.contributed ++ [contribution] }
    | .collect round, ans => w' = w ∧
      (∀ contribution ∈ ans, ∃ q, InWorld group.world.worldSize q ∧
        (group.prelude q)[round]? = some contribution) ∧
      ∀ q, InWorld group.world.worldSize q → ∃ contribution ∈ ans,
        (group.prelude q)[round]? = some contribution
    | .isend _ _ _ o, k => w' = { w with sent := w.sent ++ [(k, o)] }
    | .irecv _ _ o, k => w' = { w with received := w.received ++ [(k, o)] }
    | .waitall _, _ => w' = w
    | .wait request, data => w' = w ∧ ∀ o, (request, o) ∈ w.received → o.Brings group.plan f data
    | .record (.posting a _), _ => w' = { w with posts := w.posts ++ [a] }
    | .record _, _ => w' = w
    | .abort _, _ => False

/-! ## Rules -/

namespace MpiVecApi

variable {group : MpiGroup} {f : Payloads} {rank : CInt} {w : MpiLedger} {n : ℕ}

/-- The end of a call: an answer in `G`, or an exception of a group in which not all fits. -/
def Ends {α : Type} (group : MpiGroup) (f : Payloads) (n : ℕ) (G : MpiLedger → α → Prop)
    (w : MpiLedger) (w' : MpiLedger) (r : Except Fault α × ℕ) : Prop :=
  w ≤ w' ∧ r.2 = n ∧ match r.1 with
    | .ok a => G w' a
    | .error _ => ¬ group.Fits f

/-- A call with what follows it. -/
theorem prim_bind_meets {α : Type} {op : MpiOp} {k : op.Ans → MpiApi α}
    {Q : MpiLedger → Except Fault α × ℕ → Prop} (hpre : (wireProtocol group f rank).pre w op)
    (hk : ∀ ans w', (wireProtocol group f rank).post w op ans w' →
      Prog.Meets (wireProtocol group f rank) Q w' (k ans n)) :
    Prog.Meets (wireProtocol group f rank) Q w ((prim op >>= k) n) := by
  rw [prim, Comp.call_bind]
  exact .call hpre hk

/-- A tag with what follows it. -/
theorem tag_bind_meets {α : Type} {G : MpiLedger → α → Prop} {w₀ : MpiLedger} (hle : w₀ ≤ w)
    {source destination : CInt} {o : Origin} (ho : o.Crosses group.plan source destination)
    {k : CInt → MpiApi α}
    (hk : ∀ t, o.tag group.world.tagUpperBound = .ok t →
      Prog.Meets (wireProtocol group f rank) (Ends group f n G w₀) w (k t n)) :
    Prog.Meets (wireProtocol group f rank) (Ends group f n G w₀) w
      ((Comp.ofExcept (tag group.world.tagUpperBound o.id o.slot o.part.code) >>= k) n) := by
  cases htag : tag group.world.tagUpperBound o.id o.slot o.part.code with
  | ok t =>
    rw [Comp.ofExcept_bind_ok]
    exact hk t htag
  | error fault =>
    rw [Comp.ofExcept_bind_error]
    refine .ret ⟨hle, rfl, fun hfits => ?_⟩
    obtain ⟨t, ht⟩ := hfits.tags source destination o ho
    rw [Origin.tag, htag] at ht
    cases ht

/-- **The sends of `communicate_async`**: every remote slot has its two messages. -/
theorem postSends_meets {id : TransferId} {p : VecPayload} (hcarries : group.plan.Carries f id p)
    (remote : List (ℕ × CInt × WireHeader)) : ∀ {w : MpiLedger},
    (∀ x ∈ remote, encodeHeader p = .ok x.2.2 ∧
      ∀ part, Origin.Crosses group.plan rank x.2.1 ⟨id, x.1, part⟩) →
    (remote.map (·.1)).Nodup → (∀ x ∈ remote, ∀ part, ⟨id, x.1, part⟩ ∉ w.sent.map (·.2)) →
    Prog.Meets (wireProtocol group f rank) (Ends group f n (fun w' sends => ∃ extra,
        w' = { w with sent := w.sent ++ extra } ∧
        (∀ o, o ∈ extra.map (·.2) ↔ o.id = id ∧ o.slot ∈ remote.map (·.1)) ∧
        ∀ send ∈ sends, ∀ k ∈ send.requests, ∃ o, (k, o) ∈ extra ∧ o.id = id) w) w
      (postSends group.world.tagUpperBound id p remote n) := by
  induction remote with
  | nil =>
    intro w _ _ _
    refine .ret ⟨le_rfl, rfl, [], by rw [List.append_nil], by simp, by simp⟩
  | cons x remote ih =>
    intro w hremote hnodup hfresh
    obtain ⟨slot, destination, header⟩ := x
    obtain ⟨⟨hheader, hcross⟩, hrest⟩ := List.forall_mem_cons.1 hremote
    obtain ⟨hnew, hnodup⟩ := List.nodup_cons.1 hnodup
    obtain ⟨hfresh, hfresh'⟩ := List.forall_mem_cons.1 hfresh
    rw [postSends, Comp.throwIf_bind]
    split_ifs with hcount
    · exact .ret ⟨le_rfl, rfl, fun hfits => Nat.not_lt.2
        (hfits.counts _ _ _ p (hcross .header) hcarries).2 hcount⟩
    · refine tag_bind_meets le_rfl (hcross .header) fun t ht => ?_
      refine prim_bind_meets ⟨hcross .header, ht, ⟨p, header, hcarries, hheader, rfl⟩,
        hfresh .header⟩ ?_
      rintro k w₁ rfl
      have hle₁ : w ≤ { w with sent := w.sent ++ [(k, ⟨id, slot, .header⟩)] } :=
        ⟨List.subset_append_left _ _, List.Subset.refl _⟩
      refine tag_bind_meets hle₁ (hcross .slots) fun t' ht' => ?_
      refine prim_bind_meets ⟨hcross .slots, ht', ⟨p, header, hcarries, hheader, rfl⟩,
        ?_⟩ ?_
      · simpa using hfresh .slots
      · rintro k' w₂ rfl
        have hle₂ : w ≤ { w with
            sent := w.sent ++ [(k, ⟨id, slot, .header⟩)] ++ [(k', ⟨id, slot, .slots⟩)] } :=
          hle₁.trans ⟨List.subset_append_left _ _, List.Subset.refl _⟩
        rw [Comp.bind_apply]
        refine (ih hrest hnodup fun y hy part => ?_).bind ?_
        · have hne : y.1 ≠ slot := fun he => hnew (List.mem_map.2 ⟨y, hy, he⟩)
          simpa [hne] using hfresh' y hy part
        · rintro w₃ ⟨r, l⟩ ⟨hle, rfl, hend⟩
          replace hle : w ≤ w₃ := hle₂.trans hle
          cases r with
          | error fault => exact .ret ⟨hle, rfl, hend⟩
          | ok sends =>
            obtain ⟨extra, rfl, horigins, hrequests⟩ := hend
            refine .ret ⟨hle, rfl, (k, ⟨id, slot, .header⟩) :: (k', ⟨id, slot, .slots⟩) :: extra,
              by simp, ?_, ?_⟩
            · rintro ⟨id', slot', part⟩
              cases part <;> simp [horigins, and_or_left, and_comm]
            · intro send hsend k'' hk''
              rcases List.mem_cons.1 hsend with rfl | hsend
              · rcases List.mem_pair.1 hk'' with rfl | rfl
                · exact ⟨⟨id, slot, .header⟩, by simp, rfl⟩
                · exact ⟨⟨id, slot, .slots⟩, by simp, rfl⟩
              · obtain ⟨o, ho, hid⟩ := hrequests send hsend k'' hk''
                exact ⟨o, by simp [ho], hid⟩

/-- A receive that has been posted for the header of a slot. -/
def RecvState.Awaits (id : TransferId) (source : CInt) (received : List (ℕ × Origin)) (slot : ℕ)
    (recv : RecvState) : Prop :=
  recv.slot = slot ∧ recv.sourceRank = source ∧
    (recv.headerRequest, ⟨id, slot, .header⟩) ∈ received

theorem RecvState.Awaits.mono {id : TransferId} {source : CInt} {received received' : List (ℕ × Origin)}
    {slot : ℕ} {recv : RecvState} (h : recv.Awaits id source received slot)
    (hle : received ⊆ received') : recv.Awaits id source received' slot :=
  ⟨h.1, h.2.1, hle h.2.2⟩

/-- **The receives of `communicate_async`**: every local slot waits for its header. -/
theorem postReceives_meets {id : TransferId} {source : CInt} (slots : List ℕ) :
    ∀ {w : MpiLedger},
    (∀ slot ∈ slots, ∀ part, Origin.Crosses group.plan source rank ⟨id, slot, part⟩) →
    slots.Nodup → (∀ slot ∈ slots, ⟨id, slot, .header⟩ ∉ w.received.map (·.2)) →
    Prog.Meets (wireProtocol group f rank) (Ends group f n (fun w' receives => ∃ extra,
        w' = { w with received := w.received ++ extra } ∧
        extra.map (·.2) = slots.map (fun slot => ⟨id, slot, .header⟩) ∧
        List.Forall₂ (RecvState.Awaits id source extra) slots receives) w) w
      (postReceives group.world.tagUpperBound id source slots n) := by
  induction slots with
  | nil =>
    intro w _ _ _
    exact .ret ⟨le_rfl, rfl, [], by rw [List.append_nil], rfl, .nil⟩
  | cons slot slots ih =>
    intro w hcross hnodup hfresh
    obtain ⟨hcross, hcross'⟩ := List.forall_mem_cons.1 hcross
    obtain ⟨hnew, hnodup⟩ := List.nodup_cons.1 hnodup
    obtain ⟨hfresh, hfresh'⟩ := List.forall_mem_cons.1 hfresh
    rw [postReceives]
    refine tag_bind_meets le_rfl (hcross .header) fun t ht => ?_
    refine prim_bind_meets ⟨hcross .header, ht, hfresh⟩ ?_
    rintro k w₁ rfl
    have hle₁ : w ≤ { w with received := w.received ++ [(k, ⟨id, slot, .header⟩)] } :=
      ⟨List.Subset.refl _, List.subset_append_left _ _⟩
    rw [Comp.bind_apply]
    refine (ih hcross' hnodup fun slot' hslot' => ?_).bind ?_
    · have hne : slot' ≠ slot := fun he => hnew (he ▸ hslot')
      simpa [hne] using hfresh' slot' hslot'
    · rintro w₂ ⟨r, l⟩ ⟨hle, rfl, hend⟩
      replace hle : w ≤ w₂ := hle₁.trans hle
      cases r with
      | error fault => exact .ret ⟨hle, rfl, hend⟩
      | ok receives =>
        obtain ⟨extra, rfl, horigins, hreceives⟩ := hend
        refine .ret ⟨hle, rfl, (k, ⟨id, slot, .header⟩) :: extra, by simp, by simp [horigins],
          .cons ⟨rfl, rfl, List.mem_cons_self⟩ (hreceives.imp fun _ _ h => ?_)⟩
        exact h.mono (List.subset_cons_self _ _)

/-- **The sends are waited for.** -/
theorem waitSends_meets (sends : List SendState)
    (hpre : ∀ send ∈ sends, (wireProtocol group f rank).pre w (.waitall send.requests)) :
    Prog.Meets (wireProtocol group f rank) (Ends group f n (fun w' _ => w' = w) w) w
      (waitSends sends n) := by
  induction sends with
  | nil => exact .ret ⟨le_rfl, rfl, rfl⟩
  | cons send sends ih =>
    rw [waitSends]
    refine prim_bind_meets (hpre send List.mem_cons_self) ?_
    rintro _ w' rfl
    exact ih fun send' hsend' => hpre send' (List.mem_cons_of_mem _ hsend')

/-- Receives leave a rank steady. -/
theorem Steady.receive (h : w.Steady group rank) (extra : List (ℕ × Origin)) :
    MpiLedger.Steady group rank { w with received := w.received ++ extra } := by
  have hmono : ∀ {o : Origin}, o ∈ w.received.map (·.2) → o ∈ (w.received ++ extra).map (·.2) := by
    intro o ho
    rw [List.map_append]
    exact List.mem_append_left _ ho
  exact ⟨h.preflight, h.posts, h.sent, fun a ha source o hid hpart ho =>
    hmono (h.headers a ha source o hid hpart ho), fun hposts g hg a ha source o hid hpart ho =>
    hmono (h.initialized hposts g hg a ha source o hid hpart ho)⟩

/-- **The loop of `wait`**: the header and the slots of every local slot arrive, and make
    up the payload that the transfer carries. -/
theorem receiveAll_meets {spec : OperatorSpec} (hacc : Accepted group.plan spec)
    (hcontexts : ∀ id p, group.plan.Carries f id p → NulFree p.metadata.context)
    {a : CommAction} {source : CInt} {slots : List ℕ} {receives : List RecvState} :
    ∀ {w : MpiLedger}, w.Steady group rank → a ∈ w.posts →
    List.Forall₂ (RecvState.Awaits a.id source w.received) slots receives → slots.Nodup →
    (∀ slot ∈ slots, ∀ part, Origin.Crosses group.plan source rank ⟨a.id, slot, part⟩) →
    (∀ slot ∈ slots, ⟨a.id, slot, .slots⟩ ∉ w.received.map (·.2)) →
    Prog.Meets (wireProtocol group f rank) (Ends group f n (fun w' completed => ∃ extra,
        w' = { w with received := w.received ++ extra } ∧
        extra.map (·.2) = slots.map (fun slot => ⟨a.id, slot, .slots⟩) ∧
        completed.map (·.slot) = slots ∧
        ∀ x ∈ completed, ∃ p, group.plan.Carries f a.id p ∧ x.value = .ready p) w) w
      (receiveAll group.world.tagUpperBound a.id receives n) := by
  induction slots generalizing receives with
  | nil =>
    intro w _ _ hreceives _ _ _
    cases hreceives
    exact .ret ⟨le_rfl, rfl, [], by rw [List.append_nil], rfl, rfl, by simp⟩
  | cons slot slots ih =>
    intro w hsteady ha hreceives hnodup hcross hfresh
    obtain ⟨recv, rest, ⟨rfl, rfl, hrequest⟩, hrest, rfl⟩ := List.forall₂_cons_left_iff.1 hreceives
    obtain ⟨hcross, hcross'⟩ := List.forall_mem_cons.1 hcross
    obtain ⟨hnew, hnodup⟩ := List.nodup_cons.1 hnodup
    obtain ⟨hfresh, hfresh'⟩ := List.forall_mem_cons.1 hfresh
    rw [receiveAll]
    refine prim_bind_meets ⟨hsteady, _, hrequest, a, ha, rfl⟩ ?_
    rintro data w' ⟨rfl, hdata⟩
    obtain ⟨p, header, hcarries, hheader, rfl⟩ := hdata _ hrequest
    rw [receivedHeader, Comp.ofExcept_bind_ok, Comp.throwIf_bind, slotCount_encodeHeader hheader]
    split_ifs with hcount
    · refine .ret ⟨le_rfl, rfl, fun hfits => ?_⟩
      obtain ⟨hpos, hmax⟩ := hfits.counts _ _ _ p (hcross .header) hcarries
      rcases hcount with hzero | hlarge
      exacts [hpos.ne' hzero, Nat.not_lt.2 hmax hlarge]
    · refine tag_bind_meets le_rfl (hcross .slots) fun t ht => ?_
      refine prim_bind_meets ⟨hcross .slots, ht, hfresh⟩ ?_
      rintro k w₁ rfl
      have hle₁ : w' ≤ { w' with received := w'.received ++ [(k, ⟨a.id, recv.slot, .slots⟩)] } :=
        ⟨List.Subset.refl _, List.subset_append_left _ _⟩
      refine prim_bind_meets ⟨Steady.receive hsteady _, _, List.mem_append_right _
        List.mem_cons_self, a, ha, rfl⟩ ?_
      rintro data w₂ ⟨rfl, hdata⟩
      obtain ⟨q, header', hcarries', -, rfl⟩ := hdata _ (List.mem_append_right _ List.mem_cons_self)
      obtain rfl := hcarries.unique hacc hcarries'
      -- the slots are as many as the header says
      have hslots : receivedSlots p.slots.length (.slots p.slots) = .ok p.slots := by
        rw [receivedSlots, if_neg (Nat.lt_irrefl _)]
        simp
      have hvalue : decodeValue header p.slots = .ok (.ready p) := by
        rw [decodeValue_encodeHeader hheader, cString_eq_self.2 (hcontexts a.id p hcarries)]
      rw [hslots, Comp.ofExcept_bind_ok, hvalue, Comp.ofExcept_bind_ok, Comp.bind_apply]
      refine (ih (Steady.receive hsteady _) ha (hrest.imp fun _ _ h => h.mono
        (List.subset_append_left _ _)) hnodup hcross' fun slot' hslot' => ?_).bind ?_
      · have hne : slot' ≠ recv.slot := fun he => hnew (he ▸ hslot')
        simpa [hne] using hfresh' slot' hslot'
      · rintro w₃ ⟨r, l⟩ ⟨hle, rfl, hend⟩
        replace hle := hle₁.trans hle
        cases r with
        | error fault => exact .ret ⟨hle, rfl, hend⟩
        | ok completed =>
          obtain ⟨extra, rfl, horigins, hcompleted, hvalues⟩ := hend
          refine .ret ⟨hle, rfl, (k, ⟨a.id, recv.slot, .slots⟩) :: extra, by simp, by simp [horigins],
            by rw [List.map_cons, hcompleted], List.forall_mem_cons.2 ⟨⟨p, hcarries, rfl⟩, hvalues⟩⟩

end MpiVecApi

/-! ### `communicate_async` and `wait` -/

/-- The messages about the outputs of an action. -/
theorem Origin.crosses_iff {plan : RuntimePlan} {spec : OperatorSpec} (hacc : Accepted plan spec)
    {a : CommAction} (ha : a ∈ plan.actions) {place : Place} (hplace : a.sources[0]? = some place)
    {o : Origin} (hid : o.id = a.id) {source destination : CInt} :
    o.Crosses plan source destination ↔ place.rank = source ∧ source ≠ destination ∧
      ∃ place', a.destinations[o.slot]? = some place' ∧ place'.rank = destination := by
  constructor
  · rintro ⟨b, hb, he, hne, ⟨place', hplace', hsource⟩, hdestination⟩
    obtain rfl := hacc.action_inj hb ha (he.trans hid)
    obtain rfl := Option.some.inj (hplace'.symm.trans hplace)
    exact ⟨hsource, hne, hdestination⟩
  · rintro ⟨hsource, hne, hdestination⟩
    exact ⟨a, ha, hid.symm, hne, ⟨place, hplace, hsource⟩, hdestination⟩

/-- The handle of an action that has been posted and not been waited for. -/
structure MpiLedger.Holds (group : MpiGroup) (f : Payloads) (rank : CInt) (w : MpiLedger)
    (a : CommAction) (handle : MpiVecApi.CommHandle) : Prop where
  id : handle.id = a.id
  waited : handle.waited = false
  sends : ∀ send ∈ handle.sends, ∀ k ∈ send.requests, ∃ o, (k, o) ∈ w.sent ∧ o.id = a.id
  sourced : ∀ place, a.sources[0]? = some place → place.rank = rank →
    handle.locals.map (·.slot) = localSlots rank a.destinations ∧ handle.receives = [] ∧
      ∀ x ∈ handle.locals, ∃ p, group.plan.Carries f a.id p ∧ x.value = .ready p
  foreign : ∀ place, a.sources[0]? = some place → place.rank ≠ rank → handle.locals = [] ∧
    List.Forall₂ (MpiVecApi.RecvState.Awaits a.id place.rank w.received)
      (localSlots rank a.destinations) handle.receives

theorem MpiLedger.Holds.mono {group : MpiGroup} {f : Payloads} {rank : CInt} {w w' : MpiLedger}
    {a : CommAction} {handle : MpiVecApi.CommHandle} (h : w.Holds group f rank a handle)
    (hle : w ≤ w') : w'.Holds group f rank a handle := by
  refine ⟨h.id, h.waited, fun send hsend k hk => ?_, h.sourced, fun place hplace hrank => ?_⟩
  · obtain ⟨o, ho, hid⟩ := h.sends send hsend k hk
    exact ⟨o, hle.1 ho, hid⟩
  · obtain ⟨hlocals, hreceives⟩ := h.foreign place hplace hrank
    exact ⟨hlocals, hreceives.imp fun _ _ hr => hr.mono hle.2⟩

/-- What has been called once an action is posted. -/
structure MpiLedger.Posted (group : MpiGroup) (rank : CInt) (a : CommAction) (w w' : MpiLedger) :
    Prop where
  contributed : w'.contributed = w.contributed
  posts : w'.posts = w.posts ++ [a]
  le : w ≤ w'
  sent : ∀ o, o ∈ w'.sent.map (·.2) ↔ o ∈ w.sent.map (·.2) ∨
    o.id = a.id ∧ ∃ destination, o.Crosses group.plan rank destination
  received : ∀ o, o ∈ w'.received.map (·.2) ↔ o ∈ w.received.map (·.2) ∨
    o.id = a.id ∧ o.part = .header ∧ ∃ source, o.Crosses group.plan source rank

/-- What has been called once its outputs have arrived. -/
structure MpiLedger.Arrived (group : MpiGroup) (rank : CInt) (a : CommAction) (w w' : MpiLedger) :
    Prop where
  contributed : w'.contributed = w.contributed
  posts : w'.posts = w.posts
  le : w ≤ w'
  sent : w'.sent = w.sent
  received : ∀ o, o ∈ w'.received.map (·.2) ↔ o ∈ w.received.map (·.2) ∨
    o.id = a.id ∧ o.part = .slots ∧ ∃ source, o.Crosses group.plan source rank

namespace MpiVecApi

variable {group : MpiGroup} {f : Payloads} {rank : CInt} {w : MpiLedger} {n : ℕ}

theorem mem_remoteSlots {destinations : List Place} {slot : ℕ} {destination : CInt} :
    (slot, destination) ∈ remoteSlots rank destinations ↔ destination ≠ rank ∧
      ∃ place, destinations[slot]? = some place ∧ place.rank = destination := by
  simp only [remoteSlots, List.mem_map, List.mem_filter, List.mem_zipIdx_iff_getElem?, Prod.exists,
    decide_eq_true_eq, Prod.mk.injEq]
  constructor
  · rintro ⟨place, _, ⟨hplace, hne⟩, rfl, rfl⟩
    exact ⟨hne, place, hplace, rfl⟩
  · rintro ⟨hne, place, hplace, rfl⟩
    exact ⟨place, slot, ⟨hplace, hne⟩, rfl, rfl⟩

theorem remoteSlots_nodup (destinations : List Place) :
    ((remoteSlots rank destinations).map (·.1)).Nodup := by
  have hall : (destinations.zipIdx.map (·.2)).Nodup := by
    rw [List.zipIdx_map_snd]
    exact List.nodup_range'
  rw [remoteSlots, List.map_map]
  exact hall.sublist (List.filter_sublist.map _)

theorem encodeHeaders_cases (p : VecPayload) (remote : List (ℕ × CInt)) :
    (∃ headers, encodeHeaders p remote = .ok headers ∧
      headers.map (fun x => (x.1, x.2.1)) = remote ∧ ∀ x ∈ headers, encodeHeader p = .ok x.2.2) ∨
    ∃ fault, encodeHeaders p remote = .error fault ∧ remote ≠ [] ∧
      64 ≤ (bytesOf p.metadata.context).length := by
  unfold encodeHeaders
  by_cases hfits : (bytesOf p.metadata.context).length < 64
  · obtain ⟨header, hheader⟩ := encodeHeader_isOk.2 hfits
    refine Or.inl ⟨remote.map fun x => (x.1, x.2, header), ?_, ?_, fun x hx => ?_⟩
    · induction remote with
      | nil => rfl
      | cons x remote ih =>
        rw [List.mapM_cons, ih, hheader]
        rfl
    · rw [List.map_map]
      exact List.map_id' _
    · obtain ⟨y, -, rfl⟩ := List.mem_map.1 hx
      exact hheader
  · cases remote with
    | nil => exact Or.inl ⟨[], rfl, rfl, by simp⟩
    | cons x remote =>
      right
      cases hheader : encodeHeader p with
      | ok header => exact absurd (encodeHeader_isOk.1 ⟨header, hheader⟩) hfits
      | error fault =>
        refine ⟨fault, ?_, by simp, Nat.not_lt.1 hfits⟩
        rw [List.mapM_cons]
        rfl

section
variable {spec : OperatorSpec} (hacc : Accepted group.plan spec) {a : CommAction}
  (ha : a ∈ group.plan.actions) {place : Place} (hplace : a.sources[0]? = some place)
include hacc ha hplace

/-- The source of an action sends its payload. -/
theorem sendAll_meets {p : VecPayload} (hcarries : group.plan.Carries f a.id p)
    (hrank : place.rank = rank) (hsent : ∀ o : Origin, o.id = a.id → o ∉ w.sent.map (·.2)) :
    Prog.Meets (wireProtocol group f rank) (Ends group f n (fun w' handle =>
        w.Posted group rank a w' ∧ w'.Holds group f rank a handle) w)
      { w with posts := w.posts ++ [a] }
      ((do
        let headers ← Comp.ofExcept (encodeHeaders p (remoteSlots rank a.destinations))
        let sends ← postSends group.world.tagUpperBound a.id p headers
        return ⟨a.id, localSlots rank a.destinations, sends, [],
          (localSlots rank a.destinations).map fun slot => ⟨slot, .ready p⟩, false⟩ :
        MpiApi CommHandle) n) := by
  have hcrosses : ∀ {o : Origin}, o.id = a.id → ∀ {s d}, o.Crosses group.plan s d ↔ _ :=
    fun hid => Origin.crosses_iff hacc ha hplace hid
  have hone : ∀ {place'}, a.sources[0]? = some place' → place' = place := fun h =>
    Option.some.inj (h.symm.trans hplace)
  have hle₁ : w ≤ { w with posts := w.posts ++ [a] } := ⟨List.Subset.refl _, List.Subset.refl _⟩
  have hremote : ∀ {slot destination}, (slot, destination) ∈ remoteSlots rank a.destinations →
      ∀ part, Origin.Crosses group.plan rank destination ⟨a.id, slot, part⟩ := by
    intro slot destination hmem part
    obtain ⟨hne, hdestination⟩ := mem_remoteSlots.1 hmem
    exact (hcrosses rfl).2 ⟨hrank, hne.symm, hdestination⟩
  rcases encodeHeaders_cases p (remoteSlots rank a.destinations) with
    ⟨headers, hheaders, hslots, hheader⟩ | ⟨fault, hfault, hsome, hlong⟩
  · rw [hheaders, Comp.ofExcept_bind_ok, Comp.bind_apply]
    have hmem : ∀ x ∈ headers, (x.1, x.2.1) ∈ remoteSlots rank a.destinations := fun x hx =>
      hslots ▸ List.mem_map_of_mem hx
    have hfst : headers.map (·.1) = (remoteSlots rank a.destinations).map (·.1) := by
      rw [← hslots, List.map_map]
      rfl
    refine (postSends_meets (w := { w with posts := w.posts ++ [a] }) hcarries headers
      (fun x hx => ⟨hheader x hx, hremote (hmem x hx)⟩) (hfst ▸ remoteSlots_nodup _)
      fun x _ part => hsent _ rfl).bind ?_
    rintro w₂ ⟨r, l⟩ ⟨hle, rfl, hend⟩
    replace hle := hle₁.trans hle
    cases r with
    | error fault => exact .ret ⟨hle, rfl, hend⟩
    | ok sends =>
      obtain ⟨extra, rfl, horigins, hrequests⟩ := hend
      refine .ret ⟨hle, rfl, ⟨rfl, rfl, hle, fun o => ?_, fun o => ?_⟩,
        ⟨rfl, rfl, fun send hsend k hk => ?_, fun place' _ _ => ⟨?_, rfl, fun x hx => ?_⟩,
          fun place' hplace' hne => absurd (hone hplace' ▸ hrank) hne⟩⟩
      · rw [List.map_append, List.mem_append, horigins]
        refine or_congr_right (and_congr_right fun hid => ?_)
        rw [hfst]
        simp only [hcrosses hid, List.mem_map, Prod.exists, mem_remoteSlots, hrank, true_and]
        constructor
        · rintro ⟨slot, destination, ⟨hne, hd⟩, rfl⟩
          exact ⟨destination, hne.symm, hd⟩
        · rintro ⟨destination, hne, hd⟩
          exact ⟨o.slot, destination, ⟨hne.symm, hd⟩, rfl⟩
      · refine (or_iff_left ?_).symm
        rintro ⟨hid, -, source, hcross⟩
        obtain ⟨hsource, hne, -⟩ := (hcrosses hid).1 hcross
        exact hne (hsource.symm.trans hrank)
      · obtain ⟨o, ho, hid⟩ := hrequests send hsend k hk
        exact ⟨o, List.mem_append_right _ ho, hid⟩
      · rw [List.map_map]
        exact List.map_id' _
      · obtain ⟨slot, -, rfl⟩ := List.mem_map.1 hx
        exact ⟨p, hcarries, rfl⟩
  · rw [hfault, Comp.ofExcept_bind_error]
    refine .ret ⟨hle₁, rfl, fun hfits => ?_⟩
    obtain ⟨⟨slot, destination⟩, hmem⟩ := List.exists_mem_of_ne_nil _ hsome
    exact Nat.not_lt.2 hlong (hfits.contexts _ _ _ p (hremote hmem .header) hcarries)

/-- The other ranks receive. -/
theorem receiveHeaders_meets (hrank : place.rank ≠ rank)
    (hreceived : ∀ o : Origin, o.id = a.id → o ∉ w.received.map (·.2)) :
    Prog.Meets (wireProtocol group f rank) (Ends group f n (fun w' handle =>
        w.Posted group rank a w' ∧ w'.Holds group f rank a handle) w)
      { w with posts := w.posts ++ [a] }
      ((do
        let receives ← postReceives group.world.tagUpperBound a.id place.rank
          (localSlots rank a.destinations)
        return ⟨a.id, localSlots rank a.destinations, [], receives, [], false⟩ :
        MpiApi CommHandle) n) := by
  have hcrosses : ∀ {o : Origin}, o.id = a.id → ∀ {s d}, o.Crosses group.plan s d ↔ _ :=
    fun hid => Origin.crosses_iff hacc ha hplace hid
  have hle₁ : w ≤ { w with posts := w.posts ++ [a] } := ⟨List.Subset.refl _, List.Subset.refl _⟩
  rw [Comp.bind_apply]
  refine (postReceives_meets (w := { w with posts := w.posts ++ [a] }) _
    (fun slot hslot part => (hcrosses rfl).2 ⟨rfl, hrank, MockVecApi.mem_localSlots_iff.1 hslot⟩)
    (MockVecApi.localSlots_nodup _) fun slot _ => hreceived _ rfl).bind ?_
  rintro w₂ ⟨r, l⟩ ⟨hle, rfl, hend⟩
  replace hle := hle₁.trans hle
  cases r with
  | error fault => exact .ret ⟨hle, rfl, hend⟩
  | ok receives =>
    obtain ⟨extra, rfl, horigins, hreceives⟩ := hend
    refine .ret ⟨hle, rfl, ⟨rfl, rfl, hle, fun o => ?_, fun o => ?_⟩,
      ⟨rfl, rfl, by simp, fun place' hplace' heq => ?_, fun place' hplace' _ => ⟨rfl, ?_⟩⟩⟩
    · refine (or_iff_left ?_).symm
      rintro ⟨hid, destination, hcross⟩
      exact hrank ((hcrosses hid).1 hcross).1
    · rw [List.map_append, List.mem_append, horigins]
      refine or_congr_right ⟨fun ho => ?_, fun ⟨hid, hpart, source, hcross⟩ => ?_⟩
      · obtain ⟨slot, hslot, rfl⟩ := List.mem_map.1 ho
        exact ⟨rfl, rfl, place.rank, (hcrosses rfl).2 ⟨rfl, hrank,
          MockVecApi.mem_localSlots_iff.1 hslot⟩⟩
      · obtain ⟨-, -, hdestination⟩ := (hcrosses hid).1 hcross
        refine List.mem_map.2 ⟨o.slot, MockVecApi.mem_localSlots_iff.2 hdestination, ?_⟩
        obtain ⟨id, slot, part⟩ := o
        obtain rfl : id = a.id := hid
        obtain rfl : part = .header := hpart
        rfl
    · obtain rfl := Option.some.inj (hplace'.symm.trans hplace)
      exact absurd heq hrank
    · obtain rfl := Option.some.inj (hplace'.symm.trans hplace)
      exact hreceives.imp fun _ _ h => h.mono (List.subset_append_right _ _)

end

/-- **`communicate_async`**, for an action that has not been posted. -/
theorem communicateAsync_meets {spec : OperatorSpec} (hacc : Accepted group.plan spec)
    {a : CommAction} (ha : a ∈ group.plan.actions) {place : Place}
    (hplace : a.sources[0]? = some place) {inputs : List VecValue}
    (hright : MpiEvent.Right group.plan f rank (.posting a inputs))
    (hlocal : place.rank = rank → ∃ p, inputs = [.ready p] ∧ group.plan.Carries f a.id p)
    (hremote : place.rank ≠ rank → inputs = [])
    (hsent : ∀ o : Origin, o.id = a.id → o ∉ w.sent.map (·.2))
    (hreceived : ∀ o : Origin, o.id = a.id → o ∉ w.received.map (·.2)) :
    Prog.Meets (wireProtocol group f rank) (Ends group f n (fun w' handle =>
        w.Posted group rank a w' ∧ w'.Holds group f rank a handle) w) w
      (communicateAsync group.world.tagUpperBound rank a inputs n) := by
  have hat : elemAt a.sources 0 = .ok place := by rw [elemAt, hplace]
  rw [communicateAsync]
  refine prim_bind_meets hright ?_
  rintro _ w₁ rfl
  dsimp only
  rw [hat, Comp.ofExcept_bind_ok]
  by_cases hrank : place.rank = rank
  · obtain ⟨p, rfl, hcarries⟩ := hlocal hrank
    rw [if_pos hrank]
    exact sendAll_meets hacc ha hplace hcarries hrank hsent
  · obtain rfl := hremote hrank
    rw [if_neg hrank, Comp.throwIf_bind, if_neg (by simp)]
    exact receiveHeaders_meets hacc ha hplace hrank hreceived

/-- The outputs are in the order of their slots already. -/
theorem mergeSort_of_slots {completed : List LocalState} {destinations : List Place}
    (h : completed.map (·.slot) = localSlots rank destinations) :
    completed.mergeSort (fun a b => a.slot ≤ b.slot) = completed := by
  refine List.mergeSort_of_pairwise ?_
  have hsorted : (localSlots rank destinations).Pairwise (· < ·) :=
    MockVecApi.localSlots_sorted destinations
  rw [← h, List.pairwise_map] at hsorted
  exact hsorted.imp fun hlt => decide_eq_true hlt.le

/-- **`wait`**, for an action that has been posted and not been waited for. -/
theorem wait_meets {spec : OperatorSpec} (hacc : Accepted group.plan spec)
    (hcontexts : ∀ id p, group.plan.Carries f id p → NulFree p.metadata.context)
    (hsteady : w.Steady group rank) {g : ℕ} {a : CommAction} (hg : group.plan.actions[g]? = some a)
    (hlt : g < w.posts.length) {place : Place} (hplace : a.sources[0]? = some place)
    {handle : CommHandle} (hhandle : w.Holds group f rank a handle)
    (hlate : a.localOutputs rank = [] →
      group.plan.Ends w.posts.length ∧ ∀ g' < g, w.Collected group rank g')
    (hfresh : ∀ o : Origin, o.id = a.id → o.part = .slots → o ∉ w.received.map (·.2)) :
    Prog.Meets (wireProtocol group f rank) (Ends group f n (fun w' (r : List VecValue × CommHandle) =>
        w.Arrived group rank a w' ∧ r.1.length = (localSlots rank a.destinations).length ∧
        ∀ v ∈ r.1, ∃ p, group.plan.Carries f a.id p ∧ v = .ready p) w) w
      (wait group.world.tagUpperBound handle n) := by
  have ha : a ∈ group.plan.actions := List.mem_of_getElem? hg
  have hposted : a ∈ w.posts := by
    obtain ⟨rest, hrest⟩ := hsteady.posts
    rw [← hrest, List.getElem?_append_left hlt] at hg
    exact List.mem_of_getElem? hg
  have hcrosses : ∀ {o : Origin}, o.id = a.id → ∀ {s d}, o.Crosses group.plan s d ↔ _ :=
    fun hid => Origin.crosses_iff hacc ha hplace hid
  rw [wait, Comp.throwIf_bind, if_neg (by simp [hhandle.waited])]
  refine prim_bind_meets trivial ?_
  rintro _ w' rfl
  rw [Comp.bind_apply]
  refine (waitSends_meets handle.sends fun send hsend =>
    ⟨hsteady, g, a, hg, hlt, hhandle.sends send hsend, hlate⟩).bind ?_
  rintro w₁ ⟨fault | u, l⟩ ⟨hle, rfl, hend⟩
  · exact .ret ⟨hle, rfl, hend⟩
  obtain rfl : w₁ = w' := hend
  rw [Comp.next_ok, Comp.bind_apply, hhandle.id]
  -- the rank has the outputs, or receives them
  have hreceived : Prog.Meets (wireProtocol group f rank) (Ends group f l (fun w'' received =>
      w₁.Arrived group rank a w'' ∧
        (handle.locals ++ received).map (·.slot) = localSlots rank a.destinations ∧
        ∀ x ∈ handle.locals ++ received, ∃ p, group.plan.Carries f a.id p ∧ x.value = .ready p) w₁)
      w₁ (receiveAll group.world.tagUpperBound a.id handle.receives l) := by
    by_cases hrank : place.rank = rank
    · obtain ⟨hslots, hnone, hvalues⟩ := hhandle.sourced place hplace hrank
      rw [hnone]
      refine .ret ⟨le_rfl, rfl, ⟨rfl, rfl, le_rfl, rfl, fun o => (or_iff_left ?_).symm⟩, ?_, ?_⟩
      · rintro ⟨hid, -, source, hcross⟩
        obtain ⟨hsource, hne, -⟩ := (hcrosses hid).1 hcross
        exact hne (hsource.symm.trans hrank)
      · rwa [List.append_nil]
      · rwa [List.append_nil]
    · obtain ⟨hnone, hreceives⟩ := hhandle.foreign place hplace hrank
      have hlocal : ∀ slot ∈ localSlots rank a.destinations, ∀ part,
          Origin.Crosses group.plan place.rank rank ⟨a.id, slot, part⟩ := fun slot hslot part =>
        (hcrosses rfl).2 ⟨rfl, hrank, MockVecApi.mem_localSlots_iff.1 hslot⟩
      refine (receiveAll_meets hacc hcontexts hsteady hposted hreceives
        (MockVecApi.localSlots_nodup _) hlocal fun slot _ => hfresh _ rfl rfl).mono ?_
      rintro w'' ⟨fault | received, l⟩ ⟨hle, rfl, hend⟩
      · exact ⟨hle, rfl, hend⟩
      · obtain ⟨extra, rfl, horigins, hslots, hvalues⟩ := hend
        rw [hnone]
        refine ⟨hle, rfl, ⟨rfl, rfl, hle, rfl, fun o => ?_⟩, hslots, hvalues⟩
        rw [List.map_append, List.mem_append, horigins]
        refine or_congr_right ⟨fun ho => ?_, fun ⟨hid, hpart, source, hcross⟩ => ?_⟩
        · obtain ⟨slot, hslot, rfl⟩ := List.mem_map.1 ho
          exact ⟨rfl, rfl, place.rank, hlocal slot hslot .slots⟩
        · obtain ⟨-, -, hdestination⟩ := (hcrosses hid).1 hcross
          refine List.mem_map.2 ⟨o.slot, MockVecApi.mem_localSlots_iff.2 hdestination, ?_⟩
          obtain ⟨id, slot, part⟩ := o
          obtain rfl : id = a.id := hid
          obtain rfl : part = .slots := hpart
          rfl
  refine hreceived.bind ?_
  rintro w'' ⟨fault | received, l⟩ ⟨hle, rfl, hend⟩
  · exact .ret ⟨hle, rfl, hend⟩
  obtain ⟨harrived, hslots, hvalues⟩ := hend
  rw [Comp.next_ok]
  dsimp only
  rw [mergeSort_of_slots hslots]
  refine prim_bind_meets ⟨a, ha, hhandle.id.symm, hslots, hvalues⟩ ?_
  rintro _ w₃ rfl
  refine .ret ⟨hle, rfl, harrived, ?_, fun v hv => ?_⟩
  · rw [List.length_map, ← hslots, List.length_map]
  · obtain ⟨x, hx, rfl⟩ := List.mem_map.1 hv
    exact hvalues x hx

/-! ### The other calls -/

/-- The flags and the digests of the other ranks agree, if all fits. -/
theorem preflight_meets {digest : String} {skip : Bool} {spec : OperatorSpec}
    {target : TargetConfig} (hdigest : digest = group.digest rank) (hskip : skip = group.flag rank)
    (htarget : target = group.plan.target) (hrank : InWorld group.world.worldSize rank)
    (hnew : w.contributed = []) :
    Prog.Meets (wireProtocol group f rank) (Ends group f spec.polyDegree (fun w' _ =>
        w' = { w with contributed := group.prelude rank }) w) w
      (preflight digest skip target spec n) := by
  subst hdigest hskip
  have hprelude : ∀ q, InWorld group.world.worldSize q → group.Fits f →
      group.prelude q = group.prelude rank := by
    intro q hq hfits
    obtain ⟨hflag, hdigest⟩ := hfits.agreement q rank hq hrank
    unfold MpiGroup.prelude
    rw [hflag]
    cases hskip : group.flag rank with
    | true => rfl
    | false => rw [hdigest (hflag.trans hskip)]
  have hagree : ∀ {round : ℕ} {x : Contribution}, (group.prelude rank)[round]? = some x →
      group.Fits f → ∀ {gathered : List Contribution}, (∀ y ∈ gathered, ∃ q,
        InWorld group.world.worldSize q ∧ (group.prelude q)[round]? = some y) →
      ¬ ∃ y ∈ gathered, y ≠ x := by
    rintro round x hx hfits gathered hgathered ⟨y, hy, hne⟩
    obtain ⟨q, hq, hy⟩ := hgathered y hy
    rw [hprelude q hq hfits] at hy
    exact hne (Option.some.inj (hy.symm.trans hx))
  have hle : ∀ contributed, w ≤ { w with contributed := contributed } := fun _ =>
    ⟨List.Subset.refl _, List.Subset.refl _⟩
  rw [preflight, Comp.modify_bind, Comp.throwIf_bind]
  by_cases hversion : target.capabilityVersion ≠ 1
  · rw [if_pos hversion]
    exact .ret ⟨le_rfl, rfl, fun hfits => hversion (htarget ▸ hfits.version)⟩
  rw [if_neg hversion]
  refine prim_bind_meets ⟨?_, fun hne => absurd hnew hne⟩ ?_
  · rw [hnew]
    exact List.prefix_append _ _
  rintro _ w₁ rfl
  refine prim_bind_meets (by rw [hnew]; rfl) ?_
  rintro flags w₂ ⟨rfl, hflags, hall⟩
  rw [Comp.throwIf_bind]
  by_cases hmixed : ∃ flag ∈ flags, flag ≠ .flag (group.flag rank)
  · rw [if_pos hmixed]
    exact .ret ⟨hle _, rfl, fun hfits => hagree rfl hfits hflags hmixed⟩
  rw [if_neg hmixed]
  cases hskip : group.flag rank with
  | true =>
    refine .ret ⟨hle _, rfl, ?_⟩
    rw [MpiGroup.prelude, hskip, hnew]
    rfl
  | false =>
    rw [if_neg (by simp), Comp.throwIf_bind]
    by_cases hlength : (group.digest rank).utf8ByteSize ≠ 71
    · rw [if_pos hlength]
      exact .ret ⟨hle _, rfl, fun hfits => hlength (hfits.digests rank hrank hskip)⟩
    rw [if_neg hlength]
    have hwhole : group.prelude rank = [.flag false, .digest (group.digest rank)] := by
      rw [MpiGroup.prelude, hskip]
      rfl
    have hflag : ∀ q, InWorld group.world.worldSize q → group.flag q = group.flag rank := by
      intro q hq
      obtain ⟨flag, hflag, heq⟩ := hall q hq
      obtain rfl : Contribution.flag (group.flag q) = flag := Option.some.inj heq
      by_contra hne
      exact hmixed ⟨_, hflag, fun he => hne (Contribution.flag.inj he)⟩
    refine prim_bind_meets ⟨?_, fun _ => hflag⟩ ?_
    · rw [hwhole, hnew]
      exact List.prefix_rfl
    rintro _ w₃ rfl
    refine prim_bind_meets (by rw [hnew]; rfl) ?_
    rintro digests w₄ ⟨rfl, hdigests, -⟩
    rw [← Comp.bind_pure (Comp.throwIf _ _), Comp.throwIf_bind]
    by_cases hdiffers : ∃ digest ∈ digests, digest ≠ .digest (group.digest rank)
    · rw [if_pos hdiffers]
      exact .ret ⟨hle _, rfl, fun hfits => hagree (by rw [hwhole]; rfl) hfits hdigests hdiffers⟩
    · rw [if_neg hdiffers]
      refine .ret ⟨hle _, rfl, ?_⟩
      rw [hwhole, hnew]
      rfl

end MpiVecApi

end CkksRuntime
