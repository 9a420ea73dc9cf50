/-
  ckks-runtime formalization — what a mock rank waits for.

  `Progress` is what a rank has done, as far as waiting goes: its registration, the
  values that its executor has promised, its senders.  `progressProtocol` is the
  protocol of its calls: it reads only promised values, joins only its own senders,
  and receives only messages of actions that it has posted.

  `rankProgram_meets`: every rank keeps to it, whatever faults are injected.
-/
import CkksRuntime.MockSystem
import CkksRuntime.Ranks
import CkksRuntime.ScriptProtocol

namespace CkksRuntime

open Interaction Transitions PlanVerifier

/-- The value does not wait for a cell from `n` on. -/
def VecValue.Below (n : ℕ) : VecValue → Prop
  | ready _ => True
  | pending _ _ cell => cell < n

theorem VecValue.Below.mono {n m : ℕ} {v : VecValue} (h : v.Below n) (hle : n ≤ m) : v.Below m := by
  cases v with
  | ready p => trivial
  | pending k md c => exact Nat.lt_of_lt_of_le h hle

/-- The action is sourced on the rank. -/
def CommAction.sourcedBy (rank : CInt) (action : CommAction) : Bool :=
  action.sources[0]?.any fun place => place.rank = rank

/-- The sends of a rank that has posted some actions: the id and the number of slots. -/
def sendsOf (rank : CInt) (posts : List CommAction) : List (TransferId × ℕ) :=
  (posts.filter fun action => action.sourcedBy rank).map fun action =>
    (action.id, action.destinations.length)

theorem sendsOf_append (rank : CInt) (posts posts' : List CommAction) :
    sendsOf rank (posts ++ posts') = sendsOf rank posts ++ sendsOf rank posts' := by
  simp [sendsOf]

theorem Script.sendsOf_posts_snoc (rank : CInt) {acc : Script} {line : Line}
    (hpost : line.act.post? = none) :
    sendsOf rank (Script.posts (acc ++ [line])) = sendsOf rank acc.posts := by
  rw [Script.posts_append, Script.posts_singleton, hpost, Option.toList_none, List.append_nil]

/-! ## The protocol of a rank -/

/-- What a rank has done, as far as waiting goes. -/
structure Progress where
  registered : Bool := false
  /-- its preflight has thrown after its wait -/
  refused : Bool := false
  aborted : Bool := false
  /-- the values that its executor has promised -/
  cells : ℕ := 0
  /-- its senders, in the order of their start -/
  spawned : List (TransferId × ℕ) := []

instance : Preorder Progress where
  le w w' := w.cells ≤ w'.cells ∧ w.spawned.length ≤ w'.spawned.length
  le_refl w := ⟨le_rfl, le_rfl⟩
  le_trans _ _ _ h h' := ⟨h.1.trans h'.1, h.2.trans h'.2⟩

/-- The rank has passed its preflight and executed the lines `acc`. -/
def Progress.At (rank : CInt) (w : Progress) (acc : Script) : Prop :=
  w.registered = true ∧ w.refused = false ∧ w.spawned = sendsOf rank acc.posts

/-- Only posts start senders. -/
theorem Progress.At.snoc {rank : CInt} {w : Progress} {acc : Script} {line : Line}
    (h : w.At rank acc) (hpost : line.act.post? = none) : w.At rank (acc ++ [line]) :=
  ⟨h.1, h.2.1, h.2.2.trans (Script.sendsOf_posts_snoc rank hpost).symm⟩

/-- A rank waits for a message of an action that it has posted. -/
def Progress.Awaits (worldSize : CInt) (plan : RuntimePlan) (rank : CInt) (w : Progress)
    (id : TransferId) (slot : ℕ) (g : ℕ) : Prop :=
  w.registered = true ∧ ∃ m a source, w.spawned = sendsOf rank (plan.actions.take m) ∧ g < m ∧
    plan.actions[g]? = some a ∧ a.id = id ∧ slot < a.destinations.length ∧
    a.sources[0]? = some source ∧ InWorld worldSize source.rank

/-- What a rank that brings a flag calls, and what it may rely on. -/
def progressProtocol (worldSize : CInt) (plan : RuntimePlan) (flag : Bool) (rank : CInt) :
    Protocol MockOp MockOp.Ans Progress where
  pre w
    | .register _ skip => w.registered = false ∧ skip = flag
    | .awaitPreflight => w.registered = true
    | .computeNow _ inputs | .submit _ inputs _ => ∀ v ∈ inputs, v.Below w.cells
    | .spawn _ _ source => source.Below w.cells
    | .join sender => sender < w.spawned.length
    | .receive id slot => ∃ g, w.Awaits worldSize plan rank id slot g
    | .materialize value => value.Below w.cells
    | .abortAll _ => True
  post w op ans w' :=
    match op, ans with
    | .register .., .ok _ => w' = { w with registered := true }
    | .awaitPreflight, .error _ => w' = { w with refused := true }
    | .submit _ _ metadata, ans => ans = .ok (.pending .ciphertext metadata w.cells) ∧
      w' = { w with cells := w.cells + 1 }
    | .spawn id destinations _, ans => ans = .ok w.spawned.length ∧
      w' = { w with spawned := w.spawned ++ [(id, destinations)] }
    | .abortAll _, _ => w' = { w with aborted := true }
    | _, _ => w' = w

/-- Nothing follows a preflight that has thrown, but the abort. -/
theorem progressProtocol_refused {worldSize : CInt} {plan : RuntimePlan} {flag : Bool} {rank : CInt}
    {w w' : Progress} {op : MockOp} {ans : op.Ans}
    (h : (progressProtocol worldSize plan flag rank).post w op ans w') (hw : w.refused = true) :
    w'.refused = true := by
  cases op with
  | register digest skip => cases ans <;> cases h <;> exact hw
  | awaitPreflight => cases ans <;> cases h <;> first | rfl | exact hw
  | submit op inputs metadata => exact h.2 ▸ hw
  | spawn id destinations source => exact h.2 ▸ hw
  | computeNow op inputs => exact (show w' = w from h) ▸ hw
  | join sender => exact (show w' = w from h) ▸ hw
  | receive id slot => exact (show w' = w from h) ▸ hw
  | materialize value => exact (show w' = w from h) ▸ hw
  | abortAll reason => exact (show w' = { w with aborted := true } from h) ▸ hw

/-- The end of the thread of a rank. -/
def Progress.Ended (plan : RuntimePlan) (rank : CInt) (w : Progress) : RunResult VecValue → Prop
  | .returned _ => w.registered = true ∧ w.refused = false ∧
    w.spawned = sendsOf rank plan.actions
  | .threw _ => w.aborted = true
  | .crashed => True

namespace MockVecApi

variable {cluster : MockClusterConfig} {api : MockApiConfig} {cfg : RunConfig VecValue}
  {slots : List (String × List Double)}

theorem mem_localSlots {rank : CInt} {destinations : List Place} {slot : ℕ}
    (h : slot ∈ localSlots rank destinations) : slot < destinations.length := by
  unfold localSlots at h
  obtain ⟨⟨place, slot'⟩, hmem, rfl⟩ := List.mem_map.1 h
  have := List.mem_zipIdx_iff_getElem?.1 (List.mem_of_mem_filter hmem)
  exact (List.getElem?_eq_some_iff.1 this).1

/-- A check that may fail freely. -/
theorem checked_of {n : ℕ} {Good : VecValue → Prop} {id : ValueId} {v : VecValue} (h : Good v) :
    Checked cfg n Good (fun _ => True) id v := by
  intro d _
  split
  · exact h
  · trivial

theorem forall_of_forall₂ {α β : Type} {p : β → Prop} {l : List α} {l' : List β}
    (h : List.Forall₂ (fun _ b => p b) l l') : ∀ b ∈ l', p b := by
  induction h with
  | nil => simp
  | cons hb _ ih =>
    intro b hmem
    rcases List.mem_cons.1 hmem with rfl | hmem
    exacts [hb, ih b hmem]

section
variable {worldSize : CInt} {plan : RuntimePlan} {flag : Bool} {rank : CInt} {w : Progress}
  {E : Progress → Fault → Prop}

theorem serves_computeNow {op : ComputeOp} {inputs : List VecValue}
    {G : Progress → VecPayload → Prop} (h : ∀ v ∈ inputs, v.Below w.cells)
    (hG : ∀ payload, G w payload) (hE : ∀ fault, E w fault) :
    Serves (progressProtocol worldSize plan flag rank) w (.computeNow op inputs) G E := by
  refine ⟨h, ?_⟩
  rintro (fault | payload) w' rfl
  exacts [hE fault, hG payload]

theorem serves_submit {op : ComputeOp} {inputs : List VecValue} {metadata : VecMetadata}
    {G : Progress → VecValue → Prop} (h : ∀ v ∈ inputs, v.Below w.cells)
    (hG : G { w with cells := w.cells + 1 } (.pending .ciphertext metadata w.cells)) :
    Serves (progressProtocol worldSize plan flag rank) w (.submit op inputs metadata) G E := by
  refine ⟨h, ?_⟩
  rintro _ w' ⟨rfl, rfl⟩
  exact hG

theorem serves_spawn {id : TransferId} {destinations : ℕ} {source : VecValue}
    {G : Progress → ℕ → Prop} (h : source.Below w.cells)
    (hG : G { w with spawned := w.spawned ++ [(id, destinations)] } w.spawned.length) :
    Serves (progressProtocol worldSize plan flag rank) w (.spawn id destinations source) G E := by
  refine ⟨h, ?_⟩
  rintro _ w' ⟨rfl, rfl⟩
  exact hG

theorem serves_join {k : ℕ} {G : Progress → Unit → Prop} (h : k < w.spawned.length)
    (hG : G w ()) (hE : ∀ fault, E w fault) :
    Serves (progressProtocol worldSize plan flag rank) w (.join k) G E := by
  refine ⟨h, ?_⟩
  rintro (fault | u) w' rfl
  exacts [hE fault, hG]

theorem serves_receive {id : TransferId} {slot : ℕ} {G : Progress → VecPayload → Prop}
    (h : ∃ g, w.Awaits worldSize plan rank id slot g) (hG : ∀ payload, G w payload)
    (hE : ∀ fault, E w fault) :
    Serves (progressProtocol worldSize plan flag rank) w (.receive id slot) G E := by
  refine ⟨h, ?_⟩
  rintro (fault | payload) w' rfl
  exacts [hE fault, hG payload]

theorem serves_materialize {v : VecValue} {G : Progress → VecPayload → Prop}
    (h : v.Below w.cells) (hG : ∀ payload, G w payload) (hE : ∀ fault, E w fault) :
    Serves (progressProtocol worldSize plan flag rank) w (.materialize v) G E := by
  refine ⟨h, ?_⟩
  rintro (fault | payload) w' rfl
  exacts [hE fault, hG payload]

end

/-- The mock backend: what it keeps of the progress of a rank. -/
def progressBackend {flag : Bool} {spec : OperatorSpec} (hacc : Accepted (SequentialRuntime.plan cfg) spec)
    (hready : ∀ p ∈ cfg.localInputs, ∃ payload, p.2 = .ready payload) (n : ℕ) :
    Backend cfg slots n (progressProtocol (SequentialRuntime.plan cfg).target.worldSize
      (SequentialRuntime.plan cfg) flag cfg.rank) (handle cluster api cfg.rank) where
  At w acc := w.At cfg.rank acc
  Val w _ v := v.Below w.cells
  Group w _ a handle := handle.id = a.id ∧
    handle.localSlots = localSlots cfg.rank a.destinations ∧ handle.waited = false ∧
    ∀ k, handle.sender = some k → k < w.spawned.length
  Err _ _ := True
  val_mono hle hv := hv.mono hle.1
  group_mono hle hg := ⟨hg.1, hg.2.1, hg.2.2.1, fun k hk => (hg.2.2.2 k hk).trans_le hle.2⟩
  validate_eq v d := rfl
  encode_eq d values := rfl
  bind {w acc context id} hnext hat := by
    split
    next v hv =>
      obtain ⟨front, back, hinputs, -⟩ := List.lookup_eq_some_iff.1 hv
      obtain ⟨payload, rfl⟩ := hready (id, v) (by rw [hinputs]; simp)
      exact ⟨hat.snoc rfl, checked_of trivial⟩
    next => trivial
  checkInputs {w acc context expected} hnext hat := by
    by_cases hlen : cfg.localInputs.length ≠ expected
    · rw [if_pos hlen]
      trivial
    · rw [if_neg hlen]
      exact hat.snoc rfl
  encode hnext hat hd hvalues := by
    split
    next v hv =>
      obtain ⟨payload, rfl⟩ := encodePlaintext_ready hv
      exact ⟨hat.snoc rfl, checked_of trivial⟩
    next => trivial
  compute {w acc context op inputs} hnext hat hinputs := by
    have hbelow := forall_of_forall₂ hinputs
    have hsnoc : w.At cfg.rank (acc ++ [⟨context, .compute op⟩]) := hat.snoc rfl
    refine (compute_meets (E := fun w' _ => w ≤ w') (G := fun w' v => w ≤ w' ∧
      w'.At cfg.rank (acc ++ [⟨context, .compute op⟩]) ∧ v.Below w'.cells) (fun _ => le_rfl)
      (fun _ => ?_) fun _ => ?_).mono ?_
    · exact serves_computeNow hbelow (fun _ => ⟨le_rfl, hsnoc, trivial⟩) fun _ => le_rfl
    · split
      · exact serves_submit hbelow ⟨⟨Nat.le_succ _, le_rfl⟩, hsnoc, Nat.lt_succ_self _⟩
      · exact le_rfl
    · rintro w' ⟨fault | v, l⟩ ⟨rfl, hend⟩
      · exact ⟨hend, rfl, trivial⟩
      · exact ⟨hend.1, rfl, hend.2.1, checked_of hend.2.2⟩
  post {w acc context g a inputs} hnext hat hinputs := by
    obtain ⟨rest, hposts⟩ := hnext.posts hacc
    obtain ⟨defs, ids, id, d, hok⟩ := hacc.action_ok (a := a) (by rw [hposts]; simp [Act.post?])
    have hsource : a.sources[0]? = some d.place := by rw [hok.sources]; rfl
    have hsends : sendsOf cfg.rank (Script.posts (acc ++ [⟨context, .post g a⟩])) =
        w.spawned ++ sendsOf cfg.rank [a] := by
      rw [Script.posts_append, sendsOf_append, hat.2.2]
      rfl
    refine (communicateAsync_meets (E := fun w' _ => w ≤ w')
      (G := fun w' handle => w ≤ w' ∧ w'.At cfg.rank (acc ++ [⟨context, .post g a⟩]) ∧
        handle.id = a.id ∧ handle.localSlots = localSlots cfg.rank a.destinations ∧
        handle.waited = false ∧ ∀ k, handle.sender = some k → k < w'.spawned.length)
      hsource (fun _ => le_rfl) (fun hr => ?_) fun hr => ?_).mono ?_
    · rw [hok.localInputs_eq, if_pos hr] at hinputs
      obtain ⟨value, rest', hval, hrest, rfl⟩ := List.forall₂_cons_left_iff.1 hinputs
      cases hrest
      refine ⟨value, rfl, serves_spawn hval ?_⟩
      refine ⟨⟨le_rfl, by simp⟩, ⟨hat.1, hat.2.1, ?_⟩, rfl, rfl, rfl, ?_⟩
      · rw [hsends]
        simp [sendsOf, CommAction.sourcedBy, hok.sources, hr]
      · rintro k ⟨⟩
        simp
    · rw [hok.localInputs_eq, if_neg hr] at hinputs
      cases hinputs
      refine ⟨rfl, le_rfl, ⟨hat.1, hat.2.1, ?_⟩, rfl, rfl, rfl, by simp⟩
      rw [hsends]
      simp [sendsOf, CommAction.sourcedBy, hok.sources, hr]
    · rintro w' ⟨fault | handle, l⟩ ⟨rfl, hend⟩
      · exact ⟨hend, rfl, trivial⟩
      · exact ⟨hend.1, rfl, hend.2⟩
  wait {w acc context g a handle} hnext hat hgroup := by
    obtain ⟨rest, hposts⟩ := hnext.posts hacc
    obtain ⟨hg, -⟩ := (hnext.ok hacc).wait g a rfl
    obtain ⟨hid, hslots, hwaited, hsender⟩ := hgroup
    have hlt : g < acc.posts.length := (List.getElem?_eq_some_iff.1 hg).1
    have hga : (SequentialRuntime.plan cfg).actions[g]? = some a := by
      rw [hposts, List.append_assoc, List.getElem?_append_left hlt]
      exact hg
    obtain ⟨defs, ids, id, d, hok⟩ := hacc.action_ok (List.mem_of_getElem? hga)
    have hsnoc : w.At cfg.rank (acc ++ [⟨context, .wait g a⟩]) := hat.snoc rfl
    refine (wait_meets (I := fun w' => w' = w) (R := fun _ _ => True) (E := fun w' _ => w ≤ w')
      hwaited (fun k hk => serves_join (hsender k hk) rfl fun _ => le_rfl) (fun _ => rfl)
      (fun slot hslot w' hw => ?_) fun w' outputs fault hw _ => hw ▸ le_rfl).mono ?_
    · subst hw
      refine serves_receive ⟨g, hat.1, acc.posts.length, a, d.place, ?_, hlt, hga, hid.symm, ?_, ?_,
        Accepted.desc_inWorld hacc hok.desc⟩ (fun _ => ⟨rfl, trivial⟩) fun _ => le_rfl
      · rw [hat.2.2, hposts, List.append_assoc, List.take_left]
      · exact mem_localSlots (hslots ▸ hslot)
      · rw [hok.sources]
        rfl
    · rintro w' ⟨fault | ⟨outputs, handle'⟩, l⟩ ⟨rfl, hend⟩
      · exact ⟨hend, rfl, trivial⟩
      · obtain ⟨rfl, payloads, outputs', -, -, rfl⟩ := hend
        refine ⟨le_rfl, rfl, ?_⟩
        dsimp only
        by_cases hlen : (outputs'.map VecValue.ready).length ≠ (a.localOutputs cfg.rank).length
        · rw [if_pos hlen]
          trivial
        · rw [if_neg hlen]
          refine ⟨hsnoc, List.forall₂_iff_get.2 ⟨(not_not.1 hlen).symm, ?_⟩⟩
          intro i hi hi'
          refine checked_of ?_
          rw [List.get_eq_getElem, List.getElem_map]
          trivial
  sync {w acc context id v} hnext hat hval := by
    have hsnoc : w.At cfg.rank (acc ++ [⟨context, .sync id⟩]) := hat.snoc rfl
    refine (synchronize_meets (G := fun w' v' => w' = w ∧ v' = v) (E := fun w' _ => w ≤ w')
      (serves_materialize hval (fun _ => ⟨rfl, rfl⟩) fun _ => le_rfl)).mono ?_
    rintro w' ⟨fault | v', l⟩ ⟨rfl, hend⟩
    · exact ⟨hend, rfl, trivial⟩
    · obtain ⟨rfl, rfl⟩ := hend
      exact ⟨le_rfl, rfl, hsnoc, hval⟩

section
variable {worldSize : CInt} {plan : RuntimePlan} {flag : Bool} {env : Environment}

theorem abort_meets (w : Progress) (rank : CInt) (reason : String) (l : ℕ) :
    Prog.Meets (progressProtocol worldSize plan flag rank) (fun w r => w.Ended plan rank r.1) w
      (Prog.interp (handle cluster api rank) (SequentialRuntime.abortAll reason) l) := by
  refine .call trivial ?_
  rintro (fault | never) w' hpost
  · obtain rfl : w' = { w with aborted := true } := hpost
    exact .ret rfl
  · exact never.elim

/-- A failure before the first call. -/
theorem handle_meets (w : Progress) (failure : Failure) (l : ℕ) :
    Prog.Meets (progressProtocol worldSize plan flag cfg.rank)
      (fun w r => w.Ended plan cfg.rank r.1) w
      (Prog.interp (handle cluster api cfg.rank)
        (SequentialRuntime.handle cfg (.error failure, {})) l) := by
  show Prog.Meets _ _ w (Prog.interp _ (if failure.isException then _ else _) l)
  by_cases hexc : failure.isException = true
  · rw [if_pos hexc]
    exact abort_meets w _ _ l
  · rw [if_neg hexc]
    exact .ret trivial

/-- **A rank keeps to the protocol**, once its trace is open. -/
theorem rankProgram_meets (hopen : SequentialRuntime.openTrace env cfg.rank = .ok ())
    (hready : ∀ p ∈ cfg.localInputs, ∃ payload, p.2 = .ready payload) :
    Prog.Meets (progressProtocol cfg.worldSize (SequentialRuntime.plan cfg)
        cfg.resources.skipArtifactDigestChecks cfg.rank)
      (fun w r => w.Ended (SequentialRuntime.plan cfg) cfg.rank r.1) {}
      (rankProgram cluster api cfg env) := by
  unfold rankProgram
  cases hverify : SequentialRuntime.verifyPlan cfg with
  | error failure =>
    rw [SequentialRuntime.run_of_verify_error hopen hverify]
    exact handle_meets _ _ _
  | ok requirements =>
    cases hbundle : SequentialRuntime.bundleSlotsOf cfg env with
    | error failure =>
      rw [SequentialRuntime.run_of_bundle_error hopen hverify hbundle]
      exact handle_meets _ _ _
    | ok slots =>
      have hacc := SequentialRuntime.accepted_of_verifyPlan hverify
      have hworld : cfg.worldSize = (SequentialRuntime.plan cfg).target.worldSize := by
        have := (SequentialRuntime.verifyPlan_eq_ok hverify).2
        simp only [PlanVerifier.verifyRuntimeTarget, bind_eq_ok, failIf_eq_ok, exists_const,
          not_not] at this
        exact this.1
      rw [hworld]
      refine (progressBackend hacc hready cfg.resources.operatorSpec.spec.polyDegree).run_meets
        hverify hbundle ?_ hopen (fun w artifact h => ?_) (fun _ _ _ _ => trivial)
        fun w failure reason l _ _ => abort_meets w _ reason l
      · refine (preflight_meets (E := fun _ _ => True) (G := fun w => w.At cfg.rank [])
          (R := fun w => w.At cfg.rank []) (fun _ => trivial) (fun _ _ => trivial) ?_ ?_).mono ?_
        · refine ⟨⟨rfl, rfl⟩, ?_⟩
          rintro (fault | u) w' hpost
          · trivial
          · exact hpost ▸ ⟨rfl, rfl, rfl⟩
        · intro w hw
          refine ⟨hw.1, ?_⟩
          rintro (fault | u) w' rfl
          exacts [trivial, hw]
        · rintro w ⟨fault | u, l⟩ ⟨hl, hend⟩
          · trivial
          · exact ⟨hl, hend⟩
      · exact ⟨h.lines.1, h.lines.2.1, h.lines.2.2.trans (by rw [hacc.script_posts])⟩

end

end MockVecApi

end CkksRuntime
