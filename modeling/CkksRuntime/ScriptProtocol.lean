/-
  ckks-runtime formalization — the run of a rank over a Vec backend keeps to a
  protocol.

  A *backend* (`Backend`) says what the world knows of the values and of the open
  groups of a rank after some lines of its script, and how every call of a line
  carries that on.  Then the whole script does (`execScript_ensures`), and so does
  the run (`run_meets`).
-/
import CkksRuntime.Protocol
import CkksRuntime.ScriptRun
import CkksRuntime.VecValue

namespace CkksRuntime

open Interaction PlanVerifier

/-- The script of the rank has the line after the lines `acc`. -/
def RunConfig.Next {V : Type} (cfg : RunConfig V) (acc : Script) (line : Line) : Prop :=
  ∃ rest, (SequentialRuntime.plan cfg).script cfg.rank = acc ++ line :: rest

/-- The check of a value against its descriptor: `Good` if it passes. -/
def Checked {V : Type} (cfg : RunConfig V) (polyDegree : ℕ) (Good : VecValue → Prop)
    (Err : Failure → Prop) (id : ValueId) (v : VecValue) : Prop :=
  ∀ d, (SequentialRuntime.plan cfg).desc? id = some d →
    match validateValue polyDegree v d with
    | .ok _ => Good v
    | .error fault => Err (.api fault)

/-! ## Where the lines of a script come from -/

/-- What the plan says of an action of a rank. -/
def Act.Sourced (plan : RuntimePlan) (rank : CInt) : Act → Prop
  | bind id => id ∈ plan.localExternals rank
  | checkInputs expected => expected = (plan.localExternals rank).length
  | encode op => (∃ i ∈ plan.instructions, i.body = .encode op) ∧ plan.IsLocal rank op.output
  | compute op => (∃ i ∈ plan.instructions, i.body = .compute op) ∧ op.place.rank = rank
  | sync id => id ∈ plan.finalsOf rank
  | post .. | wait .. => True

/-- The acts that the instructions of a plan can add to a script. -/
structure Act.Added (plan : RuntimePlan) (rank : CInt) (Q : Act → Prop) : Prop where
  wait : ∀ g a, Q (.wait g a)
  post : ∀ g a, Q (.post g a)
  encode : ∀ i ∈ plan.instructions, ∀ op, i.body = .encode op → plan.IsLocal rank op.output →
    Q (.encode op)
  compute : ∀ i ∈ plan.instructions, ∀ op, i.body = .compute op → op.place.rank = rank →
    Q (.compute op)

namespace Script

variable {plan : RuntimePlan} {rank : CInt} {acc : Script} {context : Context} {Q : Act → Prop}

/-- All lines are of one kind. -/
def All (Q : Act → Prop) (acc : Script) : Prop := ∀ line ∈ acc, Q line.act

theorem All.snoc (h : acc.All Q) {line : Line} (hl : Q line.act) :
    Script.All Q (acc ++ [line]) := by
  intro l hmem
  rcases List.mem_append.1 hmem with hmem | hmem
  · exact h l hmem
  · exact List.mem_singleton.1 hmem ▸ hl

theorem All.settle (h : acc.All Q) {group : CommAction × ℕ} (hwait : Q (.wait group.2 group.1)) :
    (acc.settle context group).All Q := by
  unfold Script.settle
  split_ifs
  · exact h
  · exact h.snoc hwait

theorem All.demandAll (hQ : Act.Added plan rank Q) : ∀ (ids : List ValueId) {acc : Script},
    acc.All Q → (acc.demandAll rank context ids).All Q
  | [], _, h => h
  | id :: ids, acc, h => by
    have hdemand : (acc.demand rank context id).All Q := by
      unfold Script.demand
      split
      · exact h.settle (hQ.wait _ _)
      · exact h
    exact hdemand.demandAll hQ ids

theorem All.addPhase (hQ : Act.Added plan rank Q) : ∀ (list : List Instruction) {acc : Script},
    (∀ i ∈ list, i ∈ plan.instructions) → acc.All Q → (acc.addPhase plan rank list).All Q
  | [], _, _, h => h
  | i :: list, acc, hmem, h => by
    have hi : i ∈ plan.instructions := hmem i List.mem_cons_self
    have hadd : (acc.addInstruction plan rank i).All Q := by
      unfold Script.addInstruction
      dsimp only
      split
      next op hbody =>
        split_ifs with hl
        · exact h.snoc (hQ.encode i hi op hbody hl)
        · exact h
      next op hbody =>
        split_ifs with hr
        · exact (h.demandAll hQ _).snoc (hQ.compute i hi op hbody hr)
        · exact h
      next action _ => exact (h.demandAll hQ _).snoc (hQ.post _ _)
    exact hadd.addPhase hQ list fun j hj => hmem j (List.mem_cons_of_mem _ hj)

theorem All.finishAll (hQ : Act.Added plan rank Q) (h : acc.All Q) : acc.finishAll.All Q := by
  have hfold : ∀ (groups : List (CommAction × ℕ)) (acc : Script), acc.All Q →
      (groups.foldl (Script.settle {}) acc).All Q := by
    intro groups
    induction groups with
    | nil => intro acc h; exact h
    | cons group groups ih => intro acc h; exact ih _ (h.settle (hQ.wait _ _))
  exact hfold _ _ h

end Script

/-- **The lines up to the synchronizations are of the kinds that the plan adds.** -/
theorem RuntimePlan.instructionScript_all {plan : RuntimePlan} {rank : CInt} {Q : Act → Prop}
    (hQ : Act.Added plan rank Q) (hbind : ∀ id ∈ plan.localExternals rank, Q (.bind id))
    (hcheck : Q (.checkInputs (plan.localExternals rank).length)) :
    (plan.instructionScript rank).finishAll.All Q := by
  have hinputs : (plan.inputLines rank).All Q := by
    intro line hline
    rcases List.mem_append.1 hline with hline | hline
    · obtain ⟨id, hid, rfl⟩ := List.mem_map.1 hline
      exact hbind id hid
    · rw [List.mem_singleton.1 hline]
      exact hcheck
  have hinitial : (plan.initialScript rank).All Q :=
    (hinputs.addPhase hQ plan.initialization fun i hi => by simp [instructions, hi]).finishAll hQ
  exact ((hinitial.addPhase hQ plan.execution fun i hi => by simp [instructions, hi]).addPhase hQ
    plan.finalization fun i hi => by simp [instructions, hi]).finishAll hQ

/-- **The lines of a script come from the plan.** -/
theorem RuntimePlan.script_sourced (plan : RuntimePlan) (rank : CInt) :
    (plan.script rank).All (Act.Sourced plan rank) := by
  have hadded : Act.Added plan rank (Act.Sourced plan rank) :=
    ⟨fun _ _ => trivial, fun _ _ => trivial, fun i hi op hbody hl => ⟨⟨i, hi, hbody⟩, hl⟩,
      fun i hi op hbody hr => ⟨⟨i, hi, hbody⟩, hr⟩⟩
  intro line hline
  rcases List.mem_append.1 hline with hline | hline
  · exact instructionScript_all hadded (fun _ hid => hid) rfl line hline
  · obtain ⟨id, hid, rfl⟩ := List.mem_map.1 hline
    exact hid

/-! ## Lines at their position -/

section
variable {V : Type} {cfg : RunConfig V} {spec : OperatorSpec} {acc : Script} {line : Line}

/-- The actions posted so far are the first ones of the plan. -/
theorem RunConfig.Next.posts (hacc : Accepted (SequentialRuntime.plan cfg) spec)
    (h : cfg.Next acc line) : ∃ rest, (SequentialRuntime.plan cfg).actions =
      acc.posts ++ line.act.post?.toList ++ rest := by
  obtain ⟨rest, hscript⟩ := h
  have hposts : ((SequentialRuntime.plan cfg).script cfg.rank).posts =
      (SequentialRuntime.plan cfg).actions := hacc.script_posts
  rw [hscript, ← List.singleton_append, ← List.append_assoc, Script.posts_append,
    Script.posts_append, Script.posts_singleton] at hposts
  exact ⟨_, hposts.symm⟩

theorem RunConfig.Next.ok (hacc : Accepted (SequentialRuntime.plan cfg) spec)
    (h : cfg.Next acc line) : Script.LineOk cfg.rank acc line := by
  obtain ⟨rest, hscript⟩ := h
  exact hacc.script_ordered.line hscript

theorem RunConfig.Next.sourced (h : cfg.Next acc line) :
    line.act.Sourced (SequentialRuntime.plan cfg) cfg.rank := by
  obtain ⟨rest, hscript⟩ := h
  exact RuntimePlan.script_sourced _ _ line (by rw [hscript]; simp)

/-- An action of an accepted plan. -/
theorem PlanVerifier.Accepted.action_ok {plan : RuntimePlan} (hacc : Accepted plan spec)
    {a : CommAction} (ha : a ∈ plan.actions) :
    ∃ defs ids id d, CommOk plan defs ids a id d := by
  obtain ⟨g, hg⟩ := List.getElem?_of_mem ha
  have hg' : (actionsOf plan.instructions)[g]? = some a := hg
  obtain ⟨defs, ids, id, d, hok, -⟩ := hacc.action (List.append_nil _).symm hg'
  exact ⟨defs, ids, id, d, hok⟩

end

/-! ## Backends -/

variable {Op' : Type} {Ans' : Op' → Type} {W H : Type} [Preorder W]

/-- What a backend keeps, over the worlds of a protocol, after the lines of the
    script of a rank: `slots` are the slots of the bundle, `polyDegree` is what the
    Api took from its preflight. -/
structure Backend (cfg : RunConfig VecValue) (slots : List (String × List Double))
    (polyDegree : ℕ) (P : Protocol Op' Ans' W)
    (h : ∀ op : ApiOp VecValue H, ℕ → Prog Op' Ans' (op.Ans × ℕ)) where
  /-- the lines have been executed -/
  At : W → Script → Prop
  Val : W → ValueId → VecValue → Prop
  /-- the handle of a group that has not been waited for -/
  Group : W → ℕ → CommAction → H → Prop
  Err : W → Failure → Prop
  val_mono : ∀ {w w' id v}, w ≤ w' → Val w id v → Val w' id v
  group_mono : ∀ {w w' g a handle}, w ≤ w' → Group w g a handle → Group w' g a handle
  validate_eq : ∀ v d, h (.validateValue v d) polyDegree =
    .ret (validateValue polyDegree v d, polyDegree)
  encode_eq : ∀ d values, h (.encodePlaintext d values) polyDegree =
    .ret (encodePlaintext polyDegree d values, polyDegree)
  bind : ∀ {w acc context id}, cfg.Next acc ⟨context, .bind id⟩ → At w acc →
    match cfg.localInputs.lookup id with
    | some v => At w (acc ++ [⟨context, .bind id⟩]) ∧
        Checked cfg polyDegree (Val w id) (Err w) id v
    | none => Err w (.runtime (.missingInput id))
  checkInputs : ∀ {w acc context expected}, cfg.Next acc ⟨context, .checkInputs expected⟩ →
    At w acc →
      if cfg.localInputs.length ≠ expected then Err w (.runtime .unexpectedInputs)
      else At w (acc ++ [⟨context, .checkInputs expected⟩])
  encode : ∀ {w acc context op d values}, cfg.Next acc ⟨context, .encode op⟩ → At w acc →
    (SequentialRuntime.plan cfg).desc? op.output = some d →
    SequentialRuntime.payloadSlots slots op.payload = .ok values →
    match encodePlaintext polyDegree d (values.map Double.normalizeZero) with
    | .ok v => At w (acc ++ [⟨context, .encode op⟩]) ∧
        Checked cfg polyDegree (Val w op.output) (Err w) op.output v
    | .error fault => Err w (.api fault)
  compute : ∀ {w acc context op inputs}, cfg.Next acc ⟨context, .compute op⟩ → At w acc →
    List.Forall₂ (Val w) op.inputs inputs →
    Prog.Meets P (fun w' r => w ≤ w' ∧ r.2 = polyDegree ∧ match r.1 with
      | .ok v => At w' (acc ++ [⟨context, .compute op⟩]) ∧
          Checked cfg polyDegree (Val w' op.output) (Err w') op.output v
      | .error fault => Err w' (.api fault)) w (h (.compute op inputs) polyDegree)
  post : ∀ {w acc context g a inputs}, cfg.Next acc ⟨context, .post g a⟩ → At w acc →
    List.Forall₂ (Val w) (a.localInputs cfg.rank) inputs →
    Prog.Meets P (fun w' r => w ≤ w' ∧ r.2 = polyDegree ∧ match r.1 with
      | .ok handle => At w' (acc ++ [⟨context, .post g a⟩]) ∧ Group w' g a handle
      | .error fault => Err w' (.api fault)) w (h (.communicateAsync a inputs) polyDegree)
  wait : ∀ {w acc context g a handle}, cfg.Next acc ⟨context, .wait g a⟩ → At w acc →
    Group w g a handle →
    Prog.Meets P (fun w' r => w ≤ w' ∧ r.2 = polyDegree ∧ match r.1 with
      | .ok (outputs, _) =>
        if outputs.length ≠ (a.localOutputs cfg.rank).length then
          Err w' (.runtime .wrongOutputCount)
        else At w' (acc ++ [⟨context, .wait g a⟩]) ∧
          List.Forall₂ (fun id => Checked cfg polyDegree (Val w' id) (Err w') id)
            (a.localOutputs cfg.rank) outputs
      | .error fault => Err w' (.api fault)) w (h (.wait handle) polyDegree)
  sync : ∀ {w acc context id v}, cfg.Next acc ⟨context, .sync id⟩ → At w acc → Val w id v →
    Prog.Meets P (fun w' r => w ≤ w' ∧ r.2 = polyDegree ∧ match r.1 with
      | .ok v' => At w' (acc ++ [⟨context, .sync id⟩]) ∧ Val w' id v'
      | .error fault => Err w' (.api fault)) w (h (.synchronize v) polyDegree)

namespace Backend

open SequentialRuntime

variable {cfg : RunConfig VecValue} {slots : List (String × List Double)} {n : ℕ}
  {P : Protocol Op' Ans' W} {h : ∀ op : ApiOp VecValue H, ℕ → Prog Op' Ans' (op.Ans × ℕ)}
  (B : Backend cfg slots n P h)

/-- What holds after the lines `acc`. -/
structure Kept (w : W) (acc : Script) (e : ScriptState VecValue H) : Prop where
  lines : B.At w acc
  known : ∀ id ∈ acc.ready cfg.rank, (e.values id).isSome
  values : ∀ id v, e.values id = some v → B.Val w id v
  groups : ∀ g a, acc.posts[g]? = some a → ¬ acc.Waited g →
    ∃ handle, e.handles g = some handle ∧ B.Group w g a handle
  bundle : e.bundleSlots = slots

/-- The end of some lines: they are kept, or an exception is accounted for. -/
abbrev Done (acc : Script) : W → Unit → ScriptState VecValue H → ℕ → Prop :=
  fun w _ e l => B.Kept w acc e ∧ l = n

abbrev Failed : W → Failure → ScriptState VecValue H → ℕ → Prop := fun w f _ _ => B.Err w f

variable {B} {w w' : W} {acc : Script} {e : ScriptState VecValue H}

theorem Kept.setContext (hk : B.Kept w acc e) (context : Context) :
    B.Kept w acc { e with context := context } := ⟨hk.lines, hk.known, hk.values, hk.groups, hk.bundle⟩

/-- The values of some ids that are ready. -/
theorem Kept.read (hk : B.Kept w acc e) {ids : List ValueId}
    (hids : ∀ id ∈ ids, id ∈ acc.ready cfg.rank) :
    ∃ values, ids.map e.values = values.map some ∧ List.Forall₂ (B.Val w) ids values := by
  induction ids with
  | nil => exact ⟨[], rfl, .nil⟩
  | cons id ids ih =>
    obtain ⟨v, hv⟩ := Option.isSome_iff_exists.1 (hk.known id (hids id List.mem_cons_self))
    obtain ⟨values, hmap, hvals⟩ := ih fun id hid => hids id (List.mem_cons_of_mem _ hid)
    exact ⟨v :: values, by rw [List.map_cons, List.map_cons, hv, hmap], .cons (hk.values id v hv) hvals⟩

/-- Values of some ids have been stored, each good in the world. -/
structure Stores (B : Backend cfg slots n P h) (w : W) (ids : List ValueId)
    (e e' : ScriptState VecValue H) : Prop where
  known : ∀ id, (e.values id).isSome ∨ id ∈ ids → (e'.values id).isSome
  values : ∀ id v, e'.values id = some v → e.values id = some v ∨ B.Val w id v
  handles : e'.handles = e.handles
  bundle : e'.bundleSlots = e.bundleSlots

theorem Stores.refl : Stores B w [] e e := ⟨by simp, fun _ _ => Or.inl, rfl, rfl⟩

theorem Stores.set (e : ScriptState VecValue H) {id : ValueId} {v : VecValue} (hv : B.Val w id v) :
    Stores B w [id] e (e.setValue id v) := by
  refine ⟨fun id' hid' => ?_, fun id' v' hv' => ?_, rfl, rfl⟩
  · show (Function.update e.values id (some v) id').isSome
    by_cases he : id' = id
    · rw [he, Function.update_self]
      rfl
    · rw [Function.update_of_ne he]
      exact hid'.resolve_right (by simpa using he)
  · change Function.update e.values id (some v) id' = some v' at hv'
    by_cases he : id' = id
    · subst he
      rw [Function.update_self] at hv'
      exact Or.inr (Option.some.inj hv' ▸ hv)
    · rw [Function.update_of_ne he] at hv'
      exact Or.inl hv'

theorem Stores.trans {ids ids' : List ValueId} {e' e'' : ScriptState VecValue H}
    (h₁ : Stores B w ids e e') (h₂ : Stores B w ids' e' e'') : Stores B w (ids ++ ids') e e'' := by
  refine ⟨fun id hid => h₂.known id ?_, fun id v hv => ?_, h₂.handles.trans h₁.handles,
    h₂.bundle.trans h₁.bundle⟩
  · rcases hid with hid | hid
    · exact Or.inl (h₁.known id (Or.inl hid))
    · rcases List.mem_append.1 hid with hid | hid
      exacts [Or.inl (h₁.known id (Or.inr hid)), Or.inr hid]
  · rcases h₂.values id v hv with hv | hv
    exacts [h₁.values id v hv, Or.inr hv]

/-- A line that stores values and touches no group. -/
theorem Kept.next (hk : B.Kept w acc e) (hle : w ≤ w') {line : Line}
    {e' : ScriptState VecValue H} (hlines : B.At w' (acc ++ [line]))
    (hstores : Stores B w' (line.act.defines cfg.rank) e e')
    (hgroups : ∀ g a, (acc ++ [line]).posts[g]? = some a → ¬ Script.Waited (acc ++ [line]) g →
      acc.posts[g]? = some a ∧ ¬ acc.Waited g) :
    B.Kept w' (acc ++ [line]) e' := by
  refine ⟨hlines, fun id hid => hstores.known id ?_, fun id v hv => ?_, fun g a hg hw => ?_,
    hstores.bundle.trans hk.bundle⟩
  · rw [Script.ready_append, Script.ready_singleton, List.mem_append] at hid
    exact hid.imp_left (hk.known id)
  · rcases hstores.values id v hv with hv | hv
    exacts [B.val_mono hle (hk.values id v hv), hv]
  · obtain ⟨hg, hw⟩ := hgroups g a hg hw
    obtain ⟨handle, hhandle, hgroup⟩ := hk.groups g a hg hw
    exact ⟨handle, hstores.handles ▸ hhandle, B.group_mono hle hgroup⟩

/-- Such a line leaves the open groups. -/
theorem open_of_silent {line : Line} (hpost : line.act.post? = none)
    (hwait : line.act.wait? = none) (g : ℕ) (a : CommAction)
    (hg : (acc ++ [line]).posts[g]? = some a) (hw : ¬ Script.Waited (acc ++ [line]) g) :
    acc.posts[g]? = some a ∧ ¬ acc.Waited g := by
  rw [Script.posts_append, Script.posts_singleton, hpost] at hg
  rw [Script.waited_append, Script.waited_singleton, hwait] at hw
  exact ⟨by simpa using hg, fun hw' => hw (Or.inl hw')⟩

/-! ### The calls -/

section
variable {α : Type}

theorem desc_eq_ok {id : ValueId} {d : ValueDesc} (hd : (plan cfg).desc? id = some d) :
    desc (plan cfg) id = .ok d := by rw [desc, hd]

/-- A call with what follows it. -/
theorem ensures_api {op : ApiOp VecValue H} {G : W → op.Result → Prop}
    {Q : W → α → ScriptState VecValue H → ℕ → Prop} {f : op.Result → ScriptComp VecValue H α}
    (hm : Prog.Meets P (fun w' r => r.2 = n ∧ match r.1 with
      | .ok a => G w' a
      | .error fault => B.Err w' (.api fault)) w (h op n))
    (hf : ∀ w' a, G w' a → Comp.Ensures P h Q B.Failed (f a) w' e n) :
    Comp.Ensures P h Q B.Failed (scriptApi op >>= f) w e n := by
  refine Comp.Ensures.bind (Q := fun w' a e' l => e' = e ∧ l = n ∧ G w' a) ?_ ?_
  · rw [scriptApi, Comp.ensures_call]
    refine hm.mono ?_
    rintro w' ⟨a | a, l⟩ ⟨hl, hr⟩
    · exact hr
    · exact ⟨rfl, hl, hr⟩
  · rintro w' a _ _ ⟨rfl, rfl, hg⟩
    exact hf w' a hg

/-- A check with what follows it. -/
theorem ensures_validate {Good : VecValue → Prop} {Q : W → α → ScriptState VecValue H → ℕ → Prop}
    {f : Unit → ScriptComp VecValue H α} {id : ValueId} {d : ValueDesc} {v : VecValue}
    (hd : (plan cfg).desc? id = some d) (hcheck : Checked cfg n Good (B.Err w) id v)
    (hf : Good v → Comp.Ensures P h Q B.Failed (f ()) w e n) :
    Comp.Ensures P h Q B.Failed (scriptApi (.validateValue v d) >>= f) w e n := by
  refine ensures_api (G := fun w' _ => w' = w ∧ Good v) ?_ ?_
  · rw [B.validate_eq, Prog.meets_ret]
    refine ⟨rfl, ?_⟩
    have := hcheck d hd
    cases hv : validateValue n v d with
    | ok u =>
      rw [hv] at this
      exact ⟨rfl, this⟩
    | error fault =>
      rw [hv] at this
      exact this
  · rintro _ u ⟨rfl, hgood⟩
    exact hf hgood

/-- The outputs of a wait are checked and stored. -/
theorem receiveOutputs_ensures {ids : List ValueId} {outputs : List VecValue}
    {e : ScriptState VecValue H} (hdesc : ∀ id ∈ ids, ∃ d, (plan cfg).desc? id = some d)
    (houtputs : List.Forall₂ (fun id => Checked cfg n (B.Val w id) (B.Err w) id) ids outputs) :
    Comp.Ensures P h (fun w' _ e' l => w' = w ∧ l = n ∧ Stores B w ids e e') B.Failed
      (receiveOutputs cfg (ids.zip outputs)) w e n := by
  induction houtputs generalizing e with
  | nil => exact (Comp.ensures_ret (r := .ok ()) (t := e) rfl).2 ⟨rfl, rfl, .refl⟩
  | @cons id v ids outputs hv hrest ih =>
    obtain ⟨d, hd⟩ := hdesc id List.mem_cons_self
    rw [List.zip_cons_cons, receiveOutputs, desc_eq_ok hd, Comp.ensures_ofExcept]
    refine ensures_validate hd hv fun hgood => ?_
    rw [setValue, Comp.ensures_modify]
    refine (ih fun id' hid' => hdesc id' (List.mem_cons_of_mem _ hid')).mono ?_
      fun _ _ _ _ hf => hf
    rintro w' _ e' l ⟨rfl, rfl, hstores⟩
    exact ⟨rfl, rfl, (Stores.set e hgood).trans hstores⟩

end

/-! ### The lines -/

section
variable {spec : OperatorSpec} (hacc : Accepted (plan cfg) spec) (hslots : SlotsOk cfg slots)

/-- A value that a line makes ready has a descriptor. -/
theorem desc_of_defines (hacc : Accepted (plan cfg) spec) {line : Line}
    (hnext : cfg.Next acc line) {id : ValueId} (hid : id ∈ line.act.defines cfg.rank) :
    ∃ d, (plan cfg).desc? id = some d := by
  obtain ⟨rest, hscript⟩ := hnext
  have hsync : ((plan cfg).syncLines cfg.rank).ready cfg.rank = [] := by
    simp [RuntimePlan.syncLines, Script.ready, Act.defines]
  have hready : id ∈ ((plan cfg).instructionScript cfg.rank).finishAll.ready cfg.rank := by
    have hmem : id ∈ ((plan cfg).script cfg.rank).ready cfg.rank := by
      rw [hscript]
      exact List.mem_flatMap.2 ⟨line, by simp, hid⟩
    rwa [RuntimePlan.script, Script.ready_append, hsync, List.append_nil] at hmem
  obtain ⟨⟨d, hd, -⟩, -⟩ := hacc.finished_ready.1 hready
  exact ⟨d, hd⟩

/-- A checked value is stored at the end of a line. -/
theorem store_ensures (hk : B.Kept w acc e) (hle : w ≤ w') {line : Line} {id : ValueId}
    {d : ValueDesc} {v : VecValue} (hd : (plan cfg).desc? id = some d)
    (hlines : B.At w' (acc ++ [line])) (hdef : line.act.defines cfg.rank = [id])
    (hpost : line.act.post? = none) (hwait : line.act.wait? = none)
    (hcheck : Checked cfg n (B.Val w' id) (B.Err w') id v) :
    Comp.Ensures P h (B.Done (acc ++ [line])) B.Failed
      (scriptApi (.validateValue v d) >>= fun _ => setValue id v) w' e n := by
  refine ensures_validate hd hcheck fun hgood => ?_
  refine (Comp.ensures_ret (r := .ok ()) (t := e.setValue id v) rfl).2 ⟨?_, rfl⟩
  exact hk.next hle hlines (hdef ▸ Stores.set e hgood) (open_of_silent hpost hwait)

include hacc hslots in
theorem line_ensures (hk : B.Kept w acc e) {line : Line} (hnext : cfg.Next acc line) :
    Comp.Ensures P h (B.Done (acc ++ [line])) B.Failed (execLine cfg line) w e n := by
  have hok := hnext.ok hacc
  obtain ⟨context, act⟩ := line
  rw [execLine, Comp.ensures_modify]
  replace hk := hk.setContext context
  generalize he : ({ e with context := context } : ScriptState VecValue H) = e' at hk
  clear he
  cases act with
  | bind id =>
    obtain ⟨d, hd⟩ := desc_of_defines hacc hnext (List.mem_singleton.2 rfl)
    have hbind := B.bind hnext hk.lines
    rw [Act.exec, desc_eq_ok hd, Comp.ensures_ofExcept]
    dsimp only
    cases hv : cfg.localInputs.lookup id with
    | none =>
      rw [hv] at hbind
      exact (Comp.ensures_ret (r := .error _) (t := e') rfl).2 hbind
    | some v =>
      rw [hv] at hbind
      exact store_ensures hk le_rfl hd hbind.1 rfl rfl rfl hbind.2
  | checkInputs expected =>
    have hcheck := B.checkInputs hnext hk.lines
    rw [Act.exec]
    refine (Comp.ensures_ret (Comp.throwIf_apply _ _)).2 ?_
    split_ifs at hcheck with hlen
    · rw [if_pos hlen]
      exact hcheck
    · rw [if_neg hlen]
      exact ⟨hk.next le_rfl hcheck Stores.refl (open_of_silent rfl rfl), rfl⟩
  | encode op =>
    obtain ⟨d, hd⟩ := desc_of_defines hacc hnext (List.mem_singleton.2 rfl)
    obtain ⟨⟨i, hi, hbody⟩, hlocal⟩ := hnext.sourced
    obtain ⟨values, hvalues⟩ := hslots i hi op hbody hlocal
    have hencode := B.encode hnext hk.lines hd hvalues
    rw [Act.exec, desc_eq_ok hd, Comp.ensures_ofExcept]
    dsimp only
    rw [Comp.ensures_get, hk.bundle, hvalues, Comp.ensures_ofExcept]
    dsimp only
    refine ensures_api (G := fun w' v => w' = w ∧ B.At w (acc ++ [⟨context, .encode op⟩]) ∧
      Checked cfg n (B.Val w op.output) (B.Err w) op.output v) ?_ ?_
    · rw [B.encode_eq, Prog.meets_ret]
      refine ⟨rfl, ?_⟩
      cases hv : encodePlaintext n d (values.map Double.normalizeZero) with
      | ok v =>
        rw [hv] at hencode
        exact ⟨rfl, hencode⟩
      | error fault =>
        rw [hv] at hencode
        exact hencode
    · rintro _ v ⟨rfl, hlines, hcheck⟩
      exact store_ensures hk le_rfl hd hlines rfl rfl rfl hcheck
  | compute op =>
    obtain ⟨d, hd⟩ := desc_of_defines hacc hnext (List.mem_singleton.2 rfl)
    obtain ⟨inputs, hread, hinputs⟩ : ∃ inputs : List VecValue,
        op.inputs.map e'.values = inputs.map some ∧ List.Forall₂ (B.Val w) op.inputs inputs :=
      hk.read hok.reads
    rw [Act.exec, Comp.ensures_congr (readValues_bind hread _)]
    refine ensures_api (G := fun w' v => w ≤ w' ∧ B.At w' (acc ++ [⟨context, .compute op⟩]) ∧
      Checked cfg n (B.Val w' op.output) (B.Err w') op.output v) ?_ ?_
    · refine (B.compute hnext hk.lines hinputs).mono ?_
      rintro w' ⟨r, l⟩ ⟨hle, hl, hr⟩
      cases r with
      | ok v => exact ⟨hl, hle, hr⟩
      | error fault => exact ⟨hl, hr⟩
    · rintro w' v ⟨hle, hlines, hcheck⟩
      rw [Comp.ensures_modify, desc_eq_ok hd, Comp.ensures_ofExcept]
      have hk' : B.Kept w acc { e' with timing := RuntimeTiming.addCompute e'.timing op.kind } :=
        ⟨hk.lines, hk.known, hk.values, hk.groups, hk.bundle⟩
      exact store_ensures hk' hle hd hlines rfl rfl rfl hcheck
  | post g a =>
    obtain ⟨inputs, hread, hinputs⟩ : ∃ inputs : List VecValue,
        (a.localInputs cfg.rank).map e'.values = inputs.map some ∧
          List.Forall₂ (B.Val w) (a.localInputs cfg.rank) inputs := hk.read hok.reads
    rw [Act.exec, Comp.ensures_congr (readValues_bind hread _)]
    refine ensures_api (G := fun w' handle => w ≤ w' ∧ B.At w' (acc ++ [⟨context, .post g a⟩]) ∧
      B.Group w' g a handle) ?_ ?_
    · refine (B.post hnext hk.lines hinputs).mono ?_
      rintro w' ⟨r, l⟩ ⟨hle, hl, hr⟩
      cases r with
      | ok handle => exact ⟨hl, hle, hr⟩
      | error fault => exact ⟨hl, hr⟩
    · rintro w' handle ⟨hle, hlines, hgroup⟩
      refine (Comp.ensures_ret (r := .ok ()) (t := { e'.setHandle g handle with
        timing := RuntimeTiming.addPost e'.timing }) rfl).2 ⟨?_, rfl⟩
      refine ⟨hlines, fun id hid => ?_, fun id v hv => B.val_mono hle (hk.values id v hv),
        fun g' a' hg' hw' => ?_, hk.bundle⟩
      · rw [Script.ready_append, Script.ready_singleton] at hid
        exact hk.known id ((List.mem_append.1 hid).resolve_right (by simp [Act.defines]))
      · rw [Script.posts_append, Script.posts_singleton] at hg'
        rw [Script.waited_append, Script.waited_singleton] at hw'
        show ∃ handle', Function.update e'.handles g (some handle) g' = some handle' ∧ _
        obtain rfl := hok.post g a rfl
        by_cases heq : g' = acc.posts.length
        · subst heq
          obtain rfl : a' = a := by simpa [Act.post?, eq_comm] using hg'
          exact ⟨handle, Function.update_self .., hgroup⟩
        · rw [Function.update_of_ne heq]
          have hlt : g' < acc.posts.length := by
            obtain ⟨hlt, -⟩ := List.getElem?_eq_some_iff.1 hg'
            simp only [Act.post?, Option.toList_some, List.length_append, List.length_cons,
              List.length_nil] at hlt
            omega
          rw [List.getElem?_append_left hlt] at hg'
          obtain ⟨handle', hhandle', hgroup'⟩ := hk.groups g' a' hg' fun hw => hw' (Or.inl hw)
          exact ⟨handle', hhandle', B.group_mono hle hgroup'⟩
  | wait g a =>
    obtain ⟨hg, hw⟩ := hok.wait g a rfl
    obtain ⟨handle, hhandle, hgroup⟩ := hk.groups g a hg hw
    rw [Act.exec, Comp.ensures_get, hhandle]
    dsimp only
    refine ensures_api (G := fun w' (r : (ApiOp.wait handle : ApiOp VecValue H).Result) => w ≤ w' ∧
      if r.1.length ≠ (a.localOutputs cfg.rank).length then B.Err w' (.runtime .wrongOutputCount)
      else B.At w' (acc ++ [⟨context, .wait g a⟩]) ∧
        List.Forall₂ (fun id => Checked cfg n (B.Val w' id) (B.Err w') id)
          (a.localOutputs cfg.rank) r.1) ?_ ?_
    · refine (B.wait hnext hk.lines hgroup).mono ?_
      rintro w' ⟨r, l⟩ ⟨hle, hl, hr⟩
      cases r with
      | ok r => exact ⟨hl, hle, hr⟩
      | error fault => exact ⟨hl, hr⟩
    · rintro w' ⟨outputs, handle'⟩ ⟨hle, hr⟩
      dsimp only at hr ⊢
      rw [Comp.ensures_modify, Comp.ensures_throwIf]
      split_ifs at hr with hlen
      · rw [if_pos hlen]
        exact hr
      · rw [if_neg hlen]
        obtain ⟨hlines, hchecked⟩ := hr
        refine (receiveOutputs_ensures (fun id hid => desc_of_defines hacc hnext hid)
          hchecked).mono ?_ fun _ _ _ _ hf => hf
        rintro w'' _ e'' l ⟨rfl, rfl, hstores⟩
        refine ⟨⟨hlines, fun id hid => hstores.known id ?_, fun id v hv => ?_,
          fun g' a' hg' hw' => ?_, hstores.bundle.trans hk.bundle⟩, rfl⟩
        · rw [Script.ready_append, Script.ready_singleton, List.mem_append] at hid
          exact hid.imp_left (hk.known id)
        · rcases hstores.values id v hv with hv | hv
          exacts [B.val_mono hle (hk.values id v hv), hv]
        · rw [Script.posts_append, Script.posts_singleton] at hg'
          rw [Script.waited_append, Script.waited_singleton, not_or] at hw'
          have hne : g' ≠ g := fun heq => hw'.2 (by rw [heq]; rfl)
          obtain ⟨handle'', hhandle'', hgroup'⟩ :=
            hk.groups g' a' (by simpa [Act.post?] using hg') hw'.1
          refine ⟨handle'', ?_, B.group_mono hle hgroup'⟩
          rw [hstores.handles]
          show Function.update e'.handles g (some handle') g' = some handle''
          rw [Function.update_of_ne hne]
          exact hhandle''
  | sync id =>
    obtain ⟨v, hv⟩ := Option.isSome_iff_exists.1 (hk.known id (hok.reads id (by simp [Act.reads])))
    have hread : (readValue id : ScriptComp VecValue H VecValue) e' = .ret (.ok v, e') := by
      simp [readValue, hv]
    rw [Act.exec]
    have hbind (f : VecValue → ScriptComp VecValue H Unit) :
        (readValue id >>= f) e' = f v e' := by
      rw [Comp.bind_apply, hread]
      rfl
    rw [Comp.ensures_congr (hbind _)]
    refine ensures_api (G := fun w' v' => w ≤ w' ∧ B.At w' (acc ++ [⟨context, .sync id⟩]) ∧
      B.Val w' id v') ?_ ?_
    · refine (B.sync hnext hk.lines (hk.values id v hv)).mono ?_
      rintro w' ⟨r, l⟩ ⟨hle, hl, hr⟩
      cases r with
      | ok v' => exact ⟨hl, hle, hr⟩
      | error fault => exact ⟨hl, hr⟩
    · rintro w' v' ⟨hle, hlines, hval⟩
      refine (Comp.ensures_ret (r := .ok ()) (t := e'.setValue id v') rfl).2 ⟨?_, rfl⟩
      have hset := Stores.set e' hval
      have hstores : Stores B w' [] e' (e'.setValue id v') :=
        ⟨fun id' hid' => hset.known id' (hid'.imp_right (by simp)), hset.values, hset.handles,
          hset.bundle⟩
      exact hk.next hle hlines hstores (open_of_silent rfl rfl)

include hacc hslots in
/-- **The rest of a script is kept.** -/
theorem execScript_ensures (rest : Script) : ∀ {w : W} {acc : Script}
    {e : ScriptState VecValue H}, B.Kept w acc e →
    (plan cfg).script cfg.rank = acc ++ rest →
    Comp.Ensures P h (B.Done ((plan cfg).script cfg.rank)) B.Failed (execScript cfg rest) w e n := by
  induction rest with
  | nil =>
    intro w acc e hk hscript
    refine (Comp.ensures_ret (r := .ok ()) (t := e) rfl).2 ⟨?_, rfl⟩
    rwa [hscript, List.append_nil]
  | cons line rest ih =>
    intro w acc e hk hscript
    rw [execScript]
    refine Comp.Ensures.bind (line_ensures hacc hslots hk ⟨rest, hscript⟩) ?_
    rintro w' _ e' l ⟨hk', rfl⟩
    exact ih hk' (by rw [hscript, List.append_assoc]; rfl)

end

/-! ### The run -/

/-- An artifact that a run returns. -/
structure Returned (B : Backend cfg slots n P h) (w : W) (artifact : RunArtifact VecValue) :
    Prop where
  lines : B.At w ((plan cfg).script cfg.rank)
  values : ∀ id place v, artifact.values id = some (place, v) → B.Val w id v
  holds : ∀ id ∈ (plan cfg).definitions, (plan cfg).IsLocal cfg.rank id →
    retainAllValues cfg = true ∨ id ∈ (plan cfg).finalOutputs → (artifact.values id).isSome

section
variable {env : Environment} {requirements : PlanRequirements} {w₀ : W}
  (hverify : verifyPlan cfg = .ok requirements) (hbundle : bundleSlotsOf cfg env = .ok slots)
  (hpreflight : Prog.Meets P (fun w' r => match r.1 with
      | .ok _ => r.2 = n ∧ B.At w' []
      | .error fault => B.Err w' (.api fault)) w₀
    (h (.preflight cfg.loadedPlan.sourceSha256 cfg.resources.skipArtifactDigestChecks
      (plan cfg).target cfg.resources.operatorSpec.spec requirements) 0))
include hverify hbundle hpreflight

/-- The body of the `try`: its artifact holds the local values, as the world knows
    them. -/
theorem body_ensures : Comp.Ensures P h (fun w artifact _ _ => B.Returned w artifact)
    B.Failed (scriptBody cfg env requirements) w₀ {} 0 := by
  have hacc := accepted_of_verifyPlan hverify
  have hslots : SlotsOk cfg slots := by
    have := bundleSlotsOf_spec hacc env
    rwa [hbundle] at this
  rw [scriptBody]
  refine Comp.Ensures.bind (Q := fun w' _ e l => B.Kept w' [] e ∧ l = n) ?_ ?_
  · rw [scriptPrelude, hbundle, Comp.ensures_ofExcept]
    dsimp only
    rw [Comp.ensures_modify, scriptApi, Comp.ensures_call]
    refine hpreflight.mono ?_
    rintro w' ⟨r, l⟩ hr
    cases r with
    | ok u => exact ⟨⟨hr.2, by simp, fun id v hv => (by cases hv), by simp, rfl⟩, hr.1⟩
    | error fault => exact hr
  · rintro w' _ e l ⟨hk, rfl⟩
    refine Comp.Ensures.bind (execScript_ensures hacc hslots _ hk rfl) ?_
    rintro w'' _ e' l ⟨hk', rfl⟩
    rw [Comp.ensures_get]
    refine (Comp.ensures_ret (r := .ok _) (t := e') rfl).2
      ⟨hk'.lines, fun id place v hv => ?_, fun id hid hlocal hretain => ?_⟩
    · unfold scriptArtifact at hv
      dsimp only at hv
      split_ifs at hv
      simp only [Option.bind_eq_bind, Option.bind_eq_some_iff] at hv
      obtain ⟨d, -, v', hv', heq⟩ := hv
      obtain ⟨-, rfl⟩ := Prod.mk.inj (Option.some.inj heq)
      exact hk'.values id v' hv'
    · have hready : id ∈ ((plan cfg).script cfg.rank).ready cfg.rank := by
        rw [RuntimePlan.script, Script.ready_append]
        exact List.mem_append_left _ (hacc.finished_ready.2 ⟨hlocal, hid⟩)
      obtain ⟨v', hv'⟩ := Option.isSome_iff_exists.1 (hk'.known id hready)
      obtain ⟨d, hd, -⟩ := hlocal
      unfold scriptArtifact
      dsimp only
      rw [if_pos hretain, hd, hv']
      rfl

/-- **The run of a rank keeps to the protocol**, when its trace can be opened, its plan
    is accepted and its bundle loaded. -/
theorem run_meets (hopen : openTrace env cfg.rank = .ok ()) {Q : W → RunResult VecValue → Prop}
    (hreturned : ∀ w artifact, B.Returned w artifact → Q w (.returned artifact))
    (hcrashed : ∀ w failure, B.Err w failure → failure.isException = false → Q w .crashed)
    (habort : ∀ w failure reason l, B.Err w failure → failure.isException = true →
      Prog.Meets P (fun w r => Q w r.1) w (Prog.interp h (abortAll reason) l)) :
    Prog.Meets P (fun w r => Q w r.1) w₀ (Prog.interp h (run cfg env) 0) := by
  rw [run_eq_scriptRun env hverify, scriptRun, hopen]
  dsimp only
  rw [Prog.interp_bind]
  refine Prog.Meets.bind (body_ensures hverify hbundle hpreflight) ?_
  rintro w ⟨⟨r, e⟩, l⟩ hr
  cases r with
  | ok artifact => exact .ret (hreturned w artifact hr)
  | error failure =>
    show Prog.Meets P _ w (Prog.interp h (if failure.isException then abortAll
      (formatError cfg e.diagnostics failure.what) else .ret .crashed) l)
    split_ifs with hexc
    · exact habort w failure _ l hr hexc
    · exact .ret (hcrashed w failure hr (by simpa using hexc))

end

end Backend

namespace SequentialRuntime

variable {V H : Type} {cfg : RunConfig V} {env : Environment}

/-- A plan that is not accepted ends the run before any call but `abort_all`. -/
theorem run_of_verify_error (hopen : openTrace env cfg.rank = .ok ()) {failure : Failure}
    (hverify : verifyPlan cfg = .error failure) :
    run (H := H) cfg env = handle cfg (.error failure, {}) := by
  rw [run, hopen]
  dsimp only
  rw [body, setup, hverify]
  rfl

/-- So does a bundle that cannot be loaded. -/
theorem run_of_bundle_error (hopen : openTrace env cfg.rank = .ok ())
    {requirements : PlanRequirements} (hverify : verifyPlan cfg = .ok requirements)
    {failure : Failure} (hbundle : bundleSlotsOf cfg env = .error failure) :
    run (H := H) cfg env = handle cfg (.error failure, {}) := by
  rw [run_eq_scriptRun env hverify, scriptRun, hopen]
  dsimp only
  rw [scriptBody, scriptPrelude, hbundle]
  rfl

end SequentialRuntime

end CkksRuntime
