/-
  ckks-runtime formalization — the handles of a run.

  A run is observed by its log: every call to the Api with its answer.

  * `posted` and `waited` are the handles that `communicate_async` returned and
    those that `wait` was given, in order; `WaitsOnce` says that the waits are for
    different posts;
  * `HandsOver`: what comes from a communication is given to a call only after its
    wait and its check;
  * `Traced`: what the log says after some lines of the script, kept by every line
    (`line_traced`);
  * `handles_waited_once`: every run waits for a handle at most once, and a run
    that returns for every handle.
-/
import CkksRuntime.ScriptProtocol

namespace CkksRuntime

open Interaction PlanVerifier

/-- The calls of a run with their answers. -/
abbrev Log (V H : Type) := List (Event (ApiOp V H) ApiOp.Ans)

section
variable {V H : Type}

/-- The handle that a call to `communicate_async` returned. -/
def postedBy : Event (ApiOp V H) ApiOp.Ans → Option H
  | ⟨.communicateAsync .., .ok handle⟩ => some handle
  | _ => none

/-- The handle that a call to `wait` was given. -/
def waitedBy : Event (ApiOp V H) ApiOp.Ans → Option H
  | ⟨.wait handle, _⟩ => some handle
  | _ => none

def posted (log : Log V H) : List H := log.filterMap postedBy

def waited (log : Log V H) : List H := log.filterMap waitedBy

/-- The waits are for different posts. -/
def WaitsOnce (log : Log V H) : Prop :=
  ∃ groups : List ℕ, groups.Nodup ∧ (waited log).map some = groups.map fun g => (posted log)[g]?

/-- Every post has its wait. -/
def AllWaited (log : Log V H) : Prop :=
  ∃ groups : List ℕ, groups.Perm (List.range (posted log).length) ∧
    (waited log).map some = groups.map fun g => (posted log)[g]?

/-- The wait for post `g` has returned `v` in its slot, and `v` has been accepted as `id`. -/
def Delivered (plan : RuntimePlan) (log : Log V H) (g slot : ℕ) (id : ValueId) (v : V) : Prop :=
  ∃ before after handle outputs handle' d,
    log = before ++ ⟨.wait handle, .ok (outputs, handle')⟩ :: after ∧
      (posted before)[g]? = some handle ∧ outputs[slot]? = some v ∧ plan.desc? id = some d ∧
        ⟨.validateValue v d, .ok ()⟩ ∈ after

/-- What comes from a communication has been delivered. -/
def HandsOver (plan : RuntimePlan) (rank : CInt) (log : Log V H) (ids : List ValueId)
    (inputs : List V) : Prop :=
  ids.length = inputs.length ∧ ∀ (j : ℕ) (id : ValueId) (v : V),
    ids[j]? = some id → inputs[j]? = some v → ∀ g a slot, plan.actions[g]? = some a →
      (a.localOutputs rank)[slot]? = some id → Delivered plan log g slot id v

/-- What a rank may call after some calls. -/
def MayCall (cfg : RunConfig V) (past : Log V H) : ApiOp V H → Prop
  | .wait handle => ∀ ans, WaitsOnce (past ++ [⟨.wait handle, ans⟩])
  | .compute op inputs => HandsOver (SequentialRuntime.plan cfg) cfg.rank past op.inputs inputs
  | .communicateAsync action inputs =>
    HandsOver (SequentialRuntime.plan cfg) cfg.rank past (action.localInputs cfg.rank) inputs
  | _ => True

/-! ## Logs -/

theorem posted_append (log log' : Log V H) : posted (log ++ log') = posted log ++ posted log' :=
  List.filterMap_append ..

theorem waited_append (log log' : Log V H) : waited (log ++ log') = waited log ++ waited log' :=
  List.filterMap_append ..

theorem Delivered.append {plan : RuntimePlan} {log : Log V H} {g slot : ℕ} {id : ValueId} {v : V}
    (h : Delivered plan log g slot id v) (more : Log V H) :
    Delivered plan (log ++ more) g slot id v := by
  obtain ⟨before, after, handle, outputs, handle', d, rfl, hpost, hslot, hd, hmem⟩ := h
  exact ⟨before, after ++ more, handle, outputs, handle', d, by simp, hpost, hslot, hd,
    List.mem_append_left _ hmem⟩

/-- Posts keep their number. -/
theorem getElem?_posted_append {log more : Log V H} {g : ℕ} (h : g < (posted log).length) :
    (posted (log ++ more))[g]? = (posted log)[g]? := by
  rw [posted_append, List.getElem?_append_left h]

/-- The numbers of posts that a list of waits is for. -/
theorem lt_of_waits {log : Log V H} {groups : List ℕ}
    (h : (waited log).map some = groups.map fun g => (posted log)[g]?) {g : ℕ} (hg : g ∈ groups) :
    g < (posted log).length := by
  have hmem : (posted log)[g]? ∈ (waited log).map some := by
    rw [h]
    exact List.mem_map.2 ⟨g, hg, rfl⟩
  obtain ⟨handle, -, hhandle⟩ := List.mem_map.1 hmem
  exact (List.getElem?_eq_some_iff.1 hhandle.symm).1

/-- **A log whose calls were allowed waits once**, at every point. -/
theorem waitsOnce_of_mayCall {cfg : RunConfig V} (past : Log V H) :
    ∀ {rest : Log V H}, (∀ log₁ e log₂, past ++ rest = log₁ ++ e :: log₂ →
      MayCall cfg log₁ e.op) → WaitsOnce past := by
  induction past using List.reverseRecOn with
  | nil =>
    intro rest _
    exact ⟨[], List.nodup_nil, rfl⟩
  | append_singleton past e ih =>
    intro rest h
    have hcall := h past e rest (by simp)
    have hpast : ∀ log₁ e' log₂, past ++ e :: rest = log₁ ++ e' :: log₂ → MayCall cfg log₁ e'.op :=
      fun log₁ e' log₂ hsplit =>
        h log₁ e' log₂ (by rw [← hsplit, List.append_assoc, List.singleton_append])
    obtain ⟨groups, hnodup, hwaits⟩ := ih hpast
    obtain ⟨op, ans⟩ := e
    cases op with
    | wait handle => exact hcall ans
    | _ =>
      refine ⟨groups, hnodup, ?_⟩
      rw [waited_append, show waited [_] = [] from rfl, List.append_nil, hwaits]
      exact List.map_congr_left fun g hg => (getElem?_posted_append (lt_of_waits hwaits hg)).symm

end

/-! ## Scripts -/

namespace Script

variable {rank : CInt} {acc : Script} {line : Line} {g : ℕ} {a : CommAction}

/-- The groups waited for, in order. -/
def waits (acc : Script) : List ℕ := acc.filterMap fun line => line.act.wait?

theorem waits_append (acc acc' : Script) : waits (acc ++ acc') = acc.waits ++ waits acc' :=
  List.filterMap_append ..

theorem waits_singleton (line : Line) : waits [line] = line.act.wait?.toList := by
  unfold waits
  cases h : line.act.wait? <;> simp [h]

theorem mem_waits : g ∈ acc.waits ↔ acc.Waited g := by
  rw [waits, List.mem_filterMap, Waited, List.mem_map]

theorem waits_of_post?_ne (h : line.act.wait? = none) (acc : Script) :
    waits (acc ++ [line]) = acc.waits := by
  rw [waits_append, waits_singleton, h]
  simp

/-- A group that has been waited for, at its line. -/
theorem Waited.split (h : acc.Waited g) :
    ∃ before line after a, acc = before ++ line :: after ∧ line.act = .wait g a := by
  obtain ⟨line, hline, hwait⟩ := List.mem_map.1 h
  obtain ⟨before, after, rfl⟩ := List.append_of_mem hline
  obtain ⟨context, act⟩ := line
  cases act with
  | wait g' a =>
    obtain rfl : g' = g := Option.some.inj hwait
    exact ⟨before, _, after, a, rfl, rfl⟩
  | _ => cases hwait

theorem Ordered.of_append {script : Script} (h : script.Ordered rank) :
    ∀ {before after : Script}, script = before ++ after → before.Ordered rank := by
  induction h with
  | nil =>
    intro before after heq
    rw [(List.append_eq_nil_iff.1 heq.symm).1]
    exact .nil
  | @snoc acc last hacc hlast ih =>
    intro before after heq
    rcases List.eq_nil_or_concat after with rfl | ⟨after, line, rfl⟩
    · rw [← (List.append_nil before), ← heq]
      exact .snoc hacc hlast
    · rw [List.concat_eq_append, ← List.append_assoc] at heq
      exact ih (List.append_inj' heq rfl).1

/-- A group is waited for once. -/
theorem Ordered.nodup_waits (h : acc.Ordered rank) : acc.waits.Nodup := by
  induction h with
  | nil => exact List.nodup_nil
  | @snoc acc line _ hline ih =>
    rw [waits_append, waits_singleton]
    obtain ⟨context, act⟩ := line
    cases act with
    | wait g a =>
      rw [show (Act.wait g a).wait?.toList = [g] from rfl, List.nodup_append]
      refine ⟨ih, List.nodup_singleton g, ?_⟩
      rintro g' hg' _ hmem rfl
      rw [List.mem_singleton.1 hmem] at hg'
      exact (hline.wait g a rfl).2 (mem_waits.1 hg')
    | _ => simpa [Act.wait?] using ih

/-- The outputs of a group that has been waited for are ready. -/
theorem Ordered.ready_of_waited (h : acc.Ordered rank) (hg : acc.posts[g]? = some a)
    (hw : acc.Waited g) {id : ValueId} (hid : id ∈ a.localOutputs rank) : id ∈ acc.ready rank := by
  obtain ⟨before, line, after, a', rfl, hact⟩ := hw.split
  have hpost := ((h.line rfl).wait g a' hact).1
  rw [posts_append, List.getElem?_append_left (List.getElem?_eq_some_iff.1 hpost).1, hpost] at hg
  obtain rfl : a' = a := Option.some.inj hg
  rw [ready_append, List.mem_append]
  exact Or.inr (List.mem_flatMap.2 ⟨line, List.mem_cons_self, by rw [hact]; exact hid⟩)

end Script

namespace PlanVerifier.Accepted

variable {plan : RuntimePlan} {spec : OperatorSpec} {rank : CInt}

/-- An output of an action is ready only after its wait. -/
theorem waited_of_ready (hacc : Accepted plan spec) {acc rest : Script}
    (hscript : plan.script rank = acc ++ rest) {id : ValueId} (hid : id ∈ acc.ready rank) {g : ℕ}
    {a : CommAction} (hg : plan.actions[g]? = some a) (hout : id ∈ a.localOutputs rank) :
    acc.posts[g]? = some a ∧ acc.Waited g := by
  have hordered : (plan.script rank).Ordered rank := hacc.script_ordered
  have hw : (plan.script rank).Waited g :=
    hacc.script_waited.2 (List.getElem?_eq_some_iff.1 hg).1
  obtain ⟨before, line, after, a', hsplit, hact⟩ := hw.split
  have hok := hordered.line hsplit
  have hpost := (hok.wait g a' hact).1
  have hactions : ∀ (p q : Script) (b : CommAction), plan.script rank = p ++ q →
      p.posts[g]? = some b → b = a := by
    intro p q b hpq hb
    have hposts : p.posts ++ Script.posts q = plan.actions := by
      rw [← Script.posts_append, ← hpq, hacc.script_posts]
    rw [← hposts, List.getElem?_append_left (List.getElem?_eq_some_iff.1 hb).1, hb] at hg
    exact Option.some.inj hg
  obtain rfl := hactions before _ a' hsplit hpost
  rcases append_eq_split (hscript.symm.trans hsplit) with ⟨after', rfl⟩ | ⟨before', rfl, -⟩
  · refine ⟨?_, Script.waited_append.2 (Or.inr ?_)⟩
    · rw [Script.posts_append, List.getElem?_append_left (List.getElem?_eq_some_iff.1 hpost).1,
        hpost]
    · rw [← List.singleton_append, Script.waited_append, Script.waited_singleton, hact]
      exact Or.inl rfl
  · have hfresh := hok.fresh id (by rw [hact]; exact hout)
    rw [Script.ready_append] at hfresh
    exact absurd (List.mem_append_left _ hid) hfresh

end PlanVerifier.Accepted

namespace SequentialRuntime

variable {V H : Type} {cfg : RunConfig V} {spec : OperatorSpec} {acc : Script} {log : Log V H}
  {e : ScriptState V H}

/-! ## What a log says after some lines -/

/-- The acts other than a synchronization. -/
def Act.Keeps (act : Act) : Prop := ∀ id, act ≠ .sync id

/-- What holds of the log and of the state after the lines `acc`. -/
structure Traced (cfg : RunConfig V) (acc : Script) (log : Log V H) (e : ScriptState V H) :
    Prop where
  posts : (posted log).length = acc.posts.length
  handles : ∀ g < acc.posts.length, ¬ acc.Waited g → e.handles g = (posted log)[g]?
  waits : (waited log).map some = acc.waits.map fun g => (posted log)[g]?
  postCalls : e.timing.communicationPostCalls = acc.posts.length
  waitCalls : e.timing.communicationWaitCalls = acc.waits.length
  /-- the values that waits have brought, as long as none is synchronized -/
  values : acc.All Act.Keeps → ∀ (g : ℕ) a (slot : ℕ) id, acc.posts[g]? = some a → acc.Waited g →
    (a.localOutputs cfg.rank)[slot]? = some id →
      ∃ v, e.values id = some v ∧ Delivered (plan cfg) log g slot id v

/-- The computation keeps to what may be called, and ends in `Q` or throws. -/
abbrev Follows {α : Type} (pre : Log V H → ApiOp V H → Prop)
    (Q : Log V H → α → ScriptState V H → Prop) (c : ScriptComp V H α) (log : Log V H)
    (e : ScriptState V H) : Prop :=
  Comp.Ensures (.history pre) Prog.pass (fun log a e (_ : Unit) => Q log a e)
    (fun _ _ _ _ => True) c log e ()

section
variable {α : Type} {pre : Log V H → ApiOp V H → Prop} {Q : Log V H → α → ScriptState V H → Prop}

theorem follows_api {op : ApiOp V H} {f : op.Result → ScriptComp V H α} (hpre : pre log op)
    (h : ∀ a, Follows pre Q (f a) (log ++ [⟨op, .ok a⟩]) e) :
    Follows pre Q (scriptApi op >>= f) log e := by
  refine Comp.ensures_pass hpre (fun ans a hans => ?_) fun _ _ _ => trivial
  cases ans with
  | error fault => cases hans
  | ok a' =>
    obtain rfl : a' = a := Except.ok.inj hans
    exact h a'

/-- A descriptor is looked up. -/
theorem follows_desc {id : ValueId} {f : ValueDesc → ScriptComp V H α}
    (h : ∀ d, (plan cfg).desc? id = some d → Follows pre Q (f d) log e) :
    Follows pre Q (Comp.ofExcept (desc (plan cfg) id) >>= f) log e := by
  rw [Follows, Comp.ensures_ofExcept, desc]
  cases hd : (plan cfg).desc? id with
  | none => trivial
  | some d => exact h d hd

/-- Values are read, or there are none to read. -/
theorem follows_readValues {f : List V → ScriptComp V H α} {ids : List ValueId}
    (h : ∀ values, ids.map e.values = values.map some → Follows pre Q (f values) log e) :
    Follows pre Q (readValues ids >>= f) log e := by
  induction ids generalizing f with
  | nil => exact (Comp.ensures_congr rfl).2 (h [] rfl)
  | cons id ids ih =>
    rw [readValues, readValue]
    simp only [Comp.bind_assoc]
    rw [Follows, Comp.ensures_get]
    cases hv : e.values id with
    | none => exact (Comp.ensures_ret (r := .error _) (t := e) rfl).2 trivial
    | some v =>
      refine (Comp.ensures_congr rfl).2 (ih fun values hvalues => ?_)
      refine (Comp.ensures_congr rfl).2 (h (v :: values) ?_)
      rw [List.map_cons, List.map_cons, hv, hvalues]

end

/-- A line that waits for nothing and posts nothing, over calls that do neither. -/
theorem Traced.silent (h : Traced cfg acc log e) {more : Log V H} {e' : ScriptState V H}
    {line : Line} (hpost : line.act.post? = none) (hwait : line.act.wait? = none)
    (hposted : posted more = []) (hwaited : waited more = []) (hhandles : e'.handles = e.handles)
    (htiming : e'.timing.communicationPostCalls = e.timing.communicationPostCalls ∧
      e'.timing.communicationWaitCalls = e.timing.communicationWaitCalls)
    (hordered : acc.Ordered cfg.rank)
    (hvalues : Act.Keeps line.act → ∀ id ∈ acc.ready cfg.rank, e'.values id = e.values id) :
    Traced cfg (acc ++ [line]) (log ++ more) e' := by
  have hposts : Script.posts (acc ++ [line]) = acc.posts := by
    rw [Script.posts_append, Script.posts_singleton, hpost]
    exact List.append_nil _
  have hwaits : Script.waits (acc ++ [line]) = acc.waits := Script.waits_of_post?_ne hwait acc
  have hgroups (g : ℕ) : Script.Waited (acc ++ [line]) g ↔ acc.Waited g := by
    rw [← Script.mem_waits, hwaits, Script.mem_waits]
  have hlog : posted (log ++ more) = posted log := by
    rw [posted_append, hposted, List.append_nil]
  refine ⟨?_, ?_, ?_, ?_, ?_, ?_⟩
  · rw [hlog, hposts, h.posts]
  · intro g hg hw
    rw [hposts] at hg
    rw [hlog, hhandles]
    exact h.handles g hg fun hw' => hw ((hgroups g).2 hw')
  · rw [hlog, hwaits, waited_append, hwaited, List.append_nil, h.waits]
  · rw [htiming.1, hposts, h.postCalls]
  · rw [htiming.2, hwaits, h.waitCalls]
  · intro hkeeps g a slot id hg hw hslot
    rw [hposts] at hg
    have hw' := (hgroups g).1 hw
    have hready := hordered.ready_of_waited hg hw' (List.mem_of_getElem? hslot)
    obtain ⟨v, hv, hdelivered⟩ := h.values (fun l hl => hkeeps l (List.mem_append_left _ hl)) g a
      slot id hg hw' hslot
    refine ⟨v, ?_, hdelivered.append more⟩
    rw [hvalues (hkeeps line (by simp)) id hready, hv]

/-- The check and the storing of a new value end a line. -/
theorem Traced.store (h : Traced cfg acc log e) {line : Line} {id : ValueId}
    (hline : line.act.defines cfg.rank = [id]) (hok : Script.LineOk cfg.rank acc line)
    (hpost : line.act.post? = none) (hwait : line.act.wait? = none)
    (hordered : acc.Ordered cfg.rank) (more : Log V H) (hposted : posted more = [])
    (hwaited : waited more = []) (e' : ScriptState V H) (hhandles : e'.handles = e.handles)
    (hvalues : e'.values = e.values)
    (htiming : e'.timing.communicationPostCalls = e.timing.communicationPostCalls ∧
      e'.timing.communicationWaitCalls = e.timing.communicationWaitCalls)
    (d : ValueDesc) (v : V) :
    Follows (MayCall cfg) (fun log' _ e' => Traced cfg (acc ++ [line]) log' e')
      (scriptApi (.validateValue v d) >>= fun _ => setValue id v) (log ++ more) e' := by
  refine follows_api trivial fun _ => ?_
  refine (Comp.ensures_ret (r := .ok ()) (t := e'.setValue id v) rfl).2 ?_
  show Traced cfg (acc ++ [line]) _ (e'.setValue id v)
  rw [List.append_assoc]
  refine h.silent hpost hwait ?_ ?_ hhandles htiming hordered fun _ id' hid' => ?_
  · rw [posted_append, hposted]
    rfl
  · rw [waited_append, hwaited]
    rfl
  · have hne : id' ≠ id := by
      rintro rfl
      exact hok.fresh id' (by rw [hline]; exact List.mem_singleton.2 rfl) hid'
    exact (Function.update_of_ne hne _ _).trans (congrFun hvalues id')

/-- What is read of ready values has been delivered. -/
theorem Traced.handsOver (h : Traced cfg acc log e) (hacc : Accepted (plan cfg) spec)
    {rest : Script} (hscript : (plan cfg).script cfg.rank = acc ++ rest)
    (hkeeps : acc.All Act.Keeps) {ids : List ValueId}
    (hids : ∀ id ∈ ids, id ∈ acc.ready cfg.rank) {values : List V}
    (hvalues : ids.map e.values = values.map some) :
    HandsOver (plan cfg) cfg.rank log ids values := by
  refine ⟨by simpa using congrArg List.length hvalues, fun j id v hid hv g a slot hg hslot => ?_⟩
  obtain ⟨hpost, hw⟩ := hacc.waited_of_ready hscript (hids id (List.mem_of_getElem? hid)) hg
    (List.mem_of_getElem? hslot)
  obtain ⟨v', hv', hdelivered⟩ := h.values hkeeps g a slot id hpost hw hslot
  have hread := congrArg (fun l => l[j]?) hvalues
  rw [List.getElem?_map, List.getElem?_map, hid, hv, Option.map_some, Option.map_some,
    Option.some.injEq, hv', Option.some.injEq] at hread
  exact hread ▸ hdelivered

/-- The outputs of a wait, stored one by one. -/
theorem receiveOutputs_follows (outputs : List (ValueId × V)) : ∀ {log : Log V H}
    {e : ScriptState V H}, (outputs.map (·.1)).Nodup →
    Follows (MayCall cfg) (fun log' _ e' => ∃ more, log' = log ++ more ∧ posted more = [] ∧
        waited more = [] ∧ e'.handles = e.handles ∧ e'.timing = e.timing ∧
        (∀ id, id ∉ outputs.map (·.1) → e'.values id = e.values id) ∧
        ∀ p ∈ outputs, e'.values p.1 = some p.2 ∧ ∃ d, (plan cfg).desc? p.1 = some d ∧
          ⟨.validateValue p.2 d, .ok ()⟩ ∈ more)
      (receiveOutputs cfg outputs) log e := by
  induction outputs with
  | nil =>
    intro log e _
    exact (Comp.ensures_ret (r := .ok ()) (t := e) rfl).2
      ⟨[], by simp, rfl, rfl, rfl, rfl, by simp, by simp⟩
  | cons p outputs ih =>
    obtain ⟨id, v⟩ := p
    intro log e hnodup
    obtain ⟨hnot, hnodup⟩ := List.nodup_cons.1 hnodup
    rw [receiveOutputs]
    refine follows_desc fun d hd => follows_api trivial fun _ => ?_
    rw [Follows, setValue, Comp.ensures_modify]
    refine (ih hnodup).mono ?_ fun _ _ _ _ _ => trivial
    rintro log' _ e' _ ⟨more, rfl, hposted, hwaited, hhandles, htiming, hother, hvalues⟩
    refine ⟨⟨.validateValue v d, .ok ()⟩ :: more, by simp, hposted, hwaited, hhandles, htiming,
      fun id' hid' => ?_, List.forall_mem_cons.2 ⟨⟨?_, d, hd, List.mem_cons_self⟩, fun p hp => ?_⟩⟩
    · rw [List.map_cons, List.mem_cons, not_or] at hid'
      rw [hother id' hid'.2]
      exact Function.update_of_ne hid'.1 _ _
    · rw [hother id hnot]
      exact Function.update_self ..
    · obtain ⟨hv, d', hd', hmem⟩ := hvalues p hp
      exact ⟨hv, d', hd', List.mem_cons_of_mem _ hmem⟩

/-! ## The lines -/

theorem Traced.setContext (h : Traced cfg acc log e) (context : Context) :
    Traced cfg acc log { e with context := context } :=
  ⟨h.posts, h.handles, h.waits, h.postCalls, h.waitCalls, h.values⟩

/-- The synchronizations come last. -/
theorem keeps_of_next {line : Line} (hnext : cfg.Next acc line) (hline : Act.Keeps line.act) :
    acc.All Act.Keeps := by
  obtain ⟨rest, hscript⟩ := hnext
  have hadded : Act.Added (plan cfg) cfg.rank Act.Keeps :=
    ⟨fun _ _ _ => nofun, fun _ _ _ => nofun, fun _ _ _ _ _ _ => nofun, fun _ _ _ _ _ _ => nofun⟩
  have hall := RuntimePlan.instructionScript_all hadded (fun _ _ _ => nofun) fun _ => nofun
  rw [RuntimePlan.script] at hscript
  rcases append_eq_split hscript with ⟨rest', h⟩ | ⟨before, rfl, h⟩
  · intro l hl
    exact hall l (by rw [h]; exact List.mem_append_left _ hl)
  · have hmem : line ∈ (plan cfg).syncLines cfg.rank := by
      rw [h]
      simp
    obtain ⟨id, -, rfl⟩ := List.mem_map.1 hmem
    exact absurd rfl (hline id)

/-- A post, with the handle it has returned. -/
theorem Traced.post (h : Traced cfg acc log e) {context : Context} {g : ℕ} {action : CommAction}
    (hg : g = acc.posts.length) {inputs : List V} (handle : H) :
    Traced cfg (acc ++ [⟨context, .post g action⟩])
      (log ++ [⟨.communicateAsync action inputs, .ok handle⟩])
      { e.setHandle g handle with timing := RuntimeTiming.addPost e.timing } := by
  obtain rfl := hg
  have hposts : Script.posts (acc ++ [⟨context, .post acc.posts.length action⟩]) =
      acc.posts ++ [action] := by
    rw [Script.posts_append, Script.posts_singleton]
    rfl
  have hwaits : Script.waits (acc ++ [⟨context, .post acc.posts.length action⟩]) = acc.waits :=
    Script.waits_of_post?_ne rfl acc
  have hgroups (g : ℕ) : Script.Waited (acc ++ [⟨context, .post acc.posts.length action⟩]) g ↔
      acc.Waited g := by rw [← Script.mem_waits, hwaits, Script.mem_waits]
  have hlog : posted (log ++ [⟨.communicateAsync action inputs, .ok handle⟩]) =
      posted log ++ [handle] := posted_append ..
  refine ⟨?_, ?_, ?_, ?_, ?_, ?_⟩
  · rw [hlog, hposts, List.length_append, List.length_append, h.posts]
    rfl
  · intro g hg hw
    rw [hposts, List.length_append, List.length_singleton] at hg
    rw [hlog]
    change Function.update e.handles acc.posts.length (some handle) g = _
    rcases Nat.lt_succ_iff_lt_or_eq.1 hg with hlt | rfl
    · rw [Function.update_of_ne hlt.ne, h.handles g hlt fun hw' => hw ((hgroups g).2 hw'),
        List.getElem?_append_left (h.posts ▸ hlt)]
    · rw [Function.update_self, ← h.posts]
      simp
  · rw [waited_append, hwaits, show waited [_] = [] from rfl, List.append_nil, h.waits]
    exact List.map_congr_left fun g hg => (getElem?_posted_append (lt_of_waits h.waits hg)).symm
  · rw [hposts, List.length_append, ← h.postCalls]
    rfl
  · rw [hwaits, ← h.waitCalls]
    rfl
  · intro hkeeps g a slot id hg hw hslot
    have hw' := (hgroups g).1 hw
    have hlt : g < acc.posts.length := by
      have := lt_of_waits h.waits (Script.mem_waits.2 hw')
      rwa [h.posts] at this
    rw [hposts, List.getElem?_append_left hlt] at hg
    obtain ⟨v, hv, hdelivered⟩ := h.values (fun l hl => hkeeps l (List.mem_append_left _ hl)) g a
      slot id hg hw' hslot
    exact ⟨v, hv, hdelivered.append _⟩

/-- A wait, with the outputs it has brought and their checks. -/
theorem Traced.wait (h : Traced cfg acc log e) (hordered : acc.Ordered cfg.rank)
    {context : Context} {g : ℕ} {action : CommAction}
    (hok : Script.LineOk cfg.rank acc ⟨context, .wait g action⟩) {handle handle' : H}
    (hhandle : (posted log)[g]? = some handle) {outputs : List V}
    (hlength : outputs.length = (action.localOutputs cfg.rank).length) {more : Log V H}
    (hposted : posted more = []) (hwaited : waited more = []) {e' : ScriptState V H}
    (hhandles : e'.handles = Function.update e.handles g (some handle'))
    (htiming : e'.timing = RuntimeTiming.addWait e.timing)
    (hother : ∀ id, id ∉ action.localOutputs cfg.rank → e'.values id = e.values id)
    (hvalues : ∀ p ∈ (action.localOutputs cfg.rank).zip outputs, e'.values p.1 = some p.2 ∧
      ∃ d, (plan cfg).desc? p.1 = some d ∧ ⟨.validateValue p.2 d, .ok ()⟩ ∈ more) :
    Traced cfg (acc ++ [⟨context, .wait g action⟩])
      (log ++ ⟨.wait handle, .ok (outputs, handle')⟩ :: more) e' := by
  obtain ⟨hpost, -⟩ := hok.wait g action rfl
  have hposts : Script.posts (acc ++ [⟨context, .wait g action⟩]) = acc.posts := by
    rw [Script.posts_append, Script.posts_singleton]
    exact List.append_nil _
  have hwaits : Script.waits (acc ++ [⟨context, .wait g action⟩]) = acc.waits ++ [g] := by
    rw [Script.waits_append, Script.waits_singleton]
    rfl
  have hgroups (g' : ℕ) : Script.Waited (acc ++ [⟨context, .wait g action⟩]) g' ↔
      acc.Waited g' ∨ g' = g := by
    rw [← Script.mem_waits, hwaits, List.mem_append, Script.mem_waits, List.mem_singleton]
  have hlog : posted (log ++ ⟨.wait handle, .ok (outputs, handle')⟩ :: more) = posted log := by
    rw [posted_append, show posted (_ :: more) = posted more from rfl, hposted, List.append_nil]
  refine ⟨?_, ?_, ?_, ?_, ?_, ?_⟩
  · rw [hlog, hposts, h.posts]
  · intro g' hg' hw
    rw [hposts] at hg'
    rw [hgroups, not_or] at hw
    rw [hlog, hhandles, Function.update_of_ne hw.2, h.handles g' hg' hw.1]
  · rw [hlog, hwaits, waited_append, show waited (_ :: more) = handle :: waited more from rfl,
      hwaited, List.map_append, List.map_append, h.waits, List.map_singleton, List.map_singleton,
      hhandle]
  · rw [hposts, htiming, ← h.postCalls]
    rfl
  · rw [hwaits, htiming, List.length_append, ← h.waitCalls]
    rfl
  · intro hkeeps g' a slot id hg' hw hslot
    rw [hposts] at hg'
    rcases (hgroups g').1 hw with hw' | rfl
    · have hready := hordered.ready_of_waited hg' hw' (List.mem_of_getElem? hslot)
      obtain ⟨v, hv, hdelivered⟩ := h.values (fun l hl => hkeeps l (List.mem_append_left _ hl)) g' a
        slot id hg' hw' hslot
      refine ⟨v, ?_, hdelivered.append _⟩
      rw [hother id fun hid => hok.fresh id hid hready, hv]
    · obtain rfl : action = a := Option.some.inj (hpost.symm.trans hg')
      have hlt : slot < outputs.length := hlength ▸ (List.getElem?_eq_some_iff.1 hslot).1
      have hzip : ((action.localOutputs cfg.rank).zip outputs)[slot]? =
          some (id, outputs[slot]) := by
        rw [List.getElem?_zip_eq_some]
        exact ⟨hslot, List.getElem?_eq_getElem hlt⟩
      obtain ⟨hv, d, hd, hmem⟩ := hvalues _ (List.mem_of_getElem? hzip)
      exact ⟨outputs[slot], hv, log, more, handle, outputs, handle', d, rfl, hhandle,
        List.getElem?_eq_getElem hlt, hd, hmem⟩

/-- **Every line keeps the trace.** -/
theorem line_traced (hacc : Accepted (plan cfg) spec) (h : Traced cfg acc log e) {line : Line}
    (hnext : cfg.Next acc line) :
    Follows (MayCall cfg) (fun log' _ e' => Traced cfg (acc ++ [line]) log' e')
      (execLine cfg line) log e := by
  have hok := hnext.ok hacc
  have hordered : acc.Ordered cfg.rank := hacc.script_ordered.of_append hnext.choose_spec
  have hkeeps := keeps_of_next hnext
  have hrest := hnext.choose_spec
  obtain ⟨context, act⟩ := line
  rw [execLine, Follows, Comp.ensures_modify]
  replace h := h.setContext context
  generalize ({ e with context := context } : ScriptState V H) = e at h ⊢
  cases act with
  | bind id =>
    rw [Act.exec]
    refine follows_desc fun d hd => ?_
    cases hv : cfg.localInputs.lookup id with
    | none => exact (Comp.ensures_ret (r := .error _) (t := e) rfl).2 trivial
    | some v =>
      have hstore : Follows (MayCall cfg) _
          (scriptApi (.validateValue v d) >>= fun _ => setValue id v) _ e :=
        h.store rfl hok rfl rfl hordered [] rfl rfl e rfl rfl ⟨rfl, rfl⟩ d v
      rwa [List.append_nil] at hstore
  | checkInputs expected =>
    rw [Act.exec]
    refine (Comp.ensures_ret (Comp.throwIf_apply _ _)).2 ?_
    split_ifs
    · trivial
    · show Traced cfg _ log e
      rw [← List.append_nil log]
      exact h.silent rfl rfl rfl rfl rfl ⟨rfl, rfl⟩ hordered fun _ _ _ => rfl
  | encode op =>
    rw [Act.exec]
    refine follows_desc fun d hd => ?_
    rw [Follows, Comp.ensures_get, Comp.ensures_ofExcept]
    cases hslots : payloadSlots e.bundleSlots op.payload with
    | error f => trivial
    | ok slots =>
      exact follows_api trivial fun v =>
        h.store rfl hok rfl rfl hordered [_] rfl rfl e rfl rfl ⟨rfl, rfl⟩ d v
  | compute op =>
    rw [Act.exec]
    refine follows_readValues fun inputs hinputs => ?_
    refine follows_api ?_ fun v => ?_
    · exact h.handsOver hacc hrest (hkeeps (by rintro _ ⟨⟩)) hok.reads hinputs
    · rw [Follows, Comp.ensures_modify]
      refine follows_desc fun d hd => ?_
      exact h.store rfl hok rfl rfl hordered [⟨.compute op inputs, .ok v⟩] rfl rfl
        { e with timing := RuntimeTiming.addCompute e.timing op.kind } rfl rfl ⟨rfl, rfl⟩ d v
  | post g action =>
    rw [Act.exec]
    refine follows_readValues fun inputs hinputs => ?_
    refine follows_api ?_ fun handle => ?_
    · exact h.handsOver hacc hrest (hkeeps (by rintro _ ⟨⟩)) hok.reads hinputs
    · exact (Comp.ensures_ret (r := .ok ()) rfl).2 (h.post (hok.post g action rfl) handle)
  | wait g action =>
    obtain ⟨hpost, hw⟩ := hok.wait g action rfl
    have hlt : g < acc.posts.length := (List.getElem?_eq_some_iff.1 hpost).1
    obtain ⟨handle, hhandle⟩ : ∃ handle, (posted log)[g]? = some handle :=
      ⟨_, List.getElem?_eq_getElem (h.posts ▸ hlt)⟩
    rw [Act.exec, Comp.ensures_get, h.handles g hlt hw, hhandle]
    refine follows_api ?_ ?_
    · intro ans
      refine ⟨acc.waits ++ [g], ?_, ?_⟩
      · rw [List.nodup_append]
        refine ⟨hordered.nodup_waits, List.nodup_singleton g, ?_⟩
        rintro g' hg' _ hmem rfl
        rw [List.mem_singleton.1 hmem] at hg'
        exact hw (Script.mem_waits.1 hg')
      · have hlog : posted (log ++ [⟨.wait handle, ans⟩]) = posted log := by
          rw [posted_append]
          exact List.append_nil _
        rw [waited_append, hlog, List.map_append, List.map_append, h.waits, List.map_singleton,
          hhandle]
        rfl
    · rintro ⟨outputs, handle'⟩
      rw [Follows, Comp.ensures_modify, Comp.ensures_throwIf]
      split_ifs with hlength
      rw [not_not] at hlength
      have hfst : ((action.localOutputs cfg.rank).zip outputs).map (·.1) =
          action.localOutputs cfg.rank := List.map_fst_zip hlength.ge
      have hnodup : (((action.localOutputs cfg.rank).zip outputs).map (·.1)).Nodup := by
        rw [hfst]
        exact hok.nodup
      refine (receiveOutputs_follows _ hnodup).mono ?_ fun _ _ _ _ _ => trivial
      rintro log' _ e' _ ⟨more, rfl, hposted, hwaited, hhandles, htiming, hother, hvalues⟩
      rw [List.append_assoc]
      rw [hfst] at hother
      exact h.wait hordered hok hhandle hlength hposted hwaited hhandles htiming hother hvalues
  | sync id =>
    rw [Act.exec, readValue]
    simp only [Comp.bind_assoc]
    rw [Comp.ensures_get]
    cases hv : e.values id with
    | none => exact (Comp.ensures_ret (r := .error _) (t := e) rfl).2 trivial
    | some v =>
      refine (Comp.ensures_congr rfl).2 (follows_api trivial fun v' => ?_)
      refine (Comp.ensures_ret (r := .ok ()) (t := e.setValue id v') rfl).2 ?_
      exact h.silent rfl rfl rfl rfl rfl ⟨rfl, rfl⟩ hordered fun hkeep => absurd rfl (hkeep id)

/-- **The lines of a script keep the trace.** -/
theorem execScript_traced (hacc : Accepted (plan cfg) spec) (lines : Script) :
    ∀ {acc : Script} {log : Log V H} {e : ScriptState V H}, Traced cfg acc log e →
      (∃ rest, (plan cfg).script cfg.rank = acc ++ lines ++ rest) →
      Follows (MayCall cfg) (fun log' _ e' => Traced cfg (acc ++ lines) log' e')
        (execScript cfg lines) log e := by
  induction lines with
  | nil =>
    intro acc log e h _
    exact (Comp.ensures_ret (r := .ok ()) (t := e) rfl).2 (by rwa [List.append_nil])
  | cons line lines ih =>
    intro acc log e h hscript
    obtain ⟨rest, hrest⟩ := hscript
    have hnext : cfg.Next acc line := ⟨lines ++ rest, by rw [hrest]; simp⟩
    rw [execScript]
    refine Comp.Ensures.bind (line_traced hacc h hnext) ?_
    rintro log' _ e' _ h'
    have hlines := ih h' ⟨rest, by rw [hrest]; simp⟩
    rwa [List.append_assoc, List.singleton_append] at hlines

/-! ## The run -/

/-- After all lines of a script, every post has its wait. -/
theorem Traced.allWaited (h : Traced cfg acc log e) (hordered : acc.Ordered cfg.rank)
    (hall : ∀ g, acc.Waited g ↔ g < acc.posts.length) : AllWaited log := by
  refine ⟨acc.waits, ?_, h.waits⟩
  rw [List.perm_ext_iff_of_nodup hordered.nodup_waits List.nodup_range]
  intro g
  rw [Script.mem_waits, hall, List.mem_range, h.posts]

theorem scriptPrelude_traced (env : Environment) (requirements : PlanRequirements) :
    Follows (H := H) (MayCall cfg) (fun log _ e => Traced cfg [] log e)
      (scriptPrelude cfg env requirements) [] {} := by
  rw [scriptPrelude, Follows, Comp.ensures_ofExcept]
  cases bundleSlotsOf cfg env with
  | error f => trivial
  | ok slots =>
    dsimp only
    rw [Comp.ensures_modify]
    rw [← Comp.bind_pure (scriptApi _)]
    refine follows_api trivial fun _ => (Comp.ensures_ret (r := .ok ()) rfl).2 ?_
    exact ⟨rfl, fun g hg => absurd hg (Nat.not_lt_zero g), rfl, rfl, rfl,
      fun _ g _ _ _ hg => by simp at hg⟩

/-- The part of the body before the first instruction of the execution. -/
def initialized (cfg : RunConfig V) (env : Environment) : Runtime V H Unit := do
  setup cfg env
  executePhase cfg (plan cfg).initialization
  finishAllGroups cfg

/-- The part of the body from the first instruction of the execution on. -/
def afterInitialized (cfg : RunConfig V) : Runtime V H (RunArtifact V) := do
  executePhase cfg (plan cfg).execution
  executePhase cfg (plan cfg).finalization
  finishAllGroups cfg
  synchronizeFinalOutputs cfg
  makeArtifact cfg

theorem body_eq_initialized (cfg : RunConfig V) (env : Environment) :
    body (H := H) cfg env = initialized cfg env >>= fun _ => afterInitialized cfg := by
  simp only [body, execute, initialized, afterInitialized, Comp.bind_assoc]

/-- The first part of the body is the first part of the script. -/
theorem initialized_rel (hacc : Accepted (plan cfg) spec) (env : Environment)
    {requirements : PlanRequirements} (hverify : verifyPlan cfg = .ok requirements) :
    Prog.Rel (Comp.Ends (fun _ _ _ _ => True) Fails) (initialized (H := H) cfg env {})
      ((scriptPrelude cfg env requirements >>= fun _ =>
        execScript cfg ((plan cfg).initialScript cfg.rank)) {}) := by
  obtain ⟨lines, hlines, hsim⟩ := initialization_sim (V := V) (H := H) hacc
  rw [hlines, execScript_append, ← Comp.bind_assoc, initialized]
  refine Comp.rel_bind (setup_rel hacc env hverify) ?_
  intro _ s _ e hi
  exact (hsim s e hi trivial).mono fun r r' hr => Comp.Ends.mono (fun _ _ _ _ _ => trivial) hr

/-- The lines up to a point, after the calls before the first line. -/
theorem lines_traced (hacc : Accepted (plan cfg) spec) (env : Environment)
    (requirements : PlanRequirements) {lines rest : Script}
    (hscript : (plan cfg).script cfg.rank = lines ++ rest) :
    Follows (H := H) (MayCall cfg) (fun log _ e => Traced cfg lines log e)
      (scriptPrelude cfg env requirements >>= fun _ => execScript cfg lines) [] {} := by
  refine Comp.Ensures.bind (scriptPrelude_traced env requirements) ?_
  rintro log _ e _ h
  exact execScript_traced hacc lines h ⟨rest, hscript⟩

/-- What the log and the artifact of a run that returns have in common. -/
structure Completed (cfg : RunConfig V) (log : Log V H) (artifact : RunArtifact V) : Prop where
  allWaited : AllWaited log
  posts : (posted log).length = (plan cfg).actions.length
  postCalls : artifact.timing.communicationPostCalls = (plan cfg).actions.length
  waitCalls : artifact.timing.communicationWaitCalls = (plan cfg).actions.length

theorem scriptBody_follows (hacc : Accepted (plan cfg) spec) (env : Environment)
    (requirements : PlanRequirements) :
    Follows (H := H) (MayCall cfg) (fun log artifact _ => Completed cfg log artifact)
      (scriptBody cfg env requirements) [] {} := by
  rw [scriptBody, ← Comp.bind_assoc]
  refine Comp.Ensures.bind (lines_traced hacc env requirements (List.append_nil _).symm) ?_
  rintro log _ e _ h
  rw [Comp.ensures_get]
  refine (Comp.ensures_ret (r := .ok _) (t := e) rfl).2 ?_
  have hposts : ((plan cfg).script cfg.rank).posts = (plan cfg).actions := hacc.script_posts
  have hordered : ((plan cfg).script cfg.rank).Ordered cfg.rank := hacc.script_ordered
  have hall : AllWaited log := h.allWaited hordered fun g => by rw [hacc.script_waited, hposts]
  refine ⟨hall, by rw [h.posts, hposts], by rw [← hposts]; exact h.postCalls, ?_⟩
  obtain ⟨groups, hperm, hwaits⟩ := hall
  have hlength := congrArg List.length (hwaits.symm.trans h.waits)
  rw [List.length_map, List.length_map, hperm.length_eq, List.length_range, h.posts, hposts]
    at hlength
  exact h.waitCalls.trans hlength.symm

/-- The handler calls `abort_all` at most. -/
theorem handle_follows {pre : Log V H → ApiOp V H → Prop} {past : Log V H} {failure : Failure}
    {s : RuntimeState V H} {Q : Log V H → RunResult V → Prop}
    (hpre : ∀ reason, pre past (.abortAll 1 reason))
    (hQ : ∀ log r, (∀ artifact, r ≠ .returned artifact) → Q log r) :
    Prog.Meets (.history pre) Q past (handle cfg (.error failure, s)) := by
  rw [handle]
  dsimp only
  split_ifs
  · refine .call (hpre _) ?_
    rintro (fault | r) _ -
    · exact .ret (hQ _ _ (by rintro _ ⟨⟩))
    · exact r.elim
  · exact .ret (hQ _ _ (by rintro _ ⟨⟩))

/-- **Every run keeps to what may be called**, and one that returns has waited for every
    handle. -/
theorem run_follows (cfg : RunConfig V) (env : Environment) :
    Prog.Meets (.history (MayCall cfg))
      (fun log r => ∀ artifact, r = .returned artifact → Completed cfg log artifact) []
      (run (H := H) cfg env) := by
  cases hopen : openTrace env cfg.rank with
  | error failure =>
    rw [run, hopen]
    exact .ret (by rintro _ ⟨⟩)
  | ok _ =>
    cases hverify : verifyPlan cfg with
    | error failure =>
      rw [run_of_verify_error hopen hverify]
      exact handle_follows (fun _ => trivial) fun _ r hr artifact heq => absurd heq (hr artifact)
    | ok requirements =>
      rw [run_eq_scriptRun env hverify, scriptRun, hopen]
      refine Prog.Meets.bind (Prog.meets_of_pass
        (scriptBody_follows (accepted_of_verifyPlan hverify) env requirements)) ?_
      rintro log ⟨failure | artifact, e⟩ h
      · exact handle_follows (fun _ => trivial) fun _ r hr artifact heq => absurd heq (hr artifact)
      · refine .ret fun artifact' heq => ?_
        obtain rfl : artifact = artifact' := RunResult.returned.inj heq
        exact h

/-- What the initialization has posted it has waited for. -/
theorem initialized_allWaited {env : Environment} {s : RuntimeState V H} {log : Log V H}
    (hrun : (initialized cfg env {}).Runs log (.ok (), s)) :
    AllWaited log ∧ (posted log).length = (actionsOf (plan cfg).initialization).length := by
  cases hverify : verifyPlan cfg with
  | error failure =>
    have hfail : initialized (H := H) cfg env {} = .ret (.error failure, {}) := by
      rw [initialized, setup, hverify]
      rfl
    rw [hfail] at hrun
    cases (Prog.runs_ret.1 hrun).2
  | ok requirements =>
    have hacc := accepted_of_verifyPlan hverify
    obtain ⟨lines, hlines, -⟩ := afterInitialization_sim (V := V) (H := H) hacc
    have hscript : (plan cfg).script cfg.rank =
        (plan cfg).initialScript cfg.rank ++ (lines ++ (plan cfg).syncLines cfg.rank) := by
      rw [RuntimePlan.script, hlines, List.append_assoc]
    obtain ⟨⟨r, e⟩, hrun', hends⟩ := (initialized_rel hacc env hverify).runs hrun
    have hmeets := Prog.meets_of_pass (lines_traced (H := H) hacc env requirements hscript)
    cases r with
    | error failure => exact absurd hends id
    | ok _ =>
      have h : Traced cfg ((plan cfg).initialScript cfg.rank) log e := (hmeets.runs hrun').1
      obtain ⟨hcov, hall⟩ : Covers (plan cfg) cfg.rank (plan cfg).externalInputs
          (plan cfg).initialization ((plan cfg).initialScript cfg.rank) ∧
          ∀ g < (actionsOf (plan cfg).initialization).length,
            ((plan cfg).initialScript cfg.rank).Waited g := hacc.initialScript_covers
      refine ⟨h.allWaited hcov.ordered fun g => ?_, by rw [h.posts, hcov.posts]⟩
      rw [hcov.posts]
      exact ⟨hcov.waited g, hall g⟩

/-- **Every handle is waited for exactly once.**  In every run, at every point, the waits
    are for different posts, and what comes from a communication is given to a
    computation or to another communication only after its wait and its check; a run
    that returns has waited for all handles, and so has every run when the
    initialization is over. -/
theorem handles_waited_once (cfg : RunConfig V) (env : Environment) :
    (∀ (log : Log V H) r, (run cfg env).Runs log r →
      (∀ past rest, log = past ++ rest → WaitsOnce past) ∧
      (∀ past e rest, log = past ++ e :: rest → MayCall cfg past e.op) ∧
      ∀ artifact, r = .returned artifact → Completed cfg log artifact) ∧
    (∀ (log : Log V H) s, (initialized cfg env {}).Runs log (.ok (), s) →
      AllWaited log ∧ (posted log).length = (actionsOf (plan cfg).initialization).length) ∧
    body (H := H) cfg env = initialized cfg env >>= fun _ => afterInitialized cfg := by
  refine ⟨fun log r hrun => ?_, fun log s hrun => initialized_allWaited hrun,
    body_eq_initialized cfg env⟩
  obtain ⟨hend, hcalls⟩ := (run_follows cfg env).runs hrun
  refine ⟨fun past rest hsplit => ?_, hcalls, hend⟩
  exact waitsOnce_of_mayCall past fun log₁ e log₂ h => hcalls log₁ e log₂ (hsplit.trans h)

end SequentialRuntime

end CkksRuntime
