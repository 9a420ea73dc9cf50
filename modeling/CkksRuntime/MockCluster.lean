/-
  ckks-runtime formalization — the cluster shared by the mock ranks (`MockCluster`
  in `api/mock_api.hpp`, `api/mock_api.cpp`).

  Every operation of the cluster is split where it waits: what it does under the
  lock before, the condition it waits for, and what it does after.  Delays change
  no result and are left out.
-/
import CkksRuntime.VecValue

namespace CkksRuntime

/-- `rank` is one of `0, …, worldSize - 1`. -/
def InWorld (worldSize rank : CInt) : Prop := 0 ≤ rank ∧ rank < worldSize

instance decidableInWorld (worldSize rank : CInt) : Decidable (InWorld worldSize rank) :=
  inferInstanceAs (Decidable (_ ∧ _))

theorem eq_zero_of_inWorld_one {rank : CInt} (h : InWorld 1 rank) : rank = 0 := by
  have h0 := Int32.le_iff_toInt_le.1 h.1
  have h1 : rank.toInt < 1 := Int32.lt_iff_toInt_lt.1 h.2
  rw [Int32.toInt_zero] at h0
  rw [← Int32.toInt_inj, Int32.toInt_zero]
  omega

/-- The `i`-th of all ranks that an `int` can tell. -/
def rankAt (i : Fin (2 ^ 32)) : CInt := Int32.ofBitVec (BitVec.ofFin i)

theorem rankAt_ne {r : CInt} {i : Fin (2 ^ 32)} (h : i ≠ r.toBitVec.toFin) : rankAt i ≠ r := by
  rintro rfl
  exact h rfl

/-- The ranks of a world, ascending. -/
def worldRanks (worldSize : CInt) : List CInt :=
  (List.range worldSize.toInt.toNat).map fun n => Int32.ofNat n

theorem mem_worldRanks {worldSize rank : CInt} :
    rank ∈ worldRanks worldSize ↔ InWorld worldSize rank := by
  have hlt := worldSize.toInt_lt
  rw [worldRanks, List.mem_map, InWorld, Int32.le_iff_toInt_le, Int32.lt_iff_toInt_lt,
    Int32.toInt_zero]
  constructor
  · rintro ⟨n, hn, rfl⟩
    have hn := List.mem_range.1 hn
    rw [Int32.toInt_ofNat_of_lt (by omega)]
    omega
  · rintro ⟨h0, h1⟩
    refine ⟨rank.toInt.toNat, List.mem_range.2 (by omega), ?_⟩
    rw [← Int32.toInt_inj, Int32.toInt_ofNat_of_lt (by omega)]
    omega

theorem length_worldRanks (worldSize : CInt) :
    (worldRanks worldSize).length = worldSize.toInt.toNat := by
  rw [worldRanks, List.length_map, List.length_range]

theorem nodup_worldRanks (worldSize : CInt) : (worldRanks worldSize).Nodup := by
  have hlt := worldSize.toInt_lt
  refine List.Nodup.map_on (fun n hn m hm he => ?_) List.nodup_range
  have hn := List.mem_range.1 hn
  have hm := List.mem_range.1 hm
  have he := congrArg Int32.toInt he
  rw [Int32.toInt_ofNat_of_lt (by omega), Int32.toInt_ofNat_of_lt (by omega)] at he
  exact Int.ofNat.inj he

/-- As many different ranks of a world as it has are all of them. -/
theorem mem_of_length_world {worldSize : CInt} {l : List CInt} (hnodup : l.Nodup)
    (hsub : ∀ r ∈ l, InWorld worldSize r) (hlen : l.length = worldSize.toInt.toNat) {r : CInt}
    (hr : InWorld worldSize r) : r ∈ l := by
  have hsubperm : l.Subperm (worldRanks worldSize) :=
    List.subperm_of_subset hnodup fun a ha => mem_worldRanks.2 (hsub a ha)
  have hperm := hsubperm.perm_of_length_le (Nat.le_of_eq ((length_worldRanks _).trans hlen.symm))
  exact hperm.mem_iff.2 (mem_worldRanks.2 hr)

/-! ## A map by rank -/

/-- `map::emplace`: the entries by key, with a new one unless the key has one. -/
def emplace {α : Type} (key : CInt) (a : α) : List (CInt × α) → List (CInt × α)
  | [] => [(key, a)]
  | e :: es =>
    if key < e.1 then (key, a) :: e :: es
    else if key = e.1 then e :: es
    else e :: emplace key a es

theorem emplace_perm {α : Type} {key : CInt} (a : α) {l : List (CInt × α)}
    (h : key ∉ l.map (·.1)) : (emplace key a l).Perm ((key, a) :: l) := by
  induction l with
  | nil => exact List.Perm.refl _
  | cons e es ih =>
    rw [List.map_cons, List.mem_cons, not_or] at h
    rw [emplace]
    split_ifs with hlt heq
    · exact List.Perm.refl _
    · exact absurd heq h.1
    · exact ((ih h.2).cons e).trans (List.Perm.swap _ _ _)

/-- The keys of the result depend on the keys only. -/
theorem keys_emplace {α β : Type} {key : CInt} {a : α} {b : β} :
    ∀ {l : List (CInt × α)} {l' : List (CInt × β)}, l.map (·.1) = l'.map (·.1) →
      (emplace key a l).map (·.1) = (emplace key b l').map (·.1)
  | [], [], _ => rfl
  | [], _ :: _, h | _ :: _, [], h => by simp at h
  | e :: es, e' :: es', h => by
    obtain ⟨he, hes⟩ := List.cons.inj h
    rw [emplace, emplace]
    dsimp only at he
    rw [← he]
    split_ifs
    · simp [he, hes]
    · simpa [he] using hes
    · rw [List.map_cons, List.map_cons, he, keys_emplace hes]

theorem mem_emplace {α : Type} {key : CInt} {a : α} {l : List (CInt × α)}
    (h : key ∉ l.map (·.1)) {e : CInt × α} : e ∈ emplace key a l ↔ e = (key, a) ∨ e ∈ l := by
  rw [(emplace_perm a h).mem_iff, List.mem_cons]

/-! ## The cluster -/

/-- The world and the faults injected into the cluster. -/
structure MockClusterConfig where
  worldSize : CInt
  failPublish : List TransferId := []
  failWait : List TransferId := []
  corruptOutputCount : List TransferId := []
  corruptOutputType : List TransferId := []
  corruptOutputMetadata : List TransferId := []
  missingCapabilities : List RequiredCapability := []
  missingKeys : List KeyRequirement := []
  /-- The constructor of the cluster refuses other sizes. -/
  worldSize_pos : 0 < worldSize := by decide

/-- An exception out of the cluster.  The sender threads catch `ClusterPanic` apart. -/
inductive Thrown where
  | clusterPanic (reason : String)
  | fault (fault : Fault)
  deriving DecidableEq, Repr

/-- The exception as a `std::exception`. -/
def Thrown.toFault : Thrown → Fault
  | clusterPanic reason => .runtimeError reason
  | fault f => f

/-- The shared tables.  A message holds the payload of a deep copy. -/
structure MockCluster where
  planDigests : List (CInt × String) := []
  skipDigestChecks : List (CInt × Bool) := []
  messages : TransferId × ℕ → Option VecPayload := fun _ => none
  /-- `abort_reason_`, once `aborted_` is set. -/
  abortReason : Option String := none

namespace MockCluster

variable (cfg : MockClusterConfig) (c : MockCluster)

/-- `preflight` before its wait: the rank is registered. -/
def register (rank : CInt) (planSourceSha256 : String) (skip : Bool) :
    Except Thrown MockCluster :=
  if rank ∈ c.planDigests.map (·.1) then
    .error (.fault (.runtimeError "rank called preflight twice"))
  else .ok
    { c with
      planDigests := emplace rank planSourceSha256 c.planDigests
      skipDigestChecks := emplace rank skip c.skipDigestChecks }

/-- The condition that `preflight` waits for. -/
def Gathered : Prop :=
  c.abortReason.isSome ∨ c.planDigests.length = cfg.worldSize.toInt.toNat

instance : Decidable (c.Gathered cfg) := inferInstanceAs (Decidable (_ ∨ _))

/-- Set `aborted_` with a reason and throw. -/
def panic (reason : String) : Except Thrown Unit × MockCluster :=
  (.error (.clusterPanic reason), { c with abortReason := some reason })

/-- `preflight` after its wait: the comparison of the two tables. -/
def agree : Except Thrown Unit × MockCluster :=
  match c.abortReason with
  | some reason => (.error (.clusterPanic reason), c)
  | none =>
    match c.skipDigestChecks with
    | [] => (.error (.fault (.undefined "begin() of an empty map")), c)
    | (_, skip) :: _ =>
      if ∃ entry ∈ c.skipDigestChecks, entry.2 ≠ skip then
        c.panic "skip_artifact_digest_checks mismatch across mock ranks"
      else if skip then (.ok (), c)
      else match c.planDigests with
        | [] => (.error (.fault (.undefined "begin() of an empty map")), c)
        | (_, expected) :: _ =>
          if ∃ entry ∈ c.planDigests, entry.2 ≠ expected then
            c.panic "plan source SHA-256 mismatch across mock ranks"
          else (.ok (), c)

/-- `publish` before the deep copy of the value. -/
def admitPublish (id : TransferId) : Except Thrown Unit :=
  match c.abortReason with
  | some reason => .error (.clusterPanic reason)
  | none =>
    if id ∈ cfg.failPublish then
      .error (.fault (.runtimeError "injected mock publish failure"))
    else .ok ()

/-- `publish` after the deep copy of the value. -/
def store (id : TransferId) (slot : ℕ) (payload : VecPayload) : Except Thrown MockCluster :=
  match c.messages (id, slot) with
  | some _ => .error (.fault (.runtimeError "duplicate mock message"))
  | none => .ok { c with messages := Function.update c.messages (id, slot) (some payload) }

/-- The condition that `receive` waits for. -/
def Arrived (id : TransferId) (slot : ℕ) : Prop :=
  c.abortReason.isSome ∨ (c.messages (id, slot)).isSome

instance (id : TransferId) (slot : ℕ) : Decidable (c.Arrived id slot) :=
  inferInstanceAs (Decidable (_ ∨ _))

/-- `receive` after its wait. -/
def take (id : TransferId) (slot : ℕ) : Except Thrown VecPayload :=
  match c.abortReason with
  | some reason => .error (.clusterPanic reason)
  | none =>
    if id ∈ cfg.failWait then .error (.fault (.runtimeError "injected mock wait failure"))
    else match c.messages (id, slot) with
      | some payload => .ok payload
      | none => .error (.fault (.outOfRange "map::at"))

/-- `abort_all` under its lock. -/
def abort (reason : String) : MockCluster :=
  { c with abortReason := some (c.abortReason.getD reason) }

/-! ### What the operations do -/

variable {cfg c}

theorem register_eq_ok {rank : CInt} {digest : String} {skip : Bool} {c' : MockCluster} :
    c.register rank digest skip = .ok c' ↔ rank ∉ c.planDigests.map (·.1) ∧
      c' = { c with
        planDigests := emplace rank digest c.planDigests
        skipDigestChecks := emplace rank skip c.skipDigestChecks } := by
  unfold register
  split_ifs with h
  · simp [h]
  · simp only [Except.ok.injEq, h, not_false_iff, true_and]
    exact eq_comm

/-- The comparison passes: nobody aborted, and all entries agree. -/
theorem agree_eq_ok {c' : MockCluster} (h : c.agree = (.ok (), c')) : c' = c ∧
    c.abortReason = none ∧ ∃ skip, (∀ entry ∈ c.skipDigestChecks, entry.2 = skip) ∧
      (skip = false → ∃ digest, ∀ entry ∈ c.planDigests, entry.2 = digest) := by
  unfold agree panic at h
  split at h
  · simp at h
  next habort =>
    split at h
    · simp at h
    next rank skip rest hskips =>
      by_cases hmis : ∃ entry ∈ c.skipDigestChecks, entry.2 ≠ skip
      · rw [if_pos hmis] at h
        simp at h
      · rw [if_neg hmis] at h
        have hall : ∀ entry ∈ c.skipDigestChecks, entry.2 = skip :=
          fun entry he => by_contra fun hne => hmis ⟨entry, he, hne⟩
        by_cases hs : skip = true
        · rw [if_pos hs] at h
          refine ⟨(Prod.mk.inj h).2.symm, habort, skip, hall, fun hf => ?_⟩
          rw [hs] at hf
          cases hf
        · rw [if_neg hs] at h
          split at h
          · simp at h
          next rank' digest rest' hdigests =>
            by_cases hmis' : ∃ entry ∈ c.planDigests, entry.2 ≠ digest
            · rw [if_pos hmis'] at h
              simp at h
            · rw [if_neg hmis'] at h
              exact ⟨(Prod.mk.inj h).2.symm, habort, skip, hall, fun _ =>
                ⟨digest, fun entry he => by_contra fun hne => hmis' ⟨entry, he, hne⟩⟩⟩

/-- The comparison changes the abort flag only. -/
theorem agree_tables (c : MockCluster) :
    c.agree.2 = { c with abortReason := c.agree.2.abortReason } := by
  unfold agree panic
  repeat' split
  all_goals rfl

/-- Messages and the abort stay. -/
structure Grows (c c' : MockCluster) : Prop where
  messages : ∀ key, (c.messages key).isSome → (c'.messages key).isSome
  abort : c.abortReason.isSome → c'.abortReason.isSome

theorem Grows.refl : c.Grows c := ⟨fun _ h => h, fun h => h⟩

theorem agree_grows (c : MockCluster) : c.Grows c.agree.2 := by
  refine ⟨fun key h => ?_, fun h => ?_⟩
  · rw [c.agree_tables]
    exact h
  · obtain ⟨reason, hreason⟩ := Option.isSome_iff_exists.1 h
    unfold agree
    rw [hreason]
    exact h

theorem admitPublish_eq_ok {id : TransferId} (h : c.admitPublish cfg id = .ok ()) :
    c.abortReason = none := by
  unfold admitPublish at h
  split at h
  · cases h
  · assumption

theorem admitPublish_eq_panic {id : TransferId} {reason : String}
    (h : c.admitPublish cfg id = .error (.clusterPanic reason)) : c.abortReason.isSome := by
  unfold admitPublish at h
  split at h
  next hreason =>
    rw [hreason]
    rfl
  next => split_ifs at h; simp at h

/-- A message is stored. -/
theorem store_eq_ok {c' : MockCluster} {id : TransferId} {slot : ℕ} {payload : VecPayload}
    (h : c.store id slot payload = .ok c') : c.messages (id, slot) = none ∧
      c' = { c with messages := Function.update c.messages (id, slot) (some payload) } := by
  unfold store at h
  split at h
  · cases h
  next hnone => exact ⟨hnone, (Except.ok.inj h).symm⟩

theorem store_grows {c' : MockCluster} {id : TransferId} {slot : ℕ} {payload : VecPayload}
    (h : c.store id slot payload = .ok c') : c.Grows c' := by
  obtain ⟨-, rfl⟩ := store_eq_ok h
  refine ⟨fun key hkey => ?_, fun h => h⟩
  show (Function.update c.messages (id, slot) (some payload) key).isSome
  by_cases he : key = (id, slot)
  · rw [he, Function.update_self]
    rfl
  · rwa [Function.update_of_ne he]

theorem store_ne_panic {id : TransferId} {slot : ℕ} {payload : VecPayload} {reason : String} :
    c.store id slot payload ≠ .error (.clusterPanic reason) := by
  unfold store
  split <;> simp

end MockCluster

end CkksRuntime
