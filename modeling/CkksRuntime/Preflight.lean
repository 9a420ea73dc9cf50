/-
  ckks-runtime formalization — the preflight of all ranks is an agreement.

  * `MockPreflight.system`: the ranks' calls of `MockCluster::preflight`, with calls
    of `abort_all` at any time;
  * `MpiPreflight.system`: the ranks' calls of `MpiVecApi::preflight`
    (`api/mpi_api.cpp`), whose two `MPI_Allgather` complete once every rank has
    contributed and hand every rank the contributions by rank;
  * `preflight_agreement`: a rank that passes has the flag of every rank, and its
    digest when the flag is off.
-/
import CkksRuntime.MockCluster
import CkksRuntime.MpiWire
import CkksRuntime.Transitions

namespace CkksRuntime

open Transitions

/-- What the ranks bring: all have the same flag, and the same digest if it is off. -/
def Agreement (worldSize : CInt) (digest : CInt → String) (skip : CInt → Bool) : Prop :=
  ∀ r r', InWorld worldSize r → InWorld worldSize r' →
    skip r = skip r' ∧ (skip r = false → digest r = digest r')

/-! ## The mock cluster -/

namespace MockPreflight

/-- Where the call of a rank stands. -/
inductive Phase where
  | idle | waiting | returned
  | threw (exception : Thrown)
  deriving DecidableEq

structure State where
  cluster : MockCluster := {}
  phase : CInt → Phase := fun _ => .idle

inductive Label where
  | enter (rank : CInt)
  | leave (rank : CInt)
  | abort (reason : String)

variable (cfg : MockClusterConfig) (digest : CInt → String) (skip : CInt → Bool)

/-- The call of a rank up to its wait. -/
def State.enter (s : State) (r : CInt) : State :=
  match s.cluster.register r (digest r) (skip r) with
  | .ok c => ⟨c, Function.update s.phase r .waiting⟩
  | .error t => ⟨s.cluster, Function.update s.phase r (.threw t)⟩

/-- The call of a rank after its wait. -/
def State.leave (s : State) (r : CInt) : State :=
  ⟨s.cluster.agree.2, Function.update s.phase r
    (match s.cluster.agree.1 with
    | .ok () => .returned
    | .error t => .threw t)⟩

inductive Step : State → Label → State → Prop
  | enter {s : State} {r : CInt} : InWorld cfg.worldSize r → s.phase r = .idle →
      Step s (.enter r) (s.enter digest skip r)
  | leave {s : State} {r : CInt} : s.phase r = .waiting → s.cluster.Gathered cfg →
      Step s (.leave r) (s.leave r)
  | abort {s : State} (reason : String) :
      Step s (.abort reason) { s with cluster := s.cluster.abort reason }

/-- The calls of `preflight`, one a rank, and any calls of `abort_all`. -/
def system : System State Label := ⟨fun s => s = {}, Step cfg digest skip⟩

/-- The tables hold what the ranks that called have brought. -/
structure Inv (s : State) : Prop where
  digests : ∀ r d, (r, d) ∈ s.cluster.planDigests ↔
    (InWorld cfg.worldSize r ∧ s.phase r ≠ .idle) ∧ d = digest r
  skips : ∀ r b, (r, b) ∈ s.cluster.skipDigestChecks ↔
    (InWorld cfg.worldSize r ∧ s.phase r ≠ .idle) ∧ b = skip r
  digestKeys : (s.cluster.planDigests.map (·.1)).Nodup
  skipKeys : s.cluster.skipDigestChecks.map (·.1) = s.cluster.planDigests.map (·.1)
  returned : ∀ r, s.phase r = .returned →
    (∀ r', InWorld cfg.worldSize r' → s.phase r' ≠ .idle) ∧
      Agreement cfg.worldSize digest skip

variable {cfg digest skip}

/-- All ranks have called once the tables are full. -/
theorem Inv.all_called {s : State} (h : Inv cfg digest skip s)
    (hlen : s.cluster.planDigests.length = cfg.worldSize.toInt.toNat) {r : CInt}
    (hr : InWorld cfg.worldSize r) : s.phase r ≠ .idle := by
  have hmem : r ∈ s.cluster.planDigests.map (·.1) := by
    refine mem_of_length_world h.digestKeys (fun a ha => ?_) (by rw [List.length_map, hlen]) hr
    obtain ⟨⟨a', d⟩, he, rfl⟩ := List.mem_map.1 ha
    exact ((h.digests a' d).1 he).1.1
  obtain ⟨⟨r', d⟩, he, rfl⟩ := List.mem_map.1 hmem
  exact ((h.digests r' d).1 he).1.2

theorem inv_init : Inv cfg digest skip {} where
  digests r d := by simp
  skips r b := by simp
  digestKeys := List.nodup_nil
  skipKeys := rfl
  returned r h := by cases h

/-- Leaving and aborting touch neither the tables nor who has called. -/
theorem Inv.congr {s t : State} (h : Inv cfg digest skip s)
    (hdigests : t.cluster.planDigests = s.cluster.planDigests)
    (hskips : t.cluster.skipDigestChecks = s.cluster.skipDigestChecks)
    (hidle : ∀ r, t.phase r = .idle ↔ s.phase r = .idle)
    (hreturned : ∀ r, t.phase r = .returned →
      (∀ r', InWorld cfg.worldSize r' → t.phase r' ≠ .idle) ∧
        Agreement cfg.worldSize digest skip) : Inv cfg digest skip t where
  digests r d := by rw [hdigests, h.digests, ne_eq, ne_eq, hidle]
  skips r b := by rw [hskips, h.skips, ne_eq, ne_eq, hidle]
  digestKeys := by rw [hdigests]; exact h.digestKeys
  skipKeys := by rw [hdigests, hskips]; exact h.skipKeys
  returned := hreturned

theorem Inv.enter {s : State} (h : Inv cfg digest skip s) {r : CInt}
    (hr : InWorld cfg.worldSize r) (hidle : s.phase r = .idle) :
    Inv cfg digest skip (s.enter digest skip r) := by
  have hnew : r ∉ s.cluster.planDigests.map (·.1) := by
    intro hmem
    obtain ⟨⟨r', d⟩, he, rfl⟩ := List.mem_map.1 hmem
    exact ((h.digests r' d).1 he).1.2 hidle
  have hnew' : r ∉ s.cluster.skipDigestChecks.map (·.1) := h.skipKeys ▸ hnew
  have hphase {r' : CInt} : Function.update s.phase r .waiting r' ≠ .idle ↔
      r' = r ∨ s.phase r' ≠ .idle := by
    by_cases he : r' = r
    · simp [he]
    · simp [he]
  rw [State.enter, MockCluster.register_eq_ok.2 ⟨hnew, rfl⟩]
  constructor
  · intro r' d
    rw [mem_emplace hnew, h.digests, Prod.mk.injEq, hphase]
    constructor
    · rintro (⟨rfl, rfl⟩ | ⟨⟨hw, hp⟩, rfl⟩)
      exacts [⟨⟨hr, Or.inl rfl⟩, rfl⟩, ⟨⟨hw, Or.inr hp⟩, rfl⟩]
    · rintro ⟨⟨hw, rfl | hp⟩, rfl⟩
      exacts [Or.inl ⟨rfl, rfl⟩, Or.inr ⟨⟨hw, hp⟩, rfl⟩]
  · intro r' b
    rw [mem_emplace hnew', h.skips, Prod.mk.injEq, hphase]
    constructor
    · rintro (⟨rfl, rfl⟩ | ⟨⟨hw, hp⟩, rfl⟩)
      exacts [⟨⟨hr, Or.inl rfl⟩, rfl⟩, ⟨⟨hw, Or.inr hp⟩, rfl⟩]
    · rintro ⟨⟨hw, rfl | hp⟩, rfl⟩
      exacts [Or.inl ⟨rfl, rfl⟩, Or.inr ⟨⟨hw, hp⟩, rfl⟩]
  · rw [((emplace_perm (digest r) hnew).map _).nodup_iff, List.map_cons]
    exact List.nodup_cons.2 ⟨hnew, h.digestKeys⟩
  · exact keys_emplace h.skipKeys
  · intro r' hret
    change Function.update s.phase r .waiting r' = .returned at hret
    have hne : r' ≠ r := by
      rintro rfl
      rw [Function.update_self] at hret
      cases hret
    rw [Function.update_of_ne hne] at hret
    obtain ⟨hall, hagree⟩ := h.returned r' hret
    exact ⟨fun r'' hw => hphase.2 (Or.inr (hall r'' hw)), hagree⟩

/-- A rank that leaves without an exception has seen the entries of all ranks. -/
theorem Inv.agreement {s : State} (h : Inv cfg digest skip s) (hg : s.cluster.Gathered cfg)
    (hok : s.cluster.agree.1 = .ok ()) :
    (∀ r, InWorld cfg.worldSize r → s.phase r ≠ .idle) ∧ Agreement cfg.worldSize digest skip := by
  obtain ⟨-, habort, flag, hflag, hdigest⟩ :=
    MockCluster.agree_eq_ok (Prod.ext hok rfl : s.cluster.agree = (.ok (), s.cluster.agree.2))
  have hlen : s.cluster.planDigests.length = cfg.worldSize.toInt.toNat := by
    rcases hg with hg | hg
    · rw [habort] at hg
      cases hg
    · exact hg
  have hall {r : CInt} (hr : InWorld cfg.worldSize r) := h.all_called hlen hr
  have hskip {r : CInt} (hr : InWorld cfg.worldSize r) : skip r = flag :=
    hflag (r, skip r) ((h.skips r _).2 ⟨⟨hr, hall hr⟩, rfl⟩)
  refine ⟨fun r hr => hall hr, fun r r' hr hr' => ⟨(hskip hr).trans (hskip hr').symm, ?_⟩⟩
  intro hoff
  obtain ⟨d, hd⟩ := hdigest ((hskip hr).symm.trans hoff)
  have hentry {r : CInt} (hr : InWorld cfg.worldSize r) : digest r = d :=
    hd (r, digest r) ((h.digests r _).2 ⟨⟨hr, hall hr⟩, rfl⟩)
  exact (hentry hr).trans (hentry hr').symm

theorem Inv.leave {s : State} (h : Inv cfg digest skip s) {r : CInt} (hw : s.phase r = .waiting)
    (hg : s.cluster.Gathered cfg) : Inv cfg digest skip (s.leave r) := by
  have htables := MockCluster.agree_tables s.cluster
  have hidle (r' : CInt) : (s.leave r).phase r' = .idle ↔ s.phase r' = .idle := by
    by_cases he : r' = r
    · subst he
      rw [State.leave, hw]
      dsimp only
      rw [Function.update_self]
      split <;> simp
    · rw [State.leave]
      dsimp only
      rw [Function.update_of_ne he]
  refine h.congr ?_ ?_ hidle fun r' hret => ?_
  · rw [State.leave, htables]
  · rw [State.leave, htables]
  · have hfacts : (∀ r, InWorld cfg.worldSize r → s.phase r ≠ .idle) ∧
        Agreement cfg.worldSize digest skip := by
      by_cases he : r' = r
      · subst he
        rw [State.leave] at hret
        dsimp only at hret
        rw [Function.update_self] at hret
        split at hret
        next hok => exact h.agreement hg hok
        next => cases hret
      · rw [State.leave] at hret
        dsimp only at hret
        rw [Function.update_of_ne he] at hret
        exact h.returned r' hret
    exact ⟨fun r'' hw' hi => hfacts.1 r'' hw' ((hidle r'').1 hi), hfacts.2⟩

theorem inv_of_reachable {s : State} (h : (system cfg digest skip).Reachable s) :
    Inv cfg digest skip s := by
  refine h.invariant (fun s hs => hs ▸ inv_init) fun s l t _ hi hst => ?_
  cases hst with
  | enter hr hidle => exact hi.enter hr hidle
  | leave hw hg => exact hi.leave hw hg
  | abort reason => exact hi.congr rfl rfl (fun _ => Iff.rfl) hi.returned

end MockPreflight

/-! ## MPI -/

namespace MpiVecApi

/-- `preflight` before the first `MPI_Allgather`: the flag of the rank. -/
def contributeSkip (target : TargetConfig) (skip : Bool) : Except Fault CInt := do
  throwIf (target.capabilityVersion ≠ 1)
    (.runtimeError "MpiVecApi does not support target capability_version")
  return if skip then 1 else 0

/-- The comparison after the first `MPI_Allgather`. -/
def agreeSkip (skip : Bool) (skipValues : List CInt) : Except Fault Unit :=
  skipValues.forM fun value => throwIf (value ≠ if skip then 1 else 0)
    (.runtimeError "skip_artifact_digest_checks mismatch across MPI ranks")

/-- `std::array<char, 72> local`, with the digest copied into it. -/
def localDigest (planSourceSha256 : String) : List UInt8 :=
  bytesOf planSourceSha256 ++ List.replicate (72 - (bytesOf planSourceSha256).length) 0

/-- `preflight` between the two `MPI_Allgather`: the digest of the rank, unless the
    flag is on. -/
def contributeDigest (planSourceSha256 : String) (skip : Bool) :
    Except Fault (Option (List UInt8)) :=
  if skip then .ok none
  else if (bytesOf planSourceSha256).length ≠ 71 then
    .error (.runtimeError "invalid plan source SHA-256")
  else .ok (some (localDigest planSourceSha256))

theorem contributeDigest_cases (planSourceSha256 : String) (skip : Bool) :
    (skip = true ∧ contributeDigest planSourceSha256 skip = .ok none) ∨
    (skip = false ∧ (bytesOf planSourceSha256).length ≠ 71 ∧
      ∃ fault, contributeDigest planSourceSha256 skip = .error fault) ∨
    (skip = false ∧ (bytesOf planSourceSha256).length = 71 ∧
      contributeDigest planSourceSha256 skip = .ok (some (localDigest planSourceSha256))) := by
  cases skip with
  | true => exact Or.inl ⟨rfl, rfl⟩
  | false =>
    by_cases hlen : (bytesOf planSourceSha256).length = 71
    · exact Or.inr (Or.inr ⟨rfl, hlen, by simp [contributeDigest, hlen]⟩)
    · exact Or.inr (Or.inl ⟨rfl, hlen, _, by simp [contributeDigest, hlen]; rfl⟩)

/-- The comparison after the second `MPI_Allgather`. -/
def agreeDigest (planSourceSha256 : String) (all : List (List UInt8)) : Except Fault Unit :=
  all.forM fun digest => throwIf (digest ≠ localDigest planSourceSha256)
    (.runtimeError "plan source SHA-256 mismatch across MPI ranks")

theorem localDigest_inj {s t : String} (hs : (bytesOf s).length = 71)
    (ht : (bytesOf t).length = 71) : localDigest s = localDigest t ↔ s = t := by
  rw [localDigest, localDigest, hs, ht, List.append_left_inj, bytesOf_inj]

end MpiVecApi

namespace MpiPreflight

open MpiVecApi

/-- Where the call of a rank stands. -/
inductive Phase where
  | idle | gatheringSkips | gatheringDigests | returned
  | threw (fault : Fault)
  deriving DecidableEq

/-- The calls of the ranks and what they have contributed to the two gathers. -/
structure State where
  phase : CInt → Phase := fun _ => .idle
  skips : CInt → Option CInt := fun _ => none
  digests : CInt → Option (List UInt8) := fun _ => none

inductive Label where
  | enter (rank : CInt)
  | skips (rank : CInt)
  | digests (rank : CInt)

variable (worldSize : CInt) (digest : CInt → String) (skip : CInt → Bool)
  (target : CInt → TargetConfig)

/-- The vector that `MPI_Allgather` hands out, once every rank has contributed. -/
def gathered {α : Type} (contribution : CInt → Option α) : Option (List α) :=
  (worldRanks worldSize).mapM contribution

def State.setPhase (s : State) (r : CInt) (phase : Phase) : State :=
  { s with phase := Function.update s.phase r phase }

def State.enter (s : State) (r : CInt) : State :=
  match contributeSkip (target r) (skip r) with
  | .error fault => s.setPhase r (.threw fault)
  | .ok value =>
    { s.setPhase r .gatheringSkips with skips := Function.update s.skips r (some value) }

def State.afterSkips (s : State) (r : CInt) (values : List CInt) : State :=
  match agreeSkip (skip r) values with
  | .error fault => s.setPhase r (.threw fault)
  | .ok () =>
    match contributeDigest (digest r) (skip r) with
    | .error fault => s.setPhase r (.threw fault)
    | .ok none => s.setPhase r .returned
    | .ok (some bytes) =>
      { s.setPhase r .gatheringDigests with digests := Function.update s.digests r (some bytes) }

def State.afterDigests (s : State) (r : CInt) (all : List (List UInt8)) : State :=
  s.setPhase r (match agreeDigest (digest r) all with
    | .error fault => .threw fault
    | .ok () => .returned)

inductive Step : State → Label → State → Prop
  | enter {s : State} {r : CInt} : InWorld worldSize r → s.phase r = .idle →
      Step s (.enter r) (s.enter skip target r)
  | skips {s : State} {r : CInt} {values : List CInt} : s.phase r = .gatheringSkips →
      gathered worldSize s.skips = some values →
      Step s (.skips r) (s.afterSkips digest skip r values)
  | digests {s : State} {r : CInt} {all : List (List UInt8)} : s.phase r = .gatheringDigests →
      gathered worldSize s.digests = some all → Step s (.digests r) (s.afterDigests digest r all)

/-- The calls of `preflight`, one a rank. -/
def system : System State Label := ⟨fun s => s = {}, Step worldSize digest skip target⟩

/-- What the ranks have contributed, and why a call has ended. -/
structure Inv (s : State) : Prop where
  called : ∀ r, s.phase r ≠ .idle → InWorld worldSize r
  skips : ∀ r v, s.skips r = some v → s.phase r ≠ .idle ∧ v = if skip r then 1 else 0
  digests : ∀ r b, s.digests r = some b → (s.skips r).isSome ∧ skip r = false ∧
    (bytesOf (digest r)).length = 71 ∧ b = localDigest (digest r)
  threw : ∀ r fault, s.phase r = .threw fault → s.skips r = none ∨
    ¬ Agreement worldSize digest skip ∨ (skip r = false ∧ s.digests r = none)
  returned : ∀ r, s.phase r = .returned →
    Agreement worldSize digest skip ∧ ∀ r', InWorld worldSize r' →
      (s.skips r').isSome ∧ (skip r' = false → (s.digests r').isSome)

variable {worldSize digest skip target}

theorem mapM_eq_some {α β : Type} {f : α → Option β} : ∀ {l : List α} {values : List β},
    l.mapM f = some values →
      (∀ a ∈ l, ∃ v ∈ values, f a = some v) ∧ ∀ v ∈ values, ∃ a ∈ l, f a = some v
  | [], values, h => by
    rw [List.mapM_nil] at h
    cases h
    simp
  | a :: l, values, h => by
    rw [List.mapM_cons, Option.bind_eq_bind, Option.bind_eq_some_iff] at h
    obtain ⟨v, hv, h⟩ := h
    rw [Option.bind_eq_bind, Option.bind_eq_some_iff] at h
    obtain ⟨rest, hrest, h⟩ := h
    obtain rfl := Option.some.inj h
    obtain ⟨h₁, h₂⟩ := mapM_eq_some hrest
    constructor
    · intro b hb
      rcases List.mem_cons.1 hb with rfl | hb
      · exact ⟨v, List.mem_cons_self, hv⟩
      · obtain ⟨w, hw, hfw⟩ := h₁ b hb
        exact ⟨w, List.mem_cons_of_mem _ hw, hfw⟩
    · intro w hw
      rcases List.mem_cons.1 hw with rfl | hw
      · exact ⟨a, List.mem_cons_self, hv⟩
      · obtain ⟨b, hb, hfb⟩ := h₂ w hw
        exact ⟨b, List.mem_cons_of_mem _ hb, hfb⟩

/-- A gather has the contribution of every rank and nothing else. -/
theorem gathered_eq_some {α : Type} {contribution : CInt → Option α} {values : List α}
    (h : gathered worldSize contribution = some values) :
    (∀ r, InWorld worldSize r → ∃ v ∈ values, contribution r = some v) ∧
      ∀ v ∈ values, ∃ r, InWorld worldSize r ∧ contribution r = some v := by
  obtain ⟨h₁, h₂⟩ := mapM_eq_some h
  refine ⟨fun r hr => h₁ r (mem_worldRanks.2 hr), fun v hv => ?_⟩
  obtain ⟨r, hr, hrv⟩ := h₂ v hv
  exact ⟨r, mem_worldRanks.1 hr, hrv⟩

theorem flag_inj {a b : Bool} : ((if a then 1 else 0 : CInt) = if b then 1 else 0) ↔ a = b := by
  cases a <;> cases b <;> decide

/-- A comparison of a gather fails for an entry. -/
theorem exists_of_forM_error {α : Type} {p : α → Prop} [DecidablePred p] {fault : Fault}
    {l : List α} {e : Fault} (h : (l.forM fun a => throwIf (p a) fault) = .error e) :
    ∃ a ∈ l, p a := by
  by_contra hnone
  have hok : (l.forM fun a => throwIf (p a) fault) = .ok () :=
    forM_eq_ok.2 fun a ha => throwIf_eq_ok.2 fun hp => hnone ⟨a, ha, hp⟩
  rw [hok] at h
  cases h

theorem inv_init : Inv worldSize digest skip {} where
  called r h := absurd rfl h
  skips r v h := by cases h
  digests r b h := by cases h
  threw r fault h := by cases h
  returned r h := by cases h

/-- A call that ends, with its reason. -/
theorem Inv.ends {s : State} (h : Inv worldSize digest skip s) {r : CInt} {p : Phase}
    (hr : InWorld worldSize r) (hne : p ≠ .idle)
    (hthrew : ∀ fault, p = .threw fault → s.skips r = none ∨
      ¬ Agreement worldSize digest skip ∨ (skip r = false ∧ s.digests r = none))
    (hreturned : p = .returned → Agreement worldSize digest skip ∧
      ∀ r', InWorld worldSize r' →
        (s.skips r').isSome ∧ (skip r' = false → (s.digests r').isSome)) :
    Inv worldSize digest skip (s.setPhase r p) := by
  have hphase {r' : CInt} (hne' : r' ≠ r) : (s.setPhase r p).phase r' = s.phase r' :=
    Function.update_of_ne hne' _ _
  have hself : (s.setPhase r p).phase r = p := Function.update_self _ _ _
  constructor
  · intro r' hcalled
    by_cases he : r' = r
    · exact he ▸ hr
    · exact h.called r' (hphase he ▸ hcalled)
  · intro r' v hv
    by_cases he : r' = r
    · subst he
      exact ⟨hself.symm ▸ hne, (h.skips r' v hv).2⟩
    · rw [hphase he]
      exact h.skips r' v hv
  · exact h.digests
  · intro r' fault hthrow
    by_cases he : r' = r
    · subst he
      exact hthrew fault (hself ▸ hthrow)
    · exact h.threw r' fault (hphase he ▸ hthrow)
  · intro r' hret
    by_cases he : r' = r
    · subst he
      exact hreturned (hself ▸ hret)
    · exact h.returned r' (hphase he ▸ hret)

theorem Inv.enter {s : State} (h : Inv worldSize digest skip s) {r : CInt}
    (hr : InWorld worldSize r) (hidle : s.phase r = .idle) :
    Inv worldSize digest skip (s.enter skip target r) := by
  have hnone : s.skips r = none := by
    cases hv : s.skips r with
    | none => rfl
    | some v => exact absurd hidle (h.skips r v hv).1
  unfold State.enter
  split
  next fault _ => exact h.ends hr (by simp) (fun _ _ => Or.inl hnone) (by simp)
  next value hvalue =>
    rw [contributeSkip, bind_eq_ok] at hvalue
    obtain ⟨-, -, hvalue⟩ := hvalue
    rw [pure_eq_ok] at hvalue
    have h' := h.ends (p := .gatheringSkips) hr (by simp) (by simp) (by simp)
    have hmono {r' : CInt} (hs : (s.skips r').isSome) :
        (Function.update s.skips r (some value) r').isSome := by
      by_cases he : r' = r
      · rw [he, Function.update_self]; rfl
      · rwa [Function.update_of_ne he]
    refine ⟨h'.called, fun r' v hv => ?_, fun r' b hb => ?_, fun r' fault hthrow => ?_,
      fun r' hret => ?_⟩
    · change Function.update s.skips r (some value) r' = some v at hv
      by_cases he : r' = r
      · subst he
        rw [Function.update_self] at hv
        refine ⟨?_, (Option.some.inj hv).symm.trans hvalue.symm⟩
        show Function.update s.phase r' Phase.gatheringSkips r' ≠ _
        rw [Function.update_self]
        simp
      · rw [Function.update_of_ne he] at hv
        exact h'.skips r' v hv
    · obtain ⟨hsome, hrest⟩ := h'.digests r' b hb
      exact ⟨hmono hsome, hrest⟩
    · by_cases he : r' = r
      · subst he
        change Function.update s.phase r' Phase.gatheringSkips r' = _ at hthrow
        rw [Function.update_self] at hthrow
        cases hthrow
      · show Function.update s.skips r (some value) r' = none ∨ _
        rw [Function.update_of_ne he]
        exact h'.threw r' fault hthrow
    · obtain ⟨hagree, hall⟩ := h'.returned r' hret
      exact ⟨hagree, fun r'' hr'' => ⟨hmono (hall r'' hr'').1, (hall r'' hr'').2⟩⟩

theorem Inv.afterSkips {s : State} (h : Inv worldSize digest skip s) {r : CInt}
    (hphase : s.phase r = .gatheringSkips) {values : List CInt}
    (hg : gathered worldSize s.skips = some values) :
    Inv worldSize digest skip (s.afterSkips digest skip r values) := by
  have hr : InWorld worldSize r := h.called r (by simp [hphase])
  obtain ⟨hall, honly⟩ := gathered_eq_some hg
  have hsome {r' : CInt} (hr' : InWorld worldSize r') : (s.skips r').isSome := by
    obtain ⟨v, -, hv⟩ := hall r' hr'
    rw [hv]
    rfl
  unfold State.afterSkips
  split
  next fault herror =>
    -- a rank has another flag
    obtain ⟨v, hv, hne⟩ := exists_of_forM_error herror
    obtain ⟨r', hr', hr'v⟩ := honly v hv
    refine h.ends hr (by simp) (fun _ _ => Or.inr (Or.inl fun hagree => hne ?_)) (by simp)
    rw [(h.skips r' v hr'v).2, flag_inj]
    exact (hagree r' r hr' hr).1
  next hok =>
    have hflag {r' : CInt} (hr' : InWorld worldSize r') : skip r' = skip r := by
      obtain ⟨v, hv, hr'v⟩ := hall r' hr'
      have heq := not_not.1 (throwIf_eq_ok.1 (forM_eq_ok.1 hok v hv))
      rw [(h.skips r' v hr'v).2] at heq
      exact flag_inj.1 heq
    rcases contributeDigest_cases (digest r) (skip r) with
      ⟨hs, hd⟩ | ⟨hs, hlen, fault, hd⟩ | ⟨hs, hlen, hd⟩
    · rw [hd]
      have hon {r' : CInt} (hr' : InWorld worldSize r') : skip r' = true := (hflag hr').trans hs
      refine h.ends hr (by simp) (by simp) fun _ => ⟨fun r₁ r₂ h₁ h₂ => ?_, fun r' hr' => ?_⟩
      · exact ⟨(hon h₁).trans (hon h₂).symm, fun hoff => absurd (hon h₁) (by simp [hoff])⟩
      · exact ⟨hsome hr', fun hoff => absurd (hon hr') (by simp [hoff])⟩
    · rw [hd]
      refine h.ends hr (by simp) (fun _ _ => Or.inr (Or.inr ⟨hs, ?_⟩)) (by simp)
      cases hb : s.digests r with
      | none => rfl
      | some b => exact absurd (h.digests r b hb).2.2.1 hlen
    · rw [hd]
      have h' := h.ends (p := .gatheringDigests) hr (by simp) (by simp) (by simp)
      have hdigests (r' : CInt) (hne : r' ≠ r) :
          Function.update s.digests r (some (localDigest (digest r))) r' = s.digests r' :=
        Function.update_of_ne hne _ _
      refine ⟨h'.called, h'.skips, fun r' b hb => ?_, fun r' fault hthrow => ?_,
        fun r' hret => ?_⟩
      · change Function.update s.digests r (some (localDigest (digest r))) r' = some b at hb
        by_cases he : r' = r
        · subst he
          rw [Function.update_self] at hb
          exact ⟨hsome hr, hs, hlen, (Option.some.inj hb).symm⟩
        · rw [hdigests r' he] at hb
          exact h'.digests r' b hb
      · by_cases he : r' = r
        · subst he
          change Function.update s.phase r' Phase.gatheringDigests r' = _ at hthrow
          rw [Function.update_self] at hthrow
          cases hthrow
        · show _ ∨ _ ∨ _ ∧ Function.update s.digests r _ r' = none
          rw [hdigests r' he]
          exact h'.threw r' fault hthrow
      · obtain ⟨hagree, hall'⟩ := h'.returned r' hret
        refine ⟨hagree, fun r'' hr'' => ⟨(hall' r'' hr'').1, fun hoff => ?_⟩⟩
        show (Function.update s.digests r (some (localDigest (digest r))) r'').isSome
        by_cases he : r'' = r
        · rw [he, Function.update_self]
          rfl
        · rw [hdigests r'' he]
          exact (hall' r'' hr'').2 hoff

theorem Inv.afterDigests {s : State} (h : Inv worldSize digest skip s) {r : CInt}
    (hphase : s.phase r = .gatheringDigests) {all : List (List UInt8)}
    (hg : gathered worldSize s.digests = some all) :
    Inv worldSize digest skip (s.afterDigests digest r all) := by
  have hr : InWorld worldSize r := h.called r (by simp [hphase])
  obtain ⟨hall, honly⟩ := gathered_eq_some hg
  have hentry {r' : CInt} (hr' : InWorld worldSize r') : ∃ b ∈ all, (s.skips r').isSome ∧
      skip r' = false ∧ (s.digests r').isSome ∧ (bytesOf (digest r')).length = 71 ∧
      b = localDigest (digest r') := by
    obtain ⟨b, hb, hr'b⟩ := hall r' hr'
    obtain ⟨h₁, h₂, h₃, h₄⟩ := h.digests r' b hr'b
    exact ⟨b, hb, h₁, h₂, by rw [hr'b]; rfl, h₃, h₄⟩
  obtain ⟨-, -, -, hoff, -, hlen, -⟩ := hentry hr
  refine h.ends hr (by split <;> simp) (fun fault hthrow => Or.inr (Or.inl ?_)) fun hret => ?_
  · intro hagree
    split at hthrow
    next fault' herror =>
      -- a rank has another digest
      obtain ⟨b, hb, hne⟩ := exists_of_forM_error herror
      obtain ⟨r', hr', hr'b⟩ := honly b hb
      obtain ⟨-, -, -, rfl⟩ := h.digests r' b hr'b
      exact hne (by rw [(hagree r r' hr hr').2 hoff])
    next => cases hthrow
  · split at hret
    next => cases hret
    next hok =>
      have hdigest {r' : CInt} (hr' : InWorld worldSize r') : digest r' = digest r := by
        obtain ⟨b, hb, -, -, -, hlen', rfl⟩ := hentry hr'
        have heq := not_not.1 (throwIf_eq_ok.1 (forM_eq_ok.1 hok _ hb))
        exact (localDigest_inj hlen' hlen).1 heq
      have hfalse {r' : CInt} (hr' : InWorld worldSize r') : skip r' = false := by
        obtain ⟨-, -, -, hoff', -⟩ := hentry hr'
        exact hoff'
      refine ⟨fun r₁ r₂ h₁ h₂ => ⟨(hfalse h₁).trans (hfalse h₂).symm, fun _ =>
        (hdigest h₁).trans (hdigest h₂).symm⟩, fun r' hr' => ?_⟩
      obtain ⟨-, -, hskip, -, hsome, -⟩ := hentry hr'
      exact ⟨hskip, fun _ => hsome⟩

theorem inv_of_reachable {s : State} (h : (system worldSize digest skip target).Reachable s) :
    Inv worldSize digest skip s := by
  refine h.invariant (fun s hs => hs ▸ inv_init) fun s l t _ hi hst => ?_
  cases hst with
  | enter hr hidle => exact hi.enter hr hidle
  | skips hphase hg => exact hi.afterSkips hphase hg
  | digests hphase hg => exact hi.afterDigests hphase hg

end MpiPreflight

/-! ## Agreement -/

/-- **Preflight is an agreement.**  On the mock cluster, with calls of `abort_all` at
    any time, and over MPI: where a rank has passed, every rank has called, and the
    flags agree, and so do the digests if the flag is off; where they do not, every
    call that has ended has thrown.  Over MPI no call throws once one has passed. -/
theorem preflight_agreement (digest : CInt → String) (skip : CInt → Bool) :
    (∀ (cfg : MockClusterConfig) (s : MockPreflight.State),
      (MockPreflight.system cfg digest skip).Reachable s →
      (∀ r, s.phase r = .returned → (∀ r', InWorld cfg.worldSize r' → s.phase r' ≠ .idle) ∧
        Agreement cfg.worldSize digest skip) ∧
      (¬ Agreement cfg.worldSize digest skip →
        ∀ r, s.phase r ≠ .idle → s.phase r ≠ .waiting → ∃ t, s.phase r = .threw t)) ∧
    (∀ (worldSize : CInt) (target : CInt → TargetConfig) (s : MpiPreflight.State),
      (MpiPreflight.system worldSize digest skip target).Reachable s →
      (∀ r, s.phase r = .returned →
        (∀ r', InWorld worldSize r' → s.phase r' ≠ .idle ∧ ∀ fault, s.phase r' ≠ .threw fault) ∧
          Agreement worldSize digest skip) ∧
      (¬ Agreement worldSize digest skip →
        ∀ r, s.phase r ≠ .idle → s.phase r ≠ .gatheringSkips → s.phase r ≠ .gatheringDigests →
          ∃ fault, s.phase r = .threw fault)) := by
  constructor
  · intro cfg s hs
    have hi := MockPreflight.inv_of_reachable hs
    refine ⟨hi.returned, fun hnot r hidle hwaiting => ?_⟩
    cases hphase : s.phase r with
    | idle => exact absurd hphase hidle
    | waiting => exact absurd hphase hwaiting
    | returned => exact absurd (hi.returned r hphase).2 hnot
    | threw t => exact ⟨t, rfl⟩
  · intro worldSize target s hs
    have hi := MpiPreflight.inv_of_reachable hs
    refine ⟨fun r hret => ?_, fun hnot r hidle h₁ h₂ => ?_⟩
    · obtain ⟨hagree, hall⟩ := hi.returned r hret
      refine ⟨fun r' hr' => ⟨?_, fun fault hthrow => ?_⟩, hagree⟩
      · obtain ⟨v, hv⟩ := Option.isSome_iff_exists.1 (hall r' hr').1
        exact (hi.skips r' v hv).1
      · rcases hi.threw r' fault hthrow with hnone | hnot | ⟨hoff, hnone⟩
        · exact absurd (hall r' hr').1 (by simp [hnone])
        · exact hnot hagree
        · exact absurd ((hall r' hr').2 hoff) (by simp [hnone])
    · cases hphase : s.phase r with
      | idle => exact absurd hphase hidle
      | gatheringSkips => exact absurd hphase h₁
      | gatheringDigests => exact absurd hphase h₂
      | returned => exact absurd (hi.returned r hphase).1 hnot
      | threw fault => exact ⟨fault, rfl⟩

/-- One rank: its call enters, and leaves without an exception. -/
theorem reachable_oneRank (cfg : MockClusterConfig) (hsize : cfg.worldSize = 1) :
    ∃ s, (MockPreflight.system cfg (fun _ => "") fun _ => false).Reachable s ∧
      s.phase 0 = .returned := by
  have hworld : InWorld cfg.worldSize 0 := by rw [hsize]; decide
  refine ⟨_, .step (.step (.init rfl) (.enter hworld rfl)) (.leave (r := 0) rfl (Or.inr ?_)), ?_⟩
  · rw [hsize]
    rfl
  · rfl

/-- The only rank of a cluster passes, so it has called, and it agrees with itself. -/
theorem preflight_agreement_oneRank : ∃ s,
    (MockPreflight.system ⟨1, [], [], [], [], [], [], [], by decide⟩ (fun _ => "")
      fun _ => false).Reachable s ∧ s.phase 0 = .returned ∧ s.phase 0 ≠ .idle ∧
        Agreement 1 (fun _ => "") fun _ => false := by
  obtain ⟨s, hs, hret⟩ := reachable_oneRank ⟨1, [], [], [], [], [], [], [], by decide⟩ rfl
  have h := ((preflight_agreement (fun _ => "") fun _ => false).1 _ s hs).1 0 hret
  exact ⟨s, hs, hret, h.1 0 (by decide), h.2⟩

end CkksRuntime
