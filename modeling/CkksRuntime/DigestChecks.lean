/-
  ckks-runtime formalization — `skip_artifact_digest_checks` skips the three digest
  comparisons and nothing else.

  * `verify_skip`, `load_skip`: the verifier and the bundle loader with the flag are
    those without it, on an artifact whose digest has been replaced by the right one;
  * `preflight_skip`: so is the preflight of the ranks, with equal plan digests.
-/
import CkksRuntime.Acceptance
import CkksRuntime.PlaintextBundle
import CkksRuntime.Preflight

namespace CkksRuntime

open Transitions

/-! ## The verifier and the loader -/

/-- The plan with another digest of its operator specification. -/
def RuntimePlan.withSpecDigest (plan : RuntimePlan) (digest : String) : RuntimePlan :=
  { plan with target := { plan.target with
      operatorSpec := { plan.target.operatorSpec with sourceSha256 := digest } } }

namespace PlanVerifier

theorem failIf_pos {c : Prop} [Decidable c] {message : String} (h : c) :
    failIf c message = fail message := if_pos h

theorem failIf_neg {c : Prop} [Decidable c] {message : String} (h : ¬ c) :
    failIf c message = .ok () := if_neg h

/-- The verifier with the flag is the one without it, on the plan with the digest of
    the specification. -/
theorem verify_skip (plan : RuntimePlan) (spec : LoadedOperatorSpec) :
    verify plan spec true = verify (plan.withSpecDigest spec.sourceSha256) spec false := by
  have hheader : checkHeader plan spec true =
      checkHeader (plan.withSpecDigest spec.sourceSha256) spec false := by
    unfold checkHeader
    dsimp only
    have hright : ¬ (¬ false = true ∧ (plan.withSpecDigest
        spec.sourceSha256).target.operatorSpec.sourceSha256 ≠ spec.sourceSha256) := by
      simp [RuntimePlan.withSpecDigest]
    rw [failIf_neg (c := ¬ true = true ∧ _) (by simp), failIf_neg hright]
    rfl
  unfold verify
  rw [hheader]
  rfl

def specMismatch : Fault :=
  .runtimeError ("plan verification failed: " ++ "OperatorSpec source SHA-256 mismatch")

/-- What passes with the flag passes without it, or has the wrong digest. -/
theorem verify_noskip {plan : RuntimePlan} {spec : LoadedOperatorSpec}
    {requirements : PlanRequirements} (h : verify plan spec true = .ok requirements) :
    verify plan spec false = .ok requirements ∨
      verify plan spec false = .error specMismatch := by
  by_cases hdigest : plan.target.operatorSpec.sourceSha256 = spec.sourceSha256
  · left
    rw [verify_skip, ← hdigest] at h
    exact h
  · right
    obtain ⟨u, hheader, -⟩ := bind_eq_ok.1 h
    unfold verify
    have hfail : checkHeader plan spec false = .error specMismatch := by
      simp only [checkHeader, bind_eq_ok, failIf_eq_ok, exists_const] at hheader
      obtain ⟨h₁, h₂, h₃, h₄, h₅, h₆, h₇, h₈, -⟩ := hheader
      unfold checkHeader
      dsimp only
      rw [failIf_neg h₁, failIf_neg h₂, failIf_neg h₃, failIf_neg h₄, failIf_neg h₅,
        failIf_neg h₆, failIf_neg h₇, failIf_neg h₈, failIf_pos ⟨by simp, hdigest⟩]
      rfl
    rw [hfail]
    rfl

/-- What passes without the flag passes with it. -/
theorem verify_of_noskip {plan : RuntimePlan} {spec : LoadedOperatorSpec}
    {requirements : PlanRequirements} (h : verify plan spec false = .ok requirements) :
    verify plan spec true = .ok requirements := by
  obtain ⟨u, hheader, -⟩ := bind_eq_ok.1 h
  simp only [checkHeader, bind_eq_ok, failIf_eq_ok, exists_const, not_and, not_not] at hheader
  have hdigest := hheader.2.2.2.2.2.2.2.2.1 (by simp)
  rw [verify_skip, ← hdigest]
  exact h

end PlanVerifier

namespace PlaintextBundleLoader

variable {sax : Sax} {files : Files} {directory : String} {reference : PlaintextBundleRef}
  {contents : List String} {slotCapacity : ℕ}

def manifestMismatch : Fault := .runtimeError "plaintext bundle manifest SHA-256 mismatch"

/-- The digest of the actual manifest. -/
def actualManifestDigest (files : Files) (directory : String) : Except Fault String := do
  sourceSha256 (← files.readFileBytes (joinPath directory "manifest.json"))

/-- What the loader does once the digest need not be compared. -/
theorem load_eq {skip : Bool} {bytes : Bytes} {digest : String}
    (hbytes : files.readFileBytes (joinPath directory "manifest.json") = .ok bytes)
    (hdigest : sourceSha256 bytes = .ok digest)
    (hcheck : skip = true ∨ digest = reference.manifestSha256) :
    load sax files directory reference contents slotCapacity skip = do
      let entries ← readManifest (← JsonUtils.parse sax bytes doc) reference
      let lengths := entries.map fun entry => (entry.content, entry.byteLength)
      let uniqueRequired := contents.foldl (fun s c => setInsert (fun a b => a < b) c s) []
      let slotsByContent ← uniqueRequired.mapM (loadContent files directory lengths slotCapacity)
      return ⟨slotsByContent, digest⟩ := by
  have hpass : throwIf ((!skip) = true ∧ digest ≠ reference.manifestSha256)
      (.runtimeError "plaintext bundle manifest SHA-256 mismatch") = .ok () := by
    refine if_neg ?_
    rintro ⟨hskip, hne⟩
    rcases hcheck with rfl | heq
    exacts [absurd hskip (by simp), hne heq]
  unfold load
  rw [hbytes]
  simp only [bind, Except.bind, hdigest, hpass]

/-- A wrong digest. -/
theorem load_mismatch {bytes : Bytes} {digest : String}
    (hbytes : files.readFileBytes (joinPath directory "manifest.json") = .ok bytes)
    (hdigest : sourceSha256 bytes = .ok digest) (hne : digest ≠ reference.manifestSha256) :
    load sax files directory reference contents slotCapacity false = .error manifestMismatch := by
  have hfail : throwIf ((!false) = true ∧ digest ≠ reference.manifestSha256)
      (.runtimeError "plaintext bundle manifest SHA-256 mismatch") = .error manifestMismatch :=
    if_pos ⟨rfl, hne⟩
  unfold load
  rw [hbytes]
  simp only [bind, Except.bind, hdigest, hfail]

/-- What is loaded has a manifest with a digest. -/
theorem digest_of_load {skip : Bool} {bundle : LoadedPlaintextBundle}
    (h : load sax files directory reference contents slotCapacity skip = .ok bundle) :
    ∃ bytes digest, files.readFileBytes (joinPath directory "manifest.json") = .ok bytes ∧
      sourceSha256 bytes = .ok digest ∧ (skip = true ∨ digest = reference.manifestSha256) := by
  simp only [load, bind_eq_ok, throwIf_eq_ok] at h
  obtain ⟨bytes, hbytes, digest, hdigest, _, hcheck, -⟩ := h
  refine ⟨bytes, digest, hbytes, hdigest, ?_⟩
  cases skip with
  | true => exact Or.inl rfl
  | false => exact Or.inr (by simpa using hcheck)

/-- The loader with the flag is the one without it, on the reference with the digest
    of the actual manifest. -/
theorem load_skip (sax : Sax) (files : Files) (directory : String) (reference : PlaintextBundleRef)
    (contents : List String) (slotCapacity : ℕ) :
    load sax files directory reference contents slotCapacity true =
      actualManifestDigest files directory >>= fun digest =>
        load sax files directory { reference with manifestSha256 := digest } contents slotCapacity
          false := by
  cases hbytes : files.readFileBytes (joinPath directory "manifest.json") with
  | error fault =>
    unfold load actualManifestDigest
    rw [hbytes]
    rfl
  | ok bytes =>
    cases hdigest : sourceSha256 bytes with
    | error fault =>
      unfold load actualManifestDigest
      rw [hbytes]
      simp only [bind, Except.bind, hdigest]
    | ok digest =>
      have hactual : actualManifestDigest files directory = .ok digest := by
        unfold actualManifestDigest
        rw [hbytes]
        exact hdigest
      have hright : digest =
        ({ reference with manifestSha256 := digest } : PlaintextBundleRef).manifestSha256 := rfl
      rw [hactual, load_eq hbytes hdigest (Or.inl rfl)]
      exact (load_eq hbytes hdigest (Or.inr hright)).symm

/-- What loads with the flag loads without it, or has the wrong digest. -/
theorem load_noskip {bundle : LoadedPlaintextBundle}
    (h : load sax files directory reference contents slotCapacity true = .ok bundle) :
    load sax files directory reference contents slotCapacity false = .ok bundle ∨
      load sax files directory reference contents slotCapacity false = .error manifestMismatch := by
  obtain ⟨bytes, digest, hbytes, hdigest, -⟩ := digest_of_load h
  by_cases hne : digest = reference.manifestSha256
  · left
    rw [load_eq hbytes hdigest (Or.inl rfl)] at h
    rw [load_eq hbytes hdigest (Or.inr hne)]
    exact h
  · exact Or.inr (load_mismatch hbytes hdigest hne)

/-- What loads without the flag loads with it. -/
theorem load_of_noskip {bundle : LoadedPlaintextBundle}
    (h : load sax files directory reference contents slotCapacity false = .ok bundle) :
    load sax files directory reference contents slotCapacity true = .ok bundle := by
  obtain ⟨bytes, digest, hbytes, hdigest, hcheck⟩ := digest_of_load h
  rw [load_eq hbytes hdigest hcheck] at h
  rw [load_eq hbytes hdigest (Or.inl rfl)]
  exact h

end PlaintextBundleLoader

/-! ## The preflight of the ranks -/

namespace MockCluster

/-- The tables of ranks that bring other digests and flags. -/
def relabel (c : MockCluster) (f : String → String) (g : Bool → Bool) : MockCluster :=
  { c with
    planDigests := c.planDigests.map fun entry => (entry.1, f entry.2)
    skipDigestChecks := c.skipDigestChecks.map fun entry => (entry.1, g entry.2) }

/-- The tables of ranks that have the flag. -/
def skipping (c : MockCluster) : MockCluster := c.relabel id fun _ => true

/-- The tables of ranks without the flag, with one digest. -/
def agreeing (c : MockCluster) (digest : String) : MockCluster :=
  c.relabel (fun _ => digest) fun _ => false

def planMismatch : String := "plan source SHA-256 mismatch across mock ranks"

theorem emplace_map {α β : Type} (f : α → β) (key : CInt) (a : α) (l : List (CInt × α)) :
    emplace key (f a) (l.map fun e => (e.1, f e.2)) =
      (emplace key a l).map fun e => (e.1, f e.2) := by
  induction l with
  | nil => rfl
  | cons e es ih =>
    rw [List.map_cons, emplace, emplace]
    dsimp only
    split_ifs
    · rfl
    · rfl
    · rw [ih]
      rfl

variable {c : MockCluster}

theorem relabel_keys (f : String → String) (g : Bool → Bool) :
    (c.relabel f g).planDigests.map (·.1) = c.planDigests.map (·.1) ∧
      (c.relabel f g).skipDigestChecks.map (·.1) = c.skipDigestChecks.map (·.1) := by
  constructor <;> exact List.map_map ..

theorem skipping_planDigests (c : MockCluster) : c.skipping.planDigests = c.planDigests :=
  List.map_id' c.planDigests

theorem register_relabel (f : String → String) (g : Bool → Bool) (r : CInt) (digest : String)
    (skip : Bool) : (c.relabel f g).register r (f digest) (g skip) =
      (c.register r digest skip).map fun c' => c'.relabel f g := by
  unfold register
  rw [(relabel_keys f g).1]
  split_ifs
  · rfl
  · refine congrArg Except.ok ?_
    show ({ c.relabel f g with
      planDigests := emplace r (f digest) (c.planDigests.map fun e => (e.1, f e.2))
      skipDigestChecks := emplace r (g skip) (c.skipDigestChecks.map fun e => (e.1, g e.2)) } :
        MockCluster) = _
    rw [emplace_map, emplace_map]
    rfl

/-- The comparison of ranks with one flag. -/
theorem agree_flag {flag : Bool} (hskips : ∀ entry ∈ c.skipDigestChecks, entry.2 = flag)
    (hkeys : c.skipDigestChecks.map (·.1) = c.planDigests.map (·.1))
    (habort : c.abortReason = none) (hne : c.planDigests ≠ []) :
    c.agree = if flag = false ∧ ∃ e ∈ c.planDigests, ∃ e' ∈ c.planDigests, e.2 ≠ e'.2 then
        c.panic "plan source SHA-256 mismatch across mock ranks"
      else (.ok (), c) := by
  unfold agree
  rw [habort]
  dsimp only
  cases hs : c.skipDigestChecks with
  | nil =>
    rw [hs] at hkeys
    exact absurd (List.map_eq_nil_iff.1 hkeys.symm) hne
  | cons entry entries =>
    obtain ⟨r, b⟩ := entry
    rw [hs] at hskips
    obtain rfl : b = flag := hskips (r, b) List.mem_cons_self
    have hsame : ¬ ∃ entry ∈ (r, b) :: entries, entry.2 ≠ b := by
      rintro ⟨entry, he, hneq⟩
      exact hneq (hskips entry he)
    dsimp only
    rw [if_neg hsame]
    cases b with
    | true => rfl
    | false =>
      obtain ⟨⟨r', expected⟩, digests, hd⟩ := List.exists_cons_of_ne_nil hne
      rw [hd]
      dsimp only
      by_cases hmis : ∃ entry ∈ (r', expected) :: digests, entry.2 ≠ expected
      · have hmis' : false = false ∧ ∃ e ∈ (r', expected) :: digests,
            ∃ e' ∈ (r', expected) :: digests, e.2 ≠ e'.2 := by
          obtain ⟨e, he, hneq⟩ := hmis
          exact ⟨rfl, e, he, _, List.mem_cons_self, hneq⟩
        rw [if_pos hmis, if_pos hmis']
        rfl
      · have hmis' : ¬ (false = false ∧ ∃ e ∈ (r', expected) :: digests,
            ∃ e' ∈ (r', expected) :: digests, e.2 ≠ e'.2) := by
          rintro ⟨-, e, he, e', he', hneq⟩
          simp only [not_exists, not_and, not_not] at hmis
          exact hneq ((hmis e he).trans (hmis e' he').symm)
        rw [if_neg hmis, if_neg hmis']
        rfl

/-- The comparison with no entries, or after an abort. -/
theorem agree_early {c' : MockCluster} (habort : c'.abortReason = c.abortReason)
    (h : c.abortReason.isSome ∨ c.skipDigestChecks = [] ∧ c'.skipDigestChecks = []) :
    c'.agree.1 = c.agree.1 ∧ c'.agree.2 = c' ∧ c.agree.2 = c := by
  unfold agree
  rw [habort]
  cases hreason : c.abortReason with
  | some reason => exact ⟨rfl, rfl, rfl⟩
  | none =>
    rw [hreason] at h
    obtain ⟨h₁, h₂⟩ := h.resolve_left (by simp)
    rw [h₁, h₂]
    exact ⟨rfl, rfl, rfl⟩

/-- Ranks that have the flag agree as ranks without it that have one digest. -/
theorem agree_agreeing (digest : String) (hskips : ∀ entry ∈ c.skipDigestChecks, entry.2 = true)
    (hkeys : c.skipDigestChecks.map (·.1) = c.planDigests.map (·.1)) :
    (c.agreeing digest).agree = (c.agree.1, c.agree.2.agreeing digest) := by
  by_cases hearly : c.abortReason.isSome ∨ c.planDigests = []
  · obtain ⟨h₁, h₂, h₃⟩ := @agree_early c (c.agreeing digest) rfl
      (hearly.imp_right fun h => by
        rw [h] at hkeys
        exact ⟨List.map_eq_nil_iff.1 hkeys,
          by simp [agreeing, relabel, List.map_eq_nil_iff.1 hkeys]⟩)
    exact Prod.ext h₁ (by rw [h₂, h₃])
  · obtain ⟨habort, hne⟩ := not_or.1 hearly
    have habort := Option.not_isSome_iff_eq_none.1 habort
    rw [agree_flag hskips hkeys habort hne, if_neg (by simp)]
    refine (@agree_flag (c.agreeing digest) false ?_ ?_ habort ?_).trans (if_neg ?_)
    · intro entry he
      obtain ⟨e, -, rfl⟩ := List.mem_map.1 he
      rfl
    · exact ((relabel_keys _ _).2.trans hkeys).trans (relabel_keys _ _).1.symm
    · show c.planDigests.map _ ≠ []
      simpa using hne
    · rintro ⟨-, e, he, e', he', hneq⟩
      obtain ⟨_, -, rfl⟩ := List.mem_map.1 he
      obtain ⟨_, -, rfl⟩ := List.mem_map.1 he'
      exact hneq rfl

/-- Ranks without the flag agree as ranks that have it, but for different digests. -/
theorem agree_skipping (hskips : ∀ entry ∈ c.skipDigestChecks, entry.2 = false)
    (hkeys : c.skipDigestChecks.map (·.1) = c.planDigests.map (·.1)) :
    c.skipping.agree = (c.agree.1, c.agree.2.skipping) ∨
      c.agree.1 = .error (.clusterPanic planMismatch) := by
  by_cases hearly : c.abortReason.isSome ∨ c.planDigests = []
  · left
    obtain ⟨h₁, h₂, h₃⟩ := @agree_early c c.skipping rfl
      (hearly.imp_right fun h => by
        rw [h] at hkeys
        exact ⟨List.map_eq_nil_iff.1 hkeys,
          by simp [skipping, relabel, List.map_eq_nil_iff.1 hkeys]⟩)
    exact Prod.ext h₁ (by rw [h₂, h₃])
  · obtain ⟨habort, hne⟩ := not_or.1 hearly
    have habort := Option.not_isSome_iff_eq_none.1 habort
    rw [agree_flag hskips hkeys habort hne]
    split_ifs with hmis
    · exact Or.inr rfl
    · left
      refine (@agree_flag c.skipping true ?_ ?_ habort ?_).trans (if_neg (by simp))
      · intro entry he
        obtain ⟨e, -, rfl⟩ := List.mem_map.1 he
        rfl
      · exact ((relabel_keys _ _).2.trans hkeys).trans (relabel_keys _ _).1.symm
      · rwa [skipping_planDigests]

end MockCluster

namespace MockPreflight

variable (cfg : MockClusterConfig) (digest : CInt → String) (common : String)

/-- The state of ranks without the flag, with one digest. -/
def State.agreeing (s : State) : State := ⟨s.cluster.agreeing common, s.phase⟩

variable {cfg digest common}

theorem agreeing_enter (s : State) (r : CInt) :
    (s.agreeing common).enter (fun _ => common) (fun _ => false) r =
      (s.enter digest (fun _ => true) r).agreeing common := by
  have hregister : (s.cluster.agreeing common).register r common false =
      (s.cluster.register r (digest r) true).map fun c => c.agreeing common :=
    MockCluster.register_relabel (fun _ => common) (fun _ => false) r (digest r) true
  unfold State.enter
  dsimp only [State.agreeing]
  rw [hregister]
  cases s.cluster.register r (digest r) true <;> rfl

theorem agreeing_leave {s : State} (hinv : Inv cfg digest (fun _ => true) s) (r : CInt) :
    (s.agreeing common).leave r = (s.leave r).agreeing common := by
  have hagree := MockCluster.agree_agreeing common (c := s.cluster)
    (fun entry he => ((hinv.skips entry.1 entry.2).1 he).2) hinv.skipKeys
  unfold State.leave
  dsimp only [State.agreeing]
  rw [hagree]

/-- **The preflight of ranks that have the flag** behaves as that of ranks without it
    that bring one digest. -/
theorem preflight_skip (cfg : MockClusterConfig) (digest : CInt → String) (common : String) :
    (system cfg digest fun _ => true).Bisimulation (system cfg (fun _ => common) fun _ => false)
      fun s s' => (system cfg digest fun _ => true).Reachable s ∧ s' = s.agreeing common where
  init_left := by
    rintro s rfl
    exact ⟨_, rfl, .init rfl, rfl⟩
  init_right := by
    rintro s' rfl
    exact ⟨{}, rfl, .init rfl, rfl⟩
  step_left := by
    rintro s _ l t ⟨hs, rfl⟩ hst
    refine ⟨_, ?_, .step hs hst, rfl⟩
    cases hst with
    | enter hr hidle => exact agreeing_enter s _ ▸ .enter hr hidle
    | leave hw hg =>
      refine agreeing_leave (inv_of_reachable hs) _ ▸ .leave hw ?_
      exact hg.imp_right fun h => (List.length_map _).trans h
    | abort reason => exact .abort (s := s.agreeing common) reason
  step_right := by
    rintro s _ l t' ⟨hs, rfl⟩ hst
    cases hst with
    | @enter r hr hidle =>
      have hst : Step cfg digest (fun _ => true) s (.enter r) _ := .enter hr hidle
      exact ⟨_, hst, .step hs hst, agreeing_enter s r⟩
    | @leave r hw hg =>
      have hg' : s.cluster.Gathered cfg := hg.imp_right fun h => (List.length_map _).symm.trans h
      have hst : Step cfg digest (fun _ => true) s (.leave r) _ := .leave hw hg'
      exact ⟨_, hst, .step hs hst, agreeing_leave (inv_of_reachable hs) r⟩
    | abort reason => exact ⟨_, .abort reason, .step hs (.abort reason), rfl⟩

end MockPreflight

end CkksRuntime
