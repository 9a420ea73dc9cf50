/-
  ckks-runtime formalization — what a load of a plaintext bundle does, for every
  directory, reference and list of required contents.

  * `loadProgram` is the loader as a program that opens files by their path, and
    `outcome_loadProgram` says that on any files it is `load`; the paths it opens
    (`calls_loadProgram`) and what its outcome depends on follow from the program
    alone;
  * `Loadable` says of the files what a successful load needs, `Holds` of a bundle
    what a successful load gives;
  * `load_exact` puts these together.
-/
import CkksRuntime.BundleManifest
import CkksRuntime.Protocol

namespace CkksRuntime

namespace PlaintextBundleLoader

open JsonUtils

/-! ## The loader as a program that opens files -/

/-- A computation that opens files by their path. -/
abbrev Loading (α : Type) : Type :=
  Interaction.Comp String (fun _ => Except Fault Bytes) Unit Fault α

open Interaction

def open_ (path : String) : Loading Bytes := Comp.call path id

/-- `directory / "manifest.json"`. -/
def manifestPath (directory : String) : String := joinPath directory "manifest.json"

/-- `directory / "data" / (content.substr(7) + ".bin")`. -/
def blobPath (directory content : String) : String :=
  joinPath (joinPath directory "data") (String.ofList (content.toList.drop 7) ++ ".bin")

/-- What is checked of a blob. -/
def checkBlob (content : String) (length : UInt64) (slotCapacity : ℕ) (bytes : Bytes) :
    Except Fault (String × List Double) := do
  throwIf (bytes.length ≠ length.toNat)
    (.runtimeError ("bundle blob byte length mismatch: " ++ content))
  let digest ← sourceSha256 bytes
  throwIf (digest ≠ content)
    (.runtimeError ("bundle blob content SHA-256 mismatch: " ++ content))
  let slots ← decodeSlots bytes content
  throwIf (slots.length > slotCapacity)
    (.runtimeError ("bundle blob exceeds CKKS slot capacity: " ++ content))
  return (content, slots)

def contentProgram (directory : String) (lengths : List (String × UInt64)) (slotCapacity : ℕ)
    (content : String) : Loading (String × List Double) :=
  match lengths.lookup content with
  | none => Comp.throw (.runtimeError ("bundle content is absent from manifest: " ++ content))
  | some length => do
    Comp.throwIf (content.length < 7) (.outOfRange "basic_string::substr")
    let bytes ← open_ (blobPath directory content)
    Comp.ofExcept (checkBlob content length slotCapacity bytes)

def contentPrograms (directory : String) (lengths : List (String × UInt64)) (slotCapacity : ℕ) :
    List String → Loading (List (String × List Double))
  | [] => return []
  | content :: contents => do
    let slots ← contentProgram directory lengths slotCapacity content
    let rest ← contentPrograms directory lengths slotCapacity contents
    return slots :: rest

/-- The lengths of the blobs of a manifest. -/
def checkManifest (sax : Sax) (reference : PlaintextBundleRef) (skipArtifactDigestChecks : Bool)
    (bytes : Bytes) : Except Fault (String × List (String × UInt64)) := do
  let manifestDigest ← sourceSha256 bytes
  throwIf (!skipArtifactDigestChecks ∧ manifestDigest ≠ reference.manifestSha256)
    (.runtimeError "plaintext bundle manifest SHA-256 mismatch")
  let entries ← readManifest (← parse sax bytes doc) reference
  return (manifestDigest, entries.map fun entry => (entry.content, entry.byteLength))

/-- The contents without repetition, in the order of a `std::set`. -/
def uniqueRequired (requiredContents : List String) : List String :=
  requiredContents.foldl (fun s c => setInsert (fun a b => a < b) c s) []

def loadProgram (sax : Sax) (directory : String) (reference : PlaintextBundleRef)
    (requiredContents : List String) (slotCapacity : ℕ) (skipArtifactDigestChecks : Bool) :
    Loading LoadedPlaintextBundle := do
  let manifestBytes ← open_ (manifestPath directory)
  let manifest ← Comp.ofExcept (checkManifest sax reference skipArtifactDigestChecks manifestBytes)
  let slotsByContent ← contentPrograms directory manifest.2 slotCapacity
    (uniqueRequired requiredContents)
  return ⟨slotsByContent, manifest.1⟩

theorem outcome_open (files : Files) (path : String) :
    (open_ path).outcome files.readFileBytes = files.readFileBytes path := rfl

theorem outcome_contentProgram (files : Files) (directory : String)
    (lengths : List (String × UInt64)) (slotCapacity : ℕ) (content : String) :
    (contentProgram directory lengths slotCapacity content).outcome files.readFileBytes =
      loadContent files directory lengths slotCapacity content := by
  unfold contentProgram loadContent
  cases lengths.lookup content with
  | none => rfl
  | some length =>
    dsimp only
    rw [Comp.outcome_bind, Comp.outcome_throwIf]
    refine congrArg _ (funext fun _ => ?_)
    rw [Comp.outcome_bind]
    rfl

theorem outcome_contentPrograms (files : Files) (directory : String)
    (lengths : List (String × UInt64)) (slotCapacity : ℕ) (contents : List String) :
    (contentPrograms directory lengths slotCapacity contents).outcome files.readFileBytes =
      contents.mapM (loadContent files directory lengths slotCapacity) := by
  induction contents with
  | nil => rfl
  | cons content contents ih =>
    rw [contentPrograms, List.mapM_cons, Comp.outcome_bind, outcome_contentProgram]
    refine congrArg _ (funext fun slots => ?_)
    rw [Comp.outcome_bind, ih]
    rfl

/-- **The program, on the files, is the loader.** -/
theorem outcome_loadProgram (sax : Sax) (files : Files) (directory : String)
    (reference : PlaintextBundleRef) (requiredContents : List String) (slotCapacity : ℕ)
    (skip : Bool) :
    (loadProgram sax directory reference requiredContents slotCapacity skip).outcome
        files.readFileBytes =
      load sax files directory reference requiredContents slotCapacity skip := by
  unfold loadProgram load
  rw [Comp.outcome_bind, outcome_open]
  refine congrArg _ (funext fun bytes => ?_)
  rw [Comp.outcome_bind, Comp.outcome_ofExcept, checkManifest]
  simp only [bind_assoc, pure_bind, Comp.outcome_bind, outcome_contentPrograms]
  rfl

/-- The paths that the loader may open. -/
def Allowed (directory : String) (requiredContents : List String) (path : String) : Prop :=
  path = manifestPath directory ∨
    ∃ content ∈ requiredContents, IsDigest content ∧ path = blobPath directory content

/-- The set of the required contents, over what was collected before. -/
theorem foldl_setInsert (contents : List String) : ∀ {seen : List String},
    (seen.Pairwise fun a b => decide (a < b) = true) →
      ((contents.foldl (fun s c => setInsert (fun a b => a < b) c s) seen).Pairwise
          fun a b => decide (a < b) = true) ∧
        ∀ content, content ∈ contents.foldl (fun s c => setInsert (fun a b => a < b) c s) seen ↔
          content ∈ seen ∨ content ∈ contents := by
  have hlt (a b : String) : decide (a < b) = true ↔ id a < id b := decide_eq_true_iff
  induction contents with
  | nil =>
    intro seen h
    exact ⟨h, fun content => by simp⟩
  | cons c contents ih =>
    intro seen h
    obtain ⟨hpairwise, hmem⟩ := ih (pairwise_setInsert hlt Function.injective_id (a := c) h)
    refine ⟨hpairwise, fun content => ?_⟩
    rw [List.foldl_cons, hmem, mem_setInsert hlt Function.injective_id, List.mem_cons]
    tauto

theorem mem_uniqueRequired {content : String} {contents : List String} :
    content ∈ uniqueRequired contents ↔ content ∈ contents := by
  have h := (foldl_setInsert contents List.Pairwise.nil).2 content
  rwa [List.mem_nil_iff, false_or] at h

theorem nodup_uniqueRequired (contents : List String) : (uniqueRequired contents).Nodup := by
  refine (foldl_setInsert contents List.Pairwise.nil).1.imp fun {a b} hab heq => ?_
  subst heq
  exact lt_irrefl a (of_decide_eq_true hab)

/-! ## What is loaded -/

theorem lookup_entries {entries : List BlobEntry} (hnodup : (entries.map (·.content)).Nodup)
    {content : String} {length : UInt64} :
    (entries.map fun entry => (entry.content, entry.byteLength)).lookup content = some length ↔
      ⟨content, length⟩ ∈ entries := by
  induction entries with
  | nil => simp
  | cons entry entries ih =>
    obtain ⟨hnot, hnodup'⟩ := List.nodup_cons.1 hnodup
    obtain ⟨c, n⟩ := entry
    rw [List.map_cons, List.lookup_cons, List.mem_cons, BlobEntry.mk.injEq]
    by_cases heq : content = c
    · subst heq
      rw [beq_self_eq_true]
      refine ⟨fun h => Or.inl ⟨rfl, (Option.some.inj h).symm⟩, ?_⟩
      rintro (⟨-, rfl⟩ | hin)
      · rfl
      · exact absurd (List.mem_map.2 ⟨_, hin, rfl⟩) hnot
    · rw [beq_eq_false_iff_ne.2 heq]
      refine (ih hnodup').trans ⟨Or.inr, ?_⟩
      rintro (⟨h, -⟩ | hin)
      · exact absurd h heq
      · exact hin

theorem seven_le_length {content : String} (h : IsDigest content) : ¬ content.length < 7 := by
  obtain ⟨hex, rfl, -⟩ := h
  rw [String.length_append]
  have : "sha256:".length = 7 := rfl
  omega

/-- The blob of a listed content: the file, its length, its hash, finite doubles, and at
    most the capacity of them. -/
structure BlobLoads (files : Files) (directory : String) (entry : BlobEntry) (slotCapacity : ℕ)
    (bytes : Bytes) : Prop where
  file : files (blobPath directory entry.content) = .bytes bytes
  length : bytes.length = entry.byteLength.toNat
  hash : sourceSha256 bytes = .ok entry.content
  finite : ∀ x ∈ blobDoubles bytes, x.isFinite
  capacity : (blobDoubles bytes).length ≤ slotCapacity

/-- What must hold of the files for a load to succeed. -/
def Loadable (sax : Sax) (files : Files) (directory : String) (reference : PlaintextBundleRef)
    (requiredContents : List String) (slotCapacity : ℕ) : Prop :=
  ∃ manifestBytes root entries, files (manifestPath directory) = .bytes manifestBytes ∧
    sourceSha256 manifestBytes = .ok reference.manifestSha256 ∧
      parse sax manifestBytes doc = .ok root ∧ ManifestFor reference root entries ∧
        ∀ content ∈ requiredContents, ∃ entry ∈ entries, entry.content = content ∧
          ∃ bytes, BlobLoads files directory entry slotCapacity bytes

theorem readFileBytes_eq_ok {files : Files} {path : String} {bytes : Bytes} :
    files.readFileBytes path = .ok bytes ↔ files path = .bytes bytes := by
  unfold Files.readFileBytes
  cases files path <;> simp

/-- **The load of one content.** -/
theorem loadContent_iff {files : Files} {directory : String} {reference : PlaintextBundleRef}
    {root : Json} {entries : List BlobEntry} (h : ManifestFor reference root entries)
    {slotCapacity : ℕ} {content : String} {slots : String × List Double} :
    loadContent files directory (entries.map fun entry => (entry.content, entry.byteLength))
        slotCapacity content = .ok slots ↔
      ∃ entry ∈ entries, entry.content = content ∧ ∃ bytes,
        BlobLoads files directory entry slotCapacity bytes ∧
          slots = (content, (blobDoubles bytes).map clean) := by
  unfold loadContent
  cases hl : (entries.map fun entry => (entry.content, entry.byteLength)).lookup content with
  | none =>
    simp only [reduceCtorEq, false_iff]
    rintro ⟨⟨content, length⟩, hentry, rfl, -⟩
    rw [(lookup_entries h.distinct).2 hentry] at hl
    cases hl
  | some length =>
    have hentry := (lookup_entries h.distinct).1 hl
    have hseven := seven_le_length (h.digest hentry)
    simp only [bind_eq_ok, throwIf_eq_ok, exists_const, readFileBytes_eq_ok, not_not, pure_eq_ok,
      decodeSlots_eq_ok]
    constructor
    · rintro ⟨-, bytes, hfile, hlen, _, hhash, rfl, _, ⟨hfinite, rfl⟩, hcap, rfl⟩
      refine ⟨_, hentry, rfl, bytes, ⟨hfile, hlen, hhash, hfinite, ?_⟩, rfl⟩
      rwa [List.length_map, not_lt] at hcap
    · rintro ⟨⟨content, length'⟩, hentry', rfl, bytes, ⟨hfile, hlen, hhash, hfinite, hcap⟩, rfl⟩
      rw [(lookup_entries h.distinct).2 hentry', Option.some.injEq] at hl
      refine ⟨hseven, bytes, hfile, hl ▸ hlen, _, hhash, rfl, _, ⟨hfinite, rfl⟩, ?_, rfl⟩
      rwa [List.length_map, not_lt]

/-- A blob of a listed content has a double. -/
theorem BlobLoads.ne_nil {files : Files} {directory : String} {reference : PlaintextBundleRef}
    {root : Json} {entries : List BlobEntry} (h : ManifestFor reference root entries)
    {entry : BlobEntry} (hentry : entry ∈ entries) {slotCapacity : ℕ} {bytes : Bytes}
    (hloads : BlobLoads files directory entry slotCapacity bytes) :
    (blobDoubles bytes).map clean ≠ [] := by
  obtain ⟨_, hblob⟩ := h.blobFor hentry
  have hrange := hblob.range.1
  rw [← hloads.length] at hrange
  rw [ne_eq, List.map_eq_nil_iff, blobDoubles, List.map_eq_nil_iff, List.range_eq_nil]
  omega

theorem checkManifest_eq_ok {sax : Sax} {reference : PlaintextBundleRef} {skip : Bool}
    {bytes : Bytes} {manifest : String × List (String × UInt64)} :
    checkManifest sax reference skip bytes = .ok manifest ↔
      ∃ digest root entries, sourceSha256 bytes = .ok digest ∧
        (skip = false → digest = reference.manifestSha256) ∧ parse sax bytes doc = .ok root ∧
          ManifestFor reference root entries ∧
            manifest = (digest, entries.map fun entry => (entry.content, entry.byteLength)) := by
  simp only [checkManifest, bind_eq_ok, readManifest_eq_ok, throwIf_eq_ok, exists_const, pure_eq_ok,
    Bool.not_eq_true', not_and, not_not]
  constructor
  · rintro ⟨digest, hdigest, hskip, root, hroot, entries, hmanifest, rfl⟩
    exact ⟨digest, root, entries, hdigest, hskip, hroot, hmanifest, rfl⟩
  · rintro ⟨digest, root, entries, hdigest, hskip, hroot, hmanifest, rfl⟩
    exact ⟨digest, hdigest, hskip, root, hroot, entries, hmanifest, rfl⟩

/-- **A successful load**, step by step. -/
theorem load_iff {sax : Sax} {files : Files} {directory : String}
    {reference : PlaintextBundleRef} {requiredContents : List String} {slotCapacity : ℕ}
    {skip : Bool} {bundle : LoadedPlaintextBundle} :
    load sax files directory reference requiredContents slotCapacity skip = .ok bundle ↔
      ∃ manifestBytes digest root entries, files (manifestPath directory) = .bytes manifestBytes ∧
        sourceSha256 manifestBytes = .ok digest ∧
          (skip = false → digest = reference.manifestSha256) ∧
            parse sax manifestBytes doc = .ok root ∧ ManifestFor reference root entries ∧
              List.Forall₂ (fun content slots => ∃ entry ∈ entries, entry.content = content ∧
                ∃ bytes, BlobLoads files directory entry slotCapacity bytes ∧
                  slots = (content, (blobDoubles bytes).map clean))
                (uniqueRequired requiredContents) bundle.slotsByContent ∧
              bundle.manifestSourceSha256 = digest := by
  rw [← outcome_loadProgram, loadProgram]
  simp only [Comp.outcome_bind, outcome_open, Comp.outcome_ofExcept, bind_eq_ok,
    readFileBytes_eq_ok, checkManifest_eq_ok, outcome_contentPrograms, Comp.outcome_pure,
    Except.ok.injEq]
  constructor
  · rintro ⟨bytes, hfile, _, ⟨digest, root, entries, hdigest, hskip, hroot, hmanifest, rfl⟩, slots,
      hslots, rfl⟩
    refine ⟨bytes, digest, root, entries, hfile, hdigest, hskip, hroot, hmanifest, ?_, rfl⟩
    exact (mapM_eq_ok.1 hslots).imp fun content slots h => (loadContent_iff hmanifest).1 h
  · rintro ⟨bytes, digest, root, entries, hfile, hdigest, hskip, hroot, hmanifest, hslots, hsha⟩
    refine ⟨bytes, hfile, _, ⟨digest, root, entries, hdigest, hskip, hroot, hmanifest, rfl⟩,
      bundle.slotsByContent, mapM_eq_ok.2 ?_, ?_⟩
    · exact hslots.imp fun content slots h => (loadContent_iff hmanifest).2 h
    · rw [← hsha]

/-! ## The paths -/

theorem calls_contentPrograms {A : String → Prop} {directory : String}
    {lengths : List (String × UInt64)} {slotCapacity : ℕ} {contents : List String}
    (h : ∀ content ∈ contents, ∀ length, lengths.lookup content = some length →
      A (blobPath directory content)) :
    (contentPrograms directory lengths slotCapacity contents).Calls A := by
  induction contents with
  | nil => exact Comp.calls_of_ret rfl
  | cons content contents ih =>
    obtain ⟨hcontent, hcontents⟩ := List.forall_mem_cons.1 h
    refine Comp.Calls.bind ?_ fun slots =>
      Comp.Calls.bind (ih hcontents) fun rest => Comp.calls_of_ret rfl
    unfold contentProgram
    cases hl : lengths.lookup content with
    | none => exact Comp.calls_of_ret rfl
    | some length =>
      exact Comp.Calls.bind (Comp.calls_of_ret rfl) fun _ =>
        Comp.Calls.bind (Comp.calls_call (hcontent length hl)) fun bytes => Comp.calls_of_ret rfl

/-- **The loader opens the manifest and the blobs of required digests**, whatever it
    reads. -/
theorem calls_loadProgram (sax : Sax) (directory : String) (reference : PlaintextBundleRef)
    (requiredContents : List String) (slotCapacity : ℕ) (skip : Bool) :
    (loadProgram sax directory reference requiredContents slotCapacity skip).Calls
      (Allowed directory requiredContents) := by
  refine Comp.Calls.bind (Comp.calls_call (Or.inl rfl)) fun bytes => ?_
  refine Comp.calls_ofExcept_bind fun manifest hmanifest => ?_
  refine Comp.Calls.bind (calls_contentPrograms fun content hin length hl => ?_) fun slots =>
    Comp.calls_of_ret rfl
  obtain ⟨_, _, entries, -, -, -, hfor, rfl⟩ := checkManifest_eq_ok.1 hmanifest
  have hentry := (lookup_entries hfor.distinct).1 hl
  exact Or.inr ⟨content, mem_uniqueRequired.1 hin, hfor.digest hentry, rfl⟩

/-- The directory, as it stands before a name in it. -/
def asPrefix (directory : String) : String :=
  if directory.isEmpty ∨ directory.toList.getLast? = some '/' then directory else directory ++ "/"

/-- The paths of a bundle: the manifest, and the blobs under `data`, which are named by 64
    lowercase hexadecimal digits. -/
def InBundle (directory path : String) : Prop :=
  path = asPrefix directory ++ "manifest.json" ∨
    ∃ hex : List Char, hex.length = 64 ∧
      (∀ c ∈ hex, ('0' ≤ c ∧ c ≤ '9') ∨ ('a' ≤ c ∧ c ≤ 'f')) ∧
        path = asPrefix directory ++ "data/" ++ String.ofList hex ++ ".bin"

theorem joinPath_eq {directory name : String} (h : name.toList.head? ≠ some '/') :
    joinPath directory name = asPrefix directory ++ name := by
  unfold joinPath asPrefix
  rw [if_neg h]
  split_ifs <;> rfl

theorem manifestPath_eq (directory : String) :
    manifestPath directory = asPrefix directory ++ "manifest.json" := joinPath_eq (by decide)

theorem blobPath_eq (directory : String) {hex : List Char} (hlen : hex.length = 64)
    (hhex : ∀ c ∈ hex, ('0' ≤ c ∧ c ≤ '9') ∨ ('a' ≤ c ∧ c ≤ 'f')) :
    blobPath directory ("sha256:" ++ String.ofList hex) =
      asPrefix directory ++ "data/" ++ String.ofList hex ++ ".bin" := by
  have hdrop : ("sha256:" ++ String.ofList hex).toList.drop 7 = hex := by
    rw [toList_digest]
    rfl
  have hhead : (String.ofList hex ++ ".bin").toList.head? ≠ some '/' := by
    rcases hex with - | ⟨c, hex⟩
    · cases hlen
    · rw [String.toList_append, String.toList_ofList, List.cons_append, List.head?_cons, ne_eq,
        Option.some.injEq]
      rintro rfl
      exact absurd (hhex '/' List.mem_cons_self) (by decide)
  have hdata : joinPath directory "data" = asPrefix directory ++ "data" := joinPath_eq (by decide)
  have hslash : asPrefix (asPrefix directory ++ "data") = asPrefix directory ++ "data" ++ "/" := by
    rw [asPrefix, if_neg]
    rw [String.toList_append, List.getLast?_append]
    rintro (h | h)
    · rw [String.isEmpty_iff, ← String.toList_inj, String.toList_append] at h
      exact absurd (List.append_eq_nil_iff.1 h).2 (by decide)
    · exact absurd h (by simp)
  rw [blobPath, hdrop, joinPath_eq hhead, hdata, hslash]
  simp only [String.append_assoc]
  rfl

theorem Allowed.inBundle {directory : String} {requiredContents : List String} {path : String}
    (h : Allowed directory requiredContents path) : InBundle directory path := by
  rcases h with rfl | ⟨_, -, ⟨hex, rfl, hlen, hhex⟩, rfl⟩
  · exact Or.inl (manifestPath_eq directory)
  · exact Or.inr ⟨hex, hlen, hhex, blobPath_eq directory hlen hhex⟩

/-! ## The results -/

variable (sax : Sax) (files : Files) (directory : String) (reference : PlaintextBundleRef)
  (requiredContents : List String) (slotCapacity : ℕ)

theorem load_ok_iff_loadable :
    (∃ bundle, load sax files directory reference requiredContents slotCapacity false =
      .ok bundle) ↔ Loadable sax files directory reference requiredContents slotCapacity := by
  simp only [load_iff]
  constructor
  · rintro ⟨bundle, bytes, _, root, entries, hfile, hdigest, hskip, hroot, hmanifest, hslots, -⟩
    obtain rfl := hskip trivial
    refine ⟨bytes, root, entries, hfile, hdigest, hroot, hmanifest, fun content hcontent => ?_⟩
    obtain ⟨_, -, entry, hentry, heq, blob, hloads, -⟩ :=
      forall₂_mem_left hslots (mem_uniqueRequired.2 hcontent)
    exact ⟨entry, hentry, heq, blob, hloads⟩
  · rintro ⟨bytes, root, entries, hfile, hdigest, hroot, hmanifest, hcontents⟩
    have hslots : ∀ content ∈ uniqueRequired requiredContents, ∃ slots,
        loadContent files directory (entries.map fun entry => (entry.content, entry.byteLength))
          slotCapacity content = .ok slots := by
      intro content hin
      obtain ⟨entry, hentry, heq, blob, hloads⟩ := hcontents content (mem_uniqueRequired.1 hin)
      exact ⟨_, (loadContent_iff hmanifest).2 ⟨entry, hentry, heq, blob, hloads, rfl⟩⟩
    obtain ⟨slots, hslots⟩ := exists_forall₂ hslots
    exact ⟨⟨slots, reference.manifestSha256⟩, bytes, _, root, entries, hfile, hdigest, fun _ => rfl,
      hroot, hmanifest, hslots.imp fun content slots => (loadContent_iff hmanifest).1, rfl⟩

/-- What a loaded bundle holds. -/
structure Holds (bundle : LoadedPlaintextBundle) : Prop where
  keys : ∀ content, content ∈ bundle.slotsByContent.map (·.1) ↔ content ∈ requiredContents
  distinct : (bundle.slotsByContent.map (·.1)).Nodup
  slots : ∀ content slots, (content, slots) ∈ bundle.slotsByContent →
    ∃ bytes, files (blobPath directory content) = .bytes bytes ∧
      sourceSha256 bytes = .ok content ∧ slots = (blobDoubles bytes).map clean ∧ slots ≠ []

theorem holds_of_load {skip : Bool} {bundle : LoadedPlaintextBundle}
    (h : load sax files directory reference requiredContents slotCapacity skip = .ok bundle) :
    Holds files directory requiredContents bundle := by
  obtain ⟨_, _, root, entries, -, -, -, -, hmanifest, hslots, -⟩ := load_iff.1 h
  have hkeys : bundle.slotsByContent.map (·.1) = uniqueRequired requiredContents := by
    have hmap := map_eq_of_forall₂ (f := id) (g := Prod.fst) hslots
    rw [List.map_id] at hmap
    refine (hmap ?_).symm
    rintro content _ ⟨_, -, -, _, -, rfl⟩
    rfl
  refine ⟨fun content => ?_, ?_, fun content slots hin => ?_⟩
  · rw [hkeys, mem_uniqueRequired]
  · rw [hkeys]
    exact nodup_uniqueRequired requiredContents
  · obtain ⟨_, -, entry, hentry, rfl, bytes, hloads, heq⟩ := forall₂_mem_left hslots.flip hin
    obtain ⟨rfl, rfl⟩ := Prod.mk.inj heq
    exact ⟨bytes, hloads.file, hloads.hash, rfl, hloads.ne_nil hmanifest hentry⟩

end PlaintextBundleLoader

end CkksRuntime
