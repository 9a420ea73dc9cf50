/-
  ckks-runtime formalization — plaintext bundles (`runtime/plaintext_bundle.cpp`):
  the reader of the bundle manifest and the loader of the slots of the contents
  a rank needs.
-/
import CkksRuntime.Plan
import CkksRuntime.Json

namespace CkksRuntime

/-- What opening and reading a file gives. -/
inductive FileContents where
  | absent
  | unreadable
  | bytes (content : Bytes)
  deriving DecidableEq, Repr

/-- The files by path. -/
abbrev Files := String → FileContents

def Files.readFileBytes (files : Files) (path : String) : Except Fault Bytes :=
  match files path with
  | .absent => .error (.runtimeError ("cannot open file: " ++ path))
  | .unreadable => .error (.runtimeError ("failed to read file: " ++ path))
  | .bytes content => .ok content

/-- `directory / name` of `std::filesystem::path`. -/
def joinPath (directory name : String) : String :=
  if name.toList.head? = some '/' then name
  else if directory.isEmpty ∨ directory.toList.getLast? = some '/' then directory ++ name
  else directory ++ "/" ++ name

structure BlobEntry where
  content : String
  byteLength : UInt64 := 0
  deriving DecidableEq, Repr

structure LoadedPlaintextBundle where
  slotsByContent : List (String × List Double)
  manifestSourceSha256 : String
  deriving DecidableEq, Repr

namespace PlaintextBundleLoader

open JsonUtils

def doc : String := "plaintext bundle manifest"

/-- One entry of `blobs`. -/
def readBlob (blob : Json) (path : String) : Except Fault BlobEntry := do
  requireMembers blob doc path ["content", "byte_length"]
  let content ← readSha256 (← blob.member "content") doc (path ++ ".content")
  let byteLength ← readSafeUint (← blob.member "byte_length") doc (path ++ ".byte_length") 8
    (2 ^ 53 - 1)
  failIf (byteLength % 8 ≠ 0) doc (path ++ ".byte_length") "must be a multiple of 8"
  return ⟨content, byteLength⟩

/-- The entries of `blobs` from position `seen.length` on. -/
def readBlobs : List BlobEntry → List Json → Except Fault (List BlobEntry)
  | seen, [] => .ok seen
  | seen, blob :: blobs => do
    let path := itemPath "$.blobs" seen.length
    let entry ← readBlob blob path
    failIf (entry.content ∈ seen.map (·.content)) doc (path ++ ".content") "duplicate content"
    readBlobs (seen ++ [entry]) blobs

def readManifest (root : Json) (reference : PlaintextBundleRef) :
    Except Fault (List BlobEntry) := do
  requireMembers root doc "$" ["bundle_format_version", "bundle_id", "version", "blobs"]
  let formatVersion ← readNonnegativeInt (← root.member "bundle_format_version") doc
    "$.bundle_format_version"
  failIf (formatVersion ≠ 1) doc "$.bundle_format_version" "unsupported format version"
  let id ← readString (← root.member "bundle_id") doc "$.bundle_id"
  failIf (id ≠ reference.id) doc "$.bundle_id" "does not match RuntimePlan reference"
  let version ← readPositiveInt (← root.member "version") doc "$.version"
  failIf (version ≠ reference.version) doc "$.version" "does not match RuntimePlan reference"
  readBlobs [] (← arrayItems (← root.member "blobs") doc "$.blobs")

/-- Eight little-endian bytes. -/
def decodeDouble (bytes : Bytes) : Double :=
  (List.range 8).foldl (fun bits byte =>
    bits ||| ((bytes.getD byte 0).toBitVec.setWidth 64 <<< (byte * 8))) 0#64

def decodeSlots (bytes : Bytes) (content : String) : Except Fault (List Double) :=
  (List.range (bytes.length / 8)).mapM fun i => do
    let value := decodeDouble (bytes.drop (i * 8))
    throwIf (!value.isFinite)
      (.runtimeError ("bundle blob contains non-finite float64: " ++ content))
    return value.normalizeZero

/-- The slots of one required content. -/
def loadContent (files : Files) (directory : String) (lengths : List (String × UInt64))
    (slotCapacity : ℕ) (content : String) : Except Fault (String × List Double) := do
  match lengths.lookup content with
  | none => .error (.runtimeError ("bundle content is absent from manifest: " ++ content))
  | some length =>
    throwIf (content.length < 7) (.outOfRange "basic_string::substr")
    let filename := String.ofList (content.toList.drop 7) ++ ".bin"
    let bytes ← files.readFileBytes (joinPath (joinPath directory "data") filename)
    throwIf (bytes.length ≠ length.toNat)
      (.runtimeError ("bundle blob byte length mismatch: " ++ content))
    let digest ← sourceSha256 bytes
    throwIf (digest ≠ content)
      (.runtimeError ("bundle blob content SHA-256 mismatch: " ++ content))
    let slots ← decodeSlots bytes content
    throwIf (slots.length > slotCapacity)
      (.runtimeError ("bundle blob exceeds CKKS slot capacity: " ++ content))
    return (content, slots)

def load (sax : Sax) (files : Files) (directory : String) (reference : PlaintextBundleRef)
    (requiredContents : List String) (slotCapacity : ℕ) (skipArtifactDigestChecks : Bool) :
    Except Fault LoadedPlaintextBundle := do
  let manifestBytes ← files.readFileBytes (joinPath directory "manifest.json")
  let manifestDigest ← sourceSha256 manifestBytes
  throwIf (!skipArtifactDigestChecks ∧ manifestDigest ≠ reference.manifestSha256)
    (.runtimeError "plaintext bundle manifest SHA-256 mismatch")
  let entries ← readManifest (← parse sax manifestBytes doc) reference
  let lengths := entries.map fun entry => (entry.content, entry.byteLength)
  let uniqueRequired := requiredContents.foldl (fun s c => setInsert (fun a b => a < b) c s) []
  let slotsByContent ← uniqueRequired.mapM (loadContent files directory lengths slotCapacity)
  return ⟨slotsByContent, manifestDigest⟩

/-! ## What a loaded bundle holds -/

theorem loadContent_eq_ok {files : Files} {directory : String} {lengths : List (String × UInt64)}
    {slotCapacity : ℕ} {content : String} {r : String × List Double}
    (h : loadContent files directory lengths slotCapacity content = .ok r) :
    r.1 = content ∧ r.2.length ≤ slotCapacity := by
  unfold loadContent at h
  cases hl : lengths.lookup content with
  | none => simp [hl] at h
  | some length =>
    simp only [hl, bind_eq_ok, throwIf_eq_ok, pure_eq_ok] at h
    obtain ⟨_, -, bytes, -, _, -, digest, -, _, -, slots, -, _, hcap, rfl⟩ := h
    exact ⟨rfl, Nat.le_of_not_lt hcap⟩

theorem mapM_loadContent {files : Files} {directory : String} {lengths : List (String × UInt64)}
    {slotCapacity : ℕ} {contents : List String} : ∀ {slots : List (String × List Double)},
    contents.mapM (loadContent files directory lengths slotCapacity) = .ok slots →
      ∀ content ∈ contents, ∃ values, slots.lookup content = some values ∧
        values.length ≤ slotCapacity := by
  induction contents with
  | nil => intro slots _; simp
  | cons c contents ih =>
    intro slots h content hc
    rw [List.mapM_cons, bind_eq_ok] at h
    obtain ⟨r, hr, h⟩ := h
    obtain ⟨rs, hrs, h⟩ := bind_eq_ok.1 h
    cases h
    obtain ⟨hkey, hlen⟩ := loadContent_eq_ok hr
    obtain ⟨key, values⟩ := r
    by_cases heq : content = key
    · exact ⟨values, by simp [heq], hlen⟩
    · have hne : content ≠ c := fun h' => heq (h'.trans hkey.symm)
      obtain ⟨values', hv, hlen'⟩ := ih hrs content ((List.mem_cons.1 hc).resolve_left hne)
      refine ⟨values', ?_, hlen'⟩
      rw [List.lookup_cons, beq_eq_false_iff_ne.2 heq]
      exact hv

/-- **A loaded bundle holds every required content**, within the capacity. -/
theorem load_eq_ok {sax : Sax} {files : Files} {directory : String}
    {reference : PlaintextBundleRef} {contents : List String} {slotCapacity : ℕ} {skip : Bool}
    {bundle : LoadedPlaintextBundle}
    (h : load sax files directory reference contents slotCapacity skip = .ok bundle) :
    ∀ content ∈ contents, ∃ values, bundle.slotsByContent.lookup content = some values ∧
      values.length ≤ slotCapacity := by
  simp only [load, bind_eq_ok, throwIf_eq_ok, pure_eq_ok] at h
  obtain ⟨_, -, _, -, _, -, _, -, _, -, slots, hslots, rfl⟩ := h
  intro content hc
  refine mapM_loadContent hslots content (mem_foldl_setInsert ?_ contents (Or.inr hc))
  intro a b hab hba
  simp only [decide_eq_false_iff_not, String.not_lt] at hab hba
  exact String.le_antisymm hba hab

end PlaintextBundleLoader

end CkksRuntime
