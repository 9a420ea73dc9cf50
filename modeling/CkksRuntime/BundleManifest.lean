/-
  ckks-runtime formalization — the manifest and the blobs of a plaintext bundle:
  exactly what `read_manifest` and `decode_slots` accept, and what they give.

  * `ManifestFor reference root entries`: the document is a well-formed manifest
    for the reference, with the given blobs; `readManifest_eq_ok` says that the
    reader accepts exactly these;
  * `blobDoubles` is the little-endian decoding of a blob, `clean` replaces
    `-0.0`; `decodeSlots_eq_ok` says that the decoder accepts exactly the blobs of
    finite doubles, and gives their clean doubles.
-/
import CkksRuntime.Acceptance
import CkksRuntime.PlaintextBundle
import CkksRuntime.Sha256Fips

namespace CkksRuntime

theorem mapM_eq_ok {α β : Type} {f : α → Except Fault β} {l : List α} {results : List β} :
    l.mapM f = .ok results ↔ List.Forall₂ (fun a b => f a = .ok b) l results := by
  induction l generalizing results with
  | nil =>
    rw [List.mapM_nil, pure_eq_ok, List.forall₂_nil_left_iff, eq_comm]
  | cons a l ih =>
    simp only [List.mapM_cons, bind_eq_ok, ih, pure_eq_ok]
    constructor
    · rintro ⟨b, hb, bs, hbs, rfl⟩
      exact .cons hb hbs
    · intro h
      cases h with
      | cons hb hbs => exact ⟨_, hb, _, hbs, rfl⟩

theorem exists_forall₂ {α β : Type} {R : α → β → Prop} {l : List α} (h : ∀ a ∈ l, ∃ b, R a b) :
    ∃ results, List.Forall₂ R l results := by
  induction l with
  | nil => exact ⟨[], .nil⟩
  | cons a l ih =>
    obtain ⟨ha, hl⟩ := List.forall_mem_cons.1 h
    obtain ⟨b, hb⟩ := ha
    obtain ⟨results, hresults⟩ := ih hl
    exact ⟨b :: results, .cons hb hresults⟩

/-! ## What the field readers accept -/

namespace Json

/-- An object with the named members and no others. -/
def HasExactly (value : Json) (names : List String) : Prop :=
  ∃ members, value = .object members ∧ (∀ name ∈ names, (members.lookup name).isSome) ∧
    ∀ item ∈ members, item.1 ∈ names

theorem member_eq_ok {value : Json} {name : String} {member : Json} :
    value.member name = .ok member ↔
      ∃ members, value = .object members ∧ members.lookup name = some member := by
  cases value with
  | object members =>
    simp only [Json.member]
    cases hl : members.lookup name <;> simp [hl]
  | _ => simp [Json.member]

end Json

/-- `sha256:` and 64 lowercase hexadecimal digits. -/
def IsDigest (s : String) : Prop :=
  ∃ hex : List Char, s = "sha256:" ++ String.ofList hex ∧ hex.length = 64 ∧
    ∀ c ∈ hex, ('0' ≤ c ∧ c ≤ '9') ∨ ('a' ≤ c ∧ c ≤ 'f')

namespace JsonUtils

variable {value : Json} {document path : String}

theorem requireMembers_eq_ok {names : List String} {u : Unit} :
    requireMembers value document path names = .ok u ↔ value.HasExactly names := by
  cases value with
  | object members =>
    simp only [requireMembers, Json.HasExactly, Json.object.injEq, exists_eq_left']
    cases hmissing : names.find? fun name => !(Json.object members).contains name with
    | some name =>
      simp only [fail_ne_ok, false_iff]
      rintro ⟨hall, -⟩
      have hname := List.find?_some hmissing
      have hin := hall name (List.mem_of_find?_eq_some hmissing)
      simp [Json.contains, hin] at hname
    | none =>
      have hall : ∀ name ∈ names, (members.lookup name).isSome := by
        intro name hname
        simpa [Json.contains] using List.find?_eq_none.1 hmissing name hname
      cases hunknown : members.find? fun item => item.1 ∉ names ∧ item.1 ∉ ([] : List String) with
      | some item =>
        simp only [fail_ne_ok, false_iff]
        rintro ⟨-, honly⟩
        have hitem := List.find?_some hunknown
        have hin := honly item (List.mem_of_find?_eq_some hunknown)
        simp [hin] at hitem
      | none =>
        simp only [true_iff]
        refine ⟨hall, fun item hitem => ?_⟩
        simpa using List.find?_eq_none.1 hunknown item hitem
  | _ => simp [requireMembers, Json.HasExactly]

theorem readString_eq_ok {s : String} :
    readString value document path = .ok s ↔ value = .string s ∧ s ≠ "" := by
  cases value with
  | string t =>
    simp only [readString, Bool.not_false, Bool.true_and, String.isEmpty_iff, Json.string.injEq]
    split_ifs with h
    · subst h
      simp only [fail_ne_ok, false_iff]
      rintro ⟨rfl, hne⟩
      exact hne rfl
    · rw [Except.ok.injEq]
      constructor
      · rintro rfl
        exact ⟨rfl, h⟩
      · exact And.left
  | _ => simp [readString]

theorem readSha256_eq_ok {s : String} :
    readSha256 value document path = .ok s ↔ value = .string s ∧ IsDigest s := by
  constructor
  · intro h
    simp only [readSha256, bind_eq_ok, readString_eq_ok, failIf_eq_ok, exists_const,
      pure_eq_ok] at h
    obtain ⟨t, ⟨rfl, -⟩, hsize, hdigits, rfl⟩ := h
    rw [not_or, not_not, not_not] at hsize
    have hhex : ∀ c ∈ t.toList.drop 7, ('0' ≤ c ∧ c ≤ '9') ∨ ('a' ≤ c ∧ c ≤ 'f') := by
      intro c hc
      by_contra hout
      exact hdigits (List.any_eq_true.2 ⟨c, hc, decide_eq_true hout⟩)
    have ht : t = "sha256:" ++ String.ofList (t.toList.drop 7) := by
      rw [← String.toList_inj, toList_digest, ← hsize.2, List.take_append_drop]
    have hbytes := utf8ByteSize_digest hhex
    rw [← ht, hsize.1] at hbytes
    exact ⟨rfl, _, ht, by omega, hhex⟩
  · rintro ⟨rfl, hex, rfl, hlen, hhex⟩
    exact readSha256_ofList hlen hhex document path

theorem readSafeUint_iff {lo hi n : UInt64} (hhi : hi.toNat < 2 ^ 63) :
    readSafeUint value document path lo hi = .ok n ↔
      value.integer? = some (n.toNat : ℤ) ∧ lo ≤ n ∧ n ≤ hi := by
  refine ⟨readSafeUint_eq_ok, ?_⟩
  rintro ⟨hval, hlo, hle⟩
  have hn : n.toNat < 2 ^ 63 := lt_of_le_of_lt (UInt64.le_iff_toNat_le.1 hle) hhi
  have hrange : ¬ (n < lo ∨ n > hi) := by
    rw [not_or, UInt64.not_lt, gt_iff_lt, UInt64.not_lt]
    exact ⟨hlo, hle⟩
  cases value with
  | unsigned u =>
    obtain rfl : u = n := UInt64.toNat_inj.1 (by simpa [Json.integer?] using hval)
    have hsigned : ¬ u.toInt64 < 0 := by
      rw [Int64.not_lt, Int64.le_iff_toInt_le, Int64.toInt, Int64.toInt, UInt64.toBitVec_toInt64,
        BitVec.toInt_eq_toNat_of_lt (x := u.toBitVec) (by
          change 2 * u.toNat < 2 ^ 64
          omega)]
      exact Int.natCast_nonneg _
    simp only [readSafeUint]
    rw [if_neg hsigned, if_neg hrange]
  | integer i =>
    have hi : i.toInt = n.toNat := by simpa [Json.integer?] using hval
    have h0 : 0 ≤ i := by
      rw [Int64.le_iff_toInt_le, hi]
      exact Int.natCast_nonneg _
    have hcast : i.toUInt64 = n := by
      apply UInt64.toNat_inj.1
      rw [Int64.toNat_toUInt64_of_le h0, Int64.toNatClampNeg, hi, Int.toNat_natCast]
    simp only [readSafeUint]
    rw [if_neg (Int64.not_lt.2 h0), hcast, if_neg hrange]
  | _ => simp [Json.integer?] at hval

theorem arrayItems_iff {items : List Json} :
    arrayItems value document path = .ok items ↔ value = .array items := by
  cases value <;> simp [arrayItems]

end JsonUtils

/-! ## The manifest -/

/-- An entry of the `blobs` of a manifest. -/
structure BlobFor (blob : Json) (entry : BlobEntry) : Prop where
  members : blob.HasExactly ["content", "byte_length"]
  content : blob.member "content" = .ok (.string entry.content)
  digest : IsDigest entry.content
  byteLength : ∃ length, blob.member "byte_length" = .ok length ∧
    length.integer? = some (entry.byteLength.toNat : ℤ)
  range : 8 ≤ entry.byteLength.toNat ∧ entry.byteLength.toNat < 2 ^ 53
  aligned : 8 ∣ entry.byteLength.toNat

/-- A manifest that is well formed for the reference, and its blobs. -/
structure ManifestFor (reference : PlaintextBundleRef) (root : Json) (entries : List BlobEntry) :
    Prop where
  members : root.HasExactly ["bundle_format_version", "bundle_id", "version", "blobs"]
  formatVersion : ∃ version, root.member "bundle_format_version" = .ok version ∧
    version.integer? = some 1
  id : root.member "bundle_id" = .ok (.string reference.id) ∧ reference.id ≠ ""
  version : ∃ version, root.member "version" = .ok version ∧
    version.integer? = some reference.version.toInt ∧
      ((∀ u, version ≠ .unsigned u) → 1 ≤ reference.version)
  blobs : ∃ blobs, root.member "blobs" = .ok (.array blobs) ∧ List.Forall₂ BlobFor blobs entries
  distinct : (entries.map (·.content)).Nodup

theorem ManifestFor.blobFor {reference : PlaintextBundleRef} {root : Json}
    {entries : List BlobEntry} (h : ManifestFor reference root entries) {entry : BlobEntry}
    (hentry : entry ∈ entries) : ∃ blob, BlobFor blob entry := by
  obtain ⟨blobs, -, hblobs⟩ := h.blobs
  obtain ⟨blob, -, hblob⟩ := forall₂_mem_left hblobs.flip hentry
  exact ⟨blob, hblob⟩

theorem ManifestFor.digest {reference : PlaintextBundleRef} {root : Json}
    {entries : List BlobEntry} (h : ManifestFor reference root entries) {entry : BlobEntry}
    (hentry : entry ∈ entries) : IsDigest entry.content := by
  obtain ⟨_, hblob⟩ := h.blobFor hentry
  exact hblob.digest

namespace PlaintextBundleLoader

open JsonUtils

theorem readBlob_eq_ok {blob : Json} {path : String} {entry : BlobEntry} :
    readBlob blob path = .ok entry ↔ BlobFor blob entry := by
  have hlow : (8 : UInt64).toNat = 8 := by decide
  have hhigh : (2 ^ 53 - 1 : UInt64).toNat = 2 ^ 53 - 1 := by decide
  have hmod (n : UInt64) : ¬ n % 8 ≠ 0 ↔ 8 ∣ n.toNat := by
    rw [not_not, ← UInt64.toNat_inj, UInt64.toNat_mod, hlow, Nat.dvd_iff_mod_eq_zero]
    rfl
  have hrange (n : UInt64) : 8 ≤ n ∧ n ≤ 2 ^ 53 - 1 ↔ 8 ≤ n.toNat ∧ n.toNat < 2 ^ 53 := by
    rw [UInt64.le_iff_toNat_le, UInt64.le_iff_toNat_le, hlow, hhigh]
    omega
  simp only [readBlob, bind_eq_ok, requireMembers_eq_ok, readSha256_eq_ok, failIf_eq_ok,
    exists_const, pure_eq_ok, readSafeUint_iff (lt_of_eq_of_lt hhigh (by omega)), hmod]
  constructor
  · rintro ⟨hmembers, _, hcontent, content, ⟨rfl, hdigest⟩, length, hlength, n, ⟨hval, hin⟩, hdvd,
      rfl⟩
    exact ⟨hmembers, hcontent, hdigest, ⟨length, hlength, hval⟩, (hrange n).1 hin, hdvd⟩
  · rintro ⟨hmembers, hcontent, hdigest, ⟨length, hlength, hval⟩, hin, hdvd⟩
    exact ⟨hmembers, _, hcontent, _, ⟨rfl, hdigest⟩, length, hlength, _,
      ⟨hval, (hrange _).2 hin⟩, hdvd, rfl⟩

/-- The blobs are read in their order; a content is not given twice. -/
theorem readBlobs_eq_ok {blobs : List Json} {seen entries : List BlobEntry} :
    readBlobs seen blobs = .ok entries ↔ ∃ new, entries = seen ++ new ∧
      List.Forall₂ BlobFor blobs new ∧ (new.map (·.content)).Nodup ∧
        ∀ entry ∈ new, entry.content ∉ seen.map (·.content) := by
  induction blobs generalizing seen with
  | nil =>
    rw [readBlobs, Except.ok.injEq]
    constructor
    · rintro rfl
      exact ⟨[], by simp⟩
    · rintro ⟨new, rfl, hnew, -⟩
      rw [List.forall₂_nil_left_iff.1 hnew, List.append_nil]
  | cons blob blobs ih =>
    simp only [readBlobs, bind_eq_ok, readBlob_eq_ok, failIf_eq_ok, exists_const, ih]
    constructor
    · rintro ⟨entry, hentry, hfresh, new, rfl, hnew, hnodup, hnot⟩
      refine ⟨entry :: new, by simp, .cons hentry hnew, List.nodup_cons.2 ⟨fun hin => ?_, hnodup⟩,
        List.forall_mem_cons.2 ⟨hfresh, fun e he hin => hnot e he (by simp [hin])⟩⟩
      obtain ⟨e, he, heq⟩ := List.mem_map.1 hin
      exact hnot e he (by simp [heq])
    · rintro ⟨new, rfl, hnew, hnodup, hnot⟩
      cases hnew with
      | @cons _ entry _ new hentry hnew =>
        obtain ⟨hfresh, hnot⟩ := List.forall_mem_cons.1 hnot
        obtain ⟨hnotin, hnodup⟩ := List.nodup_cons.1 hnodup
        refine ⟨entry, hentry, hfresh, new, by simp, hnew, hnodup, fun e he hin => ?_⟩
        rw [List.map_append, List.mem_append] at hin
        rcases hin with hin | hin
        · exact hnot e he hin
        · exact hnotin (List.mem_map.2 ⟨e, he, by simpa using hin⟩)

/-- **`read_manifest` accepts exactly the well-formed manifests.** -/
theorem readManifest_eq_ok {root : Json} {reference : PlaintextBundleRef}
    {entries : List BlobEntry} :
    readManifest root reference = .ok entries ↔ ManifestFor reference root entries := by
  have hmax : (0 : CInt) ≤ CInt.max := by decide
  have hone : (1 : CInt).toInt = 1 := rfl
  simp only [readManifest, readNonnegativeInt, readPositiveInt, bind_eq_ok, requireMembers_eq_ok,
    readInt_eq_ok hmax, readString_eq_ok, failIf_eq_ok, exists_const, not_not, arrayItems_iff,
    readBlobs_eq_ok, List.nil_append, List.map_nil, List.not_mem_nil, not_false_eq_true,
    implies_true, and_true]
  constructor
  · rintro ⟨hmembers, version, hversion, n, ⟨hval, -⟩, rfl, _, hid, id, ⟨rfl, hne⟩, rfl, number,
      hnumber, m, ⟨hint, -, hpos⟩, rfl, _, hblobs, blobs, rfl, new, rfl, hnew, hnodup⟩
    exact ⟨hmembers, ⟨version, hversion, hval⟩, ⟨hid, hne⟩, ⟨number, hnumber, hint, hpos⟩,
      ⟨blobs, hblobs, hnew⟩, hnodup⟩
  · rintro ⟨hmembers, ⟨version, hversion, hval⟩, ⟨hid, hne⟩, ⟨number, hnumber, hint, hpos⟩,
      ⟨blobs, hblobs, hnew⟩, hnodup⟩
    have hle (n : CInt) : n ≤ CInt.max := by
      rw [Int32.le_iff_toInt_le, CInt.toInt_max]
      have := n.toInt_lt
      omega
    exact ⟨hmembers, version, hversion, 1, ⟨hval, hle 1, fun _ => by decide⟩, rfl, _, hid, _,
      ⟨rfl, hne⟩, rfl, number, hnumber, _, ⟨hint, hle _, hpos⟩, rfl, _, hblobs, blobs, rfl, entries,
      rfl, hnew, hnodup⟩

/-! ## The blobs -/

/-- The double of eight little-endian bytes. -/
def littleEndian (bytes : Bytes) : Double :=
  BitVec.ofNat 64 (Nat.ofDigits 256 (bytes.map (·.toNat)))

/-- `0.0` for `-0.0`. -/
def clean (x : Double) : Double := if x = 0x8000000000000000#64 then 0#64 else x

/-- The doubles of a blob. -/
def blobDoubles (bytes : Bytes) : List Double :=
  (List.range (bytes.length / 8)).map fun i => littleEndian ((bytes.drop (i * 8)).take 8)

theorem isZero_iff (x : Double) : x.isZero ↔ x = 0#64 ∨ x = 0x8000000000000000#64 := by
  have hmask : (x &&& 0x7fffffffffffffff#64).toNat = x.toNat % 2 ^ 63 := by
    rw [BitVec.toNat_and]
    exact Nat.and_two_pow_sub_one_eq_mod _ 63
  have hlt := x.isLt
  rw [Double.isZero, beq_iff_eq, ← BitVec.toNat_inj, ← BitVec.toNat_inj, ← BitVec.toNat_inj, hmask]
  change x.toNat % 2 ^ 63 = 0 ↔ x.toNat = 0 ∨ x.toNat = 2 ^ 63
  omega

theorem normalizeZero_eq_clean (x : Double) : x.normalizeZero = clean x := by
  unfold Double.normalizeZero clean
  by_cases hneg : x = 0x8000000000000000#64
  · rw [if_pos ((isZero_iff x).2 (Or.inr hneg)), if_pos hneg]
  · rw [if_neg hneg]
    split_ifs with hzero
    · exact ((isZero_iff x).1 hzero).resolve_right hneg |>.symm
    · rfl

/-- The first `n` bytes, put together bit by bit. -/
theorem decodeDouble_prefix (bytes : Bytes) {n : ℕ} (hn : n ≤ 8) (hlen : n ≤ bytes.length) :
    ((List.range n).foldl (fun bits byte =>
        bits ||| ((bytes.getD byte 0).toBitVec.setWidth 64 <<< (byte * 8))) 0#64).toNat =
      Nat.ofDigits 256 ((bytes.take n).map (·.toNat)) := by
  induction n with
  | zero => rfl
  | succ n ih =>
    have hget : bytes.getD n 0 = bytes[n] := List.getD_eq_getElem _ _ (by omega)
    have hbyte := (bytes[n]).toNat_lt
    have hlength : ((bytes.take n).map (·.toNat)).length = n := by
      rw [List.length_map, List.length_take]
      omega
    have hlow : Nat.ofDigits 256 ((bytes.take n).map (·.toNat)) < 2 ^ (n * 8) := by
      have hdigits := Nat.ofDigits_lt_base_pow_length (b := 256) (by omega)
        (l := (bytes.take n).map (·.toNat)) fun d hd => by
          obtain ⟨b, -, rfl⟩ := List.mem_map.1 hd
          exact b.toNat_lt
      rw [hlength, show 256 = 2 ^ 8 by norm_num, ← pow_mul, Nat.mul_comm] at hdigits
      exact hdigits
    have hshift : ((bytes.getD n 0).toBitVec.setWidth 64 <<< (n * 8)).toNat =
        (bytes[n]).toNat <<< (n * 8) := by
      rw [hget, BitVec.toNat_shiftLeft, BitVec.toNat_setWidth]
      change ((bytes[n]).toNat % 2 ^ 64) <<< (n * 8) % 2 ^ 64 = _
      rw [Nat.mod_eq_of_lt (by omega : (bytes[n]).toNat < 2 ^ 64), Nat.mod_eq_of_lt]
      rw [Nat.shiftLeft_eq]
      calc (bytes[n]).toNat * 2 ^ (n * 8) < 2 ^ 8 * 2 ^ (n * 8) :=
            Nat.mul_lt_mul_of_pos_right hbyte (by positivity)
        _ = 2 ^ (8 + n * 8) := (pow_add 2 8 _).symm
        _ ≤ 2 ^ 64 := Nat.pow_le_pow_right (by omega) (by omega)
    rw [List.range_succ, List.foldl_append, List.foldl_cons, List.foldl_nil, BitVec.toNat_or,
      ih (by omega) (by omega), hshift, Nat.or_comm, ← Nat.shiftLeft_add_eq_or_of_lt hlow,
      List.take_succ_eq_append_getElem (by omega), List.map_append, Nat.ofDigits_append, hlength,
      Nat.shiftLeft_eq, Nat.add_comm]
    congr 1
    rw [show 256 = 2 ^ 8 by norm_num, ← pow_mul, Nat.mul_comm 8 n, Nat.mul_comm]
    simp

theorem decodeDouble_eq {bytes : Bytes} (h : 8 ≤ bytes.length) :
    decodeDouble bytes = littleEndian (bytes.take 8) := by
  rw [littleEndian, ← decodeDouble_prefix bytes le_rfl h, BitVec.ofNat_toNat, BitVec.setWidth_eq]
  rfl

/-- **`decode_slots` decodes the finite blobs.** -/
theorem decodeSlots_eq_ok {bytes : Bytes} {content : String} {slots : List Double} :
    decodeSlots bytes content = .ok slots ↔
      (∀ x ∈ blobDoubles bytes, x.isFinite) ∧ slots = (blobDoubles bytes).map clean := by
  have hdecode {i : ℕ} (hi : i ∈ List.range (bytes.length / 8)) :
      decodeDouble (bytes.drop (i * 8)) = littleEndian ((bytes.drop (i * 8)).take 8) := by
    have := List.mem_range.1 hi
    exact decodeDouble_eq (by rw [List.length_drop]; omega)
  simp only [decodeSlots, mapM_eq_ok, bind_eq_ok, throwIf_eq_ok, exists_const, pure_eq_ok]
  constructor
  · intro h
    refine ⟨fun x hx => ?_, ?_⟩
    · obtain ⟨i, hi, rfl⟩ := List.mem_map.1 hx
      obtain ⟨value, -, hfinite, -⟩ := forall₂_mem_left h hi
      rw [hdecode hi] at hfinite
      simpa using hfinite
    · have hslots := map_eq_of_forall₂ (g := id) h fun i x hx => hx.2
      rw [List.map_id] at hslots
      rw [← hslots, blobDoubles, List.map_map]
      refine List.map_congr_left fun i hi => ?_
      rw [hdecode hi, normalizeZero_eq_clean]
      rfl
  · rintro ⟨hfinite, rfl⟩
    rw [blobDoubles, List.map_map, List.forall₂_map_right_iff, List.forall₂_same]
    intro i hi
    have hin := hfinite _ (List.mem_map.2 ⟨i, hi, rfl⟩)
    rw [hdecode hi, Function.comp_apply, normalizeZero_eq_clean]
    exact ⟨by simpa using hin, rfl⟩

end PlaintextBundleLoader

end CkksRuntime
