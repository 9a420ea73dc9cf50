/-
  ckks-runtime formalization — the wire format of `MpiVecApi` (`api/mpi_api.hpp`,
  `api/mpi_api.cpp`): the tag of a message, the 64-byte context field and the
  header that carries the kind and the metadata of a payload.

  A `std::string` is the bytes of the string's UTF-8 encoding, so that the limit
  of the context field counts bytes and a character of code 0 is the byte 0.
-/
import CkksRuntime.JsonPlanReader
import CkksRuntime.VecValue

namespace CkksRuntime

/-! ## Bytes of a string -/

/-- The bytes of a `std::string`. -/
def bytesOf (s : String) : List UInt8 := s.toList.flatMap String.utf8EncodeChar

/-- The `std::string` of the bytes.  Text is UTF-8: other bytes have no string. -/
def stringOf (bytes : List UInt8) : Except Fault String :=
  match String.fromUTF8? bytes.toByteArray with
  | some s => .ok s
  | none => .error (.undefined "bytes outside UTF-8")

/-- No character of code 0. -/
def NulFree (s : String) : Prop := '\x00' ∉ s.toList

instance (s : String) : Decidable (NulFree s) := inferInstanceAs (Decidable (_ ∉ _))

theorem toByteArray_bytesOf (s : String) : (bytesOf s).toByteArray = s.toByteArray := by
  obtain ⟨l, rfl⟩ := s.exists_eq_ofList
  rw [bytesOf, String.toList_ofList, String.toByteArray_ofList, List.utf8Encode]

theorem bytesOf_inj {s t : String} : bytesOf s = bytesOf t ↔ s = t := by
  refine ⟨fun h => ?_, fun h => h ▸ rfl⟩
  rw [← String.toByteArray_inj, ← toByteArray_bytesOf, h, toByteArray_bytesOf]

theorem stringOf_bytesOf (s : String) : stringOf (bytesOf s) = .ok s := by
  have hv : (bytesOf s).toByteArray.IsValidUTF8 := toByteArray_bytesOf s ▸ s.isValidUTF8
  have hs : String.fromUTF8 (bytesOf s).toByteArray hv = s := by
    rw [← String.toByteArray_inj]
    exact toByteArray_bytesOf s
  rw [stringOf, String.fromUTF8?, dif_pos hv, hs]

/-- Only the character 0 is encoded with the byte 0. -/
theorem zero_mem_utf8EncodeChar {c : Char} :
    (0 : UInt8) ∈ String.utf8EncodeChar c ↔ c = '\x00' := by
  have hzero {n : ℕ} (h : (0 : UInt8) = UInt8.ofNat n) : n % 256 = 0 := by
    simpa using (congrArg UInt8.toNat h).symm
  constructor
  · intro h
    have hval : c.val.toNat = 0 := by
      unfold String.utf8EncodeChar at h
      dsimp only at h
      -- every byte of a longer encoding has its top bit set
      split_ifs at h with h1 h2 h3
      · have := hzero (List.mem_singleton.1 h)
        omega
      · simp only [List.mem_cons, List.not_mem_nil, or_false] at h
        rcases h with h | h <;> have := hzero h <;> omega
      · simp only [List.mem_cons, List.not_mem_nil, or_false] at h
        rcases h with h | h | h <;> have := hzero h <;> omega
      · simp only [List.mem_cons, List.not_mem_nil, or_false] at h
        rcases h with h | h | h | h <;> have := hzero h <;> omega
    exact Char.ext (UInt32.toNat_inj.1 hval)
  · rintro rfl
    decide

theorem zero_mem_bytesOf {s : String} : (0 : UInt8) ∈ bytesOf s ↔ ¬ NulFree s := by
  simp [bytesOf, NulFree, zero_mem_utf8EncodeChar]

/-- The characters before the first character 0. -/
def cString (s : String) : String := String.ofList (s.toList.takeWhile (· ≠ '\x00'))

theorem nulFree_cString (s : String) : NulFree (cString s) := by
  intro h
  rw [cString, String.toList_ofList] at h
  have := List.mem_takeWhile_imp h
  simp at this

theorem cString_eq_self {s : String} : cString s = s ↔ NulFree s := by
  constructor
  · intro h
    exact h ▸ nulFree_cString s
  · intro h
    have hall : ∀ c ∈ s.toList, decide (c ≠ '\x00') = true := by
      intro c hc
      simp only [decide_eq_true_eq]
      rintro rfl
      exact h hc
    rw [cString, List.takeWhile_eq_self_iff.2 hall, String.ofList_toList]

/-- `std::find` of the byte 0 stops where the first character 0 stands. -/
theorem takeWhile_utf8Encode (l : List Char) (zeros : List UInt8) (hz : ∀ b ∈ zeros, b = 0) :
    (l.flatMap String.utf8EncodeChar ++ zeros).takeWhile (· ≠ 0) =
      (l.takeWhile (· ≠ '\x00')).flatMap String.utf8EncodeChar := by
  induction l with
  | nil =>
    cases zeros with
    | nil => rfl
    | cons b zeros => simp [hz b]
  | cons c l ih =>
    by_cases hc : c = '\x00'
    · subst hc
      have he : String.utf8EncodeChar '\x00' = [0] := by decide
      simp [he]
    · have hne : ∀ b ∈ String.utf8EncodeChar c, decide (b ≠ 0) = true := by
        intro b hb
        simp only [decide_eq_true_eq]
        rintro rfl
        exact hc (zero_mem_utf8EncodeChar.1 hb)
      rw [List.flatMap_cons, List.append_assoc, List.takeWhile_append_of_pos hne, ih]
      simp [hc]

namespace MpiVecApi

/-! ## Tags -/

/-- `tag`: the action, the output slot and the part (0 the header, 1 the slots). -/
def tag (tagUpperBound : CInt) (id : TransferId) (slot : ℕ) (part : CInt) : Except Fault CInt := do
  throwIf (slot ≥ 32 ∨ part < 0 ∨ part > 1)
    (.runtimeError "MPI communication output slot exceeds tag layout")
  let suffix := (slot * 2 + part.toInt64.toUInt64.toNat) % 2 ^ 64
  let upperBound := tagUpperBound.toInt64.toUInt64.toNat
  throwIf (suffix > upperBound ∨ id > (upperBound - suffix) / 64)
    (.runtimeError "TransferId exceeds MPI_TAG_UB")
  return Int32.ofNat ((id * 64 + suffix) % 2 ^ 64)

/-- The integer that a tag stands for. -/
def tagValue (id : TransferId) (slot : ℕ) (part : CInt) : ℤ := 64 * id + 2 * slot + part.toInt

theorem part_cases {part : CInt} (h : ¬ (part < 0 ∨ part > 1)) : part = 0 ∨ part = 1 := by
  rw [not_or, Int32.not_lt, gt_iff_lt, Int32.not_lt, Int32.le_iff_toInt_le,
    Int32.le_iff_toInt_le] at h
  rw [← Int32.toInt_inj, ← Int32.toInt_inj]
  have h0 : (0 : CInt).toInt = 0 := rfl
  have h1 : (1 : CInt).toInt = 1 := rfl
  omega

/-- The suffix of a tag does not wrap around. -/
theorem suffix_eq {slot : ℕ} {part : CInt} (hslot : slot < 32) (hpart : part = 0 ∨ part = 1) :
    (((slot * 2 + part.toInt64.toUInt64.toNat) % 2 ^ 64 : ℕ) : ℤ) = 2 * slot + part.toInt := by
  rcases hpart with rfl | rfl
  · have h : (0 : CInt).toInt64.toUInt64.toNat = 0 := by decide
    have h' : (0 : CInt).toInt = 0 := rfl
    rw [h, h']
    omega
  · have h : (1 : CInt).toInt64.toUInt64.toNat = 1 := by decide
    have h' : (1 : CInt).toInt = 1 := rfl
    rw [h, h']
    omega

/-- The subtraction and the division compare without overflow. -/
theorem room_iff {n suffix upper : ℕ} :
    ¬ (suffix > upper ∨ n > (upper - suffix) / 64) ↔ n * 64 + suffix ≤ upper := by
  rw [not_or, Nat.not_lt, Nat.not_lt, Nat.le_div_iff_mul_le (by omega)]
  constructor
  · rintro ⟨hsuffix, hn⟩
    omega
  · intro h
    constructor <;> omega

/-- What `tag` returns, and when. -/
theorem tag_eq_ok {tagUpperBound : CInt} (hbound : 0 ≤ tagUpperBound) {id : TransferId} {slot : ℕ}
    {part t : CInt} : tag tagUpperBound id slot part = .ok t ↔
      slot < 32 ∧ (part = 0 ∨ part = 1) ∧ tagValue id slot part ≤ tagUpperBound.toInt ∧
        t.toInt = tagValue id slot part := by
  have hupper := CInt.toNat_toUInt64 hbound
  have hmax := tagUpperBound.toInt_lt
  unfold tag tagValue
  simp only [bind_eq_ok, throwIf_eq_ok, exists_const, pure_eq_ok]
  constructor
  · rintro ⟨hlayout, hroom, rfl⟩
    rw [not_or] at hlayout
    have hpart := part_cases hlayout.2
    have hslot : slot < 32 := by omega
    have hsuffix := suffix_eq hslot hpart
    generalize (slot * 2 + part.toInt64.toUInt64.toNat) % 2 ^ 64 = suffix at hroom hsuffix ⊢
    generalize tagUpperBound.toInt64.toUInt64.toNat = upper at hroom hupper
    have hle := room_iff.1 hroom
    refine ⟨hslot, hpart, by omega, ?_⟩
    rw [Nat.mod_eq_of_lt (by omega), Int32.toInt_ofNat_of_lt (by omega)]
    omega
  · rintro ⟨hslot, hpart, hle, ht⟩
    have hsuffix := suffix_eq hslot hpart
    generalize (slot * 2 + part.toInt64.toUInt64.toNat) % 2 ^ 64 = suffix at hsuffix ⊢
    generalize tagUpperBound.toInt64.toUInt64.toNat = upper at hupper
    refine ⟨?_, room_iff.2 (by omega), ?_⟩
    · rcases hpart with rfl | rfl <;> simp <;> omega
    · rw [← Int32.toInt_inj, Nat.mod_eq_of_lt (by omega), Int32.toInt_ofNat_of_lt (by omega)]
      omega

theorem tagValue_inj {id id' : ℕ} {slot slot' : ℕ} {part part' : CInt} (hslot : slot < 32)
    (hslot' : slot' < 32) (hpart : part = 0 ∨ part = 1) (hpart' : part' = 0 ∨ part' = 1)
    (h : tagValue id slot part = tagValue id' slot' part') :
    id = id' ∧ slot = slot' ∧ part = part' := by
  unfold tagValue at h
  rw [← Int32.toInt_inj]
  have hrange {p : CInt} (hp : p = 0 ∨ p = 1) : 0 ≤ p.toInt ∧ p.toInt ≤ 1 := by
    rcases hp with rfl | rfl <;> decide
  have h₁ := hrange hpart
  have h₂ := hrange hpart'
  refine ⟨?_, ?_, ?_⟩ <;> omega

/-- **MPI tags are exact and injective.** -/
theorem tag_exact {tagUpperBound : CInt} (hbound : 0 ≤ tagUpperBound) :
    (∀ id slot part, (∃ t, tag tagUpperBound id slot part = .ok t) ↔
      slot < 32 ∧ (part = 0 ∨ part = 1) ∧
        64 * (id : ℤ) + 2 * slot + part.toInt ≤ tagUpperBound.toInt) ∧
    (∀ id slot part t, tag tagUpperBound id slot part = .ok t →
      t.toInt = 64 * (id : ℤ) + 2 * slot + part.toInt) ∧
    (∀ id slot part t id' slot' part' t', tag tagUpperBound id slot part = .ok t →
      tag tagUpperBound id' slot' part' = .ok t' →
      (id, slot, part) ≠ (id', slot', part') → t ≠ t') := by
  refine ⟨fun id slot part => ⟨?_, ?_⟩, fun id slot part t h => ?_, ?_⟩
  · rintro ⟨t, ht⟩
    obtain ⟨hslot, hpart, hle, -⟩ := (tag_eq_ok hbound).1 ht
    exact ⟨hslot, hpart, hle⟩
  · rintro ⟨hslot, hpart, hle⟩
    have hmax := tagUpperBound.toInt_lt
    have hpos : 0 ≤ part.toInt := by rcases hpart with rfl | rfl <;> decide
    refine ⟨Int32.ofInt (64 * id + 2 * slot + part.toInt), (tag_eq_ok hbound).2
      ⟨hslot, hpart, hle, ?_⟩⟩
    exact Int32.toInt_ofInt_of_le (by omega) (by omega)
  · exact ((tag_eq_ok hbound).1 h).2.2.2
  · rintro id slot part t id' slot' part' t' h h' hne rfl
    obtain ⟨hslot, hpart, -, ht⟩ := (tag_eq_ok hbound).1 h
    obtain ⟨hslot', hpart', -, ht'⟩ := (tag_eq_ok hbound).1 h'
    obtain ⟨rfl, rfl, rfl⟩ := tagValue_inj hslot hslot' hpart hpart' (ht.symm.trans ht')
    exact hne rfl

/-- The largest TransferId that fits under the bound `2 ^ 31 - 1`. -/
theorem tag_exact_max : ∃ t, tag CInt.max (2 ^ 25 - 1) 31 1 = .ok t ∧ t.toInt = 2 ^ 31 - 1 := by
  have hbound : (0 : CInt) ≤ CInt.max := by decide
  obtain ⟨hiff, hvalue, -⟩ := tag_exact hbound
  obtain ⟨t, ht⟩ := (hiff (2 ^ 25 - 1) 31 1).2 (by decide)
  exact ⟨t, ht, (hvalue _ _ _ _ ht).trans (by decide)⟩

/-! ## Headers -/

structure WireHeader where
  slotCount : ℕ
  degree : ℕ
  kind : CInt
  level : CInt
  scaleLog2 : CInt
  ntt : CInt
  components : CInt
  /-- The 64 bytes of the context field. -/
  context : List UInt8
  deriving DecidableEq

/-- `static_cast<int>` of a kind. -/
def kindCode : ValueKind → CInt
  | .plaintext => 0
  | .ciphertext => 1

def encodeHeader (payload : VecPayload) : Except Fault WireHeader :=
  let bytes := bytesOf payload.metadata.context
  if bytes.length ≥ 64 then
    .error (.runtimeError "Vec context is too long for MPI wire header")
  else .ok
    { slotCount := payload.slots.length
      degree := payload.metadata.degree
      kind := kindCode payload.kind
      level := payload.metadata.level
      scaleLog2 := payload.metadata.scaleLog2
      ntt := if payload.metadata.ntt then 1 else 0
      components := payload.metadata.components
      context := bytes ++ List.replicate (64 - bytes.length) 0 }

def decodeValue (header : WireHeader) (slots : List Double) : Except Fault VecValue := do
  throwIf (header.kind ≠ kindCode .plaintext ∧ header.kind ≠ kindCode .ciphertext)
    (.runtimeError "invalid value kind in MPI wire header")
  let context ← stringOf (header.context.takeWhile (· ≠ 0))
  return .ready
    ⟨if header.kind = kindCode .plaintext then .plaintext else .ciphertext, slots,
      ⟨context, header.degree, header.level, header.scaleLog2, header.ntt ≠ 0, header.components⟩⟩

theorem encodeHeader_isOk {p : VecPayload} :
    (∃ h, encodeHeader p = .ok h) ↔ (bytesOf p.metadata.context).length < 64 := by
  unfold encodeHeader
  dsimp only
  split_ifs with hlen <;> simp <;> omega

/-- A header that could be built is decoded, with the context cut at its first
    character 0. -/
theorem decodeValue_encodeHeader {p : VecPayload} {h : WireHeader} (henc : encodeHeader p = .ok h)
    (slots : List Double) :
    decodeValue h slots = .ok (.ready ⟨p.kind, slots,
      { p.metadata with
        context := cString p.metadata.context }⟩) := by
  unfold encodeHeader at henc
  dsimp only at henc
  split at henc
  · cases henc
  obtain rfl := Except.ok.inj henc
  have hctx : ((bytesOf p.metadata.context ++
      List.replicate (64 - (bytesOf p.metadata.context).length) 0).takeWhile (· ≠ 0)) =
      bytesOf (cString p.metadata.context) := by
    rw [bytesOf, takeWhile_utf8Encode _ _ fun b hb => List.eq_of_mem_replicate hb, bytesOf, cString,
      String.toList_ofList]
  unfold decodeValue
  rw [hctx, stringOf_bytesOf]
  obtain ⟨kind, slots, context, degree, level, scale, ntt, components⟩ := p
  cases kind <;> cases ntt <;> rfl

theorem slotCount_encodeHeader {p : VecPayload} {h : WireHeader} (henc : encodeHeader p = .ok h) :
    h.slotCount = p.slots.length := by
  unfold encodeHeader at henc
  dsimp only at henc
  split at henc
  · cases henc
  · exact (Except.ok.inj henc) ▸ rfl

/-- **The wire header round-trips exactly the contexts without a character 0.**
    A payload whose header could be built is decoded to itself if and only if its
    context is `NulFree`; and among those a header determines the kind, the number
    of slots and the metadata. -/
theorem header_roundTrip_iff {p : VecPayload} {h : WireHeader} (henc : encodeHeader p = .ok h) :
    (decodeValue h p.slots = .ok (.ready p) ↔ NulFree p.metadata.context) ∧
      (NulFree p.metadata.context → ∀ q : VecPayload, NulFree q.metadata.context →
        encodeHeader q = .ok h →
          q.kind = p.kind ∧ q.slots.length = p.slots.length ∧ q.metadata = p.metadata) := by
  refine ⟨?_, fun hp q hq henc' => ?_⟩
  · rw [decodeValue_encodeHeader henc, Except.ok.injEq, VecValue.ready.injEq]
    constructor
    · intro he
      have hm := congrArg VecPayload.metadata he
      exact cString_eq_self.1 (congrArg VecMetadata.context hm)
    · intro hp
      rw [cString_eq_self.2 hp]
  · -- both payloads are what the one header decodes to
    have hdec := decodeValue_encodeHeader henc []
    rw [decodeValue_encodeHeader henc' [], cString_eq_self.2 hp, cString_eq_self.2 hq,
      Except.ok.injEq, VecValue.ready.injEq, VecPayload.mk.injEq] at hdec
    exact ⟨hdec.1, (slotCount_encodeHeader henc').symm.trans (slotCount_encodeHeader henc),
      hdec.2.2⟩

/-- A payload of the context `context` that the plan format admits. -/
def contextPayload (context : String) : VecPayload :=
  ⟨.ciphertext, [0#64], ⟨context, 8192, 3, 40, true, 2⟩⟩

theorem header_roundTrip_ctx :
    (∃ h, encodeHeader (contextPayload "ctx") = .ok h) ∧
      ∀ h, encodeHeader (contextPayload "ctx") = .ok h →
        decodeValue h [0#64] = .ok (.ready (contextPayload "ctx")) :=
  ⟨encodeHeader_isOk.2 (by decide),
    fun _ henc => (header_roundTrip_iff henc).1.2 (by decide)⟩

/-- A value of a plan document. -/
def nulValueJson : Json :=
  .object
    [("components", .unsigned 2), ("context", .string "a\x00b"), ("id", .string "1"),
      ("kind", .string "ciphertext"), ("level", .unsigned 3), ("ntt", .boolean true),
      ("place", .object [("kind", .string "host"), ("rank", .unsigned 0)]),
      ("scale_log2", .unsigned 40)]

/-- A JSON string may hold the character 0.  The context `a\0b` is one that the
    plan reader takes; it arrives as `a`, and `a\0` has the header of `a`. -/
theorem header_nul_not_roundTrip :
    (RuntimePlanJsonReader.readValueDesc nulValueJson "$.values[0]").map ValueDesc.context =
        .ok (contextPayload "a\x00b").metadata.context ∧
      (∃ h, encodeHeader (contextPayload "a\x00b") = .ok h ∧
        decodeValue h [0#64] = .ok (.ready (contextPayload "a")) ∧
        decodeValue h [0#64] ≠ .ok (.ready (contextPayload "a\x00b"))) ∧
      encodeHeader (contextPayload "a\x00") = encodeHeader (contextPayload "a") ∧
      (contextPayload "a\x00").metadata ≠ (contextPayload "a").metadata := by
  have hlen : (bytesOf (contextPayload "a\x00b").metadata.context).length < 64 := by decide
  obtain ⟨h, henc⟩ := encodeHeader_isOk.2 hlen
  have hdec : decodeValue h [0#64] = .ok (.ready (contextPayload "a")) :=
    decodeValue_encodeHeader henc _
  refine ⟨by decide, ⟨h, henc, hdec, ?_⟩, by decide, by decide⟩
  rw [hdec]
  decide

end MpiVecApi

end CkksRuntime
