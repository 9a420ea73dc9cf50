/-
  ckks-runtime formalization — `runtime/utils/sha256.cpp` is SHA-256.

  * `transform_eq`: `transform` is the computation on one block;
  * `blocks_eq`: the full blocks and the tail buffer are the padded message;
  * `sha256Hex_exact`: the digest is that of FIPS 180-4, and `read_sha256`
    accepts what `source_sha256` returns.
-/
import CkksRuntime.Json
import CkksRuntime.Fips180

namespace CkksRuntime

namespace Sha256

/-! ## Words -/

theorem toBitVec_rotateRight {x bits : UInt32} (hpos : 0 < bits.toNat) (hlt : bits.toNat < 32) :
    (rotateRight x bits).toBitVec = x.toBitVec.rotateRight bits.toNat := by
  have hbits : bits.toBitVec.toNat = bits.toNat := rfl
  have hright : (bits.toBitVec % 32).toNat = bits.toNat := by
    rw [BitVec.toNat_umod, hbits]
    exact Nat.mod_eq_of_lt hlt
  have hleft : ((32 - bits).toBitVec % 32).toNat = 32 - bits.toNat := by
    rw [BitVec.toNat_umod]
    change (32 - bits).toNat % 32 = _
    rw [UInt32.toNat_sub_of_le]
    · exact Nat.mod_eq_of_lt (by change 32 - bits.toNat < 32; omega)
    · exact UInt32.le_iff_toNat_le.2 hlt.le
  rw [rotateRight, UInt32.toBitVec_or, UInt32.toBitVec_shiftRight, UInt32.toBitVec_shiftLeft,
    BitVec.rotateRight_def, Nat.mod_eq_of_lt hlt, BitVec.ushiftRight_eq', BitVec.shiftLeft_eq',
    hright, hleft]

/-- The working variables as words. -/
def State.words (s : State) : Fips180.Words :=
  ⟨s.a.toBitVec, s.b.toBitVec, s.c.toBitVec, s.d.toBitVec, s.e.toBitVec, s.f.toBitVec, s.g.toBitVec,
    s.h.toBitVec⟩

/-- The integer part of a root is in the bits that are dropped. -/
theorem ofNat_fraction (m : ℕ) (w : Fips180.Word) :
    BitVec.ofNat 32 (m * 2 ^ 32 + w.toNat) = w := by
  apply BitVec.eq_of_toNat_eq
  rw [BitVec.toNat_ofNat, Nat.mul_add_mod_self_right, Nat.mod_eq_of_lt w.isLt]

theorem roundConstants_eq {t : ℕ} (ht : t < 64) :
    Fips180.K t = (roundConstants.getD t 0).toBitVec := by
  have hroots : ∀ t < 64, ∃ m < 7, Fips180.IsRoot 3 (Fips180.primes.getD t 0)
      (m * 2 ^ 32 + (roundConstants.getD t 0).toNat) := by
    decide +kernel
  obtain ⟨m, -, hroot⟩ := hroots t ht
  rw [Fips180.K_eq ht hroot]
  exact ofNat_fraction m _

theorem initialState_eq : Fips180.initialHash = initialState.words := by
  have hroots : ∀ j < 8, ∃ m < 5, Fips180.IsRoot 2 (Fips180.primes.getD j 0)
      (m * 2 ^ 32 + (initialState.words.toList.getD j 0).toNat) := by
    decide +kernel
  have hword {j : ℕ} (hj : j < 8) : Fips180.H0 j = initialState.words.toList.getD j 0 := by
    obtain ⟨m, -, hroot⟩ := hroots j hj
    rw [Fips180.H0_eq (by omega) hroot, ofNat_fraction]
  rw [Fips180.initialHash, hword (by omega), hword (by omega), hword (by omega), hword (by omega),
    hword (by omega), hword (by omega), hword (by omega), hword (by omega)]
  rfl

/-! ## The message schedule -/

/-- A byte behind the digits of `n`. -/
theorem or_shiftLeft_byte {n b k : ℕ} (hb : b < 256) :
    n <<< (k + 8) ||| b <<< k = (n * 256 + b) <<< k := by
  have hlt : b <<< k < 2 ^ (k + 8) := by
    rw [Nat.shiftLeft_eq, pow_add, mul_comm]
    exact Nat.mul_lt_mul_of_pos_left hb (by positivity)
  rw [← Nat.shiftLeft_add_eq_or_of_lt hlt, Nat.shiftLeft_eq, Nat.shiftLeft_eq, Nat.shiftLeft_eq]
  ring

theorem toNat_shiftLeft_byte {b : UInt8} {k : UInt32} (hk : k.toNat ≤ 24) :
    (b.toUInt32 <<< k).toNat = b.toNat <<< k.toNat := by
  have hb := b.toNat_lt
  rw [UInt32.toNat_shiftLeft, UInt8.toNat_toUInt32, Nat.mod_eq_of_lt (by omega : k.toNat < 32),
    Nat.mod_eq_of_lt]
  rw [Nat.shiftLeft_eq]
  calc b.toNat * 2 ^ k.toNat ≤ b.toNat * 2 ^ 24 :=
        Nat.mul_le_mul_left _ (Nat.pow_le_pow_right (by omega) hk)
    _ < 2 ^ 32 := by omega

/-- Four bytes, the most significant first. -/
theorem loadBigEndian_eq (bytes : Bytes) (h : 4 ≤ bytes.length) :
    (loadBigEndian bytes).toBitVec = BitVec.ofNat 32 (Fips180.ofBytes (bytes.take 4)) := by
  obtain ⟨b0, b1, b2, b3, rest, rfl⟩ : ∃ b0 b1 b2 b3 rest, bytes = b0 :: b1 :: b2 :: b3 :: rest := by
    rcases bytes with _ | ⟨b0, _ | ⟨b1, _ | ⟨b2, _ | ⟨b3, rest⟩⟩⟩⟩
    · simp at h
    · simp at h
    · simp at h
    · simp at h
    · exact ⟨b0, b1, b2, b3, rest, rfl⟩
  apply BitVec.eq_of_toNat_eq
  change ((b0.toUInt32 <<< 24 ||| b1.toUInt32 <<< 16 ||| b2.toUInt32 <<< 8 ||| b3.toUInt32)).toNat =
    ((((0 * 256 + b0.toNat) * 256 + b1.toNat) * 256 + b2.toNat) * 256 + b3.toNat) % 2 ^ 32
  have h0 := b0.toNat_lt
  have h1 := b1.toNat_lt
  have h2 := b2.toNat_lt
  have h3 := b3.toNat_lt
  rw [UInt32.toNat_or, UInt32.toNat_or, UInt32.toNat_or, toNat_shiftLeft_byte (by decide),
    toNat_shiftLeft_byte (by decide), toNat_shiftLeft_byte (by decide), UInt8.toNat_toUInt32]
  change (b0.toNat <<< (16 + 8) ||| b1.toNat <<< 16 ||| b2.toNat <<< 8 ||| b3.toNat <<< 0) = _
  rw [or_shiftLeft_byte h1, or_shiftLeft_byte (k := 8) h2, or_shiftLeft_byte (k := 0) h3,
    Nat.shiftLeft_zero]
  omega

theorem smallSigma0_eq (w : UInt32) :
    (rotateRight w 7 ^^^ rotateRight w 18 ^^^ (w >>> 3)).toBitVec =
      Fips180.smallSigma0 w.toBitVec := by
  rw [UInt32.toBitVec_xor, UInt32.toBitVec_xor, toBitVec_rotateRight (by decide) (by decide),
    toBitVec_rotateRight (by decide) (by decide)]
  rfl

theorem smallSigma1_eq (w : UInt32) :
    (rotateRight w 17 ^^^ rotateRight w 19 ^^^ (w >>> 10)).toBitVec =
      Fips180.smallSigma1 w.toBitVec := by
  rw [UInt32.toBitVec_xor, UInt32.toBitVec_xor, toBitVec_rotateRight (by decide) (by decide),
    toBitVec_rotateRight (by decide) (by decide)]
  rfl

theorem bigSigma0_eq (w : UInt32) :
    (rotateRight w 2 ^^^ rotateRight w 13 ^^^ rotateRight w 22).toBitVec =
      Fips180.bigSigma0 w.toBitVec := by
  rw [UInt32.toBitVec_xor, UInt32.toBitVec_xor, toBitVec_rotateRight (by decide) (by decide),
    toBitVec_rotateRight (by decide) (by decide), toBitVec_rotateRight (by decide) (by decide)]
  rfl

theorem bigSigma1_eq (w : UInt32) :
    (rotateRight w 6 ^^^ rotateRight w 11 ^^^ rotateRight w 25).toBitVec =
      Fips180.bigSigma1 w.toBitVec := by
  rw [UInt32.toBitVec_xor, UInt32.toBitVec_xor, toBitVec_rotateRight (by decide) (by decide),
    toBitVec_rotateRight (by decide) (by decide), toBitVec_rotateRight (by decide) (by decide)]
  rfl

/-- The words of a block. -/
def blockWord (block : Bytes) (t : ℕ) : Fips180.Word :=
  BitVec.ofNat 32 (Fips180.ofBytes ((block.drop (t * 4)).take 4))

theorem extend_spec (M : ℕ → Fips180.Word) (init : List UInt32) (hlen : init.length = 16)
    (hinit : ∀ t < 16, (init.getD t 0).toBitVec = M t) (n : ℕ) :
    (extend^[n] init).length = n + 16 ∧
      ∀ t < n + 16, ((extend^[n] init).getD t 0).toBitVec = Fips180.W M t := by
  induction n with
  | zero =>
    refine ⟨by simpa using hlen, fun t ht => ?_⟩
    rw [Fips180.W_lt (by omega)]
    exact hinit t (by omega)
  | succ n ih =>
    obtain ⟨ihlen, ihget⟩ := ih
    rw [Function.iterate_succ_apply']
    generalize extend^[n] init = words at ihlen ihget
    refine ⟨by simp [extend, ihlen], fun t ht => ?_⟩
    rcases Nat.lt_or_ge t (n + 16) with hlt | hge
    · have hold : (extend words).getD t 0 = words.getD t 0 := by
        rw [extend, List.getD_append _ _ _ _ (by omega)]
      rw [hold, ihget t hlt]
    · obtain rfl : t = n + 16 := by omega
      rw [extend, List.getD_append_right _ _ _ _ (by omega), ihlen, Nat.sub_self,
        List.getD_cons_zero, Fips180.W_ge (by omega), ← ihget _ (by omega),
        ← ihget _ (by omega), ← ihget _ (by omega), ← ihget _ (by omega)]
      simp only [UInt32.toBitVec_add, smallSigma0_eq, smallSigma1_eq]
      ac_rfl

theorem schedule_eq {block : Bytes} (hlen : block.length = 64) {t : ℕ} (ht : t < 64) :
    ((schedule block).getD t 0).toBitVec = Fips180.W (blockWord block) t := by
  refine (extend_spec (blockWord block) _ (by simp) (fun i hi => ?_) 48).2 t ht
  rw [List.getD_eq_getElem _ _ (by simpa using hi), List.getElem_map, List.getElem_range]
  exact loadBigEndian_eq _ (by rw [List.length_drop]; omega)

theorem length_extend (words : List UInt32) (n : ℕ) :
    (extend^[n] words).length = words.length + n := by
  induction n with
  | zero => rfl
  | succ n ih =>
    rw [Function.iterate_succ_apply', extend, List.length_append, ih]
    rfl

theorem length_schedule (block : Bytes) : (schedule block).length = 64 := by
  rw [schedule, length_extend]
  simp

/-! ## The rounds -/

theorem round_eq {M : ℕ → Fips180.Word} {s : State} {t : ℕ} {constant word : UInt32}
    (hconstant : Fips180.K t = constant.toBitVec) (hword : word.toBitVec = Fips180.W M t) :
    (round s constant word).words = Fips180.round M s.words t := by
  unfold round Fips180.round State.words
  simp only [UInt32.toBitVec_add, bigSigma0_eq, bigSigma1_eq, hconstant, hword]
  rfl

theorem zip_eq_map_range {α β : Type} {l : List α} {l' : List β} {n : ℕ} (hl : l.length = n)
    (hl' : l'.length = n) (a : α) (b : β) :
    l.zip l' = (List.range n).map fun t => (l.getD t a, l'.getD t b) := by
  refine List.ext_getElem (by simp [hl, hl']) fun t h _ => ?_
  rw [List.length_zip] at h
  rw [List.getElem_zip, List.getElem_map, List.getElem_range, List.getD_eq_getElem _ _ (by omega),
    List.getD_eq_getElem _ _ (by omega)]

/-- The first `n` rounds. -/
theorem rounds_eq {M : ℕ → Fips180.Word} {constants words : List UInt32} {n : ℕ}
    (hK : ∀ t < n, Fips180.K t = (constants.getD t 0).toBitVec)
    (hW : ∀ t < n, (words.getD t 0).toBitVec = Fips180.W M t) (s : State) :
    ((List.range n).foldl (fun s t => round s (constants.getD t 0) (words.getD t 0)) s).words =
      (List.range n).foldl (Fips180.round M) s.words := by
  induction n with
  | zero => rfl
  | succ n ih =>
    have hprefix := ih (fun t ht => hK t (by omega)) fun t ht => hW t (by omega)
    rw [List.range_succ, List.foldl_append, List.foldl_append, ← hprefix]
    simp only [List.foldl_cons, List.foldl_nil]
    exact round_eq (hK n (by omega)) (hW n (by omega))

theorem add_words (s s' : State) :
    State.words ⟨s.a + s'.a, s.b + s'.b, s.c + s'.c, s.d + s'.d, s.e + s'.e, s.f + s'.f, s.g + s'.g,
      s.h + s'.h⟩ = s.words.add s'.words := rfl

/-- `transform` is the computation on one block. -/
theorem transform_eq {block : Bytes} (hlen : block.length = 64) (s : State) :
    (transform s block).words = Fips180.compress s.words (blockWord block) := by
  have hrounds := rounds_eq (fun t ht => roundConstants_eq ht)
    (fun t ht => schedule_eq hlen ht) s
  rw [transform, zip_eq_map_range (n := 64) (by decide) (length_schedule block) 0 0,
    List.foldl_map, add_words, hrounds, Fips180.compress, Fips180.Words.add_comm]

/-! ## The padding -/

/-- Bytes written backwards, the last position first. -/
theorem foldl_set_backwards (f : ℕ → UInt8) (before middle after : Bytes) :
    (List.range middle.length).foldl
        (fun l i => l.set (before.length + middle.length - 1 - i) (f i)) (before ++ middle ++ after) =
      before ++ (List.range middle.length).reverse.map f ++ after := by
  induction middle generalizing before with
  | nil => rfl
  | cons x middle ih =>
    have hshift : before ++ x :: middle ++ after = before ++ [x] ++ middle ++ after := by simp
    have hpos (i : ℕ) : before.length + (x :: middle).length - 1 - i =
        (before ++ [x]).length + middle.length - 1 - i := by simp [Nat.add_right_comm]
    simp only [hpos, hshift]
    rw [List.length_cons, List.range_succ, List.foldl_append, ih (before ++ [x])]
    simp only [List.foldl_cons, List.foldl_nil, List.length_append, List.length_singleton]
    rw [List.append_assoc, List.append_assoc, List.set_append_right _ _ (by omega)]
    have hlast : before.length + 1 + middle.length - 1 - middle.length - before.length = 0 := by omega
    rw [hlast]
    simp

theorem tailSize_eq (bytes : Bytes) : tailSize bytes = 64 ∨ tailSize bytes = 128 := by
  unfold tailSize
  split_ifs <;> simp

theorem zeroBytes_eq (bytes : Bytes) :
    bytes.length + 1 + Fips180.zeroBytes bytes.length + 8 =
      bytes.length / 64 * 64 + tailSize bytes := by
  have hle : Fips180.zeroBytes bytes.length ≤
      tailSize bytes - 9 - bytes.length % 64 := by
    refine Nat.find_min' (Fips180.exists_padding bytes.length) ?_
    unfold tailSize
    split_ifs <;> omega
  have hdvd := Nat.find_spec (Fips180.exists_padding bytes.length)
  change 64 ∣ bytes.length + 1 + Fips180.zeroBytes bytes.length + 8 at hdvd
  unfold tailSize at hle ⊢
  split_ifs at hle ⊢ <;> omega

/-- The bytes of the bit length. -/
theorem bitLength_eq {bytes : Bytes} (h : bytes.length < 2 ^ 61) :
    ((List.range 8).reverse.map fun index =>
        ((UInt64.ofNat bytes.length * 8) >>> UInt64.ofNat (index * 8)).toUInt8) =
      Fips180.bigEndian 8 (8 * bytes.length) := by
  refine List.map_congr_left fun i hi => ?_
  have hi8 : i < 8 := by simpa using hi
  have hshift : (UInt64.ofNat (i * 8)).toNat % 64 = i * 8 := by
    rw [UInt64.toNat_ofNat']
    omega
  have hlength : (UInt64.ofNat bytes.length * 8).toNat = 8 * bytes.length := by
    rw [UInt64.toNat_mul, UInt64.toNat_ofNat']
    change bytes.length % 2 ^ 64 * 8 % 2 ^ 64 = _
    omega
  have hpow : 256 ^ i = 2 ^ (i * 8) := by
    rw [show 256 = 2 ^ 8 by norm_num, ← pow_mul, Nat.mul_comm]
  apply UInt8.toNat_inj.1
  rw [UInt64.toNat_toUInt8, UInt64.toNat_shiftRight, hshift, hlength, Nat.shiftRight_eq_div_pow,
    UInt8.toNat_ofNat', hpow]

/-- The end of the padded message: the bytes after the last full block, and the
    padding. -/
def lastBytes (bytes : Bytes) : Bytes :=
  bytes.drop (bytes.length / 64 * 64) ++ [0x80] ++
    List.replicate (Fips180.zeroBytes bytes.length) 0 ++ Fips180.bigEndian 8 (8 * bytes.length)

theorem length_lastBytes (bytes : Bytes) : (lastBytes bytes).length = tailSize bytes := by
  have hlen := zeroBytes_eq bytes
  simp only [lastBytes, Fips180.bigEndian, List.length_append, List.length_drop,
    List.length_replicate, List.length_map, List.length_reverse, List.length_range,
    List.length_singleton]
  omega

theorem pad_eq (bytes : Bytes) :
    Fips180.pad bytes = bytes.take (bytes.length / 64 * 64) ++ lastBytes bytes := by
  simp only [Fips180.pad, lastBytes, ← List.append_assoc, List.take_append_drop]

/-- The tail buffer starts with the end of the padded message. -/
theorem tail_eq {bytes : Bytes} (h : bytes.length < 2 ^ 61) :
    tail bytes = lastBytes bytes ++ List.replicate (128 - tailSize bytes) 0 := by
  have hzero := zeroBytes_eq bytes
  have hsize := tailSize_eq bytes
  have hdrop : (bytes.drop (bytes.length / 64 * 64)).length = bytes.length % 64 := by
    rw [List.length_drop]
    omega
  -- the zeroed part of the buffer: one byte, the padding, eight bytes, what is not sent
  have hbuffer : List.replicate (128 - bytes.length % 64) (0 : UInt8) =
      0 :: (List.replicate (Fips180.zeroBytes bytes.length) 0 ++ List.replicate 8 0 ++
        List.replicate (128 - tailSize bytes) 0) := by
    rw [List.replicate_append_replicate, List.replicate_append_replicate, ← List.replicate_succ]
    congr 1
    rcases hsize with hsize | hsize <;> omega
  have hmark : (bytes.drop (bytes.length / 64 * 64) ++
      List.replicate (128 - bytes.length % 64) 0).set (bytes.length % 64) 0x80 =
      bytes.drop (bytes.length / 64 * 64) ++ [0x80] ++
        List.replicate (Fips180.zeroBytes bytes.length) 0 ++ List.replicate 8 0 ++
          List.replicate (128 - tailSize bytes) 0 := by
    rw [hbuffer, List.set_append_right _ _ (by omega), hdrop, Nat.sub_self]
    simp
  have hwrite := foldl_set_backwards
    (fun index => ((UInt64.ofNat bytes.length * 8) >>> UInt64.ofNat (index * 8)).toUInt8)
    (bytes.drop (bytes.length / 64 * 64) ++ [0x80] ++
      List.replicate (Fips180.zeroBytes bytes.length) 0) (List.replicate 8 0)
    (List.replicate (128 - tailSize bytes) 0)
  rw [List.length_replicate] at hwrite
  unfold tail lastBytes
  dsimp only
  rw [hmark, ← bitLength_eq h, ← hwrite]
  congr 1
  funext l i
  congr 2
  simp [hdrop]
  rcases hsize with hsize | hsize <;> omega

/-- **The padding.**  The full blocks and the tail are the padded message. -/
theorem blocks_eq {bytes : Bytes} (h : bytes.length < 2 ^ 61) :
    (List.range (bytes.length / 64)).flatMap (block bytes) ++ (tail bytes).take (tailSize bytes) =
      Fips180.pad bytes := by
  have hblocks : ∀ n, (List.range n).flatMap (block bytes) = bytes.take (n * 64) := by
    intro n
    induction n with
    | zero => simp
    | succ n ih =>
      rw [List.range_succ, List.flatMap_append, ih, List.flatMap_singleton, block, Nat.succ_mul,
        List.take_add]
  rw [hblocks, tail_eq h, List.take_left' (length_lastBytes bytes), pad_eq]

/-! ## The hash value -/

theorem block_append_left {a b : Bytes} {i : ℕ} (h : (i + 1) * 64 ≤ a.length) :
    block (a ++ b) i = block a i := by
  rw [block, block, List.drop_append_of_le_length (by omega), List.take_append_of_le_length]
  rw [List.length_drop]
  omega

theorem block_append_right {a b : Bytes} {q j : ℕ} (h : a.length = q * 64) :
    block (a ++ b) (q + j) = block b j := by
  rw [block, block, List.drop_append, List.drop_of_length_le (by omega), List.nil_append]
  congr 2
  omega

theorem length_block {bytes : Bytes} {i : ℕ} (h : (i + 1) * 64 ≤ bytes.length) :
    (block bytes i).length = 64 := by
  rw [block, List.length_take, List.length_drop]
  omega

theorem messageWord_eq (padded : Bytes) (i : ℕ) {t : ℕ} (ht : t < 16) :
    Fips180.messageWord padded i t = blockWord (block padded i) t := by
  rw [Fips180.messageWord, blockWord, block, List.drop_take, List.take_take, List.drop_drop]
  congr 3
  · omega
  · congr 1
    omega

/-- The blocks one after the other. -/
theorem transforms_eq (padded : Bytes) {n : ℕ} (h : n * 64 ≤ padded.length) (s : State) :
    ((List.range n).foldl (fun s i => transform s (block padded i)) s).words =
      (List.range n).foldl (fun H i => Fips180.compress H (Fips180.messageWord padded i)) s.words := by
  induction n with
  | zero => rfl
  | succ n ih =>
    rw [List.range_succ, List.foldl_append, List.foldl_append, ← ih (by omega)]
    simp only [List.foldl_cons, List.foldl_nil]
    rw [transform_eq (length_block h)]
    exact Fips180.compress_congr (fun t ht => (messageWord_eq padded n ht).symm) _

/-- The digest that the code prints is that of the hash value. -/
theorem hash_eq {bytes : Bytes} (h : bytes.length < 2 ^ 61) :
    ∃ s : State, s.words = Fips180.hash bytes ∧
      sha256Hex bytes =
        .ok (String.ofList ([s.a, s.b, s.c, s.d, s.e, s.f, s.g, s.h].flatMap hexWord)) := by
  have hsize : ¬ bytes.length > (2 ^ 64 - 1) / 8 := by omega
  have hpad := pad_eq bytes
  have htake : (bytes.take (bytes.length / 64 * 64)).length = bytes.length / 64 * 64 := by
    rw [List.length_take]
    omega
  have hlen : (Fips180.pad bytes).length = bytes.length / 64 * 64 + tailSize bytes := by
    rw [hpad, List.length_append, htake, length_lastBytes]
  have hfull {i : ℕ} (hi : i < bytes.length / 64) : block (Fips180.pad bytes) i = block bytes i := by
    rw [hpad, block_append_left (by omega)]
    conv_rhs => rw [← List.take_append_drop (bytes.length / 64 * 64) bytes]
    rw [block_append_left (by omega)]
  have hlast {j : ℕ} (hj : (j + 1) * 64 ≤ tailSize bytes) :
      block (Fips180.pad bytes) (bytes.length / 64 + j) = block (tail bytes) j := by
    rw [hpad, block_append_right htake, tail_eq h, block_append_left]
    rw [length_lastBytes]
    exact hj
  have hhash := transforms_eq (Fips180.pad bytes) (Nat.div_mul_le_self _ 64) initialState
  rw [← initialState_eq] at hhash
  refine ⟨_, hhash, ?_⟩
  have hblocks : (List.range (bytes.length / 64)).foldl
      (fun s i => transform s (block (Fips180.pad bytes) i)) initialState =
        (List.range (bytes.length / 64)).foldl (fun s i => transform s (block bytes i))
          initialState :=
    List.foldl_ext _ _ _ fun s i hi => by rw [hfull (List.mem_range.1 hi)]
  -- one more block, or two
  rw [sha256Hex, if_neg hsize]
  rcases tailSize_eq bytes with hone | htwo
  · have hcount : (Fips180.pad bytes).length / 64 = bytes.length / 64 + 1 := by omega
    have hfirst := hlast (j := 0) (by omega)
    rw [Nat.add_zero] at hfirst
    rw [hcount, List.range_succ, List.foldl_append, hblocks, List.foldl_cons, List.foldl_nil, hfirst]
    simp [hone]
  · have hcount : (Fips180.pad bytes).length / 64 = bytes.length / 64 + 2 := by omega
    rw [hcount, List.range_succ, List.range_succ, List.foldl_append, List.foldl_append, hblocks]
    have hfirst := hlast (j := 0) (by omega)
    have hsecond := hlast (j := 1) (by omega)
    rw [Nat.add_zero] at hfirst
    simp only [List.foldl_cons, List.foldl_nil, hfirst, hsecond, htwo, if_pos]

/-! ## The digest -/

theorem hexDigit_eq {w shift : UInt32} (h : shift.toNat < 32) :
    hexDigit ((w >>> shift) &&& 0xf) = Nat.digitChar (w.toNat / 2 ^ shift.toNat % 16) := by
  have hdigits : ∀ n < 16, "0123456789abcdef".toList.getD n '0' = Nat.digitChar n := by decide
  have hnibble : ((w >>> shift) &&& 0xf).toNat = w.toNat / 2 ^ shift.toNat % 16 := by
    rw [UInt32.toNat_and, UInt32.toNat_shiftRight, Nat.mod_eq_of_lt h, Nat.shiftRight_eq_div_pow]
    exact Nat.and_two_pow_sub_one_eq_mod _ 4
  rw [hexDigit, hnibble]
  exact hdigits _ (Nat.mod_lt _ (by omega))

theorem hexWord_eq (w : UInt32) : hexWord w = Fips180.hexDigits w.toBitVec := by
  have hdigit {shift : UInt32} (h : shift.toNat < 32) := hexDigit_eq (w := w) h
  unfold hexWord
  simp only [List.map_cons, List.map_nil]
  rw [hdigit (by decide), hdigit (by decide), hdigit (by decide), hdigit (by decide),
    hdigit (by decide), hdigit (by decide), hdigit (by decide), hdigit (by decide)]
  rfl

theorem sha256Hex_eq {bytes : Bytes} (h : bytes.length < 2 ^ 61) :
    sha256Hex bytes = .ok (Fips180.sha256 bytes) := by
  obtain ⟨s, hs, hhex⟩ := hash_eq h
  rw [hhex, Fips180.sha256, ← hs]
  simp only [List.flatMap_cons, List.flatMap_nil, hexWord_eq]
  rfl

/-- Eight lowercase hexadecimal digits. -/
theorem hexWord_spec (w : UInt32) : (hexWord w).length = 8 ∧
    ∀ c ∈ hexWord w, ('0' ≤ c ∧ c ≤ '9') ∨ ('a' ≤ c ∧ c ≤ 'f') := by
  have hdigits : ∀ n < 16, ('0' ≤ Nat.digitChar n ∧ Nat.digitChar n ≤ '9') ∨
      ('a' ≤ Nat.digitChar n ∧ Nat.digitChar n ≤ 'f') := by decide
  rw [hexWord_eq]
  refine ⟨by simp [Fips180.hexDigits], fun c hc => ?_⟩
  obtain ⟨i, -, rfl⟩ := List.mem_map.1 hc
  exact hdigits _ (Nat.mod_lt _ (by omega))

end Sha256

theorem utf8ByteSize_ofList {l : List Char} (h : ∀ c ∈ l, c.utf8Size = 1) :
    (String.ofList l).utf8ByteSize = l.length := by
  induction l with
  | nil => rfl
  | cons c l ih =>
    have hcons : String.ofList (c :: l) = String.singleton c ++ String.ofList l := by
      rw [String.singleton_eq_ofList, ← String.ofList_append]
      rfl
    rw [hcons, String.utf8ByteSize_append, String.utf8ByteSize_singleton, h c (by simp),
      ih fun d hd => h d (by simp [hd]), List.length_cons, Nat.add_comm]

theorem utf8Size_hex {c : Char} (h : ('0' ≤ c ∧ c ≤ '9') ∨ ('a' ≤ c ∧ c ≤ 'f')) : c.utf8Size = 1 := by
  rw [Char.utf8Size_eq_one_iff]
  rcases h with ⟨-, hle⟩ | ⟨-, hle⟩
  · exact UInt32.le_trans hle (by decide)
  · exact UInt32.le_trans hle (by decide)

theorem toList_digest (digits : List Char) :
    ("sha256:" ++ String.ofList digits).toList = "sha256:".toList ++ digits :=
  String.toList_append.trans (congrArg _ String.toList_ofList)

theorem utf8ByteSize_digest {digits : List Char}
    (h : ∀ c ∈ digits, ('0' ≤ c ∧ c ≤ '9') ∨ ('a' ≤ c ∧ c ≤ 'f')) :
    ("sha256:" ++ String.ofList digits).utf8ByteSize = 7 + digits.length := by
  rw [String.utf8ByteSize_append, utf8ByteSize_ofList fun c hc => utf8Size_hex (h c hc)]
  rfl

/-- A digest of 64 hexadecimal digits is read back. -/
theorem readSha256_ofList {digits : List Char} (hlen : digits.length = 64)
    (hhex : ∀ c ∈ digits, ('0' ≤ c ∧ c ≤ '9') ∨ ('a' ≤ c ∧ c ≤ 'f')) (document path : String) :
    JsonUtils.readSha256 (.string ("sha256:" ++ String.ofList digits)) document path =
      .ok ("sha256:" ++ String.ofList digits) := by
  have hlist := toList_digest digits
  have hbytes : ("sha256:" ++ String.ofList digits).utf8ByteSize = 71 := by
    rw [utf8ByteSize_digest hhex, hlen]
  have hne : ("sha256:" ++ String.ofList digits).isEmpty = false := by
    rw [Bool.eq_false_iff, ne_eq, String.isEmpty_iff]
    intro hempty
    rw [hempty] at hbytes
    simp at hbytes
  have hdigits : ¬ digits.any fun c => ¬ (('0' ≤ c ∧ c ≤ '9') ∨ ('a' ≤ c ∧ c ≤ 'f')) := by
    rw [List.any_eq_true]
    rintro ⟨c, hc, hout⟩
    exact of_decide_eq_true hout (hhex c hc)
  have hprefix : "sha256:".toList.length = 7 := by decide
  simp only [JsonUtils.readSha256, JsonUtils.readString, bind_eq_ok, JsonUtils.failIf_eq_ok,
    exists_const, pure_eq_ok]
  refine ⟨_, by rw [hne]; rfl, ?_, ?_, rfl⟩
  · rw [hbytes, hlist, List.take_left' hprefix]
    simp
  · rw [hlist, List.drop_left' hprefix]
    exact hdigits

theorem sourceSha256_accepted {bytes : Bytes} {digest : String} (h : sourceSha256 bytes = .ok digest)
    (document path : String) : JsonUtils.readSha256 (.string digest) document path = .ok digest := by
  obtain ⟨hex, hhex, hdigest⟩ := bind_eq_ok.1 h
  obtain rfl := pure_eq_ok.1 hdigest
  unfold Sha256.sha256Hex at hhex
  split at hhex
  · cases hhex
  · obtain rfl := Except.ok.inj hhex
    refine readSha256_ofList ?_ (fun c hc => ?_) document path
    · simp [List.flatMap_cons, (Sha256.hexWord_spec _).1]
    · obtain ⟨w, -, hw⟩ := List.mem_flatMap.1 hc
      exact (Sha256.hexWord_spec w).2 c hw

/-- **`sha256_hex` is SHA-256.**  The full blocks and the tail are the message, `0x80`,
    the least number of zero bytes that fills the last block, and the length in
    bits; the digest is that of FIPS 180-4; and a digest that `source_sha256`
    returns is one that `read_sha256` accepts. -/
theorem sha256Hex_exact :
    (∀ bytes : Bytes, bytes.length < 2 ^ 61 →
      (List.range (bytes.length / 64)).flatMap (Sha256.block bytes) ++
          (Sha256.tail bytes).take (Sha256.tailSize bytes) = Fips180.pad bytes ∧
        Sha256.sha256Hex bytes = .ok (Fips180.sha256 bytes)) ∧
      ∀ (bytes : Bytes) (digest : String), sourceSha256 bytes = .ok digest →
        ∀ document path, JsonUtils.readSha256 (.string digest) document path = .ok digest := by
  refine ⟨fun bytes h => ⟨Sha256.blocks_eq h, Sha256.sha256Hex_eq h⟩, ?_⟩
  intro bytes digest h document path
  exact sourceSha256_accepted h document path

/-- The digest of `abc`. -/
theorem sha256Hex_exact_abc : Fips180.sha256 [0x61, 0x62, 0x63] =
    "ba7816bf8f01cfea414140de5dae2223b00361a396177a9cb410ff61f20015ad" := by
  have h := (sha256Hex_exact.1 [0x61, 0x62, 0x63] (by decide)).2
  exact Except.ok.inj (h.symm.trans (by decide +kernel))

end CkksRuntime
