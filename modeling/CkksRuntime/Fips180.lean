/-
  SHA-256 as FIPS 180-4 defines it: the functions (Section 4.1.2), the
  constants (Section 4.2.2), the padding (Section 5.1.1), the initial hash value
  (Section 5.3.3) and the hash computation (Section 6.2).

  A word is a `BitVec 32`.  The constants are the first bits of the fractional
  parts of the roots of the first primes, over the reals; `fractionBits_root`
  says which word that is by two inequalities between integers.
-/
import Mathlib.Analysis.SpecialFunctions.Pow.Real
import Mathlib.NumberTheory.PrimeCounting
import Mathlib.Tactic.IntervalCases
import Mathlib.Tactic.NormNum.Prime

namespace Fips180

abbrev Word := BitVec 32

/-! ## Constants -/

/-- The first thirty-two bits of the fractional part. -/
noncomputable def fractionBits (x : ℝ) : Word := BitVec.ofNat 32 ⌊2 ^ 32 * x⌋₊

/-- The constant of round `t`, from the cube root of the `t`th prime. -/
noncomputable def K (t : ℕ) : Word := fractionBits ((Nat.nth Nat.Prime t : ℝ) ^ (3 : ℝ)⁻¹)

/-- The `j`th word of the initial hash value, from the square root of the `j`th prime. -/
noncomputable def H0 (j : ℕ) : Word := fractionBits ((Nat.nth Nat.Prime j : ℝ) ^ (2 : ℝ)⁻¹)

/-- The root of degree `e` of `p` has the bits of `n`. -/
def IsRoot (e p n : ℕ) : Prop := n ^ e ≤ p * 2 ^ (32 * e) ∧ p * 2 ^ (32 * e) < (n + 1) ^ e

instance (e p n : ℕ) : Decidable (IsRoot e p n) := inferInstanceAs (Decidable (_ ∧ _))

theorem fractionBits_root {e p n : ℕ} (he : e ≠ 0) (h : IsRoot e p n) :
    fractionBits ((p : ℝ) ^ (e : ℝ)⁻¹) = BitVec.ofNat 32 n := by
  have hroot : 0 ≤ (p : ℝ) ^ (e : ℝ)⁻¹ := by positivity
  have hpow : (2 ^ 32 * (p : ℝ) ^ (e : ℝ)⁻¹) ^ e = p * 2 ^ (32 * e) := by
    rw [mul_pow, ← pow_mul, Real.rpow_inv_natCast_pow (by positivity) he, mul_comm]
  have hlo : (n : ℝ) ≤ 2 ^ 32 * (p : ℝ) ^ (e : ℝ)⁻¹ := by
    refine le_of_pow_le_pow_left₀ he (by positivity) ?_
    rw [hpow]
    exact_mod_cast h.1
  have hhi : 2 ^ 32 * (p : ℝ) ^ (e : ℝ)⁻¹ < n + 1 := by
    refine lt_of_pow_lt_pow_left₀ e (by positivity) ?_
    rw [hpow]
    exact_mod_cast h.2
  rw [fractionBits, (Nat.floor_eq_iff (by positivity)).2 ⟨hlo, hhi⟩]

/-! ## The first primes -/

/-- No prime below nineteen divides `n`, other than `n` itself. -/
def Sieved (n : ℕ) : Prop := 2 ≤ n ∧ ∀ d ∈ [2, 3, 5, 7, 11, 13, 17], d ∣ n → d = n

instance (n : ℕ) : Decidable (Sieved n) := inferInstanceAs (Decidable (_ ∧ _))

theorem mem_smallPrimes {q : ℕ} (hq : q.Prime) (hlt : q < 19) : q ∈ [2, 3, 5, 7, 11, 13, 17] := by
  interval_cases q <;> first | decide | exact absurd hq (by norm_num)

theorem prime_iff_sieved {n : ℕ} (hn : n < 19 ^ 2) : n.Prime ↔ Sieved n := by
  constructor
  · intro h
    refine ⟨h.two_le, fun d hd hdvd => ?_⟩
    rcases (Nat.dvd_prime h).1 hdvd with rfl | rfl
    · simp at hd
    · rfl
  · rintro ⟨htwo, hsieve⟩
    by_contra hcomp
    have hmin := Nat.minFac_prime (n := n) (by omega)
    have hsq := Nat.minFac_sq_le_self (by omega) hcomp
    have hlt : n.minFac < 19 := lt_of_pow_lt_pow_left₀ 2 (by omega) (by omega)
    exact hcomp (hsieve _ (mem_smallPrimes hmin hlt) n.minFac_dvd ▸ hmin)

theorem nth_prime_of_count {p t : ℕ} (hp : p < 19 ^ 2) (hsieved : Sieved p)
    (hcount : Nat.count Sieved p = t) : Nat.nth Nat.Prime t = p := by
  have hcongr : Nat.count Nat.Prime p = Nat.count Sieved p := by
    rw [Nat.count_eq_card_filter_range, Nat.count_eq_card_filter_range]
    congr 1
    refine Finset.filter_congr fun m hm => prime_iff_sieved ?_
    have := Finset.mem_range.1 hm
    omega
  rw [← hcount, ← hcongr, Nat.nth_count ((prime_iff_sieved hp).2 hsieved)]

/-- The first sixty-four primes. -/
def primes : List ℕ := (List.range 312).filter Sieved

theorem primes_count : ∀ t < 64, Nat.count Sieved (primes.getD t 0) = t ∧
    Sieved (primes.getD t 0) ∧ primes.getD t 0 < 19 ^ 2 := by
  decide +kernel

theorem nth_prime {t : ℕ} (ht : t < 64) : Nat.nth Nat.Prime t = primes.getD t 0 := by
  obtain ⟨hcount, hsieved, hlt⟩ := primes_count t ht
  exact nth_prime_of_count hlt hsieved hcount

/-- The constants, by integers. -/
theorem K_eq {t n : ℕ} (ht : t < 64) (h : IsRoot 3 (primes.getD t 0) n) : K t = BitVec.ofNat 32 n := by
  rw [K, nth_prime ht]
  exact_mod_cast fractionBits_root (by omega) h

theorem H0_eq {j n : ℕ} (hj : j < 64) (h : IsRoot 2 (primes.getD j 0) n) :
    H0 j = BitVec.ofNat 32 n := by
  rw [H0, nth_prime hj]
  exact_mod_cast fractionBits_root (by omega) h

/-! ## Functions -/

def Ch (x y z : Word) : Word := (x &&& y) ^^^ (~~~x &&& z)

def Maj (x y z : Word) : Word := (x &&& y) ^^^ (x &&& z) ^^^ (y &&& z)

def bigSigma0 (x : Word) : Word := x.rotateRight 2 ^^^ x.rotateRight 13 ^^^ x.rotateRight 22

def bigSigma1 (x : Word) : Word := x.rotateRight 6 ^^^ x.rotateRight 11 ^^^ x.rotateRight 25

def smallSigma0 (x : Word) : Word := x.rotateRight 7 ^^^ x.rotateRight 18 ^^^ (x >>> 3)

def smallSigma1 (x : Word) : Word := x.rotateRight 17 ^^^ x.rotateRight 19 ^^^ (x >>> 10)

/-! ## The hash computation -/

/-- The message schedule of the block of words `M`. -/
def W (M : ℕ → Word) (t : ℕ) : Word :=
  if t < 16 then M t
  else smallSigma1 (W M (t - 2)) + W M (t - 7) + smallSigma0 (W M (t - 15)) + W M (t - 16)

theorem W_lt {M : ℕ → Word} {t : ℕ} (ht : t < 16) : W M t = M t := by
  rw [W, if_pos ht]

/-- Eight words: the working variables, or a hash value. -/
structure Words where
  a : Word
  b : Word
  c : Word
  d : Word
  e : Word
  f : Word
  g : Word
  h : Word

def Words.toList (s : Words) : List Word := [s.a, s.b, s.c, s.d, s.e, s.f, s.g, s.h]

def Words.add (s s' : Words) : Words :=
  ⟨s.a + s'.a, s.b + s'.b, s.c + s'.c, s.d + s'.d, s.e + s'.e, s.f + s'.f, s.g + s'.g, s.h + s'.h⟩

theorem Words.add_comm (s s' : Words) : s.add s' = s'.add s := by
  simp only [Words.add, BitVec.add_comm]

/-- Round `t` of the computation on the block `M`. -/
noncomputable def round (M : ℕ → Word) (s : Words) (t : ℕ) : Words :=
  let T1 := s.h + bigSigma1 s.e + Ch s.e s.f s.g + K t + W M t
  let T2 := bigSigma0 s.a + Maj s.a s.b s.c
  ⟨T1 + T2, s.a, s.b, s.c, s.d + T1, s.e, s.f, s.g⟩

/-- The intermediate hash value after the block `M`. -/
noncomputable def compress (H : Words) (M : ℕ → Word) : Words :=
  ((List.range 64).foldl (round M) H).add H

theorem W_ge {M : ℕ → Word} {t : ℕ} (ht : 16 ≤ t) :
    W M t =
      smallSigma1 (W M (t - 2)) + W M (t - 7) + smallSigma0 (W M (t - 15)) + W M (t - 16) := by
  rw [W, if_neg (by omega)]

/-- Only the sixteen words of the block are read. -/
theorem W_congr {M M' : ℕ → Word} (h : ∀ t < 16, M t = M' t) (t : ℕ) : W M t = W M' t := by
  induction t using Nat.strong_induction_on with
  | _ t ih =>
    rcases Nat.lt_or_ge t 16 with ht | ht
    · rw [W_lt ht, W_lt ht, h t ht]
    · rw [W_ge ht, W_ge ht, ih (t - 2) (by omega), ih (t - 7) (by omega), ih (t - 15) (by omega),
        ih (t - 16) (by omega)]

theorem compress_congr {M M' : ℕ → Word} (h : ∀ t < 16, M t = M' t) (H : Words) :
    compress H M = compress H M' := by
  have hround : round M = round M' := by
    funext s t
    rw [round, round, W_congr h]
  rw [compress, compress, hround]

noncomputable def initialHash : Words :=
  ⟨H0 0, H0 1, H0 2, H0 3, H0 4, H0 5, H0 6, H0 7⟩

/-! ## Padding and parsing -/

theorem exists_padding (length : ℕ) : ∃ k, 64 ∣ length + 1 + k + 8 :=
  ⟨63 * (length + 9), by omega⟩

/-- The least number of zero bytes that fills the last block. -/
def zeroBytes (length : ℕ) : ℕ := Nat.find (exists_padding length)

/-- The last `n` base-256 digits, the most significant first. -/
def bigEndian (n value : ℕ) : List UInt8 :=
  (List.range n).reverse.map fun i => UInt8.ofNat (value / 256 ^ i)

/-- The message, `0x80`, the zero bytes, and the length in bits. -/
def pad (message : List UInt8) : List UInt8 :=
  message ++ [0x80] ++ List.replicate (zeroBytes message.length) 0 ++
    bigEndian 8 (8 * message.length)

/-- The number whose base-256 digits are the bytes. -/
def ofBytes (bytes : List UInt8) : ℕ := bytes.foldl (fun n b => n * 256 + b.toNat) 0

/-- Word `t` of block `i`. -/
def messageWord (padded : List UInt8) (i t : ℕ) : Word :=
  BitVec.ofNat 32 (ofBytes ((padded.drop (64 * i + 4 * t)).take 4))

/-- The hash value of a message. -/
noncomputable def hash (message : List UInt8) : Words :=
  (List.range ((pad message).length / 64)).foldl
    (fun H i => compress H (messageWord (pad message) i)) initialHash

/-- The hexadecimal digits of a word, the most significant first. -/
def hexDigits (w : Word) : List Char :=
  (List.range 8).reverse.map fun i => Nat.digitChar (w.toNat / 16 ^ i % 16)

/-- The message digest in hexadecimal. -/
noncomputable def sha256 (message : List UInt8) : String :=
  String.ofList ((hash message).toList.flatMap hexDigits)

end Fips180
