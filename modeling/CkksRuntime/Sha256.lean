/-
  ckks-runtime formalization — SHA-256 (`runtime/utils/sha256.cpp`) and the
  digest text of `json_utils::source_sha256`.
-/
import CkksRuntime.Base

namespace CkksRuntime

/-- A byte string. -/
abbrev Bytes := List UInt8

namespace Sha256

def roundConstants : List UInt32 :=
  [0x428a2f98, 0x71374491, 0xb5c0fbcf, 0xe9b5dba5, 0x3956c25b, 0x59f111f1, 0x923f82a4, 0xab1c5ed5,
    0xd807aa98, 0x12835b01, 0x243185be, 0x550c7dc3, 0x72be5d74, 0x80deb1fe, 0x9bdc06a7, 0xc19bf174,
    0xe49b69c1, 0xefbe4786, 0x0fc19dc6, 0x240ca1cc, 0x2de92c6f, 0x4a7484aa, 0x5cb0a9dc, 0x76f988da,
    0x983e5152, 0xa831c66d, 0xb00327c8, 0xbf597fc7, 0xc6e00bf3, 0xd5a79147, 0x06ca6351, 0x14292967,
    0x27b70a85, 0x2e1b2138, 0x4d2c6dfc, 0x53380d13, 0x650a7354, 0x766a0abb, 0x81c2c92e, 0x92722c85,
    0xa2bfe8a1, 0xa81a664b, 0xc24b8b70, 0xc76c51a3, 0xd192e819, 0xd6990624, 0xf40e3585, 0x106aa070,
    0x19a4c116, 0x1e376c08, 0x2748774c, 0x34b0bcb5, 0x391c0cb3, 0x4ed8aa4a, 0x5b9cca4f, 0x682e6ff3,
    0x748f82ee, 0x78a5636f, 0x84c87814, 0x8cc70208, 0x90befffa, 0xa4506ceb, 0xbef9a3f7, 0xc67178f2]

structure State where
  a : UInt32
  b : UInt32
  c : UInt32
  d : UInt32
  e : UInt32
  f : UInt32
  g : UInt32
  h : UInt32
  deriving DecidableEq, Repr

def initialState : State :=
  ⟨0x6a09e667, 0xbb67ae85, 0x3c6ef372, 0xa54ff53a, 0x510e527f, 0x9b05688c, 0x1f83d9ab, 0x5be0cd19⟩

def rotateRight (value bits : UInt32) : UInt32 := (value >>> bits) ||| (value <<< (32 - bits))

def loadBigEndian (bytes : Bytes) : UInt32 :=
  ((bytes.getD 0 0).toUInt32 <<< 24) ||| ((bytes.getD 1 0).toUInt32 <<< 16) |||
    ((bytes.getD 2 0).toUInt32 <<< 8) ||| (bytes.getD 3 0).toUInt32

/-- The next word of the message schedule. -/
def extend (schedule : List UInt32) : List UInt32 :=
  let word (back : ℕ) := schedule.getD (schedule.length - back) 0
  let s0 := rotateRight (word 15) 7 ^^^ rotateRight (word 15) 18 ^^^ (word 15 >>> 3)
  let s1 := rotateRight (word 2) 17 ^^^ rotateRight (word 2) 19 ^^^ (word 2 >>> 10)
  schedule ++ [word 16 + s0 + word 7 + s1]

/-- The message schedule of a block: the sixteen words of the block, then
    forty-eight computed ones. -/
def schedule (block : Bytes) : List UInt32 :=
  extend^[48] ((List.range 16).map fun i => loadBigEndian (block.drop (i * 4)))

/-- One round, with its constant and its schedule word. -/
def round (s : State) (constant word : UInt32) : State :=
  let sum1 := rotateRight s.e 6 ^^^ rotateRight s.e 11 ^^^ rotateRight s.e 25
  let choose := (s.e &&& s.f) ^^^ (~~~s.e &&& s.g)
  let temp1 := s.h + sum1 + choose + constant + word
  let sum0 := rotateRight s.a 2 ^^^ rotateRight s.a 13 ^^^ rotateRight s.a 22
  let majority := (s.a &&& s.b) ^^^ (s.a &&& s.c) ^^^ (s.b &&& s.c)
  let temp2 := sum0 + majority
  ⟨temp1 + temp2, s.a, s.b, s.c, s.d + temp1, s.e, s.f, s.g⟩

def transform (state : State) (block : Bytes) : State :=
  let s := (List.zip roundConstants (schedule block)).foldl (fun s r => round s r.1 r.2) state
  ⟨state.a + s.a, state.b + s.b, state.c + s.c, state.d + s.d,
    state.e + s.e, state.f + s.f, state.g + s.g, state.h + s.h⟩

/-- The `index`th 64-byte block. -/
def block (bytes : Bytes) (index : ℕ) : Bytes := (bytes.drop (index * 64)).take 64

/-- One block of 64 bytes at the end of the message, or two. -/
def tailSize (bytes : Bytes) : ℕ := if bytes.length % 64 < 56 then 64 else 128

/-- The tail buffer of 128 bytes: zeros, over which the bytes after the last full
    block are copied, then `0x80` behind them, and the bit length written backwards
    from the end of the first or of the second block. -/
def tail (bytes : Bytes) : Bytes :=
  let remainder := bytes.length % 64
  let tail := bytes.drop (bytes.length / 64 * 64) ++ List.replicate (128 - remainder) 0
  let tail := tail.set remainder 0x80
  let bitLength : UInt64 := UInt64.ofNat bytes.length * 8
  (List.range 8).foldl (fun tail index =>
    tail.set (tailSize bytes - 1 - index) (bitLength >>> UInt64.ofNat (index * 8)).toUInt8) tail

def hexDigit (nibble : UInt32) : Char :=
  "0123456789abcdef".toList.getD nibble.toNat '0'

/-- The eight hexadecimal digits of a word. -/
def hexWord (word : UInt32) : List Char :=
  [28, 24, 20, 16, 12, 8, 4, 0].map fun (shift : UInt32) => hexDigit ((word >>> shift) &&& 0xf)

/-- The inputs of at least `2 ^ 64 / 8` bytes are refused. -/
def sha256Hex (bytes : Bytes) : Except Fault String :=
  if bytes.length > (2 ^ 64 - 1) / 8 then .error (.runtimeError "SHA-256 input is too large")
  else
    let state := (List.range (bytes.length / 64)).foldl (fun s i => transform s (block bytes i))
      initialState
    let last := tail bytes
    let state := transform state (block last 0)
    let s := if tailSize bytes = 128 then transform state (block last 1) else state
    .ok (String.ofList ([s.a, s.b, s.c, s.d, s.e, s.f, s.g, s.h].flatMap hexWord))

end Sha256

/-- `json_utils::source_sha256`. -/
def sourceSha256 (bytes : Bytes) : Except Fault String := do
  return "sha256:" ++ (← Sha256.sha256Hex bytes)

end CkksRuntime
