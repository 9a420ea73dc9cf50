/-
  ckks-runtime formalization — JSON documents and the field readers
  (`runtime/json_utils.hpp`).

  The parser of the JSON library is a parameter (`Sax`): for a text it says
  which events it hands to the callback, and how it ends.  A number is unsigned,
  signed or binary64, whichever the parser chose for its spelling.

  `readInt_eq_ok` says exactly which integers `read_int` accepts.
-/
import CkksRuntime.Sha256

namespace CkksRuntime

/-- A parsed document; the members of an object are in key order. -/
inductive Json where
  | null
  | boolean (b : Bool)
  | unsigned (n : UInt64)
  | integer (n : Int64)
  | float (x : Double)
  | string (s : String)
  | array (items : List Json)
  | object (members : List (String × Json))

/-- The events of the parser that the callback distinguishes. -/
inductive ParseEvent where
  | objectStart
  | key (name : String)
  | objectEnd
  | other
  deriving DecidableEq, Repr

/-- What the parser does on a text: the callback's events up to the end of the
    text or to the first syntax error, and the document or the error. -/
abbrev Sax := Bytes → List ParseEvent × Except String Json

namespace Json

/-- Whether a value is `is_number_integer()`, and which integer it is. -/
def integer? : Json → Option ℤ
  | unsigned n => some n.toNat
  | integer n => some n.toInt
  | _ => none

/-- `value.contains(name)`. -/
def contains : Json → String → Bool
  | object members, name => (members.lookup name).isSome
  | _, _ => false

/-- `value.at(name)`. -/
def member : Json → String → Except Fault Json
  | object members, name =>
    match members.lookup name with
    | some value => .ok value
    | none => .error (.outOfRange ("key '" ++ name ++ "' not found"))
  | _, _ => .error (.outOfRange "cannot use at() with this type")

end Json

namespace JsonUtils

def fail {α : Type} (document path message : String) : Except Fault α :=
  .error (.runtimeError (document ++ " JSON error at " ++ path ++ ": " ++ message))

@[simp] theorem fail_ne_ok {α : Type} {document path message : String} {a : α} :
    fail document path message ≠ .ok a := by simp [fail]

/-- `if (condition) fail(document, path, message)`. -/
def failIf (condition : Prop) [Decidable condition] (document path message : String) :
    Except Fault Unit :=
  if condition then fail document path message else .ok ()

@[simp] theorem failIf_eq_ok {c : Prop} [Decidable c] {document path message : String} {u : Unit} :
    failIf c document path message = .ok u ↔ ¬ c := by
  unfold failIf; split_ifs with h <;> simp [h]

def itemPath (path : String) (index : ℕ) : String := path ++ "[" ++ toString index ++ "]"

def requireMembers (value : Json) (document path : String) (names : List String)
    (optionalNames : List String := []) : Except Fault Unit :=
  match value with
  | .object members =>
    match names.find? fun name => !value.contains name with
    | some name => fail document path ("missing required field '" ++ name ++ "'")
    | none =>
      match members.find? fun item => item.1 ∉ names ∧ item.1 ∉ optionalNames with
      | some item => fail document path ("unknown field '" ++ item.1 ++ "'")
      | none => .ok ()
  | _ => fail document path "expected object"

/-- `read_string`, which refuses the empty string unless told otherwise. -/
def readString (value : Json) (document path : String) (allowEmpty : Bool := false) :
    Except Fault String :=
  match value with
  | .string result =>
    if !allowEmpty && result.isEmpty then fail document path "string must not be empty"
    else .ok result
  | _ => fail document path "expected string"

def readBool (value : Json) (document path : String) : Except Fault Bool :=
  match value with
  | .boolean b => .ok b
  | _ => fail document path "expected boolean"

/-- `read_int`.  The branch for the unsigned representation tests only the
    maximum. -/
def readInt (value : Json) (document path : String) (minimum maximum : CInt) :
    Except Fault CInt :=
  match value with
  | .unsigned number =>
    if number > maximum.toInt64.toUInt64 then
      fail document path "integer is outside the supported range"
    else .ok number.toUInt32.toInt32
  | .integer number =>
    if number < minimum.toInt64 ∨ number > maximum.toInt64 then
      fail document path "integer is outside the supported range"
    else .ok number.toInt32
  | _ => fail document path "expected integer"

/-- **Which values `read_int` accepts**: the integers up to the maximum, and down
    to the minimum or, in the unsigned representation, to zero. -/
theorem readInt_eq_ok {value : Json} {document path : String} {minimum maximum n : CInt}
    (hmax : 0 ≤ maximum) :
    readInt value document path minimum maximum = .ok n ↔
      value.integer? = some n.toInt ∧ n ≤ maximum ∧
        ((∀ u, value ≠ .unsigned u) → minimum ≤ n) := by
  have hlo := n.le_toInt
  have hhi := n.toInt_lt
  cases value with
  | unsigned u =>
    have hm := CInt.toNat_toUInt64 hmax
    have hmlt := maximum.toInt_lt
    simp only [readInt, gt_iff_lt, UInt64.lt_iff_toNat_lt, Json.integer?, Option.some.injEq,
      Int32.le_iff_toInt_le]
    split_ifs with h
    · simp only [fail_ne_ok, false_iff]
      rintro ⟨hn, hle, -⟩
      omega
    · have hu : u.toNat < 2 ^ 31 := by omega
      have hval := CInt.toInt_ofUInt64 hu
      rw [Except.ok.injEq, ← Int32.toInt_inj, hval]
      constructor
      · intro hn; exact ⟨hn, by omega, fun hne => absurd rfl (hne u)⟩
      · rintro ⟨hn, -⟩; exact hn
  | integer i =>
    have hmlo := minimum.le_toInt
    have hmhi := maximum.toInt_lt
    simp only [readInt, gt_iff_lt, Int64.lt_iff_toInt_lt, Int32.toInt_toInt64, Json.integer?,
      Option.some.injEq, Int32.le_iff_toInt_le]
    split_ifs with h
    · simp only [fail_ne_ok, false_iff]
      rintro ⟨hn, hle, hge⟩
      have := hge (by simp)
      omega
    · have hval := CInt.toInt_ofInt64 (n := i) (by omega) (by omega)
      rw [Except.ok.injEq, ← Int32.toInt_inj, hval]
      constructor
      · intro hn; exact ⟨hn, by omega, fun _ => by omega⟩
      · rintro ⟨hn, -⟩; exact hn
  | _ => simp [readInt, Json.integer?]

def readNonnegativeInt (value : Json) (document path : String) : Except Fault CInt :=
  readInt value document path 0 CInt.max

def readPositiveInt (value : Json) (document path : String) : Except Fault CInt :=
  readInt value document path 1 CInt.max

/-- The decimal value of a string of digits. -/
def decimal (digits : List Char) : ℕ :=
  digits.foldl (fun n c => n * 10 + (c.toNat - '0'.toNat)) 0

/-- The error codes of `std::from_chars`. -/
inductive Errc where
  | none
  | invalidArgument
  | resultOutOfRange
  deriving DecidableEq

/-- What `std::from_chars` into a `std::uint64_t` leaves behind: the integer, how
    many characters it read, and its error. -/
structure FromChars where
  result : ℕ
  ptr : ℕ
  ec : Errc

/-- `std::from_chars`: the longest prefix of digits is read.  The integer, which
    was `init`, is set only when there is a digit and the value fits. -/
def fromChars (text : List Char) (init : ℕ) : FromChars :=
  let digits := text.takeWhile fun c => '0' ≤ c ∧ c ≤ '9'
  if digits = [] then ⟨init, 0, .invalidArgument⟩
  else if decimal digits ≥ 2 ^ 64 then ⟨init, digits.length, .resultOutOfRange⟩
  else ⟨decimal digits, digits.length, .none⟩

def readId (value : Json) (document path : String) : Except Fault ℕ := do
  let encoded ← readString value document path
  let notCanonical := "identifier must be canonical unsigned decimal"
  failIf (encoded ≠ "0" ∧ encoded.toList.head?.any fun c => c < '1' ∨ c > '9') document path
    notCanonical
  failIf (encoded ≠ "0" ∧ encoded.toList.any fun c => c < '0' ∨ c > '9') document path notCanonical
  let parsed := fromChars encoded.toList 0
  failIf (parsed.ec ≠ .none ∨ parsed.ptr ≠ encoded.toList.length) document path
    "identifier is outside uint64 range"
  return parsed.result

def readSafeUint (value : Json) (document path : String) (minimum maximum : UInt64) :
    Except Fault UInt64 :=
  let check (signed : Int64) (number : UInt64) : Except Fault UInt64 :=
    if signed < 0 then fail document path "integer is outside the supported range"
    else if number < minimum ∨ number > maximum then
      fail document path "integer is outside the supported range"
    else .ok number
  match value with
  | .unsigned number => check number.toInt64 number
  | .integer number => check number number.toUInt64
  | _ => fail document path "expected integer"

theorem readSafeUint_eq_ok {value : Json} {document path : String} {minimum maximum n : UInt64}
    (h : readSafeUint value document path minimum maximum = .ok n) :
    value.integer? = some (n.toNat : ℤ) ∧ minimum ≤ n ∧ n ≤ maximum := by
  cases value with
  | unsigned u =>
    simp only [readSafeUint] at h
    split_ifs at h with h1 h2
    · simp at h
    · simp at h
    · cases h
      simp only [not_or, UInt64.not_lt, gt_iff_lt] at h2
      exact ⟨rfl, h2⟩
  | integer i =>
    simp only [readSafeUint] at h
    split_ifs at h with h1 h2
    · simp at h
    · simp at h
    · cases h
      simp only [not_or, UInt64.not_lt, gt_iff_lt] at h2
      have h0 := Int64.not_lt.1 h1
      refine ⟨?_, h2⟩
      rw [Json.integer?, Int64.toNat_toUInt64_of_le h0, Int64.toNatClampNeg,
        Int.toNat_of_nonneg (Int64.le_iff_toInt_le.1 h0)]
  | _ => simp [readSafeUint] at h

def readFiniteDouble [DoubleArith] (value : Json) (document path : String) :
    Except Fault Double :=
  let check (result : Double) : Except Fault Double :=
    if !result.isFinite then fail document path "number must be finite float64"
    else .ok result.normalizeZero
  match value with
  | .unsigned number => check (DoubleArith.ofUInt64 number)
  | .integer number => check (DoubleArith.ofInt64 number)
  | .float number => check number
  | _ => fail document path "expected number"

def readSha256 (value : Json) (document path : String) : Except Fault String := do
  let digest ← readString value document path
  let expected := "expected sha256 followed by 64 lowercase hexadecimal digits"
  failIf (digest.utf8ByteSize ≠ 71 ∨ digest.toList.take 7 ≠ "sha256:".toList) document path expected
  failIf ((digest.toList.drop 7).any fun c => ¬ (('0' ≤ c ∧ c ≤ '9') ∨ ('a' ≤ c ∧ c ≤ 'f')))
    document path expected
  return digest

/-- The entries of an array from position `index` on, each read with its path. -/
def readItemsFrom {α : Type} (read : Json → String → Except Fault α) (path : String) :
    ℕ → List Json → Except Fault (List α)
  | _, [] => .ok []
  | index, item :: items => do
    let result ← read item (itemPath path index)
    let results ← readItemsFrom read path (index + 1) items
    return result :: results

def readItems {α : Type} (read : Json → String → Except Fault α) (items : List Json)
    (path : String) : Except Fault (List α) :=
  readItemsFrom read path 0 items

theorem readItemsFrom_eq_ok {α : Type} {read : Json → String → Except Fault α} {path : String} :
    ∀ {items : List Json} {index : ℕ} {results : List α},
      readItemsFrom read path index items = .ok results →
        results.length = items.length ∧ ∀ r ∈ results, ∃ item p, read item p = .ok r
  | [], _, _, h => by cases h; simp
  | item :: items, _, _, h => by
    simp only [readItemsFrom, bind_eq_ok, pure_eq_ok] at h
    obtain ⟨result, hresult, results, hresults, rfl⟩ := h
    obtain ⟨hlen, hmem⟩ := readItemsFrom_eq_ok hresults
    refine ⟨by simp [hlen], fun r hr => ?_⟩
    rcases List.mem_cons.1 hr with rfl | hr
    · exact ⟨item, _, hresult⟩
    · exact hmem r hr

/-- The entries read are as many as the array's, each from its reader. -/
theorem readItems_eq_ok {α : Type} {read : Json → String → Except Fault α} {items : List Json}
    {path : String} {results : List α} (h : readItems read items path = .ok results) :
    results.length = items.length ∧ ∀ r ∈ results, ∃ item p, read item p = .ok r :=
  readItemsFrom_eq_ok h

/-- The entries of a value that must be an array. -/
def arrayItems (value : Json) (document path : String) : Except Fault (List Json) :=
  match value with
  | .array items => .ok items
  | _ => fail document path "expected array"

/-- The parse callback: the keys of the open objects, innermost first. -/
def callback (document : String) (objectKeys : List (List String)) (event : ParseEvent) :
    Except Fault (List (List String)) :=
  match event with
  | .objectStart => .ok ([] :: objectKeys)
  | .key key =>
    match objectKeys with
    | [] => fail document "$" "invalid parser object state"
    | keys :: outer =>
      if key ∈ keys then fail document "$" ("duplicate object key '" ++ key ++ "'")
      else .ok ((key :: keys) :: outer)
  | .objectEnd =>
    match objectKeys with
    | [] => fail document "$" "invalid parser object state"
    | _ :: outer => .ok outer
  | .other => .ok objectKeys

def parse (sax : Sax) (text : Bytes) (document : String) : Except Fault Json :=
  if text.take 3 = [0xef, 0xbb, 0xbf] then fail document "$" "UTF-8 BOM is not allowed"
  else do
    let (events, result) := sax text
    let _ ← events.foldlM (callback document) []
    match result with
    | .ok value => return value
    | .error what => fail document "$" ("JSON parsing failed: " ++ what)

end JsonUtils

end CkksRuntime
