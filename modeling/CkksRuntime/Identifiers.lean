/-
  ckks-runtime formalization — the spelling of identifiers (`read_id` of
  `runtime/json_utils.hpp`).

  * `Canonical` is the grammar `0|[1-9][0-9]*`; its strings are the decimal
    representations of the naturals (`canonical_iff`);
  * `readId_exact`: `read_id` accepts exactly the representations of the
    integers below `2 ^ 64`, and returns the integer.
-/
import CkksRuntime.JsonPlanReader

namespace CkksRuntime

namespace JsonUtils

/-! ## Strings of digits -/

def IsDigit (c : Char) : Prop := '0' ≤ c ∧ c ≤ '9'

instance (c : Char) : Decidable (IsDigit c) := inferInstanceAs (Decidable (_ ∧ _))

/-- The grammar `0|[1-9][0-9]*`. -/
def Canonical (s : String) : Prop :=
  s = "0" ∨ (∃ c ∈ s.toList.head?, '1' ≤ c ∧ c ≤ '9') ∧ ∀ c ∈ s.toList, IsDigit c

theorem isDigit_iff {c : Char} : IsDigit c ↔ 48 ≤ c.toNat ∧ c.toNat ≤ 57 := by
  rw [IsDigit, Char.le_def, Char.le_def, UInt32.le_iff_toNat_le, UInt32.le_iff_toNat_le]
  rfl

theorem digitChar_of_isDigit {c : Char} (h : IsDigit c) :
    c.toNat - 48 < 10 ∧ (c.toNat - 48).digitChar = c := by
  rw [isDigit_iff] at h
  have hlt : c.toNat - 48 < 10 := by omega
  refine ⟨hlt, Char.toNat_inj.1 ?_⟩
  rw [Nat.toNat_digitChar_of_lt_ten hlt]
  omega

theorem isDigit_digitChar {n : ℕ} (h : n < 10) : IsDigit n.digitChar := by
  rw [isDigit_iff, Nat.toNat_digitChar_of_lt_ten h]
  omega

theorem isDigit_of_mem_toDigits {n : ℕ} {c : Char} (h : c ∈ Nat.toDigits 10 n) : IsDigit c := by
  have := Nat.isDigit_of_mem_toDigits (by omega) (by omega) h
  simpa [Char.isDigit, IsDigit, Char.le_def] using this

theorem decimal_eq (l : List Char) : decimal l = Nat.ofDigitChars 10 l 0 := by
  rw [decimal, Nat.ofDigitChars_eq_foldl]
  simp only [Nat.mul_comm]

theorem decimal_snoc (l : List Char) (c : Char) :
    decimal (l ++ [c]) = 10 * decimal l + (c.toNat - 48) := by
  rw [decimal, List.foldl_append, List.foldl_cons, List.foldl_nil, Nat.mul_comm]
  rfl

/-- The digits of a number are read back as the number. -/
theorem decimal_toDigits (n : ℕ) : decimal (Nat.toDigits 10 n) = n := by
  rw [decimal_eq, Nat.ofDigitChars_ten_toDigits]

/-- A string of digits that does not start with `0` is the digits of its value. -/
theorem toDigits_decimal {l : List Char} (hhead : ∃ c ∈ l.head?, '1' ≤ c ∧ c ≤ '9')
    (hall : ∀ c ∈ l, IsDigit c) : 0 < decimal l ∧ Nat.toDigits 10 (decimal l) = l := by
  -- on the last digit: the digits before it are a smaller such string, or none
  induction l using List.reverseRecOn with
  | nil =>
    obtain ⟨c, hc, -⟩ := hhead
    simp at hc
  | append_singleton l c ih =>
    obtain ⟨hlt, hdigit⟩ := digitChar_of_isDigit (hall c (by simp))
    rw [decimal_snoc]
    rcases eq_or_ne l [] with rfl | hne
    · obtain ⟨d, hd, hone, -⟩ := hhead
      obtain rfl : c = d := by simpa using hd
      have hone' : 49 ≤ c.toNat := Char.le_def.1 hone
      have hzero : decimal [] = 0 := rfl
      rw [hzero, Nat.mul_zero, Nat.zero_add, Nat.toDigits_of_lt_base hlt, hdigit]
      exact ⟨by omega, rfl⟩
    · rw [List.head?_append_of_ne_nil _ hne] at hhead
      obtain ⟨hpos, hdigits⟩ := ih hhead fun d hd => hall d (by simp [hd])
      refine ⟨by omega, ?_⟩
      rw [← Nat.toDigits_append_toDigits (by omega) hpos hlt, hdigits,
        Nat.toDigits_of_lt_base hlt, hdigit]

/-- The digits of a positive number do not start with `0`. -/
theorem head_toDigits {n : ℕ} (h : 0 < n) :
    ∃ c ∈ (Nat.toDigits 10 n).head?, '1' ≤ c ∧ c ≤ '9' := by
  induction n using Nat.strong_induction_on with
  | _ n ih =>
    rcases Nat.lt_or_ge n 10 with hn | hn
    · rw [Nat.toDigits_of_lt_base hn]
      refine ⟨_, rfl, ?_, (isDigit_digitChar hn).2⟩
      rw [Char.le_def, UInt32.le_iff_toNat_le]
      have hval := Nat.toNat_digitChar_of_lt_ten hn
      change 49 ≤ n.digitChar.toNat
      omega
    · obtain ⟨c, hc, hrange⟩ := ih (n / 10) (by omega) (by omega)
      refine ⟨c, ?_, hrange⟩
      rw [Nat.toDigits_of_base_le (by omega) hn, List.head?_append, Option.mem_def.1 hc]
      rfl

theorem repr_decimal {s : String} (h : Canonical s) : (decimal s.toList).repr = s := by
  rcases h with rfl | ⟨hhead, hall⟩
  · decide
  · rw [← String.toList_inj, Nat.toList_repr, (toDigits_decimal hhead hall).2]

theorem canonical_repr (n : ℕ) : Canonical n.repr := by
  rcases Nat.eq_zero_or_pos n with rfl | hpos
  · exact .inl (by decide)
  · right
    rw [Nat.toList_repr]
    exact ⟨head_toDigits hpos, fun c hc => isDigit_of_mem_toDigits hc⟩

/-- The strings of the grammar are the decimal representations. -/
theorem canonical_iff {s : String} : Canonical s ↔ ∃ n : ℕ, s = n.repr := by
  constructor
  · intro h
    exact ⟨_, (repr_decimal h).symm⟩
  · rintro ⟨n, rfl⟩
    exact canonical_repr n

/-! ## `read_id` -/

/-- On a string of the grammar `std::from_chars` reads every character. -/
theorem fromChars_canonical {s : String} (h : Canonical s) :
    fromChars s.toList 0 = if decimal s.toList ≥ 2 ^ 64 then ⟨0, s.toList.length, .resultOutOfRange⟩
      else ⟨decimal s.toList, s.toList.length, .none⟩ := by
  obtain ⟨n, rfl⟩ := canonical_iff.1 h
  have hall : ∀ c ∈ n.repr.toList, decide ('0' ≤ c ∧ c ≤ '9') = true := by
    intro c hc
    rw [Nat.toList_repr] at hc
    exact decide_eq_true (isDigit_of_mem_toDigits hc)
  have hne : n.repr.toList ≠ [] := by
    rw [Nat.toList_repr]
    exact Nat.toDigits_ne_nil
  rw [fromChars, List.takeWhile_eq_self_iff.2 hall, if_neg hne]

/-- The two tests on characters pass exactly the strings of the grammar. -/
theorem canonical_of_tests {s : String} (hne : s ≠ "")
    (hhead : ¬ (s ≠ "0" ∧ s.toList.head?.any fun c => c < '1' ∨ c > '9'))
    (hall : ¬ (s ≠ "0" ∧ s.toList.any fun c => c < '0' ∨ c > '9')) : Canonical s := by
  by_cases hzero : s = "0"
  · exact .inl hzero
  · refine .inr ⟨?_, fun c hc => ?_⟩
    · obtain ⟨c, l, hl⟩ := List.exists_cons_of_ne_nil (mt String.toList_eq_nil_iff.1 hne)
      rw [hl]
      refine ⟨c, rfl, ?_⟩
      simpa [hzero, hl] using hhead
    · have hc' : ∀ x ∈ s.toList, '0' ≤ x ∧ x ≤ '9' := by simpa [hzero] using hall
      exact hc' c hc

theorem tests_of_canonical {s : String} (h : Canonical s) :
    s ≠ "" ∧ (¬ (s ≠ "0" ∧ s.toList.head?.any fun c => c < '1' ∨ c > '9')) ∧
      ¬ (s ≠ "0" ∧ s.toList.any fun c => c < '0' ∨ c > '9') := by
  rcases h with rfl | ⟨⟨c, hc, hrange⟩, hall⟩
  · simp
  · refine ⟨?_, ?_, ?_⟩
    · rintro rfl
      simp at hc
    · rintro ⟨-, hany⟩
      have hout : c < '1' ∨ c > '9' := by simpa [Option.mem_def.1 hc] using hany
      rcases hout with hlow | hhigh
      · exact absurd hrange.1 (not_le_of_gt hlow)
      · exact absurd hrange.2 (not_le_of_gt hhigh)
    · rintro ⟨-, hany⟩
      obtain ⟨d, hd, hout⟩ := List.any_eq_true.1 hany
      rcases of_decide_eq_true hout with hlow | hhigh
      · exact absurd (hall d hd).1 (not_le_of_gt hlow)
      · exact absurd (hall d hd).2 (not_le_of_gt hhigh)

theorem readId_eq_ok {value : Json} {document path : String} {n : ℕ} :
    readId value document path = .ok n ↔ value = .string n.repr ∧ n < 2 ^ 64 := by
  cases value with
  | string s =>
    simp only [readId, bind_eq_ok, readString, Bool.not_false, Bool.true_and, failIf_eq_ok,
      exists_const, pure_eq_ok]
    constructor
    · rintro ⟨s', hs', hhead, hall, hfits, hn⟩
      split_ifs at hs' with hempty
      · simp at hs'
      obtain rfl := Except.ok.inj hs'
      have hcanonical := canonical_of_tests (by simpa using hempty) hhead hall
      rcases Nat.lt_or_ge (decimal s.toList) (2 ^ 64) with hlt | hbig
      · rw [fromChars_canonical hcanonical, if_neg (by omega)] at hn
        subst hn
        exact ⟨congrArg Json.string (repr_decimal hcanonical).symm, hlt⟩
      · rw [fromChars_canonical hcanonical, if_pos hbig] at hfits
        simp at hfits
    · rintro ⟨hs, hlt⟩
      obtain rfl := Json.string.inj hs
      obtain ⟨hne, hhead, hall⟩ := tests_of_canonical (canonical_repr n)
      have hvalue : decimal n.repr.toList = n := by rw [Nat.toList_repr, decimal_toDigits]
      refine ⟨n.repr, ?_, hhead, hall, ?_⟩
      · rw [if_neg (by simp)]
      · rw [fromChars_canonical (canonical_repr n), hvalue, if_neg (by omega)]
        simp
  | _ => simp [readId, readString, bind_eq_ok]

/-- The entries of a list of identifiers, each in its one spelling. -/
theorem readIdsFrom_eq_ok {document path : String} {items : List Json} {index : ℕ}
    {ids : List ℕ} :
    readItemsFrom (fun value itemPath => readId value document itemPath) path index items = .ok ids ↔
      items = ids.map (fun n => .string n.repr) ∧ ∀ n ∈ ids, n < 2 ^ 64 := by
  induction items generalizing index ids with
  | nil =>
    rw [readItemsFrom, Except.ok.injEq]
    constructor
    · rintro rfl
      simp
    · rintro ⟨hnil, -⟩
      exact (List.map_eq_nil_iff.1 hnil.symm).symm
  | cons item items ih =>
    simp only [readItemsFrom, bind_eq_ok, pure_eq_ok, readId_eq_ok, ih]
    constructor
    · rintro ⟨n, ⟨rfl, hn⟩, ids, ⟨rfl, hids⟩, rfl⟩
      exact ⟨rfl, List.forall_mem_cons.2 ⟨hn, hids⟩⟩
    · rintro ⟨hcons, hlt⟩
      obtain ⟨n, ids, rfl, hitem, hitems⟩ := List.map_eq_cons_iff.1 hcons.symm
      exact ⟨n, ⟨hitem.symm, hlt n (by simp)⟩, ids,
        ⟨hitems.symm, fun m hm => hlt m (by simp [hm])⟩, rfl⟩

/-- The strings that `read_id` accepts. -/
abbrev IdString (document path : String) :=
  {s : String // ∃ n, readId (.string s) document path = .ok n}

/-- The integer of an accepted string, and the string of an integer. -/
def idStringEquiv (document path : String) : IdString document path ≃ Fin (2 ^ 64) where
  toFun s := ⟨decimal s.1.toList, by
    obtain ⟨n, hn⟩ := s.2
    obtain ⟨hs, hlt⟩ := readId_eq_ok.1 hn
    rwa [Json.string.inj hs, Nat.toList_repr, decimal_toDigits]⟩
  invFun n := ⟨n.1.repr, n.1, readId_eq_ok.2 ⟨rfl, n.2⟩⟩
  left_inv s := by
    obtain ⟨n, hn⟩ := s.2
    apply Subtype.ext
    change (decimal s.1.toList).repr = s.1
    rw [Json.string.inj (readId_eq_ok.1 hn).1, Nat.toList_repr, decimal_toDigits]
  right_inv n := by
    apply Fin.ext
    change decimal n.1.repr.toList = n.1
    rw [Nat.toList_repr, decimal_toDigits]

/-- **Identifiers have one spelling.** -/
theorem readId_exact (document path : String) :
    (∀ value n, readId value document path = .ok n ↔ value = .string n.repr ∧ n < 2 ^ 64) ∧
      (∀ s, Canonical s ↔ ∃ n : ℕ, s = n.repr) ∧
      (∃ e : IdString document path ≃ Fin (2 ^ 64),
        ∀ s, readId (.string s.1) document path = .ok (e s).1) ∧
      (∀ n < 2 ^ 64, readId (.string n.repr) document path = .ok n) ∧
      ∀ value value' path' n, readId value document path = .ok n →
        readId value' document path' = .ok n → value = value' := by
  refine ⟨fun value n => readId_eq_ok, fun s => canonical_iff, ⟨idStringEquiv document path, ?_⟩,
    fun n hn => readId_eq_ok.2 ⟨rfl, hn⟩, ?_⟩
  · intro s
    refine readId_eq_ok.2 ⟨?_, (idStringEquiv document path s).2⟩
    exact congrArg (fun s : IdString document path => Json.string s.1)
      ((idStringEquiv document path).symm_apply_apply s).symm
  · intro value value' path' n h h'
    rw [(readId_eq_ok.1 h).1, (readId_eq_ok.1 h').1]

/-- The largest identifier. -/
theorem readId_exact_max :
    readId (.string "18446744073709551615") "RuntimePlan" "$.plan_id" = .ok (2 ^ 64 - 1) :=
  ((readId_exact _ _).1 _ _).2 ⟨congrArg Json.string (by decide), by decide⟩

end JsonUtils

/-- **The identifiers of a plan's lists.** -/
theorem RuntimePlanJsonReader.readIds_eq_ok {value : Json} {path : String} {ids : List ℕ} :
    readIds value path = .ok ids ↔
      value = .array (ids.map fun n => .string n.repr) ∧ ∀ n ∈ ids, n < 2 ^ 64 := by
  simp only [readIds, bind_eq_ok, JsonUtils.readItems, JsonUtils.readIdsFrom_eq_ok]
  cases value with
  | array items => simp [JsonUtils.arrayItems]
  | _ => simp [JsonUtils.arrayItems]

end CkksRuntime
