/-
  Matching of messages by key.

  Two lists of keys, say of sends and of receives, in the order they were posted.
  Entry `i` of one matches the entry of the other with the same key that has as many
  equal keys before it (`partner`): messages of one key do not overtake each other.

  * `partner_key`: matched entries have one key;
  * `partner_of_nodup`: where keys occur once, an entry matches wherever its key is;
  * `Books`: each party has in its book what it entered into a list that all share, by
    the position; `Books.snoc`: a party enters what is not yet in its book.
-/
import Mathlib.Data.List.Nodup
import Mathlib.Logic.Function.Basic

namespace Matching

variable {K : Type} [DecidableEq K]

/-- The position of occurrence `n` of a key. -/
def nth (k : K) : ℕ → List K → Option ℕ
  | _, [] => none
  | 0, k' :: ks => if k' = k then some 0 else (nth k 0 ks).map (· + 1)
  | n + 1, k' :: ks => (nth k (if k' = k then n else n + 1) ks).map (· + 1)

/-- The entry of `l'` that entry `i` of `l` matches. -/
def partner (l l' : List K) (i : ℕ) : Option ℕ :=
  l[i]?.bind fun k => nth k ((l.take i).count k) l'

variable {k : K} {l l' ks : List K} {i j n : ℕ}

theorem nth_key : ∀ {ks : List K} {n j : ℕ}, nth k n ks = some j → ks[j]? = some k
  | [], _, _, h => by cases h
  | k' :: ks, 0, j, h => by
    rw [nth] at h
    split_ifs at h with hk
    · obtain rfl := Option.some.inj h
      rw [hk]
      rfl
    · obtain ⟨j', hj', rfl⟩ := Option.map_eq_some_iff.1 h
      exact List.getElem?_cons_succ.trans (nth_key hj')
  | k' :: ks, n + 1, j, h => by
    obtain ⟨j', hj', rfl⟩ := Option.map_eq_some_iff.1 h
    exact List.getElem?_cons_succ.trans (nth_key hj')

theorem nth_zero_of_mem : ∀ {ks : List K}, k ∈ ks → ∃ j, nth k 0 ks = some j
  | [], h => by cases h
  | k' :: ks, h => by
    rw [nth]
    split_ifs with hk
    · exact ⟨0, rfl⟩
    · obtain ⟨j, hj⟩ := nth_zero_of_mem ((List.mem_cons.1 h).resolve_left fun he => hk he.symm)
      exact ⟨j + 1, by rw [hj]; rfl⟩

/-- **Matched entries have one key.** -/
theorem partner_key (h : partner l l' i = some j) : ∃ k, l[i]? = some k ∧ l'[j]? = some k := by
  obtain ⟨k, hk, hj⟩ := Option.bind_eq_some_iff.1 h
  exact ⟨k, hk, nth_key hj⟩

theorem count_take_of_nodup (hnodup : l.Nodup) (hi : l[i]? = some k) : (l.take i).count k = 0 := by
  rw [List.count_eq_zero]
  intro hmem
  obtain ⟨i', hi', hk'⟩ := List.getElem_of_mem hmem
  rw [List.length_take] at hi'
  rw [List.getElem_take] at hk'
  have hk'' : l[i']? = some k := by rw [List.getElem?_eq_getElem (by omega), hk']
  have heq : i' = i := (List.getElem?_inj (by omega) hnodup).1 (hk''.trans hi.symm)
  omega

/-- **Where keys occur once** an entry matches as soon as its key has been posted. -/
theorem partner_of_nodup (hnodup : l.Nodup) (hi : l[i]? = some k) (hmem : k ∈ l') :
    ∃ j, partner l l' i = some j := by
  unfold partner
  rw [hi, Option.bind_some, count_take_of_nodup hnodup hi]
  exact nth_zero_of_mem hmem

/-! ## Books -/

variable {E ι : Type} {owner : E → ι} {key : E → K}

/-- The entries of a list, whose keys are different, stand in the books of their owners,
    each at its position. -/
structure Books (owner : E → ι) (key : E → K) (entries : List E) (books : ι → List (ℕ × K)) :
    Prop where
  entered : ∀ i e, entries[i]? = some e → (i, key e) ∈ books (owner e)
  booked : ∀ p i k, (i, k) ∈ books p → ∃ e, entries[i]? = some e ∧ key e = k ∧ owner e = p
  nodup : (entries.map key).Nodup

namespace Books

variable {entries : List E} {books : ι → List (ℕ × K)}

omit [DecidableEq K] in
theorem nil : Books owner key [] fun _ => [] := ⟨by simp, by simp, List.nodup_nil⟩

omit [DecidableEq K] in
/-- **A party enters what is not in its book**, if all entries of a key have one owner. -/
theorem snoc [DecidableEq ι] (h : Books owner key entries books) {e : E}
    (howner : ∀ e' ∈ entries, key e' = key e → owner e' = owner e)
    (hnew : key e ∉ (books (owner e)).map (·.2)) :
    Books owner key (entries ++ [e])
      (Function.update books (owner e) (books (owner e) ++ [(entries.length, key e)])) := by
  have hmono : ∀ {p x}, x ∈ books p →
      x ∈ Function.update books (owner e) (books (owner e) ++ [(entries.length, key e)]) p := by
    intro p x hx
    by_cases hp : p = owner e
    · subst hp
      rw [Function.update_self]
      exact List.mem_append_left _ hx
    · rwa [Function.update_of_ne hp]
  refine ⟨fun i e' hi => ?_, fun p i k hk => ?_, ?_⟩
  · rcases Nat.lt_or_ge i entries.length with hlt | hge
    · rw [List.getElem?_append_left hlt] at hi
      exact hmono (h.entered i e' hi)
    · rw [List.getElem?_append_right hge, List.getElem?_singleton] at hi
      split_ifs at hi with hzero
      obtain rfl := Option.some.inj hi
      obtain rfl : i = entries.length := by omega
      rw [Function.update_self]
      exact List.mem_append_right _ List.mem_cons_self
  · have hold : (i, k) ∈ books p →
        ∃ e', (entries ++ [e])[i]? = some e' ∧ key e' = k ∧ owner e' = p := by
      intro hk
      obtain ⟨e', hi, hrest⟩ := h.booked p i k hk
      exact ⟨e', (List.getElem?_append_left (List.getElem?_eq_some_iff.1 hi).1).trans hi, hrest⟩
    by_cases hp : p = owner e
    · subst hp
      rw [Function.update_self] at hk
      rcases List.mem_append.1 hk with hk | hk
      · exact hold hk
      · obtain ⟨rfl, rfl⟩ := Prod.mk.inj (List.mem_singleton.1 hk)
        exact ⟨e, by simp, rfl, rfl⟩
    · rw [Function.update_of_ne hp] at hk
      exact hold hk
  · rw [List.map_append, List.nodup_append]
    refine ⟨h.nodup, List.nodup_singleton _, ?_⟩
    rintro _ hk _ hk' rfl
    obtain ⟨e', he', heq⟩ := List.mem_map.1 hk
    rw [List.mem_singleton.1 hk'] at heq
    obtain ⟨i, hi⟩ := List.getElem?_of_mem he'
    have hin := h.entered i e' hi
    rw [howner e' he' heq, heq] at hin
    exact hnew (List.mem_map.2 ⟨_, hin, rfl⟩)

end Books

end Matching
