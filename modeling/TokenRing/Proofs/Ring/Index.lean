import Mathlib.Order.Bounds.Defs
import TokenRing.Proofs.Ring.Lookup
import TokenRing.TokenSpace

/-!
# The index of a token

The search for a token is exact. A token of the ring is found at its index and any other one
nowhere. A token belongs to the first token of the ring that is not before it, and to the first one
of all if there is none.
-/

namespace TokenRing

variable {τ : Type} [Token τ]

namespace Ring

variable (ring : Ring τ) {t : τ} {i : Nat}

/-- Only the tokens at smaller indices are before the token at an index. -/
theorem countBefore_entry (hi : i < ring.entries.size) :
    ring.countBefore ring.entries[i].1 = i := by
  have hle : ring.countBefore ring.entries[i].1 ≤ i := (ring.le_entry_iff hi).1 (Std.le_refl _)
  apply Nat.le_antisymm hle
  apply Nat.le_of_not_lt
  intro hlt
  have hbefore := (ring.entry_lt_entry_iff (Nat.lt_trans hlt hi) hi).2 hlt
  exact Nat.lt_irrefl _ ((ring.entry_lt_iff (Nat.lt_trans hlt hi)).1 hbefore)

/-! ### Tokens of the ring -/

/-- The index of a token is the position at which it stands. -/
theorem indexOf?_eq_some_iff : ring.indexOf? t = some i ↔ ring.tokens[i]? = some t := by
  rw [getElem?_tokens_eq_some_iff, indexOf?]
  constructor
  · intro h
    obtain ⟨hfound, hindex⟩ := Option.ite_none_right_eq_some.1 h
    rw [Option.some.inj hindex, Option.any_eq_true] at hfound
    obtain ⟨e, he, htoken⟩ := hfound
    obtain ⟨hi, rfl⟩ := Array.getElem?_eq_some_iff.1 he
    exact ⟨hi, of_decide_eq_true htoken⟩
  · rintro ⟨hi, rfl⟩
    rw [ring.countBefore_entry hi]
    simp [hi]

/-- There is no index for a token that is not on the ring. -/
theorem indexOf?_eq_none_iff : ring.indexOf? t = none ↔ t ∉ ring.tokens := by
  simp only [Option.eq_none_iff_forall_ne_some, ne_eq, indexOf?_eq_some_iff, List.mem_iff_getElem?,
    not_exists]

theorem tokenAt?_eq_getElem? (hi : i < ring.size) : ring.tokenAt? i = ring.tokens[i]? := by
  rw [ring.tokenAt?_of_lt hi]
  exact (ring.getElem?_tokens_eq_some_iff.2 ⟨hi, rfl⟩).symm

theorem lt_size_of_getElem? (h : ring.tokens[i]? = some t) : i < ring.size :=
  (ring.getElem?_tokens_eq_some_iff.1 h).1

/-! ### Any token -/

def indicesFrom (t : τ) : Set Nat :=
  {i | ∃ s, ring.tokens[i]? = some s ∧ t ≤ s}

theorem mem_indicesFrom_iff (hi : i < ring.entries.size) :
    i ∈ ring.indicesFrom t ↔ ring.countBefore t ≤ i := by
  rw [← ring.le_entry_iff hi]
  constructor
  · rintro ⟨s, hs, hle⟩
    obtain ⟨hi, rfl⟩ := ring.getElem?_tokens_eq_some_iff.1 hs
    exact hle
  · intro hle
    exact ⟨_, ring.getElem?_tokens_eq_some_iff.2 ⟨hi, rfl⟩, hle⟩

/-- The count of tokens before another one is the least index from it on. -/
theorem isLeast_indicesFrom_iff :
    IsLeast (ring.indicesFrom t) i ↔ ring.countBefore t = i ∧ i < ring.size := by
  constructor
  · rintro ⟨hmem, hleast⟩
    obtain ⟨s, hs, -⟩ := id hmem
    have hi := ring.lt_size_of_getElem? hs
    have hle := (ring.mem_indicesFrom_iff hi).1 hmem
    have hcount : ring.countBefore t ∈ ring.indicesFrom t :=
      (ring.mem_indicesFrom_iff (Nat.lt_of_le_of_lt hle hi)).2 (Nat.le_refl _)
    exact ⟨Nat.le_antisymm hle (hleast hcount), hi⟩
  · rintro ⟨rfl, hi⟩
    refine ⟨(ring.mem_indicesFrom_iff hi).2 (Nat.le_refl _), ?_⟩
    intro j hj
    obtain ⟨s, hs, -⟩ := id hj
    exact (ring.mem_indicesFrom_iff (ring.lt_size_of_getElem? hs)).1 hj

/-- The search runs off the end exactly if all tokens are smaller. -/
theorem countBefore_eq_size_iff : ring.countBefore t = ring.size ↔ ∀ s ∈ ring.tokens, s < t := by
  constructor
  · intro hcount s hs
    obtain ⟨i, hi, rfl⟩ := ring.exists_index_of_mem_tokens hs
    exact ring.lt_of_lt_countBefore (hcount ▸ hi) hi
  · intro hall
    apply Nat.le_antisymm (ring.countBefore_le t)
    apply Nat.le_of_not_lt
    intro hlt
    -- Otherwise the token at this index is not before `t`.
    have hget := ring.getElem?_tokens_eq_some_iff.2 ⟨hlt, rfl⟩
    have hbefore := hall _ (List.mem_of_getElem? hget)
    exact Nat.lt_irrefl _ ((ring.entry_lt_iff hlt).1 hbefore)

/-- The owner's index is the least one from the token on, or the first where there is none. -/
theorem ownerIndex?_eq_some_iff :
    ring.ownerIndex? t = some i ↔ IsLeast (ring.indicesFrom t) i ∨
      ring.isEmpty = false ∧ (∀ s ∈ ring.tokens, s < t) ∧ i = 0 := by
  rw [isLeast_indicesFrom_iff, ← countBefore_eq_size_iff]
  cases hempty : ring.isEmpty with
  | true =>
    have hsize : ¬ 0 < ring.size := by simp [ring.size_pos_iff, hempty]
    simp only [(ring.ownerIndex?_eq_none_iff t).2 hempty, reduceCtorEq, false_and, or_false,
      false_iff]
    omega
  | false =>
    rw [ring.ownerIndex?_of_not_isEmpty hempty, Option.some.injEq]
    have hcount := ring.countBefore_le t
    have hsize := ring.size_pos_iff.2 hempty
    simp only [true_and]
    split <;> omega

theorem ownerIndex?_of_indexOf? (h : ring.indexOf? t = some i) : ring.ownerIndex? t = some i := by
  obtain ⟨hi, rfl⟩ := ring.getElem?_tokens_eq_some_iff.1 (ring.indexOf?_eq_some_iff.1 h)
  exact ring.ownerIndex?_eq_some_iff.2
    (.inl (ring.isLeast_indicesFrom_iff.2 ⟨ring.countBefore_entry hi, hi⟩))

end Ring

/-- A token is found at an index if and only if it is the token there, so every index is found from
its token, and only a token that is not on the ring is found nowhere. A token belongs to no index if
the ring is empty, and otherwise to the least one whose token is not before it, or to the first one
of all if every token is. A token of the ring belongs to the index at which it is found. -/
theorem indexOf_exact (ring : Ring τ) (t : τ) :
    (∀ i, ring.indexOf? t = some i ↔ i < ring.size ∧ ring.tokenAt? i = some t) ∧
    (∀ i < ring.size, (ring.tokenAt? i).bind ring.indexOf? = some i) ∧
    (ring.indexOf? t = none ↔ t ∉ ring.tokens) ∧
    (ring.ownerIndex? t = none ↔ ring.isEmpty = true) ∧
    (∀ i, ring.ownerIndex? t = some i ↔
      IsLeast (ring.indicesFrom t) i ∨
        ring.isEmpty = false ∧ (∀ s ∈ ring.tokens, s < t) ∧ i = 0) ∧
    ∀ i, ring.indexOf? t = some i → ring.ownerIndex? t = some i := by
  refine ⟨fun i => ?_, fun i hi => ?_, ring.indexOf?_eq_none_iff, ring.ownerIndex?_eq_none_iff t,
    fun i => ring.ownerIndex?_eq_some_iff, fun i => ring.ownerIndex?_of_indexOf?⟩
  · rw [ring.indexOf?_eq_some_iff]
    constructor
    · intro hget
      have hi := ring.lt_size_of_getElem? hget
      exact ⟨hi, (ring.tokenAt?_eq_getElem? hi).trans hget⟩
    · rintro ⟨hi, htoken⟩
      exact (ring.tokenAt?_eq_getElem? hi).symm.trans htoken
  · rw [ring.tokenAt?_of_lt hi, Option.bind_some, ring.indexOf?_eq_some_iff]
    exact ring.getElem?_tokens_eq_some_iff.2 ⟨hi, rfl⟩

def extendingRing : Ring ByteToken where
  entries := #[(⟨[1]⟩, .sample 1 none none), (⟨[1, 0]⟩, .sample 2 none none),
    (⟨[2]⟩, .sample 1 none none)]
  ascending := by decide
  one_record := by decide

/-- A token that begins like another one is told from it. -/
theorem indexOf_exact_extendingRing :
    extendingRing.indexOf? ⟨[1, 0]⟩ = some 1 ∧ extendingRing.ownerIndex? ⟨[1, 0]⟩ = some 1 ∧
      (extendingRing.tokenAt? 2).bind extendingRing.indexOf? = some 2 ∧
      extendingRing.indexOf? ⟨[1, 0, 0]⟩ = none ∧ extendingRing.ownerIndex? ⟨[2, 0]⟩ = some 0 := by
  obtain ⟨hfound, hevery, -, -, -, hbelongs⟩ := indexOf_exact extendingRing ⟨[1, 0]⟩
  obtain ⟨-, -, hnowhere, -, -, -⟩ := indexOf_exact extendingRing ⟨[1, 0, 0]⟩
  obtain ⟨-, -, -, -, hfirst, -⟩ := indexOf_exact extendingRing ⟨[2, 0]⟩
  have hindex := (hfound 1).2 ⟨by decide, rfl⟩
  exact ⟨hindex, hbelongs 1 hindex, hevery 2 (by decide), hnowhere.2 (by decide),
    (hfirst 0).2 (.inr ⟨rfl, by decide, rfl⟩)⟩

end TokenRing
