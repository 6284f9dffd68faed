import TokenRing.Proofs.Ring.Lookup
import TokenRing.TokenSpace

/-!
# The ranges of a ring

The ranges of the tokens of a ring part the token space: every token is in the range of the token
that it belongs to, and in no other.
-/

namespace TokenRing

variable {τ : Type} [Token τ]

namespace Ring

variable (ring : Ring τ)

theorem indexBefore_lt {i : Nat} (hi : i < ring.entries.size) :
    (i + ring.size - 1) % ring.size < ring.entries.size :=
  Nat.mod_lt _ (Nat.zero_lt_of_lt hi)

def rangeAt (i : Nat) (hi : i < ring.entries.size) : TokenRange τ :=
  have bound := ring.indexBefore_lt hi
  ⟨ring.entries[(i + ring.size - 1) % ring.size].1, ring.entries[i].1⟩

/-- Each token has its range at its index, with its owner. -/
theorem getElem?_ranges_eq_some_iff {i : Nat} {r : TokenRange τ × Node} :
    ring.ranges[i]? = some r ↔
      ∃ hi : i < ring.entries.size, (ring.rangeAt i hi, ring.entries[i].2) = r := by
  have hranges : ring.ranges = (List.finRange ring.entries.size).map
      fun j => (ring.rangeAt j.val j.isLt, ring.entries[j].2) := rfl
  rw [hranges, List.getElem?_eq_some_iff]
  simp

/-- The ranges end at the tokens of the ring, in order. -/
theorem stops_ranges :
    ring.ranges.map (·.1.stop) = ring.tokens := by
  apply List.ext_getElem?
  intro i
  apply Option.ext
  intro t
  rw [List.getElem?_map, Option.map_eq_some_iff, tokens, List.getElem?_map, Option.map_eq_some_iff]
  simp only [getElem?_ranges_eq_some_iff]
  constructor
  · rintro ⟨r, ⟨hi, rfl⟩, rfl⟩
    exact ⟨ring.entries[i], List.getElem?_eq_getElem hi, rfl⟩
  · rintro ⟨e, he, rfl⟩
    obtain ⟨hi, rfl⟩ := List.getElem?_eq_some_iff.1 he
    exact ⟨_, ⟨hi, rfl⟩, rfl⟩

/-- A range begins at the token before its own, around the ring. -/
theorem exists_rangeAt_eq {i : Nat} (hi : i < ring.entries.size) :
    ∃ (j : Nat) (hj : j < ring.entries.size), (j + 1 = i ∨ i = 0 ∧ j + 1 = ring.size) ∧
      ring.rangeAt i hi = ⟨ring.entries[j].1, ring.entries[i].1⟩ := by
  have hsize : i < ring.size := hi
  refine ⟨(i + ring.size - 1) % ring.size, ring.indexBefore_lt hi, ?_, rfl⟩
  -- The first range begins at the last token.
  by_cases hzero : i = 0
  · rw [Nat.mod_eq_of_lt (by omega)]
    omega
  · have hshift : i + ring.size - 1 = i - 1 + ring.size := by omega
    rw [hshift, Nat.add_mod_right, Nat.mod_eq_of_lt (by omega)]
    omega

/-- Every comparison of tokens is one of indices, or with the count of the tokens before `t`. -/
theorem contains_entries_iff {i j : Nat} (hi : i < ring.entries.size) (hj : j < ring.entries.size)
    {t : τ} :
    (⟨ring.entries[i].1, ring.entries[j].1⟩ : TokenRange τ).contains t = true ↔
      i = j ∨ j < i ∧ (i < ring.countBefore t ∨ ring.countBefore t ≤ j) ∨
        i < j ∧ i < ring.countBefore t ∧ ring.countBefore t ≤ j := by
  rw [TokenRange.contains_iff]
  simp only [ring.token_eq_iff, ring.entry_lt_entry_iff, ring.entry_lt_iff, ring.le_entry_iff]

/-- A range holds the tokens that belong to its index. -/
theorem contains_rangeAt_iff {i : Nat} (hi : i < ring.entries.size) {t : τ} :
    (ring.rangeAt i hi).contains t = true ↔ ring.ownerIndex? t = some i := by
  obtain ⟨j, hj, hbefore, hrange⟩ := ring.exists_rangeAt_eq hi
  rw [hrange, ring.contains_entries_iff hj hi,
    ring.ownerIndex?_of_not_isEmpty (ring.isEmpty_eq_false_of_lt hi), Option.some.injEq]
  -- What is left compares indices with the count, which is the size where the token wraps around.
  have hcount := ring.countBefore_le t
  have hsize : ring.entries.size = ring.size := rfl
  split <;> omega

theorem ownerIndex?_of_contains {i : Nat} {r : TokenRange τ × Node}
    (hr : ring.ranges[i]? = some r) {t : τ} (h : r.1.contains t = true) :
    ring.ownerIndex? t = some i := by
  obtain ⟨hi, rfl⟩ := ring.getElem?_ranges_eq_some_iff.1 hr
  exact (ring.contains_rangeAt_iff hi).1 h

/-- A token is in every range that ends at the token it belongs to and begins at one of the ring. -/
theorem contains_of_ownerIndex? {t : τ} {i j : Nat} (hi : i < ring.entries.size)
    (hj : j < ring.entries.size) (h : ring.ownerIndex? t = some i) :
    (⟨ring.entries[j].1, ring.entries[i].1⟩ : TokenRange τ).contains t = true := by
  rw [ring.ownerIndex?_of_not_isEmpty (ring.isEmpty_eq_false_of_lt hi), Option.some.injEq] at h
  rw [ring.contains_entries_iff hj hi]
  have hcount := ring.countBefore_le t
  have hsize : ring.entries.size = ring.size := rfl
  split at h <;> omega

theorem ownerOf?_of_ownerIndex? {t : τ} {i : Nat} (hi : i < ring.entries.size)
    (h : ring.ownerIndex? t = some i) : ring.ownerOf? t = some ring.entries[i].2 := by
  rw [ownerOf?, h, Option.bind_some, ring.ownerAt?_of_lt hi]

theorem exists_ownerOf? (h : ring.isEmpty = false) (t : τ) :
    ∃ node, ring.ownerOf? t = some node := by
  obtain ⟨i, hindex, hi⟩ := ring.exists_ownerIndex? t h
  exact ⟨_, ring.ownerOf?_of_ownerIndex? hi hindex⟩

/-- The owner of a token is known without indices: its own token comes first from the token on. -/
theorem ownerOf?_eq_some_iff {t : τ} {node : Node} :
    ring.ownerOf? t = some node ↔ ∃ s, (s, node) ∈ ring.entries ∧
      ∀ e ∈ ring.entries, (⟨e.1, s⟩ : TokenRange τ).contains t = true := by
  constructor
  · intro h
    obtain ⟨i, hindex, howner⟩ := Option.bind_eq_some_iff.1 h
    have hi := ring.lt_of_ownerIndex? hindex
    rw [ring.ownerAt?_of_lt hi, Option.some.injEq] at howner
    subst howner
    refine ⟨ring.entries[i].1, Array.getElem_mem hi, fun e he => ?_⟩
    obtain ⟨j, hj, rfl⟩ := Array.getElem_of_mem he
    exact ring.contains_of_ownerIndex? hi hj hindex
  · rintro ⟨s, hentry, hall⟩
    obtain ⟨i, hi, heq⟩ := Array.getElem_of_mem hentry
    -- The range from the token before contains it, so this is the range of its owner.
    have hrange : (ring.rangeAt i hi).contains t = true := by
      rw [rangeAt, heq]
      exact hall _ (Array.getElem_mem (ring.indexBefore_lt hi))
    rw [ring.ownerOf?_of_ownerIndex? hi ((ring.contains_rangeAt_iff hi).1 hrange), heq]

end Ring

/-- Every token is in exactly one range of a ring that is not empty: the one at the index of the
token that it belongs to, listed with its owner. -/
theorem exists_unique_range {ring : Ring τ} (h : ring.isEmpty = false) (t : τ) :
    ∃ i range owner, ring.ranges[i]? = some (range, owner) ∧ range.contains t = true ∧
      (∀ j r, ring.ranges[j]? = some r → r.1.contains t = true → j = i) ∧
      ring.ownerIndex? t = some i ∧ ring.ownerOf? t = some owner := by
  obtain ⟨i, hindex, hi⟩ := ring.exists_ownerIndex? t h
  refine ⟨i, ring.rangeAt i hi, ring.entries[i].2, ?_, ?_, ?_, hindex, ?_⟩
  · exact ring.getElem?_ranges_eq_some_iff.2 ⟨hi, rfl⟩
  · exact (ring.contains_rangeAt_iff hi).2 hindex
  · intro j r hr hcontains
    obtain ⟨hj, rfl⟩ := ring.getElem?_ranges_eq_some_iff.1 hr
    have hother := (ring.contains_rangeAt_iff hj).1 hcontains
    rw [hindex] at hother
    exact (Option.some.inj hother).symm
  · exact ring.ownerOf?_of_ownerIndex? hi hindex

/-- The range of the first token passes the greatest one. -/
def wrappingRing : Ring Murmur3Token where
  entries := #[(⟨-3⟩, .sample 1 none none), (⟨5⟩, .sample 2 none none)]
  ascending := by decide
  one_record := by decide

/-- Tokens behind the last one are in the first range. -/
theorem exists_unique_range_wrappingRing :
    wrappingRing.isEmpty = false ∧
      wrappingRing.ranges[0]? = some (⟨⟨5⟩, ⟨-3⟩⟩, .sample 1 none none) ∧
      wrappingRing.ownerIndex? ⟨9⟩ = some 0 ∧
      wrappingRing.ownerOf? ⟨9⟩ = some (.sample 1 none none) := by
  have hempty : wrappingRing.isEmpty = false := by decide
  obtain ⟨i, range, owner, hrange, -, hunique, hindex, howner⟩ := exists_unique_range hempty ⟨9⟩
  have hfirst : wrappingRing.ranges[0]? = some (⟨⟨5⟩, ⟨-3⟩⟩, .sample 1 none none) := rfl
  obtain rfl : 0 = i := hunique 0 _ hfirst (by decide)
  rw [hfirst, Option.some.injEq, Prod.mk.injEq] at hrange
  obtain ⟨rfl, rfl⟩ := hrange
  exact ⟨hempty, hfirst, hindex, howner⟩

end TokenRing
