import TokenRing.Proofs.Ring.Lookup
import TokenRing.Proofs.SortedMap
import TokenRing.ReplicaMap

/-!
# Lookups in a replica map

A map with a value for every token of a ring finds the value of the owner of a token, where the
token itself need not be on the ring.
-/

namespace TokenRing

namespace Ring

variable {τ α β : Type} [Token τ] (ring : Ring τ)

/-- The entries are the tokens in order, each with the value of its index. -/
theorem entries_tabulate (f : Nat → α) :
    (ring.tabulate f).entries = ring.entries.toList.zipIdx.map fun e => (e.1.1, f e.2) := by
  change (ring.entries.toList.map (·.1)).zipIdx.map (fun e => (e.1, f e.2)) = _
  rw [List.zipIdx_map, List.map_map]
  rfl

theorem mapValues_tabulate (f : Nat → α) (g : α → β) :
    (ring.tabulate f).mapValues (fun _ => g) = ring.tabulate fun i => g (f i) := by
  apply SortedMap.ext
  simp only [SortedMap.mapValues, entries_tabulate, List.map_map]
  rfl

theorem keys_tabulate (f : Nat → α) : (ring.tabulate f).keys = ring.tokens := by
  rw [SortedMap.keys, tabulate, List.map_map]
  exact List.zipIdx_map_fst 0 ring.tokens

theorem values_tabulate (f : Nat → α) :
    (ring.tabulate f).values = (List.range ring.size).map f := by
  have hindices : ring.tokens.zipIdx.map (·.2) = List.range ring.size := by
    rw [List.zipIdx_map_snd, tokens, List.length_map, Array.length_toList, List.range_eq_range']
    rfl
  rw [← hindices, SortedMap.values, tabulate, List.map_map, List.map_map]
  rfl

theorem tabulate_congr {f g : Nat → α} (h : ∀ i < ring.entries.size, f i = g i) :
    ring.tabulate f = ring.tabulate g := by
  apply SortedMap.ext
  rw [entries_tabulate, entries_tabulate]
  apply List.map_congr_left
  rintro ⟨e, i⟩ he
  have hi : i < ring.entries.toList.length := by simpa using List.snd_lt_of_mem_zipIdx he
  rw [h i hi]

theorem length_entries_tabulate (f : Nat → α) : (ring.tabulate f).entries.length = ring.size := by
  simp [entries_tabulate, size]

theorem getElem_entries_tabulate (f : Nat → α) {i : Nat} (hi : i < ring.entries.size)
    (h : i < (ring.tabulate f).entries.length) :
    (ring.tabulate f).entries[i] = (ring.entries[i].1, f i) := by
  simp [entries_tabulate]

/-- A token of the ring has the value of its index. -/
theorem get?_tabulate (f : Nat → α) {i : Nat} (hi : i < ring.entries.size) :
    (ring.tabulate f).get? ring.entries[i].1 = some (f i) := by
  have h : i < (ring.tabulate f).entries.length := by
    rw [length_entries_tabulate]
    exact hi
  rw [SortedMap.get?_eq_some_iff, ← ring.getElem_entries_tabulate f hi h]
  exact List.getElem_mem h

/-- The first token from another one on is found at the index that a search of the ring gives. -/
theorem find?_entries_tabulate (f : Nat → α) (t : τ) :
    (ring.tabulate f).entries.find? (t ≤ ·.1) =
      (ring.tabulate f).entries[ring.countBefore t]? := by
  have hlen := ring.length_entries_tabulate f
  have hkey {i : Nat} (hi : i < ring.entries.size) (h : i < (ring.tabulate f).entries.length) :=
    congrArg Prod.fst (ring.getElem_entries_tabulate f hi h)
  rcases Nat.lt_or_ge (ring.countBefore t) ring.size with hlt | hge
  · have hlt' : ring.countBefore t < (ring.tabulate f).entries.length := by rwa [hlen]
    rw [List.getElem?_eq_getElem hlt', List.find?_eq_some_iff_getElem]
    refine ⟨decide_eq_true ?_, ring.countBefore t, hlt', rfl, fun j hj => ?_⟩
    · rw [hkey hlt hlt']
      exact ring.le_of_countBefore_le (Nat.le_refl _) hlt
    · have hj' : j < ring.entries.size := Nat.lt_trans hj hlt
      rw [Bool.not_eq_true', decide_eq_false_iff_not, hkey hj' (Nat.lt_trans hj hlt')]
      exact Std.not_le.2 (ring.lt_of_lt_countBefore hj hj')
  · rw [List.getElem?_eq_none (hlen ▸ hge), List.find?_eq_none]
    intro e he hle
    rcases List.getElem_of_mem he with ⟨i, hi, rfl⟩
    have hi' : i < ring.entries.size := by rwa [hlen] at hi
    rw [hkey hi' hi] at hle
    exact Std.not_le.2 (ring.lt_of_lt_countBefore (Nat.lt_of_lt_of_le hi' hge) hi')
      (of_decide_eq_true hle)

end Ring

/-- The replicas of a token are those of its owner's index. -/
theorem ReplicaMap.replicasFor?_tabulate {τ : Type} [Token τ] (ring : Ring τ)
    (f : Nat → List Node) (t : τ) :
    ReplicaMap.replicasFor? (ring.tabulate f) t = (ring.ownerIndex? t).map f := by
  have hlen := ring.length_entries_tabulate f
  have hvalue {i : Nat} (hi : i < ring.entries.size) :
      (ring.tabulate f).entries[i]?.map (·.2) = some (f i) := by
    have h : i < (ring.tabulate f).entries.length := by rwa [hlen]
    rw [List.getElem?_eq_getElem h, ring.getElem_entries_tabulate f hi h]
    rfl
  unfold replicasFor?
  -- The map and the ring search in the same order, and both go on at the first entry.
  rw [ring.find?_entries_tabulate f t]
  rcases Nat.eq_zero_or_pos ring.size with hzero | hpos
  · have hnil : (ring.tabulate f).entries = [] := List.length_eq_zero_iff.1 (hlen.trans hzero)
    have hempty : ring.isEmpty = true := by simpa [Ring.isEmpty, Ring.size] using hzero
    rw [hnil, Ring.ownerIndex?, if_pos hempty]
    rfl
  have hempty : ring.isEmpty = false := by
    simpa [Ring.isEmpty, Ring.size, Array.size_pos_iff] using hpos
  rw [Ring.ownerIndex?, hempty, if_neg Bool.false_ne_true]
  dsimp only
  split
  · next hend =>
    rw [List.getElem?_eq_none (by omega), List.head?_eq_getElem?]
    exact hvalue hpos
  · next hne =>
    have hlt : ring.countBefore t < ring.entries.size :=
      Nat.lt_of_le_of_ne (ring.countBefore_le t) hne
    have hlt' : ring.countBefore t < (ring.tabulate f).entries.length := by rwa [hlen]
    have hget := hvalue hlt
    rw [List.getElem?_eq_getElem hlt'] at hget ⊢
    exact hget

end TokenRing
