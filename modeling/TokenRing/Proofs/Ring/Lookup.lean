import TokenRing.Proofs.Ring.Rotation
import TokenRing.Proofs.SortedMap

/-!
# Finding the owner of a token

The count of the tokens before a token splits the entries into those before it and those from it
on. The walk that starts at the owner of a token meets the tokens from it on first.
-/

namespace TokenRing.Ring

variable {τ : Type} [Token τ] (ring : Ring τ)

theorem entry_le_entry {i j : Nat} (hij : i ≤ j) (hj : j < ring.entries.size) :
    ring.entries[i].1 ≤ ring.entries[j].1 := by
  rcases Nat.eq_or_lt_of_le hij with rfl | hlt
  · exact Std.le_refl _
  · have hasc := List.pairwise_iff_getElem.1 ring.ascending i j (by simpa using Nat.lt_trans hlt hj)
      (by simpa using hj) hlt
    simpa using Std.le_of_lt hasc

/-- The order of tokens is that of their indices. -/
theorem entry_lt_entry_iff {i j : Nat} (hi : i < ring.entries.size) (hj : j < ring.entries.size) :
    ring.entries[i].1 < ring.entries[j].1 ↔ i < j := by
  constructor
  · intro h
    apply Nat.lt_of_not_le
    intro hji
    exact Std.not_le.2 h (ring.entry_le_entry hji hi)
  · intro h
    have hasc := List.pairwise_iff_getElem.1 ring.ascending i j (by simpa using hi)
      (by simpa using hj) h
    simpa using hasc

theorem token_eq_iff {i j : Nat} (hi : i < ring.entries.size) (hj : j < ring.entries.size) :
    ring.entries[i].1 = ring.entries[j].1 ↔ i = j := by
  constructor
  · intro h
    have hij : ¬ i < j := by
      rw [← ring.entry_lt_entry_iff hi hj, h]
      exact Std.lt_irrefl
    have hji : ¬ j < i := by
      rw [← ring.entry_lt_entry_iff hj hi, h]
      exact Std.lt_irrefl
    omega
  · rintro rfl
    rfl

theorem ascending_tokens : ring.tokens.Pairwise (· < ·) :=
  List.pairwise_map.2 ring.ascending

theorem nodup_tokens : ring.tokens.Nodup :=
  SortedMap.nodup_keys ⟨ring.entries.toList, ring.ascending⟩

theorem entry_eq_of_token_eq {a b : τ × Node} (ha : a ∈ ring.entries) (hb : b ∈ ring.entries)
    (h : a.1 = b.1) : a = b :=
  List.inj_on_of_nodup_map ring.nodup_tokens (Array.mem_toList_iff.2 ha) (Array.mem_toList_iff.2 hb)
    h

/-- Ascending entries are determined by which they are. -/
theorem eq_of_ascending {entries entries' : List (τ × Node)} (h : entries.Pairwise (·.1 < ·.1))
    (h' : entries'.Pairwise (·.1 < ·.1)) (hmem : ∀ e, e ∈ entries ↔ e ∈ entries') :
    entries = entries' := by
  have hsame : (⟨entries, h⟩ : SortedMap τ Node) = ⟨entries', h'⟩ := SortedMap.ext_of_mem hmem
  exact congrArg SortedMap.entries hsame

/-- A ring is known by its entries, in whichever order they are given. -/
theorem eq_of_mem_entries_iff {ring ring' : Ring τ}
    (h : ∀ e, e ∈ ring.entries ↔ e ∈ ring'.entries) : ring = ring' := by
  apply Ring.ext
  apply Array.toList_inj.1
  apply eq_of_ascending ring.ascending ring'.ascending
  simpa using h

/-- Whether the entry at an index, if there is one, is not before a token. -/
def reaches (t : τ) (i : Nat) : Bool :=
  ring.entries[i]?.all fun e => t ≤ e.1

theorem reaches_iff {t : τ} {i : Nat} (hi : i < ring.entries.size) :
    ring.reaches t i = true ↔ t ≤ ring.entries[i].1 := by
  rw [reaches, Array.getElem?_eq_getElem hi, Option.all_some, decide_eq_true_eq]

theorem reaches_mono {t : τ} {i j : Nat} (hij : i ≤ j) (h : ring.reaches t i = true) :
    ring.reaches t j = true := by
  by_cases hj : j < ring.entries.size
  · rw [ring.reaches_iff (Nat.lt_of_le_of_lt hij hj)] at h
    exact (ring.reaches_iff hj).2 (Std.le_trans h (ring.entry_le_entry hij hj))
  · rw [reaches, Array.getElem?_eq_none (Nat.le_of_not_lt hj), Option.all_none]

/-- The entries from a token on are found by bisection. -/
theorem countBefore_eq (t : τ) : ring.countBefore t = bisect (ring.reaches t) 0 ring.size :=
  rfl

theorem countBefore_le (t : τ) : ring.countBefore t ≤ ring.size :=
  bisect_le (Nat.zero_le _)

theorem lt_of_lt_countBefore {t : τ} {i : Nat} (h : i < ring.countBefore t)
    (hi : i < ring.entries.size) : ring.entries[i].1 < t := by
  -- Bisection finds the first index that reaches the token, so an earlier one does not.
  have hfalse := not_test_of_lt_bisect (fun _ _ => ring.reaches_mono) (Nat.zero_le i) h
  exact Std.not_le.1 fun hle => Bool.false_ne_true (hfalse.symm.trans ((ring.reaches_iff hi).2 hle))

theorem le_of_countBefore_le {t : τ} {i : Nat} (h : ring.countBefore t ≤ i)
    (hi : i < ring.entries.size) : t ≤ ring.entries[i].1 := by
  have hcount : ring.countBefore t < ring.size := Nat.lt_of_le_of_lt h hi
  rw [countBefore_eq] at h hcount
  exact (ring.reaches_iff hi).1 (ring.reaches_mono h (test_bisect hcount))

/-- The tokens before another one are those with an index below its count. -/
theorem entry_lt_iff {t : τ} {i : Nat} (hi : i < ring.entries.size) :
    ring.entries[i].1 < t ↔ i < ring.countBefore t := by
  constructor
  · intro h
    apply Nat.lt_of_not_le
    intro hle
    exact Std.not_le.2 h (ring.le_of_countBefore_le hle hi)
  · intro h
    exact ring.lt_of_lt_countBefore h hi

theorem le_entry_iff {t : τ} {i : Nat} (hi : i < ring.entries.size) :
    t ≤ ring.entries[i].1 ↔ ring.countBefore t ≤ i := by
  rw [← Std.not_lt, ring.entry_lt_iff hi, Nat.not_lt]

/-! ### Entries by index -/

theorem entryAt?_of_lt {i : Nat} (hi : i < ring.entries.size) :
    ring.entryAt? i = some ring.entries[i] := by
  rw [entryAt?, size, Nat.mod_eq_of_lt hi, Array.getElem?_eq_getElem hi]

theorem tokenAt?_of_lt {i : Nat} (hi : i < ring.entries.size) :
    ring.tokenAt? i = some ring.entries[i].1 := by
  rw [tokenAt?, ring.entryAt?_of_lt hi, Option.map_some]

theorem ownerAt?_of_lt {i : Nat} (hi : i < ring.entries.size) :
    ring.ownerAt? i = some ring.entries[i].2 := by
  rw [ownerAt?, ring.entryAt?_of_lt hi, Option.map_some]

/-- The position of a token is its index on the ring. -/
theorem getElem?_tokens_eq_some_iff {t : τ} {i : Nat} :
    ring.tokens[i]? = some t ↔ ∃ hi : i < ring.entries.size, ring.entries[i].1 = t := by
  rw [tokens, List.getElem?_map, Array.getElem?_toList, Option.map_eq_some_iff]
  constructor
  · rintro ⟨e, he, rfl⟩
    obtain ⟨hi, rfl⟩ := Array.getElem?_eq_some_iff.1 he
    exact ⟨hi, rfl⟩
  · rintro ⟨hi, rfl⟩
    exact ⟨_, Array.getElem?_eq_getElem hi, rfl⟩

theorem exists_index_of_mem_tokens {t : τ} (h : t ∈ ring.tokens) :
    ∃ (i : Nat) (hi : i < ring.entries.size), ring.entries[i].1 = t := by
  obtain ⟨i, hget⟩ := List.mem_iff_getElem?.1 h
  exact ⟨i, ring.getElem?_tokens_eq_some_iff.1 hget⟩

theorem size_pos_iff : 0 < ring.size ↔ ring.isEmpty = false := by
  simp [isEmpty, size, Array.size_pos_iff]

theorem isEmpty_eq_false_of_lt {i : Nat} (hi : i < ring.entries.size) : ring.isEmpty = false := by
  simpa [isEmpty, Array.size_pos_iff] using Nat.zero_lt_of_lt hi

/-- Behind the last token the ring goes on at the first. -/
theorem ownerIndex?_of_not_isEmpty (h : ring.isEmpty = false) (t : τ) :
    ring.ownerIndex? t =
      some (if ring.countBefore t = ring.size then 0 else ring.countBefore t) := by
  rw [ownerIndex?, h, if_neg Bool.false_ne_true]

theorem ownerIndex?_eq_none_iff (t : τ) : ring.ownerIndex? t = none ↔ ring.isEmpty = true := by
  rw [ownerIndex?]
  split <;> simp_all

/-- On a ring that is not empty, every token belongs to some index. -/
theorem exists_ownerIndex? (t : τ) (h : ring.isEmpty = false) :
    ∃ i, ring.ownerIndex? t = some i ∧ i < ring.size := by
  have hpos : 0 < ring.size := by
    simpa [isEmpty, size, Array.size_pos_iff] using h
  have hcount := ring.countBefore_le t
  refine ⟨_, ring.ownerIndex?_of_not_isEmpty h t, ?_⟩
  split <;> omega

theorem lt_of_ownerIndex? {t : τ} {i : Nat} (h : ring.ownerIndex? t = some i) :
    i < ring.entries.size := by
  cases hempty : ring.isEmpty with
  | true => simp [ownerIndex?, hempty] at h
  | false =>
    obtain ⟨j, hj, hlt⟩ := ring.exists_ownerIndex? t hempty
    rw [h, Option.some.injEq] at hj
    exact hj ▸ hlt

/-! ### The walk from the owner -/

theorem lt_of_mem_take_countBefore {t : τ} {e : τ × Node}
    (h : e ∈ ring.entries.toList.take (ring.countBefore t)) : e.1 < t := by
  rcases List.mem_take_iff_getElem.1 h with ⟨i, hi, rfl⟩
  rw [Array.length_toList] at hi
  rw [Array.getElem_toList]
  exact ring.lt_of_lt_countBefore (by omega) (by omega)

theorem le_of_mem_drop_countBefore {t : τ} {e : τ × Node}
    (h : e ∈ ring.entries.toList.drop (ring.countBefore t)) : t ≤ e.1 := by
  rcases List.mem_drop_iff_getElem.1 h with ⟨i, hi, rfl⟩
  rw [Array.length_toList] at hi
  rw [Array.getElem_toList]
  exact ring.le_of_countBefore_le (by omega) (by omega)

/-- The entries up to the count are those of smaller tokens. -/
theorem take_countBefore (t : τ) :
    ring.entries.toList.take (ring.countBefore t) = ring.entries.toList.filter (·.1 < t) := by
  have hsplit := List.take_append_drop (ring.countBefore t) ring.entries.toList
  conv_rhs => rw [← hsplit]
  rw [List.filter_append, List.filter_eq_self.2, List.filter_eq_nil_iff.2, List.append_nil]
  · exact fun e he hlt =>
      Std.not_lt.2 (ring.le_of_mem_drop_countBefore he) (of_decide_eq_true hlt)
  · exact fun e he => decide_eq_true (ring.lt_of_mem_take_countBefore he)

theorem drop_countBefore (t : τ) :
    ring.entries.toList.drop (ring.countBefore t) = ring.entries.toList.filter (t ≤ ·.1) := by
  have hsplit := List.take_append_drop (ring.countBefore t) ring.entries.toList
  conv_rhs => rw [← hsplit]
  rw [List.filter_append, List.filter_eq_nil_iff.2, List.filter_eq_self.2, List.nil_append]
  · exact fun e he => decide_eq_true (ring.le_of_mem_drop_countBefore he)
  · exact fun e he hle =>
      Std.not_le.2 (ring.lt_of_mem_take_countBefore he) (of_decide_eq_true hle)

/-- From the owner of a token a walk meets the entries from the token on, then those before it. -/
theorem toList_walkFrom_ownerIndex {t : τ} {i : Nat} (h : ring.ownerIndex? t = some i) :
    (ring.walkFrom i).toList =
      ring.entries.toList.filter (t ≤ ·.1) ++ ring.entries.toList.filter (·.1 < t) := by
  rw [toList_walkFrom, ← take_countBefore, ← drop_countBefore]
  unfold ownerIndex? at h
  split at h
  · cases h
  · dsimp only at h
    split at h
    · next hend =>
      -- No token of the ring is from `t` on.
      cases h
      have hlen : ring.entries.toList.length ≤ ring.countBefore t := by
        rw [Array.length_toList, hend]
        exact Nat.le_refl _
      rw [List.rotate_zero, List.drop_of_length_le hlen, List.take_of_length_le hlen,
        List.nil_append]
    · cases h
      apply List.rotate_eq_drop_append_take
      rw [Array.length_toList]
      exact ring.countBefore_le t

end TokenRing.Ring
