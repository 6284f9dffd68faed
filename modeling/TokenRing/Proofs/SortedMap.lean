import Mathlib.Data.List.Induction
import Mathlib.Data.List.Nodup
import Mathlib.Data.List.Sort
import TokenRing.SortedMap

/-!
# Lookups in sorted maps

What a lookup finds and which entries there are after each operation on a map. A map is known by its
entries.
-/

namespace TokenRing.SortedMap

variable {κ ν ω : Type} [LT κ] [DecidableEq κ]

theorem get?_mapValues (f : κ → ν → ω) (m : SortedMap κ ν) (k : κ) :
    (m.mapValues f).get? k = (m.get? k).map (f k) := by
  unfold get? mapValues
  rw [List.find?_map]
  change Option.map _ (Option.map _ (m.entries.find? (·.1 = k))) = _
  cases h : m.entries.find? (·.1 = k) with
  | none => rfl
  | some e =>
    have hkey : e.1 = k := by simpa using List.find?_some h
    simp [hkey]

theorem get?_modify_self (m : SortedMap κ ν) (k : κ) (f : ν → ν) :
    (m.modify k f).get? k = (m.get? k).map f := by
  simp [modify, get?_mapValues]

theorem get?_modify_of_ne (m : SortedMap κ ν) {k k' : κ} (h : k' ≠ k) (f : ν → ν) :
    (m.modify k f).get? k' = m.get? k' := by
  simp [modify, get?_mapValues, h]

omit [DecidableEq κ] in
theorem keys_mapValues (f : κ → ν → ω) (m : SortedMap κ ν) : (m.mapValues f).keys = m.keys := by
  rw [keys, keys, mapValues, List.map_map]
  rfl

theorem keys_modify (m : SortedMap κ ν) (k : κ) (f : ν → ν) : (m.modify k f).keys = m.keys :=
  keys_mapValues ..

section Neighbours

omit [DecidableEq κ]

variable {m : SortedMap κ ν} {before after : List (κ × ν)} {entry e : κ × ν}

theorem lt_of_mem_before (h : m.entries = before ++ entry :: after) (he : e ∈ before) :
    e.1 < entry.1 := by
  have hasc := m.ascending
  rw [h, List.pairwise_append] at hasc
  exact hasc.2.2 e he entry List.mem_cons_self

theorem lt_of_mem_after (h : m.entries = before ++ entry :: after) (he : e ∈ after) :
    entry.1 < e.1 := by
  have hasc := m.ascending
  rw [h, List.pairwise_append, List.pairwise_cons] at hasc
  exact hasc.2.1.1 e he

end Neighbours

variable [LE κ] [Std.LawfulOrderLT κ]

/-- A key has the value of its entry. -/
theorem get?_eq_some_iff {m : SortedMap κ ν} {k : κ} {v : ν} :
    m.get? k = some v ↔ (k, v) ∈ m.entries := by
  unfold get?
  rw [Option.map_eq_some_iff]
  constructor
  · rintro ⟨⟨k', v'⟩, hfound, rfl⟩
    have hkey : k' = k := by simpa using List.find?_some hfound
    exact hkey ▸ List.mem_of_find?_eq_some hfound
  · intro hmem
    rcases List.append_of_mem hmem with ⟨before, after, hsplit⟩
    refine ⟨(k, v), ?_, rfl⟩
    -- The entries before have smaller keys.
    rw [hsplit, List.find?_append, List.find?_eq_none.2, Option.none_or]
    · simp
    · intro e he heq
      have hlt : e.1 < k := lt_of_mem_before hsplit he
      rw [of_decide_eq_true heq] at hlt
      exact Std.lt_irrefl hlt

theorem mem_keys_iff {m : SortedMap κ ν} {k : κ} : k ∈ m.keys ↔ ∃ v, m.get? k = some v := by
  simp only [keys, List.mem_map, get?_eq_some_iff, Prod.exists, exists_and_right, exists_eq_right]

theorem mem_values_iff {m : SortedMap κ ν} {v : ν} : v ∈ m.values ↔ ∃ k, m.get? k = some v := by
  simp only [values, List.mem_map, get?_eq_some_iff, Prod.exists, exists_eq_right]

/-- The entries are the keys, each with its value. -/
theorem entries_eq_map_keys (m : SortedMap κ ν) (fallback : ν) :
    m.entries = m.keys.map fun k => (k, (m.get? k).getD fallback) := by
  have hself : ∀ e ∈ m.entries, (e.1, (m.get? e.1).getD fallback) = e := by
    intro e he
    rw [get?_eq_some_iff.2 he, Option.getD_some]
  rw [keys, List.map_map]
  exact (List.map_id m.entries).symm.trans (List.map_congr_left fun e he => (hself e he).symm)

/-- A count over the values changes by what the value changed tells. -/
theorem countP_values_modify {m : SortedMap κ ν} {k : κ} {v : ν} (h : m.get? k = some v)
    (f : ν → ν) (p : ν → Bool) :
    (m.modify k f).values.countP p + (if p v then 1 else 0) =
      m.values.countP p + (if p (f v) then 1 else 0) := by
  rcases List.append_of_mem (get?_eq_some_iff.1 h) with ⟨before, after, hsplit⟩
  -- The keys on both sides differ from the one changed.
  have hkeep (l : List (κ × ν)) (hne : ∀ e ∈ l, e.1 ≠ k) :
      l.map (fun e => if e.1 = k then f e.2 else e.2) = l.map (·.2) :=
    List.map_congr_left fun e he => if_neg (hne e he)
  have hbefore : ∀ e ∈ before, e.1 ≠ k := by
    intro e he heq
    have hlt : e.1 < k := lt_of_mem_before hsplit he
    rw [heq] at hlt
    exact Std.lt_irrefl hlt
  have hafter : ∀ e ∈ after, e.1 ≠ k := by
    intro e he heq
    have hlt : k < e.1 := lt_of_mem_after hsplit he
    rw [heq] at hlt
    exact Std.lt_irrefl hlt
  have hvalues : (m.modify k f).values = before.map (·.2) ++ f v :: after.map (·.2) := by
    unfold modify mapValues values
    rw [List.map_map, hsplit]
    change (before ++ (k, v) :: after).map (fun e => if e.1 = k then f e.2 else e.2) = _
    rw [List.map_append, List.map_cons, hkeep before hbefore, hkeep after hafter, if_pos rfl]
  rw [hvalues, values, hsplit, List.map_append, List.map_cons]
  simp only [List.countP_append, List.countP_cons]
  omega

/-! ### Entries -/

section Entries

omit [DecidableEq κ]

theorem nodup_keys (m : SortedMap κ ν) : m.keys.Nodup := by
  have hasc : m.keys.Pairwise (· < ·) := List.pairwise_map.2 m.ascending
  apply hasc.imp
  intro a b hlt heq
  rw [heq] at hlt
  exact Std.lt_irrefl hlt

theorem nodup_entries (m : SortedMap κ ν) : m.entries.Nodup :=
  m.nodup_keys.of_map _

/-- The entries before another one are those with smaller keys. -/
theorem mem_before_iff {m : SortedMap κ ν} [Std.IsLinearOrder κ] {before after : List (κ × ν)}
    {entry e : κ × ν} (h : m.entries = before ++ entry :: after) :
    e ∈ before ↔ e ∈ m.entries ∧ e.1 < entry.1 := by
  constructor
  · intro he
    exact ⟨h ▸ List.mem_append_left _ he, lt_of_mem_before h he⟩
  · rintro ⟨he, hlt⟩
    rw [h, List.mem_append, List.mem_cons] at he
    rcases he with hbefore | rfl | hafter
    · exact hbefore
    · exact absurd hlt Std.lt_irrefl
    · exact absurd (Std.lt_trans hlt (lt_of_mem_after h hafter)) Std.lt_irrefl

/-- A map is known by its entries, in whichever order they are given. -/
theorem ext_of_mem [Std.IsLinearOrder κ] {m m' : SortedMap κ ν}
    (h : ∀ e, e ∈ m.entries ↔ e ∈ m'.entries) : m = m' := by
  have : Std.Irrefl fun a b : κ × ν => a.1 < b.1 := ⟨fun _ => Std.lt_irrefl⟩
  have : Std.Antisymm fun a b : κ × ν => a.1 < b.1 :=
    ⟨fun _ _ hlt hgt => absurd (Std.lt_trans hlt hgt) Std.lt_irrefl⟩
  exact SortedMap.ext (m.ascending.eq_of_mem_iff m'.ascending h)

end Entries

/-! ### Changes at a key -/

section Insert

variable [DecidableLT κ] [Std.IsLinearOrder κ]

/-- Behind an insertion, a search finds the new entry or what it found before. -/
private theorem find?_insertEntry (k k' : κ) (v : ν) (entries : List (κ × ν)) :
    (insertEntry k v entries).find? (·.1 = k') =
      if k' = k then some (k, v) else entries.find? (·.1 = k') := by
  induction entries with
  | nil => by_cases h : k' = k <;> simp [insertEntry, h, Ne.symm]
  | cons e rest ih =>
    unfold insertEntry
    split
    · by_cases h : k' = k <;> simp [List.find?_cons, h, Ne.symm]
    · next not_lt =>
      split
      · next gt =>
        have hne : e.1 ≠ k := fun heq => Std.lt_irrefl (heq ▸ gt : k < k)
        rw [List.find?_cons, ih, List.find?_cons]
        by_cases h : k' = k
        · rw [if_pos h, if_pos h, h, decide_eq_false hne]
        · rw [if_neg h, if_neg h]
      · next not_gt =>
        have hkey : e.1 = k := by grind
        rw [List.find?_cons, List.find?_cons]
        by_cases h : k' = k
        · rw [if_pos h, decide_eq_true h.symm]
        · rw [if_neg h, hkey, decide_eq_false (Ne.symm h)]

/-- The inserted key has the new value, and all other keys have what they had. -/
theorem get?_insert (m : SortedMap κ ν) (k k' : κ) (v : ν) :
    (m.insert k v).get? k' = if k' = k then some v else m.get? k' := by
  unfold get? insert
  rw [find?_insertEntry]
  split <;> rfl

/-- An insertion adds an entry and removes that of the same key. -/
theorem mem_entries_insert {m : SortedMap κ ν} {k : κ} {v : ν} {e : κ × ν} :
    e ∈ (m.insert k v).entries ↔ e = (k, v) ∨ e.1 ≠ k ∧ e ∈ m.entries := by
  obtain ⟨k', v'⟩ := e
  rw [← get?_eq_some_iff, ← get?_eq_some_iff, get?_insert]
  split
  · next h => simp [h, eq_comm]
  · next h => simp [h]

def insertAll (m : SortedMap κ ν) (keys : List κ) (v : ν) : SortedMap κ ν :=
  keys.foldr (fun k m => m.insert k v) m

theorem mem_entries_insertAll {m : SortedMap κ ν} {keys : List κ} {v : ν} {e : κ × ν} :
    e ∈ (m.insertAll keys v).entries ↔ e.1 ∈ keys ∧ e.2 = v ∨ e.1 ∉ keys ∧ e ∈ m.entries := by
  induction keys with
  | nil => simp [insertAll]
  | cons k keys ih =>
    show e ∈ ((m.insertAll keys v).insert k v).entries ↔ _
    rw [mem_entries_insert, ih, Prod.ext_iff, List.mem_cons]
    by_cases h : e.1 = k <;> simp [h]

/-! ### Lists of entries -/

omit [DecidableEq κ] in
/-- The last entry of a list is inserted last, so it counts. -/
theorem ofList_concat (entries : List (κ × ν)) (e : κ × ν) :
    ofList (entries ++ [e]) = (ofList entries).insert e.1 e.2 := by
  rw [ofList, List.foldl_append]
  rfl

/-- The last entry of a key counts. -/
theorem get?_ofList (entries : List (κ × ν)) (k : κ) :
    (ofList entries).get? k = entries.reverse.lookup k := by
  induction entries using List.reverseRecOn with
  | nil => rfl
  | append_singleton entries last ih =>
    rw [ofList_concat, get?_insert, ih, List.reverse_append, List.reverse_singleton,
      List.singleton_append, List.lookup_cons]
    by_cases h : k = last.1
    · rw [if_pos h, beq_iff_eq.2 h]
    · rw [if_neg h, beq_eq_false_iff_ne.2 h]

/-- If no key comes twice, all entries of a list are kept. -/
theorem mem_entries_ofList {entries : List (κ × ν)} (h : (entries.map (·.1)).Nodup) {e : κ × ν} :
    e ∈ (ofList entries).entries ↔ e ∈ entries := by
  induction entries using List.reverseRecOn with
  | nil => rfl
  | append_singleton entries last ih =>
    rw [List.map_append, List.nodup_append] at h
    rw [ofList_concat, mem_entries_insert, ih h.1, List.mem_append, List.mem_singleton, or_comm]
    apply or_congr_left
    apply and_iff_right_of_imp
    intro he
    exact h.2.2 e.1 (List.mem_map_of_mem he) last.1 (by simp)

/-! ### Other keys -/

/-- The map with a new key for each value. Different keys need different new ones. -/
def mapKeys (f : κ → κ) (m : SortedMap κ ν) : SortedMap κ ν :=
  ofList (m.entries.map fun e => (f e.1, e.2))

section MapKeys

variable {f : κ → κ} (hf : Function.Injective f) (m : SortedMap κ ν)

include hf

theorem entries_mapKeys_perm : (m.mapKeys f).entries.Perm (m.entries.map fun e => (f e.1, e.2)) := by
  have hkeys : ((m.entries.map fun e => (f e.1, e.2)).map (·.1)).Nodup := by
    have hnodup := m.nodup_keys.map hf
    rw [keys, List.map_map] at hnodup
    rw [List.map_map]
    exact hnodup
  rw [List.perm_ext_iff_of_nodup (nodup_entries _) hkeys.of_map]
  intro e
  exact mem_entries_ofList hkeys

/-- A renamed key has the value that it had. -/
theorem get?_mapKeys (k : κ) : (m.mapKeys f).get? (f k) = m.get? k := by
  ext v
  rw [get?_eq_some_iff, get?_eq_some_iff, (m.entries_mapKeys_perm hf).mem_iff, List.mem_map]
  simp only [Prod.mk.injEq, hf.eq_iff]
  simp

theorem mapValues_mapKeys (g : κ → ν → ω) :
    (m.mapKeys f).mapValues g = (m.mapValues fun k => g (f k)).mapKeys f := by
  apply ext_of_mem
  intro e
  rw [((m.mapValues _).entries_mapKeys_perm hf).mem_iff]
  show e ∈ (m.mapKeys f).entries.map _ ↔ _
  rw [((m.entries_mapKeys_perm hf).map _).mem_iff]
  simp only [mapValues, List.map_map]
  rfl

theorem modify_mapKeys (k : κ) (g : ν → ν) :
    (m.mapKeys f).modify (f k) g = (m.modify k g).mapKeys f := by
  simp only [modify, m.mapValues_mapKeys hf, hf.eq_iff]

theorem values_mapKeys_perm : (m.mapKeys f).values.Perm m.values := by
  have hperm := (m.entries_mapKeys_perm hf).map (·.2)
  rw [List.map_map] at hperm
  exact hperm

end MapKeys

end Insert

end TokenRing.SortedMap
