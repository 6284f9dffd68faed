/-!
# Sorted maps

Maps whose entries are listed by ascending key, each key once. Two maps with the same entries are
equal, so a map does not remember the order in which it was filled.
-/

namespace TokenRing

/-- A map listed by ascending key. -/
@[ext]
structure SortedMap (κ ν : Type) [LT κ] where
  entries : List (κ × ν)
  ascending : entries.Pairwise (·.1 < ·.1)

namespace SortedMap

variable {κ ν ω : Type} [LT κ]

instance [DecidableEq κ] [DecidableEq ν] : DecidableEq (SortedMap κ ν) := fun a b =>
  decidable_of_iff (a.entries = b.entries) SortedMap.ext_iff.symm

def empty : SortedMap κ ν :=
  ⟨[], .nil⟩

def keys (m : SortedMap κ ν) : List κ :=
  m.entries.map (·.1)

def values (m : SortedMap κ ν) : List ν :=
  m.entries.map (·.2)

def size (m : SortedMap κ ν) : Nat :=
  m.entries.length

def get? [DecidableEq κ] (m : SortedMap κ ν) (k : κ) : Option ν :=
  (m.entries.find? (·.1 = k)).map (·.2)

def contains [DecidableEq κ] (m : SortedMap κ ν) (k : κ) : Bool :=
  (m.get? k).isSome

def mapValues (f : κ → ν → ω) (m : SortedMap κ ν) : SortedMap κ ω where
  entries := m.entries.map fun e => (e.1, f e.1 e.2)
  ascending := List.pairwise_map.2 m.ascending

def modify [DecidableEq κ] (m : SortedMap κ ν) (k : κ) (f : ν → ν) : SortedMap κ ν :=
  m.mapValues fun key v => if key = k then f v else v

def filterKeys (p : κ → Bool) (m : SortedMap κ ν) : SortedMap κ ν where
  entries := m.entries.filter fun e => p e.1
  ascending := m.ascending.filter _

variable [DecidableLT κ]

/-- Puts an entry in its place among ascending entries, over one with the same key. -/
def insertEntry (k : κ) (v : ν) : List (κ × ν) → List (κ × ν)
  | [] => [(k, v)]
  | e :: rest =>
    if k < e.1 then (k, v) :: e :: rest
    else if e.1 < k then e :: insertEntry k v rest
    else (k, v) :: rest

theorem mem_of_mem_insertEntry {k : κ} {v : ν} {a : κ × ν} {entries : List (κ × ν)}
    (h : a ∈ insertEntry k v entries) : a = (k, v) ∨ a ∈ entries := by
  induction entries with
  | nil => simpa [insertEntry] using h
  | cons e rest ih =>
    unfold insertEntry at h
    split at h
    · simpa using h
    · split at h
      · rcases List.mem_cons.1 h with rfl | h
        · simp
        · rcases ih h with h | h <;> simp [h]
      · rcases List.mem_cons.1 h with rfl | h <;> simp_all

variable [LE κ] [Std.IsLinearOrder κ] [Std.LawfulOrderLT κ]

theorem pairwise_insertEntry (k : κ) (v : ν) {entries : List (κ × ν)}
    (h : entries.Pairwise (·.1 < ·.1)) : (insertEntry k v entries).Pairwise (·.1 < ·.1) := by
  induction entries with
  | nil => simp [insertEntry]
  | cons e rest ih =>
    obtain ⟨head, rest_ascending⟩ := List.pairwise_cons.1 h
    unfold insertEntry
    split
    · next lt =>
      refine List.pairwise_cons.2 ⟨fun a mem => ?_, h⟩
      rcases List.mem_cons.1 mem with rfl | mem
      · exact lt
      · exact Std.lt_trans lt (head a mem)
    · next not_lt =>
      split
      · next gt =>
        refine List.pairwise_cons.2 ⟨fun a mem => ?_, ih rest_ascending⟩
        rcases mem_of_mem_insertEntry mem with rfl | mem
        · exact gt
        · exact head a mem
      · next not_gt =>
        have same : e.1 = k := by grind
        exact List.pairwise_cons.2 ⟨fun a mem => same ▸ head a mem, rest_ascending⟩

def insert (m : SortedMap κ ν) (k : κ) (v : ν) : SortedMap κ ν :=
  ⟨insertEntry k v m.entries, pairwise_insertEntry k v m.ascending⟩

/-- The map of a list of entries. The last entry of a key counts. -/
def ofList (entries : List (κ × ν)) : SortedMap κ ν :=
  entries.foldl (fun m e => m.insert e.1 e.2) empty

end SortedMap

end TokenRing
