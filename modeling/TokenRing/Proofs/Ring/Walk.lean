import Mathlib.Algebra.Ring.Nat
import TokenRing.Proofs.Ring.Lookup
import TokenRing.Proofs.Traversal
import TokenRing.TokenSpace

/-!
# Walks call by call

The calls to a walk answer the entries of the ring in turn, once around it, and nothing from then
on. The same walk in words of 64 bits gives the same answers: no operation on the words fails.
-/

namespace TokenRing

variable {τ : Type} [Token τ] {ring : Ring τ}

/-! ### Calls -/

namespace Ring.Walk

/-- The answer to a call, and the walk behind it. A walk that is over stays as it is. -/
def call (walk : Walk ring) : Option (τ × Node) × Walk ring :=
  match walk.next? with
  | some (entry, walk') => (some entry, walk')
  | none => (none, walk)

def calls (walk : Walk ring) : (count : Nat) → List (Option (τ × Node)) × Walk ring
  | 0 => ([], walk)
  | count + 1 =>
    let (answer, walk') := walk.call
    let (answers, rest) := walk'.calls count
    (answer :: answers, rest)

variable {walk walk' : Walk ring}

/-- While entries are left, a call gives the next one around the ring. -/
theorem call_of_lt (h : walk.taken < ring.size) :
    ∃ entry, ring.entries[(walk.start + walk.taken) % ring.size]? = some entry ∧
      walk.call = (some entry, { walk with taken := walk.taken + 1, taken_le := h }) := by
  have bound : (walk.start + walk.taken) % ring.size < ring.entries.size :=
    Nat.mod_lt _ (Nat.zero_lt_of_lt h)
  have hnext : walk.next? = some (ring.entries[(walk.start + walk.taken) % ring.size],
      { walk with taken := walk.taken + 1, taken_le := h }) := dif_pos h
  exact ⟨_, Array.getElem?_eq_getElem bound, by rw [call, hnext]⟩

theorem call_of_le (h : ring.size ≤ walk.taken) : walk.call = (none, walk) := by
  have hnext : walk.next? = none := dif_neg (Nat.not_lt.2 h)
  rw [call, hnext]

theorem toList_of_next?_some {entry : τ × Node} (h : walk.next? = some (entry, walk')) :
    walk.toList = entry :: walk'.toList := by
  rw [toList]
  split
  · next heq =>
    rw [h, Option.some.injEq, Prod.mk.injEq] at heq
    obtain ⟨rfl, rfl⟩ := heq
    rfl
  · next hnone =>
    rw [h] at hnone
    cases hnone

theorem toList_of_next?_none (h : walk.next? = none) : walk.toList = [] := by
  rw [toList]
  split
  · next hsome =>
    rw [h] at hsome
    cases hsome
  · rfl

theorem length_toList (walk : Walk ring) : walk.toList.length = walk.remaining := by
  rw [toList_eq_drop, List.length_drop, List.length_rotate, Array.length_toList, remaining, size]

/-- A call gives the first of the entries that are left. -/
theorem fst_call (walk : Walk ring) : walk.call.1 = walk.toList.head? := by
  cases h : walk.next? with
  | none => rw [call, h, toList_of_next?_none h, List.head?_nil]
  | some next => rw [call, h, toList_of_next?_some h, List.head?_cons]

/-- A call leaves the entries behind the first. -/
theorem toList_snd_call (walk : Walk ring) : walk.call.2.toList = walk.toList.tail := by
  cases h : walk.next? with
  | none => rw [call, h, toList_of_next?_none h, List.tail_nil]
  | some next => rw [call, h, toList_of_next?_some h, List.tail_cons]

theorem calls_succ (walk : Walk ring) (count : Nat) :
    walk.calls (count + 1) =
      (walk.call.1 :: (walk.call.2.calls count).1, (walk.call.2.calls count).2) :=
  rfl

/-- What is left of a walk answers all later calls to it. -/
theorem fst_calls (walk : Walk ring) (count : Nat) :
    (walk.calls count).1 = (List.range count).map fun i => walk.toList[i]? := by
  -- For any walk, since the first call leaves a walk that begins one entry later.
  induction count generalizing walk with
  | zero => rfl
  | succ count ih =>
    have hlater : (fun i => walk.toList.tail[i]?) = (fun i => walk.toList[i]?) ∘ Nat.succ := by
      funext i
      exact List.getElem?_tail
    rw [calls_succ, fst_call, List.head?_eq_getElem?, ih, toList_snd_call, hlater,
      List.range_succ_eq_map, List.map_cons, List.map_map]

/-- Some calls leave what comes behind that many entries. -/
theorem toList_snd_calls (walk : Walk ring) (count : Nat) :
    (walk.calls count).2.toList = walk.toList.drop count := by
  induction count generalizing walk with
  | zero => rfl
  | succ count ih => rw [calls_succ, ih, toList_snd_call, List.drop_tail]

theorem remaining_snd_calls (walk : Walk ring) (count : Nat) :
    (walk.calls count).2.remaining = walk.remaining - min count walk.remaining := by
  rw [← length_toList, toList_snd_calls, List.length_drop, length_toList]
  omega

theorem snd_calls_of_next?_none (h : walk.next? = none) (count : Nat) :
    (walk.calls count).2 = walk := by
  have hcall : walk.call.2 = walk := by rw [call, h]
  induction count with
  | zero => rfl
  | succ count ih => rw [calls_succ, hcall, ih]

/-- The entries that were taken are the answers, without the calls that answer nothing. -/
theorem take_eq (walk : Walk ring) (count : Nat) :
    walk.take count = (walk.toList.take count, (walk.calls count).2) := by
  induction count generalizing walk with
  | zero => rfl
  | succ count ih =>
    cases h : walk.next? with
    | none => rw [take, h, toList_of_next?_none h, snd_calls_of_next?_none h, List.take_nil]
    | some next =>
      obtain ⟨entry, walk'⟩ := next
      have hcall : walk.call.2 = walk' := by rw [call, h]
      rw [take, h, toList_of_next?_some h, calls_succ, hcall, List.take_succ_cons]
      dsimp only
      rw [ih]

end Ring.Walk

/-! ### Arithmetic of words -/

namespace Word

inductive Fault where
  | overflow
  | underflow
  | zeroDivisor
  | outOfRange
  deriving DecidableEq, Repr

def add (a b : UInt64) : Except Fault UInt64 :=
  if a.toNat + b.toNat < 2 ^ 64 then .ok (a + b) else .error .overflow

def sub (a b : UInt64) : Except Fault UInt64 :=
  if b ≤ a then .ok (a - b) else .error .underflow

def mod (a b : UInt64) : Except Fault UInt64 :=
  if b = 0 then .error .zeroDivisor else .ok (a % b)

variable {a b : UInt64}

theorem exists_add (h : a.toNat + b.toNat < 2 ^ 64) :
    ∃ c, add a b = .ok c ∧ c.toNat = a.toNat + b.toNat := by
  refine ⟨a + b, if_pos h, ?_⟩
  rw [UInt64.toNat_add, Nat.mod_eq_of_lt h]

theorem exists_sub (h : b.toNat ≤ a.toNat) :
    ∃ c, sub a b = .ok c ∧ c.toNat = a.toNat - b.toNat := by
  have hle : b ≤ a := UInt64.le_iff_toNat_le.2 h
  exact ⟨a - b, if_pos hle, UInt64.toNat_sub_of_le a b hle⟩

theorem exists_mod (h : 0 < b.toNat) : ∃ c, mod a b = .ok c ∧ c.toNat = a.toNat % b.toNat := by
  have hne : b ≠ 0 := by
    rintro rfl
    exact Nat.lt_irrefl 0 h
  exact ⟨a % b, if_neg hne, UInt64.toNat_mod a b⟩

end Word

/-! ### Walks in words -/

structure WordWalk where
  start : UInt64
  taken : UInt64

namespace WordWalk

open Word (Fault)

def size (ring : Ring τ) : UInt64 :=
  .ofNat ring.size

def ofIndex (ring : Ring τ) (index : UInt64) : Except Fault WordWalk :=
  if ring.isEmpty then .ok ⟨0, 0⟩ else do return ⟨← Word.mod index (size ring), 0⟩

def remaining (ring : Ring τ) (walk : WordWalk) : Except Fault UInt64 :=
  Word.sub (size ring) walk.taken

def call (ring : Ring τ) (walk : WordWalk) : Except Fault (Option (τ × Node) × WordWalk) :=
  if size ring ≤ walk.taken then .ok (none, walk)
  else do
    let index ← Word.mod (← Word.add walk.start walk.taken) (size ring)
    match ring.entries[index.toNat]? with
    | some entry => return (some entry, { walk with taken := ← Word.add walk.taken 1 })
    | none => .error .outOfRange

def calls (ring : Ring τ) (walk : WordWalk) :
    (count : Nat) → Except Fault (List (Option (τ × Node)) × WordWalk)
  | 0 => .ok ([], walk)
  | count + 1 => do
    let (answer, walk') ← walk.call ring
    let (answers, rest) ← walk'.calls ring count
    return (answer :: answers, rest)

/-- The same walk with its numbers in words. Where the ring is empty a start means nothing. -/
structure Represents (words : WordWalk) (walk : ring.Walk) : Prop where
  start_eq : 0 < ring.size → words.start.toNat = walk.start
  start_lt : 0 < ring.size → walk.start < ring.size
  taken_eq : words.taken.toNat = walk.taken

section Small

-- A ring that is held in memory has fewer entries than there are signed words.
variable (hsize : ring.size < 2 ^ 63)

include hsize

theorem toNat_size : (size ring).toNat = ring.size := by
  apply UInt64.toNat_ofNat_of_lt'
  exact Nat.lt_trans hsize (by decide)

/-- A walk in words starts where the walk does. -/
theorem exists_ofIndex (index : UInt64) :
    ∃ words, ofIndex ring index = .ok words ∧ words.Represents (ring.walkFrom index.toNat) := by
  cases hempty : ring.isEmpty with
  | true =>
    have hpos : ¬ 0 < ring.size := by simp [ring.size_pos_iff, hempty]
    exact ⟨⟨0, 0⟩, by rw [ofIndex, hempty, if_pos rfl], fun h => absurd h hpos,
      fun h => absurd h hpos, rfl⟩
  | false =>
    have hpos : 0 < ring.size := ring.size_pos_iff.2 hempty
    obtain ⟨start, hstart, hvalue⟩ :=
      Word.exists_mod (a := index) (b := size ring) (by rwa [toNat_size hsize])
    rw [toNat_size hsize] at hvalue
    refine ⟨⟨start, 0⟩, ?_, fun _ => hvalue, fun _ => Nat.mod_lt _ hpos, rfl⟩
    rw [ofIndex, hempty, if_neg Bool.false_ne_true, hstart]
    rfl

/-- A call in words gives the same entry without overflow, and the walks still agree. -/
theorem exists_call {words : WordWalk} {walk : ring.Walk} (h : words.Represents walk) :
    ∃ words', words.call ring = .ok (walk.call.1, words') ∧ words'.Represents walk.call.2 := by
  have htaken := h.taken_eq
  by_cases hover : walk.taken < ring.size
  · have hpos := Nat.zero_lt_of_lt hover
    have hstart := h.start_eq hpos
    have hlt := h.start_lt hpos
    -- Start and progress are both below the size, so their sum is a word.
    obtain ⟨position, hposition, hsum⟩ :=
      Word.exists_add (a := words.start) (b := words.taken) (by omega)
    obtain ⟨index, hindex, hvalue⟩ :=
      Word.exists_mod (a := position) (b := size ring) (by rwa [toNat_size hsize])
    obtain ⟨taken, hnext, hcount⟩ :=
      Word.exists_add (a := words.taken) (b := 1) (by rw [UInt64.toNat_one]; omega)
    obtain ⟨entry, hentry, hcall⟩ := Ring.Walk.call_of_lt hover
    rw [hsum, toNat_size hsize, hstart, htaken] at hvalue
    have hnot : ¬ size ring ≤ words.taken := by
      rw [UInt64.le_iff_toNat_le, toNat_size hsize, htaken]
      exact Nat.not_le.2 hover
    rw [hcall]
    refine ⟨{ words with taken }, ?_, fun _ => hstart, fun _ => hlt, ?_⟩
    · rw [call, if_neg hnot]
      simp only [Except.bind_eq_ok_iff]
      refine ⟨position, hposition, index, hindex, ?_⟩
      rw [hvalue, hentry]
      dsimp only
      rw [hnext]
      rfl
    · rw [hcount, htaken]
      rfl
  · -- The walk in words is over at the same call.
    have hle := Nat.le_of_not_lt hover
    have hend : size ring ≤ words.taken := by
      rw [UInt64.le_iff_toNat_le, toNat_size hsize, htaken]
      exact hle
    rw [Ring.Walk.call_of_le hle]
    exact ⟨words, if_pos hend, h⟩

/-- Any number of calls in words give the same entries without overflow. -/
theorem exists_calls {words : WordWalk} {walk : ring.Walk} (h : words.Represents walk)
    (count : Nat) :
    ∃ words', words.calls ring count = .ok ((walk.calls count).1, words') ∧
      words'.Represents (walk.calls count).2 := by
  induction count generalizing words walk with
  | zero => exact ⟨words, rfl, h⟩
  | succ count ih =>
    obtain ⟨words', hcall, h'⟩ := exists_call hsize h
    obtain ⟨words'', hcalls, h''⟩ := ih h'
    refine ⟨words'', ?_, h''⟩
    rw [calls]
    simp only [Except.bind_eq_ok_iff]
    exact ⟨_, hcall, _, hcalls, rfl⟩

theorem exists_remaining {words : WordWalk} {walk : ring.Walk} (h : words.Represents walk) :
    ∃ left, words.remaining ring = .ok left ∧ left.toNat = walk.remaining := by
  obtain ⟨left, hleft, hvalue⟩ := Word.exists_sub (a := size ring) (b := words.taken)
    (by rw [toNat_size hsize, h.taken_eq]; exact walk.taken_le)
  refine ⟨left, hleft, ?_⟩
  rw [hvalue, toNat_size hsize, h.taken_eq, Ring.Walk.remaining]

end Small

end WordWalk

/-! ### Main result -/

namespace Ring

variable (ring : Ring τ) (index : Nat)

/-- The entries of a walk are those of the ring by index, counted on around it. -/
theorem getElem?_toList_walkFrom (i : Nat) :
    (ring.walkFrom index).toList[i]? =
      if i < ring.size then ring.entries[(index + i) % ring.size]? else none := by
  rw [toList_walkFrom]
  split
  · next hlt =>
    rw [List.getElem?_rotate (by rwa [Array.length_toList]), Array.getElem?_toList,
      Array.length_toList, Nat.add_comm, size]
  · next hge =>
    apply List.getElem?_eq_none
    rw [List.length_rotate, Array.length_toList]
    exact Nat.le_of_not_lt hge

theorem remaining_walkFrom : (ring.walkFrom index).remaining = ring.size :=
  rfl

theorem nodup_entries : ring.entries.toList.Nodup :=
  SortedMap.nodup_entries ⟨ring.entries.toList, ring.ascending⟩

end Ring

/-- The calls to a walk answer the entries from the one at its start on, counted on around the ring,
until each of them was answered, and then nothing. Every entry that is answered is one less to
remain. So a whole walk is the rotation of the entries that begins at its start, and meets each of
them once. A walk in words answers and counts just so, and none of its operations fails. -/
theorem calls_walkFrom (ring : Ring τ) (start : UInt64) (count : Nat) :
    ∃ answers rest, (ring.walkFrom start.toNat).calls count = (answers, rest) ∧
      answers = (List.range count).map (fun i =>
        if i < ring.size then ring.entries[(start.toNat + i) % ring.size]? else none) ∧
      rest.remaining = ring.size - min count ring.size ∧
      (ring.walkFrom start.toNat).take count =
        ((ring.entries.toList.rotate (start.toNat % ring.size)).take count, rest) ∧
      (ring.walkFrom start.toNat).toList = ring.entries.toList.rotate (start.toNat % ring.size) ∧
      (ring.walkFrom start.toNat).toList.Perm ring.entries.toList ∧
      (ring.walkFrom start.toNat).toList.Nodup ∧
      (ring.size < 2 ^ 63 → ∃ words words' left, WordWalk.ofIndex ring start = .ok words ∧
        words.calls ring count = .ok (answers, words') ∧ words'.remaining ring = .ok left ∧
        left.toNat = ring.size - min count ring.size) := by
  have hrotate : (ring.walkFrom start.toNat).toList =
      ring.entries.toList.rotate (start.toNat % ring.size) := Ring.Walk.toList_eq_drop _
  have hperm : (ring.walkFrom start.toNat).toList.Perm ring.entries.toList := by
    rw [hrotate]
    exact List.rotate_perm _ _
  have hremaining : ((ring.walkFrom start.toNat).calls count).2.remaining =
      ring.size - min count ring.size := by
    rw [Ring.Walk.remaining_snd_calls, Ring.remaining_walkFrom]
  refine ⟨_, _, rfl, ?_, hremaining, ?_, hrotate, hperm, ?_, ?_⟩
  · rw [Ring.Walk.fst_calls]
    simp only [Ring.getElem?_toList_walkFrom]
  · rw [Ring.Walk.take_eq, hrotate]
  · exact hperm.nodup_iff.2 ring.nodup_entries
  · -- In words the walk starts alike and stays so through all calls.
    intro hsize
    obtain ⟨words, hwords, hstart⟩ := WordWalk.exists_ofIndex hsize start
    obtain ⟨words', hcalls, hend⟩ := WordWalk.exists_calls hsize hstart count
    obtain ⟨left, hleft, hvalue⟩ := WordWalk.exists_remaining hsize hend
    exact ⟨words, words', left, hwords, hcalls, hleft, hvalue.trans hremaining⟩

def walkedRing : Ring Murmur3Token where
  entries := #[(⟨-4⟩, .sample 1 none none), (⟨0⟩, .sample 2 none none), (⟨6⟩, .sample 1 none none)]
  ascending := by decide
  one_record := by decide

/-- The walk begins at the last token, though its start is the last word but one. -/
theorem calls_walkFrom_walkedRing :
    walkedRing.size < 2 ^ 63 ∧
    ∃ rest words words', (walkedRing.walkFrom 0xfffffffffffffffe).calls 5 =
        ([some (⟨6⟩, .sample 1 none none), some (⟨-4⟩, .sample 1 none none),
          some (⟨0⟩, .sample 2 none none), none, none], rest) ∧
      rest.remaining = 0 ∧
      WordWalk.ofIndex walkedRing 0xfffffffffffffffe = .ok words ∧
      words.calls walkedRing 5 = .ok
        ([some (⟨6⟩, .sample 1 none none), some (⟨-4⟩, .sample 1 none none),
          some (⟨0⟩, .sample 2 none none), none, none], words') ∧
      words'.remaining walkedRing = .ok 0 := by
  have hsize : walkedRing.size < 2 ^ 63 := by decide
  obtain ⟨answers, rest, hcalls, hanswers, hrest, -, -, -, -, hwords⟩ :=
    calls_walkFrom walkedRing 0xfffffffffffffffe 5
  obtain ⟨words, words', left, hstart, hagain, hleft, hnone⟩ := hwords hsize
  obtain rfl : left = 0 := UInt64.toNat_inj.1 hnone
  rw [hanswers] at hcalls hagain
  exact ⟨hsize, rest, words, words', hcalls, hrest, hstart, hagain, hleft⟩

end TokenRing
