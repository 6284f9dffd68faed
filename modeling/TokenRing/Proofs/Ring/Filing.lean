import TokenRing.Proofs.SortedMap
import TokenRing.Ring.Builder

/-!
# What is filed with a builder

A registration files the record of a node, and then a claim to each of its tokens. Of all that was
filed, a builder keeps the first record of each node, the first claimant of each token and the
first conflict.
-/

namespace TokenRing

inductive Filing (τ : Type) where
  | record (node : Node)
  | claim (id : NodeId) (token : τ)
  deriving DecidableEq

namespace Filing

variable {τ : Type}

def record? (id : NodeId) : Filing τ → Option Node
  | record node => if node.id = id then some node else none
  | claim .. => none

def firstRecord? (filings : List (Filing τ)) (id : NodeId) : Option Node :=
  filings.findSome? (record? id)

theorem firstRecord?_concat (filings : List (Filing τ)) (filing : Filing τ) (id : NodeId) :
    firstRecord? (filings ++ [filing]) id = (firstRecord? filings id).or (filing.record? id) := by
  rw [firstRecord?, List.findSome?_append, List.findSome?_singleton, firstRecord?]

theorem record_mem_of_firstRecord? {filings : List (Filing τ)} {id : NodeId} {node : Node}
    (h : firstRecord? filings id = some node) : record node ∈ filings ∧ node.id = id := by
  obtain ⟨filing, hmem, heq⟩ := List.exists_of_findSome?_eq_some h
  cases filing with
  | record other =>
    rw [record?, Option.ite_none_right_eq_some, Option.some.injEq] at heq
    obtain ⟨hid, rfl⟩ := heq
    exact ⟨hmem, hid⟩
  | claim id' t => cases heq

/-- What there is to report about a value where another one may stand already. -/
def clash {α : Type} [DecidableEq α] (conflict : α → α → Conflict τ) (standing : Option α)
    (value : α) : Option (Conflict τ) :=
  standing.bind fun existing => if existing = value then none else some (conflict existing value)

theorem or_eq_of_clash_eq_none {α : Type} [DecidableEq α] {conflict : α → α → Conflict τ}
    {standing : Option α} {value : α} (h : clash conflict standing value = none) :
    standing.or (some value) = some value := by
  cases standing with
  | none => rfl
  | some existing =>
    rw [clash, Option.bind_some, ite_eq_left_iff] at h
    by_cases heq : existing = value
    · rw [Option.some_or, heq]
    · cases h heq

/-- There is a clash where another value stands already. -/
theorem clash_eq_some_iff {α : Type} [DecidableEq α] {conflict : α → α → Conflict τ}
    {standing : Option α} {value : α} {c : Conflict τ} :
    clash conflict standing value = some c ↔
      ∃ existing, standing = some existing ∧ existing ≠ value ∧ conflict existing value = c := by
  cases standing with
  | none => simp [clash]
  | some existing =>
    by_cases heq : existing = value
    · simp [clash, heq]
    · simp [clash, heq]

variable [Token τ]

def claimant? (t : τ) : Filing τ → Option NodeId
  | record _ => none
  | claim id t' => if t' = t then some id else none

def firstClaimant? (filings : List (Filing τ)) (t : τ) : Option NodeId :=
  filings.findSome? (claimant? t)

theorem firstClaimant?_concat (filings : List (Filing τ)) (filing : Filing τ) (t : τ) :
    firstClaimant? (filings ++ [filing]) t =
      (firstClaimant? filings t).or (filing.claimant? t) := by
  rw [firstClaimant?, List.findSome?_append, List.findSome?_singleton, firstClaimant?]

theorem claim_mem_of_firstClaimant? {filings : List (Filing τ)} {t : τ} {id : NodeId}
    (h : firstClaimant? filings t = some id) : claim id t ∈ filings := by
  rcases List.exists_of_findSome?_eq_some h with ⟨filing, hmem, heq⟩
  cases filing with
  | record node => cases heq
  | claim id' t' =>
    rw [claimant?, Option.ite_none_right_eq_some, Option.some.injEq] at heq
    rcases heq with ⟨rfl, rfl⟩
    exact hmem

def conflict? (before : List (Filing τ)) : Filing τ → Option (Conflict τ)
  | record node => clash .record (firstRecord? before node.id) node
  | claim id t => clash (.token t) (firstClaimant? before t) id

def conflictAfter? (before : List (Filing τ)) : List (Filing τ) → Option (Conflict τ)
  | [] => none
  | filing :: rest => (filing.conflict? before).or (conflictAfter? (before ++ [filing]) rest)

def firstConflict? (filings : List (Filing τ)) : Option (Conflict τ) :=
  conflictAfter? [] filings

theorem conflictAfter?_append (before filings rest : List (Filing τ)) :
    conflictAfter? before (filings ++ rest) =
      (conflictAfter? before filings).or (conflictAfter? (before ++ filings) rest) := by
  induction filings generalizing before with
  | nil => rw [List.nil_append, conflictAfter?, Option.none_or, List.append_nil]
  | cons filing filings ih =>
    rw [List.cons_append, conflictAfter?, ih, conflictAfter?, Option.or_assoc, List.append_assoc,
      List.singleton_append]

/-- A report stays, and where there is none the next filing can make it. -/
theorem firstConflict?_append_cons (before : List (Filing τ)) (filing : Filing τ)
    (after : List (Filing τ)) :
    firstConflict? (before ++ filing :: after) = (firstConflict? before).or
      ((filing.conflict? before).or (conflictAfter? (before ++ [filing]) after)) := by
  rw [firstConflict?, conflictAfter?_append, conflictAfter?, List.nil_append, firstConflict?]

/-- The last filing matters only if there was no conflict before. -/
theorem firstConflict?_concat (filings : List (Filing τ)) (filing : Filing τ) :
    firstConflict? (filings ++ [filing]) =
      (firstConflict? filings).or (filing.conflict? filings) := by
  rw [firstConflict?_append_cons, conflictAfter?, Option.or_none]

/-! ### Without a conflict -/

/-- Without any conflict, no filing has one with those before it. -/
theorem conflict?_eq_none {before after : List (Filing τ)} {filing : Filing τ}
    (h : firstConflict? (before ++ filing :: after) = none) : filing.conflict? before = none := by
  rw [firstConflict?_append_cons, Option.or_eq_none_iff, Option.or_eq_none_iff] at h
  exact h.2.1

/-- Without conflicts, every record that was filed is the first one of its identifier. -/
theorem firstRecord?_of_mem {filings : List (Filing τ)} (h : firstConflict? filings = none)
    {node : Node} (hmem : record node ∈ filings) : firstRecord? filings node.id = some node := by
  -- The record passed the comparison with the one that may stand before it.
  obtain ⟨before, after, rfl⟩ := List.append_of_mem hmem
  have hstands := or_eq_of_clash_eq_none (conflict?_eq_none h)
  rw [List.append_cons, firstRecord?, List.findSome?_append, ← firstRecord?, firstRecord?_concat,
    record?, if_pos rfl, hstands, Option.some_or]

/-- Without conflicts, every claim that was filed is the first one to its token. -/
theorem firstClaimant?_of_mem {filings : List (Filing τ)} (h : firstConflict? filings = none)
    {id : NodeId} {t : τ} (hmem : claim id t ∈ filings) : firstClaimant? filings t = some id := by
  obtain ⟨before, after, rfl⟩ := List.append_of_mem hmem
  have hstands := or_eq_of_clash_eq_none (conflict?_eq_none h)
  rw [List.append_cons, firstClaimant?, List.findSome?_append, ← firstClaimant?,
    firstClaimant?_concat, claimant?, if_pos rfl, hstands, Option.some_or]

end Filing

namespace Builder

open Filing

variable {τ : Type} [Token τ] {b : Builder τ} {filings : List (Filing τ)}

def file (b : Builder τ) : Filing τ → Builder τ
  | .record node => b.register node
  | .claim id t => b.claim id t

/-! ### One filing -/

/-- One equation for both branches, from which every field is read off. -/
theorem register_eq (b : Builder τ) (node : Node) :
    b.register node =
      { b with
        records := if (b.record? node.id).isNone then b.records ++ [node] else b.records
        conflict := b.conflict.or (clash .record (b.record? node.id) node) } := by
  unfold register
  cases hstands : b.record? node.id with
  | none => simp [clash]
  | some existing =>
    by_cases heq : existing = node
    · simp [clash, heq]
    · simp [clash, heq, report]

theorem claim_eq (b : Builder τ) (id : NodeId) (t : τ) :
    b.claim id t =
      { b with
        claims := if (b.claims.get? t).isNone then b.claims.insert t id else b.claims
        conflict := b.conflict.or (clash (.token t) (b.claims.get? t) id) } := by
  unfold claim
  cases hstands : b.claims.get? t with
  | none => simp [clash]
  | some existing =>
    by_cases heq : existing = id
    · simp [clash, heq]
    · simp [clash, heq, report]

theorem vnodes_file (b : Builder τ) (filing : Filing τ) : (b.file filing).vnodes = b.vnodes := by
  cases filing with
  | record node => rw [file, register_eq]
  | claim id t => rw [file, claim_eq]

/-- A filing adds its record, unless there is one already. -/
theorem record?_file (b : Builder τ) (filing : Filing τ) (id : NodeId) :
    (b.file filing).record? id = (b.record? id).or (filing.record? id) := by
  cases filing with
  | record node =>
    rw [file, register_eq, Filing.record?]
    by_cases hnone : b.record? node.id = none
    · have hsingle : [node].find? (·.id = id) = if node.id = id then some node else none := by
        by_cases hid : node.id = id <;> simp [hid]
      rw [Builder.record?, if_pos (Option.isNone_iff_eq_none.2 hnone), List.find?_append, hsingle,
        Builder.record?]
    · -- The records stay, as the node has one.
      rw [if_neg (mt Option.isNone_iff_eq_none.1 hnone)]
      change b.record? id = (b.record? id).or _
      by_cases hid : node.id = id
      · rcases Option.ne_none_iff_exists'.1 hnone with ⟨existing, hsome⟩
        rw [← hid, hsome, Option.some_or]
      · rw [if_neg hid, Option.or_none]
  | claim id' t =>
    rw [file, claim_eq, Filing.record?, Option.or_none, Builder.record?, Builder.record?]

/-- A filing adds its claim, unless there is one already. -/
theorem get?_claims_file (b : Builder τ) (filing : Filing τ) (t : τ) :
    (b.file filing).claims.get? t = (b.claims.get? t).or (filing.claimant? t) := by
  cases filing with
  | record node => rw [file, register_eq, claimant?, Option.or_none]
  | claim id t' =>
    rw [file, claim_eq, claimant?]
    by_cases hnone : b.claims.get? t' = none
    · rw [if_pos (Option.isNone_iff_eq_none.2 hnone), SortedMap.get?_insert]
      by_cases ht : t = t'
      · rw [if_pos ht, if_pos ht.symm, ht, hnone, Option.none_or]
      · rw [if_neg ht, if_neg (Ne.symm ht), Option.or_none]
    · rw [if_neg (mt Option.isNone_iff_eq_none.1 hnone)]
      by_cases ht : t' = t
      · rcases Option.ne_none_iff_exists'.1 hnone with ⟨existing, hsome⟩
        rw [← ht, hsome, Option.some_or]
      · rw [if_neg ht, Option.or_none]

/-! ### The invariant -/

/-- What a builder is left with when all of this has been filed. -/
structure Keeps (b : Builder τ) (filings : List (Filing τ)) : Prop where
  record?_eq : ∀ id, b.record? id = firstRecord? filings id
  get?_claims : ∀ t, b.claims.get? t = firstClaimant? filings t
  conflict_eq : b.conflict = firstConflict? filings

/-- One filing keeps the invariant. -/
theorem Keeps.file (h : b.Keeps filings) (filing : Filing τ) :
    (b.file filing).Keeps (filings ++ [filing]) where
  record?_eq id := by rw [record?_file, h.record?_eq, firstRecord?_concat]
  get?_claims t := by rw [get?_claims_file, h.get?_claims, firstClaimant?_concat]
  conflict_eq := by
    rw [firstConflict?_concat, ← h.conflict_eq]
    cases filing with
    | record node => rw [Builder.file, register_eq, conflict?, h.record?_eq]
    | claim id t => rw [Builder.file, claim_eq, conflict?, h.get?_claims]

/-- A builder keeps what further filings bring. -/
theorem Keeps.foldl_file (h : b.Keeps filings) (more : List (Filing τ)) :
    (more.foldl Builder.file b).Keeps (filings ++ more) := by
  induction more generalizing b filings with
  | nil => rwa [List.append_nil]
  | cons filing more ih =>
    rw [List.append_cons]
    exact ih (h.file filing)

end Builder

end TokenRing
