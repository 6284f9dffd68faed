import Mathlib.Data.List.Induction
import TokenRing.Proofs.Ring.Registration

/-!
# The first conflict of registrations

A filing contradicts those before it if it brings another record of a node than the first one, or a
claim to a token that another node claimed first. A ring can be built if and only if no filing does;
otherwise the earliest such filing is reported, whatever is registered afterwards.
-/

namespace TokenRing

/-- Records of one identifier can differ in what describes the node only. -/
theorem Node.ne_iff_of_id_eq {a b : Node} (hid : a.id = b.id) :
    a ≠ b ↔ a.name ≠ b.name ∨ a.datacenter ≠ b.datacenter ∨ a.rack ≠ b.rack := by
  cases a
  cases b
  simp only [ne_eq, Node.mk.injEq] at hid ⊢
  rw [and_iff_right hid]
  simp only [not_and_or]

namespace Filing

variable {τ : Type} [Token τ] {filings : List (Filing τ)}

inductive Contradicts (before : List (Filing τ)) : Filing τ → Conflict τ → Prop where
  /-- The first record of the node is another one. -/
  | record {existing node : Node} (first : firstRecord? before node.id = some existing)
      (differ : existing.name ≠ node.name ∨ existing.datacenter ≠ node.datacenter ∨
        existing.rack ≠ node.rack) :
      Contradicts before (.record node) (.record existing node)
  /-- The first claim to the token is that of another node. -/
  | claim {t : τ} {existing id : NodeId} (first : firstClaimant? before t = some existing)
      (differ : existing ≠ id) :
      Contradicts before (.claim id t) (.token t existing id)

def Harmonious (filings : List (Filing τ)) : Prop :=
  ∀ before filing after, filings = before ++ filing :: after →
    ∀ conflict, ¬ filing.Contradicts before conflict

/-- The conflict that is found is how the filing contradicts the ones before it. -/
theorem conflict?_eq_some_iff {filing : Filing τ} {conflict : Conflict τ} :
    filing.conflict? filings = some conflict ↔ filing.Contradicts filings conflict := by
  cases filing with
  | record node =>
    rw [conflict?, clash_eq_some_iff]
    constructor
    · rintro ⟨existing, hfirst, hne, rfl⟩
      have hid := (record_mem_of_firstRecord? hfirst).2
      exact .record hfirst ((Node.ne_iff_of_id_eq hid).1 hne)
    · intro h
      cases h with
      | record hfirst hdiffer =>
        have hid := (record_mem_of_firstRecord? hfirst).2
        exact ⟨_, hfirst, (Node.ne_iff_of_id_eq hid).2 hdiffer, rfl⟩
  | claim id t =>
    rw [conflict?, clash_eq_some_iff]
    constructor
    · rintro ⟨existing, hfirst, hne, rfl⟩
      exact .claim hfirst hne
    · intro h
      cases h with
      | claim hfirst hne => exact ⟨_, hfirst, hne, rfl⟩

/-- The first conflict comes with the filings before it, among which there is none. -/
theorem exists_of_firstConflict? {conflict : Conflict τ}
    (h : firstConflict? filings = some conflict) :
    ∃ before filing after, filings = before ++ filing :: after ∧
      filing.conflict? before = some conflict ∧ firstConflict? before = none := by
  -- The last filing can make the report only if there is none yet.
  induction filings using List.reverseRecOn with
  | nil => cases h
  | append_singleton filings filing ih =>
    rw [firstConflict?_concat, Option.or_eq_some_iff] at h
    rcases h with hearlier | ⟨hnone, hlast⟩
    · obtain ⟨before, other, after, rfl, hother, hbefore⟩ := ih hearlier
      exact ⟨before, other, after ++ [filing], by simp, hother, hbefore⟩
    · exact ⟨filings, filing, [], rfl, hlast, hnone⟩

/-- There is no conflict exactly if no filing contradicts those before it. -/
theorem firstConflict?_eq_none_iff : firstConflict? filings = none ↔ Harmonious filings := by
  constructor
  · rintro h before filing after rfl conflict hcontra
    rw [← conflict?_eq_some_iff, conflict?_eq_none h] at hcontra
    cases hcontra
  · intro h
    cases hfirst : firstConflict? filings with
    | none => rfl
    | some conflict =>
      obtain ⟨before, filing, after, hsplit, hconflict, -⟩ := exists_of_firstConflict? hfirst
      exact absurd (conflict?_eq_some_iff.1 hconflict) (h before filing after hsplit conflict)

theorem firstConflict?_eq_some_iff {conflict : Conflict τ} :
    firstConflict? filings = some conflict ↔
      ∃ before filing after, filings = before ++ filing :: after ∧
        filing.Contradicts before conflict ∧ Harmonious before := by
  constructor
  · intro h
    obtain ⟨before, filing, after, hsplit, hconflict, hbefore⟩ := exists_of_firstConflict? h
    exact ⟨before, filing, after, hsplit, conflict?_eq_some_iff.1 hconflict,
      firstConflict?_eq_none_iff.1 hbefore⟩
  · rintro ⟨before, filing, after, rfl, hcontra, hbefore⟩
    rw [firstConflict?_append_cons, firstConflict?_eq_none_iff.2 hbefore, Option.none_or,
      conflict?_eq_some_iff.2 hcontra, Option.some_or]

end Filing

variable {p : Partitioner} {steps : List (Step p)}

namespace Builder

/-- A build fails with the first contradiction among all filings. -/
theorem build_run_eq_error_iff {conflict : Conflict p.Token} :
    (run steps).build = .error conflict ↔
      ∃ before filing after, filed steps = before ++ filing :: after ∧
        filing.Contradicts before conflict ∧ Filing.Harmonious before := by
  rw [build_eq_error_iff, (run_keeps steps).conflict_eq, Filing.firstConflict?_eq_some_iff]

/-- There is a ring exactly if the filings are harmonious. -/
theorem exists_build_run_iff :
    (∃ ring, (run steps).build = .ok ring) ↔ Filing.Harmonious (filed steps) := by
  rw [← Filing.firstConflict?_eq_none_iff, ← (run_keeps steps).conflict_eq]
  exact ⟨fun ⟨ring, h⟩ => conflict_of_build h, exists_build⟩

/-- A conflict stays, whatever is registered behind it. -/
theorem build_run_append_of_error {conflict : Conflict p.Token}
    (h : (run steps).build = .error conflict) (more : List (Step p)) :
    (run (steps ++ more)).build = .error conflict := by
  obtain ⟨before, filing, after, hsplit, hcontra, hbefore⟩ := build_run_eq_error_iff.1 h
  obtain ⟨rest, hrest⟩ := filed_prefix steps more
  rw [build_run_eq_error_iff]
  refine ⟨before, filing, after ++ rest, ?_, hcontra, hbefore⟩
  rw [← hrest, hsplit, List.append_assoc, List.cons_append]

end Builder

/-- No ring can be built if and only if some filing contradicts those before it. Then the earliest
contradiction is reported, and no further registration changes the report. -/
theorem build_firstConflict (steps : List (Step p)) :
    ((∃ conflict, (Builder.run steps).build = .error conflict) ↔
      ∃ before filing after conflict, filed steps = before ++ filing :: after ∧
        filing.Contradicts before conflict) ∧
    ∀ conflict, (Builder.run steps).build = .error conflict →
      (∃ before filing after, filed steps = before ++ filing :: after ∧
        filing.Contradicts before conflict ∧ Filing.Harmonious before) ∧
      ∀ more, (Builder.run (steps ++ more)).build = .error conflict := by
  refine ⟨⟨?_, ?_⟩, fun conflict hbuild => ?_⟩
  · rintro ⟨conflict, hbuild⟩
    obtain ⟨before, filing, after, hsplit, hcontra, -⟩ := Builder.build_run_eq_error_iff.1 hbuild
    exact ⟨before, filing, after, conflict, hsplit, hcontra⟩
  · rintro ⟨before, filing, after, conflict, hsplit, hcontra⟩
    cases hresult : (Builder.run steps).build with
    | error earliest => exact ⟨earliest, rfl⟩
    | ok ring =>
      -- A ring comes only from filings that contradict none before them.
      have hharmonious := Builder.exists_build_run_iff.1 ⟨ring, hresult⟩
      exact absurd hcontra (hharmonious before filing after hsplit conflict)
  · exact ⟨Builder.build_run_eq_error_iff.1 hbuild, Builder.build_run_append_of_error hbuild⟩

/-- The last registration brings another record and claims a token of another node. -/
def clashingSteps : List (Step .murmur3) :=
  [.addToken (⟨5⟩ : Murmur3Token) (.sample 1 "east" "r1"),
    .addTokens (.sample 2 "east" none) [(⟨7⟩ : Murmur3Token), (⟨-7⟩ : Murmur3Token)],
    .addTokens (.sample 1 "east" "r2") [(⟨-7⟩ : Murmur3Token), (⟨9⟩ : Murmur3Token)]]

/-- The other record comes before the claim, so it is the conflict that is reported. -/
theorem build_clashingSteps :
    (∃ before filing after, filed clashingSteps = before ++ filing :: after ∧
      filing.Contradicts before (.record (.sample 1 "east" "r1") (.sample 1 "east" "r2")) ∧
      Filing.Harmonious before) ∧
    (Builder.run (clashingSteps ++ [.addToken (⟨5⟩ : Murmur3Token) (.sample 2 "east" none)])).build =
      .error (.record (.sample 1 "east" "r1") (.sample 1 "east" "r2")) := by
  have hbuild : (Builder.run clashingSteps).build =
      .error (.record (.sample 1 "east" "r1") (.sample 1 "east" "r2")) :=
    Builder.build_eq_error_iff.2 (by decide +kernel)
  obtain ⟨hearliest, hmore⟩ := (build_firstConflict clashingSteps).2 _ hbuild
  exact ⟨hearliest, hmore _⟩

end TokenRing
