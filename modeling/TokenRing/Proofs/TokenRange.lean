import Mathlib.Logic.Basic
import TokenRing.TokenRange
import TokenRing.TokenSpace

/-!
# Ranges with a common end

How the tokens of two ranges compare that end or begin at the same token, wherever on the circle the
tokens are. A range is cut at one of its tokens into two ranges that have no token in common.
-/

namespace TokenRing.TokenRange

variable {τ : Type} [Token τ] {a b c s t : τ}

theorem contains_self (a t : τ) : (⟨a, a⟩ : TokenRange τ).contains t = true :=
  contains_iff.2 (.inl rfl)

/-- A range grows when it is begun at a token that it leaves out. -/
theorem contains_of_not_contains_start (hs : ¬ (⟨a, b⟩ : TokenRange τ).contains s = true)
    (ht : (⟨a, b⟩ : TokenRange τ).contains t = true) :
    (⟨s, b⟩ : TokenRange τ).contains t = true := by
  rw [contains_iff] at *
  dsimp only at *
  grind

/-- What a range loses at its front is the range up to the new start. -/
theorem contains_of_not_contains_front (hs : ¬ (⟨a, b⟩ : TokenRange τ).contains s = true)
    (ht : ¬ (⟨a, b⟩ : TokenRange τ).contains t = true)
    (h : (⟨a, s⟩ : TokenRange τ).contains t = true) :
    (⟨b, s⟩ : TokenRange τ).contains t = true := by
  rw [contains_iff] at *
  dsimp only at *
  grind

/-! ### Cutting a range -/

/-- Counted from its start on, each token of a range comes before the stop or is the stop itself. So
a range that begins at the same token and stops at a token of the other one is a part of it. -/
theorem contains_trans (hc : (⟨a, b⟩ : TokenRange τ).contains c = true)
    (ht : (⟨a, c⟩ : TokenRange τ).contains t = true) :
    (⟨a, b⟩ : TokenRange τ).contains t = true := by
  rw [contains_iff] at *
  dsimp only at *
  grind

/-- Behind one of its tokens a range has what it has not up to there. -/
theorem contains_behind_iff (hc : (⟨a, b⟩ : TokenRange τ).contains c = true) (hne : c ≠ b) :
    (⟨c, b⟩ : TokenRange τ).contains t = true ↔
      (⟨a, b⟩ : TokenRange τ).contains t = true ∧ ¬ (⟨a, c⟩ : TokenRange τ).contains t = true := by
  have hlt : c < b ∨ b < c := by grind
  simp only [contains_iff]
  rcases contains_iff.1 hc with hfull | ⟨hwraps, hcut⟩ | ⟨hplain, hcut⟩
  · -- One of the two parts passes the greatest token, and the other one has the rest.
    dsimp only at hfull
    subst hfull
    rcases hlt with hlt | hlt <;> grind
  · dsimp only at hwraps hcut
    rcases hcut with hbefore | hbehind
    · have hback : b < c := Std.lt_trans hwraps hbefore
      grind
    · have hback : c < b := by grind
      grind
  · dsimp only at hplain hcut
    have hback : c < b := by grind
    grind

/-- A range is cut at one of its tokens, unless this is its stop, into the range up to the token and
the range behind it. A token is in the whole range if and only if it is in exactly one of them, and
no token is in both. So the two parts of the whole ring are the complements of each other. -/
theorem contains_cut (hc : (⟨a, b⟩ : TokenRange τ).contains c = true) (hne : c ≠ b) (t : τ) :
    ((⟨a, b⟩ : TokenRange τ).contains t = true ↔
      Xor ((⟨a, c⟩ : TokenRange τ).contains t = true)
        ((⟨c, b⟩ : TokenRange τ).contains t = true)) ∧
    ¬ ((⟨a, c⟩ : TokenRange τ).contains t = true ∧ (⟨c, b⟩ : TokenRange τ).contains t = true) ∧
    (a = b → (⟨c, b⟩ : TokenRange τ).contains t = !(⟨a, c⟩ : TokenRange τ).contains t) := by
  have hbehind := contains_behind_iff (t := t) hc hne
  refine ⟨⟨fun ht => ?_, fun hone => ?_⟩, fun hboth => ?_, fun hfull => ?_⟩
  · by_cases hfront : (⟨a, c⟩ : TokenRange τ).contains t = true
    · exact .inl ⟨hfront, fun hback => (hbehind.1 hback).2 hfront⟩
    · exact .inr ⟨hbehind.2 ⟨ht, hfront⟩, hfront⟩
  · rcases hone with ⟨hfront, -⟩ | ⟨hback, -⟩
    · exact contains_trans hc hfront
    · exact (hbehind.1 hback).1
  · exact (hbehind.1 hboth.2).2 hboth.1
  · subst hfull
    rw [contains_self, and_iff_right rfl, Bool.not_eq_true] at hbehind
    cases hfront : (⟨a, c⟩ : TokenRange τ).contains t <;> simp_all

/-- The stop of the whole ring is behind the cut, and only there. -/
theorem contains_cut_wholeRing :
    (⟨⟨3⟩, ⟨3⟩⟩ : TokenRange Murmur3Token).contains ⟨-5⟩ = true ∧
    (⟨-5⟩ : Murmur3Token) ≠ ⟨3⟩ ∧
    Xor ((⟨⟨3⟩, ⟨-5⟩⟩ : TokenRange Murmur3Token).contains ⟨3⟩ = true)
      ((⟨⟨-5⟩, ⟨3⟩⟩ : TokenRange Murmur3Token).contains ⟨3⟩ = true) ∧
    (⟨⟨-5⟩, ⟨3⟩⟩ : TokenRange Murmur3Token).contains ⟨3⟩ =
      !(⟨⟨3⟩, ⟨-5⟩⟩ : TokenRange Murmur3Token).contains ⟨3⟩ := by
  have hc : (⟨⟨3⟩, ⟨3⟩⟩ : TokenRange Murmur3Token).contains ⟨-5⟩ = true := by decide
  have hne : (⟨-5⟩ : Murmur3Token) ≠ ⟨3⟩ := by decide
  obtain ⟨hone, -, hcomplement⟩ := contains_cut hc hne ⟨3⟩
  exact ⟨hc, hne, hone.1 (contains_self _ _), hcomplement rfl⟩

end TokenRing.TokenRange
