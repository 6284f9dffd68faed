import Mathlib.Data.List.TakeDrop
import TokenRing.Json.Numeral
import TokenRing.Proofs.Text.Decimal

/-!
# Reading whole numbers back

The decimal text of a natural number is read up to its end, where no digit may follow, and stands
for the number.
-/

namespace TokenRing.Json

theorem isDigit_of_mem_decimal {n : Nat} {c : Char} (h : c ∈ Text.decimal n) :
    isDigit c = true := by
  have hall : ∀ d : Fin 10, isDigit (Text.decimalDigit d) = true := by decide
  obtain ⟨d, hd, rfl⟩ := Text.exists_of_mem_decimal h
  exact hall ⟨d, hd⟩

theorem natural_append_singleton (digits : List Char) (c : Char) :
    Numeral.natural (digits ++ [c]) = 10 * Numeral.natural digits + (c.toNat - '0'.toNat) := by
  rw [Numeral.natural, List.foldl_append]
  rfl

theorem natural_decimal (n : Nat) : Numeral.natural (Text.decimal n) = n := by
  have hdigit : ∀ d : Fin 10, (Text.decimalDigit d).toNat - '0'.toNat = d.val := by decide
  induction n using Text.decimal.induct with
  | case1 n hn =>
    rw [Text.decimal, if_pos hn, ← List.nil_append [Text.decimalDigit n], natural_append_singleton,
      hdigit ⟨n, hn⟩]
    exact Nat.zero_add n
  | case2 n hn ih =>
    have hlast : n % 10 < 10 := Nat.mod_lt n (by decide)
    rw [Text.decimal, if_neg hn, natural_append_singleton, ih, hdigit ⟨n % 10, hlast⟩,
      Nat.div_add_mod]

variable {rest : List Char} (hrest : ∀ c, rest.head? = some c → isDigit c = false)

include hrest

/-- All digits of a number are taken, and no more, where no digit follows them. -/
theorem span_decimal (n : Nat) :
    (Text.decimal n ++ rest).span isDigit = (Text.decimal n, rest) := by
  have hdigits : ∀ c ∈ Text.decimal n, isDigit c = true := fun c => isDigit_of_mem_decimal
  rw [List.span_eq_takeWhile_dropWhile, List.takeWhile_append_of_pos hdigits,
    List.dropWhile_append_of_pos hdigits]
  cases rest with
  | nil => simp
  | cons c rest => simp [hrest c rfl]

theorem readWhole_decimal (cut : Fault) (n : Nat) :
    readWhole cut (Text.decimal n ++ rest) = .ok (Text.decimal n, rest) := by
  have hdigits : readDigits cut (Text.decimal n ++ rest) = .ok (Text.decimal n, rest) := by
    rw [readDigits, span_decimal hrest]
    split
    · next heq => exact absurd (congrArg Prod.fst heq) (Text.decimal_ne_nil n)
    · next heq => exact absurd (congrArg Prod.fst heq) (Text.decimal_ne_nil n)
    · next heq => rw [heq]
  simp only [readWhole, hdigits, bind, Except.bind]
  split
  · -- Only zero begins with a zero, and has no second digit.
    next heq =>
    have hlong : Text.decimal n = '0' :: _ :: _ := congrArg Prod.fst heq
    have hone : Text.decimal 0 = ['0'] := by
      rw [Text.decimal]
      rfl
    rw [Text.eq_zero_of_head?_decimal (congrArg List.head? hlong), hone] at hlong
    cases hlong
  · rfl

end TokenRing.Json
