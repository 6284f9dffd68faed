import Mathlib.Algebra.Ring.Nat
import Mathlib.Data.List.Induction
import TokenRing.Text.Hex

/-!
# Reading hexadecimal back

A number that fits into a fixed count of digits is read back from them, and digits of either case
give a number if and only if they are its digits in lower case.
-/

namespace TokenRing.Text

/-! ### Digits -/

theorem hexValue?_hexDigit {d : Nat} (h : d < 16) : hexValue? (hexDigit d) = some d := by
  have hall : ∀ d : Fin 16, hexValue? (hexDigit d) = some d.val := by decide
  exact hall ⟨d, h⟩

/-! ### Texts of numbers -/

theorem length_hexFixed (width n : Nat) : (hexFixed width n).length = width := by
  induction width generalizing n with
  | zero => rfl
  | succ width ih => rw [hexFixed, List.length_append, ih, List.length_singleton]

theorem digitChar_eq_hexDigit {d : Nat} (h : d < 16) : Nat.digitChar d = hexDigit d := by
  have hall : ∀ d : Fin 16, Nat.digitChar d = hexDigit d := by decide
  exact hall ⟨d, h⟩

/-- A fixed count of digits is the digits to base 16 with zeros before them, if they are no more. -/
theorem hexFixed_eq_leftpad {width n : Nat} (h : n < 16 ^ (width + 1)) :
    hexFixed (width + 1) n = (Nat.toDigits 16 n).leftpad (width + 1) '0' := by
  induction width generalizing n with
  | zero =>
    have hn : n < 16 := by omega
    rw [hexFixed, hexFixed, Nat.mod_eq_of_lt hn, Nat.toDigits_of_lt_base hn,
      digitChar_eq_hexDigit hn]
    rfl
  | succ width ih =>
    have hmore : n / 16 < 16 ^ (width + 1) := by omega
    have hlast : hexDigit (n % 16) = Nat.digitChar (n % 16) :=
      (digitChar_eq_hexDigit (Nat.mod_lt n (by decide))).symm
    rw [hexFixed, ih hmore, hlast]
    by_cases hn : n < 16
    · -- Only zeros come before the one digit.
      rw [Nat.div_eq_of_lt hn, Nat.mod_eq_of_lt hn, Nat.toDigits_of_lt_base hn]
      simp [List.leftpad, Nat.toDigits_zero, ← List.replicate_succ']
    · rw [Nat.toDigits_of_base_le (by decide : 1 < 16) (Nat.le_of_not_lt hn)]
      simp [List.leftpad]

theorem readHex?_append (value : Nat) (digits more : List Char) :
    readHex? value (digits ++ more) = (readHex? value digits).bind fun n => readHex? n more := by
  induction digits generalizing value with
  | nil => rfl
  | cons c rest ih =>
    rw [List.cons_append, readHex?, readHex?]
    cases hexValue? c with
    | none => rfl
    | some d => exact ih _

/-- A number that fits into the digits is read back from them. -/
theorem readHex?_hexFixed {width n : Nat} (h : n < 16 ^ width) :
    readHex? 0 (hexFixed width n) = some n := by
  induction width generalizing n with
  | zero =>
    obtain rfl : n = 0 := by omega
    rfl
  | succ width ih =>
    have hmore : n / 16 < 16 ^ width := by omega
    have hlast : hexValue? (hexDigit (n % 16)) = some (n % 16) := hexValue?_hexDigit (by omega)
    rw [hexFixed, readHex?_append, ih hmore, Option.bind_some, readHex?, hlast]
    show some (16 * (n / 16) + n % 16) = some n
    rw [Nat.div_add_mod]

/-! ### Digits of either case -/

/-- What is stated of the digits of either case is checked on the first 128 characters. -/
theorem exists_eq_ofNat {c : Char} (h : c.toNat < 128) : ∃ n : Fin 128, c = Char.ofNat n :=
  ⟨⟨c.toNat, h⟩, (Char.ofNat_toNat c).symm⟩

theorem toNat_lt_of_hexValue? {c : Char} {d : Nat} (h : hexValue? c = some d) : c.toNat < 128 := by
  unfold hexValue? at h
  split at h
  · next hdigit => exact Nat.lt_of_le_of_lt hdigit.2 (by decide)
  split at h
  · next hlower => exact Nat.lt_of_le_of_lt hlower.2 (by decide)
  split at h
  · next hupper => exact Nat.lt_of_le_of_lt hupper.2 (by decide)
  · cases h

/-- A digit of either case has the value that it has in lower case. -/
theorem hexValue?_eq_some_iff {c : Char} {d : Nat} :
    hexValue? c = some d ↔ d < 16 ∧ c.toLower = hexDigit d := by
  constructor
  · intro h
    have hall : ∀ n : Fin 128, ∀ d ∈ hexValue? (Char.ofNat n),
        d < 16 ∧ (Char.ofNat n).toLower = hexDigit d := by decide
    obtain ⟨n, rfl⟩ := exists_eq_ofNat (toNat_lt_of_hexValue? h)
    exact hall n d h
  · rintro ⟨hd, h⟩
    rw [← hexValue?_hexDigit hd, ← h]
    -- Only capital letters differ from their lower case, and they are among those characters.
    by_cases hupper : c.val ≥ 'A'.val ∧ c.val ≤ 'Z'.val
    · have hall : ∀ n : Fin 128, hexValue? (Char.ofNat n) = hexValue? (Char.ofNat n).toLower := by
        decide
      obtain ⟨n, rfl⟩ := exists_eq_ofNat (Nat.lt_of_le_of_lt hupper.2 (by decide))
      exact hall n
    · have hsame : c.toLower = c := dif_neg hupper
      rw [hsame]

theorem exists_of_mem_hexFixed {width n : Nat} {c : Char} (h : c ∈ hexFixed width n) :
    ∃ d < 16, c = hexDigit d := by
  induction width generalizing n with
  | zero => cases h
  | succ width ih =>
    rcases List.mem_append.1 h with hmore | hlast
    · exact ih hmore
    · exact ⟨n % 16, Nat.mod_lt n (by decide), List.mem_singleton.1 hlast⟩

/-- A hexadecimal digit is a letter or a decimal digit, and never both. -/
theorem isDigit_eq_of_hexValue? {c : Char} {d : Nat} (h : hexValue? c = some d) :
    c.isDigit = !c.isAlpha := by
  have hall : ∀ n : Fin 128, ∀ d ∈ hexValue? (Char.ofNat n),
      (Char.ofNat n).isDigit = !(Char.ofNat n).isAlpha := by decide
  obtain ⟨n, rfl⟩ := exists_eq_ofNat (toNat_lt_of_hexValue? h)
  exact hall n d h

/-- Digits are read as a number if in lower case they are its digits. -/
theorem readHex?_eq_some_iff {digits : List Char} {n : Nat} :
    readHex? 0 digits = some n ↔
      n < 16 ^ digits.length ∧ digits.map Char.toLower = hexFixed digits.length n := by
  -- From the back, where both the value and the text of the number end in the last digit.
  induction digits using List.reverseRecOn generalizing n with
  | nil => simp [readHex?, hexFixed, eq_comm]
  | append_singleton digits c ih =>
    rw [readHex?_append, Option.bind_eq_some_iff, List.map_append, List.map_singleton,
      List.length_append, List.length_singleton, hexFixed, List.append_singleton_inj]
    simp only [readHex?, ih, Option.bind_eq_bind, Option.bind_eq_some_iff, hexValue?_eq_some_iff,
      Option.some.injEq]
    constructor
    · rintro ⟨m, ⟨hm, hdigits⟩, d, ⟨hd, hc⟩, rfl⟩
      have hmore : (16 * m + d) / 16 = m := by omega
      have hlast : (16 * m + d) % 16 = d := by omega
      rw [hmore, hlast]
      exact ⟨by omega, hdigits, hc⟩
    · rintro ⟨hn, hdigits, hc⟩
      exact ⟨n / 16, ⟨by omega, hdigits⟩, n % 16, ⟨by omega, hc⟩, by omega⟩

end TokenRing.Text
