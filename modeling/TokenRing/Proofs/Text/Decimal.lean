import Mathlib.Algebra.Ring.Nat
import Mathlib.Data.List.Induction
import TokenRing.Proofs.Traversal
import TokenRing.Text.Blank
import TokenRing.Text.Decimal

/-!
# Reading decimal integers

A reader accepts digits if and only if the number they denote is within its limit, and then gives
that number. The decimal text of an integer denotes the integer, so it reads back as it was wherever
the reader's range has it. Any digits are the decimal text of the number they denote, with zeros
before it.
-/

namespace TokenRing.Text

/-! ### Digits -/

theorem decimalValue?_decimalDigit {d : Nat} (h : d < 10) :
    decimalValue? (decimalDigit d) = some d := by
  have hall : ∀ d : Fin 10, decimalValue? (decimalDigit d) = some d.val := by decide
  exact hall ⟨d, h⟩

theorem isBlank_decimalDigit {d : Nat} (h : d < 10) : isBlank (decimalDigit d) = false := by
  have hall : ∀ d : Fin 10, isBlank (decimalDigit d) = false := by decide
  exact hall ⟨d, h⟩

/-- The number that digits write after those of a value, if all of them are digits. -/
def writtenAfter? (value : Nat) : List Char → Option Nat
  | [] => some value
  | c :: rest => (decimalValue? c).bind fun d => writtenAfter? (10 * value + d) rest

theorem writtenAfter?_append (value : Nat) (digits more : List Char) :
    writtenAfter? value (digits ++ more) =
      (writtenAfter? value digits).bind fun n => writtenAfter? n more := by
  induction digits generalizing value with
  | nil => rfl
  | cons c rest ih =>
    rw [List.cons_append, writtenAfter?, writtenAfter?, Option.bind_assoc]
    congr 1
    funext d
    exact ih _

theorem le_of_writtenAfter? {value n : Nat} {digits : List Char}
    (h : writtenAfter? value digits = some n) : value ≤ n := by
  induction digits generalizing value with
  | nil => exact Nat.le_of_eq (Option.some.inj h)
  | cons c rest ih =>
    obtain ⟨d, -, hrest⟩ := Option.bind_eq_some_iff.1 h
    have hle := ih hrest
    omega

/-- Digits only make a number greater, so it passes the limit at some digit if it does in the
end. -/
theorem readDigits_eq_ok_iff {limit value n : Nat} (beyond : IntegerFault) {digits : List Char}
    (h : value ≤ limit) :
    readDigits limit beyond value digits = .ok n ↔
      writtenAfter? value digits = some n ∧ n ≤ limit := by
  -- On the digits still to come, with any value within the limit read so far.
  induction digits generalizing value with
  | nil =>
    rw [readDigits, writtenAfter?, Except.ok.injEq, Option.some.injEq]
    apply (and_iff_left_of_imp _).symm
    rintro rfl
    exact h
  | cons c rest ih =>
    rw [readDigits, writtenAfter?]
    cases hdigit : decimalValue? c with
    | none => simp
    | some d =>
      rw [Option.bind_some]
      dsimp only
      split
      · next hle => exact ih hle
      · next hgt =>
        apply iff_of_false nofun
        rintro ⟨hwritten, hle⟩
        exact hgt (Nat.le_trans (le_of_writtenAfter? hwritten) hle)

/-! ### Texts of numbers -/

theorem digitChar_eq_decimalDigit {d : Nat} (h : d < 10) : Nat.digitChar d = decimalDigit d := by
  have hall : ∀ d : Fin 10, Nat.digitChar d = decimalDigit d := by decide
  exact hall ⟨d, h⟩

/-- The decimal text of a number is its digits to base ten. -/
theorem decimal_eq_toDigits (n : Nat) : decimal n = Nat.toDigits 10 n := by
  induction n using decimal.induct with
  | case1 n hn =>
    rw [decimal, if_pos hn, Nat.toDigits_of_lt_base hn, digitChar_eq_decimalDigit hn]
  | case2 n hn ih =>
    rw [decimal, if_neg hn, ih, Nat.toDigits_of_base_le (by decide) (Nat.le_of_not_lt hn),
      digitChar_eq_decimalDigit (Nat.mod_lt n (by decide))]

/-- The text of a natural number is the one that the standard library gives it. -/
theorem ofList_decimal (n : Nat) : String.ofList (decimal n) = toString n := by
  rw [decimal_eq_toDigits, Nat.toString_eq_ofList_toDigits]

/-- The text of an integer is the one that the standard library gives it. -/
theorem ofList_signedDecimal (n : Int) : String.ofList (signedDecimal n) = toString n := by
  cases n with
  | ofNat m =>
    have hpos : ¬ Int.ofNat m < 0 := Int.not_lt.2 (Int.natCast_nonneg m)
    rw [signedDecimal, if_neg hpos]
    exact ofList_decimal m
  | negSucc m =>
    rw [signedDecimal, if_pos (Int.negSucc_lt_zero m), Int.natAbs_negSucc]
    show String.ofList ('-' :: decimal (m + 1)) = "-" ++ toString (m + 1)
    rw [← ofList_decimal, ← List.singleton_append, String.ofList_append]

theorem decimal_ne_nil (n : Nat) : decimal n ≠ [] := by
  unfold decimal
  split <;> simp

theorem exists_of_mem_decimal {n : Nat} {c : Char} (h : c ∈ decimal n) :
    ∃ d, d < 10 ∧ c = decimalDigit d := by
  induction n using decimal.induct with
  | case1 n hn =>
    rw [decimal, if_pos hn] at h
    exact ⟨n, hn, List.mem_singleton.1 h⟩
  | case2 n hn ih =>
    rw [decimal, if_neg hn] at h
    rcases List.mem_append.1 h with hmore | hlast
    · exact ih hmore
    · exact ⟨n % 10, Nat.mod_lt n (by decide), List.mem_singleton.1 hlast⟩

/-- Only zero begins with a zero. -/
theorem eq_zero_of_head?_decimal {n : Nat} (h : (decimal n).head? = some '0') : n = 0 := by
  induction n using decimal.induct with
  | case1 n hn =>
    have hall : ∀ d : Fin 10, decimalDigit d = '0' → d.val = 0 := by decide
    rw [decimal, if_pos hn] at h
    exact hall ⟨n, hn⟩ (Option.some.inj h)
  | case2 n hn ih =>
    obtain ⟨c, rest, heq⟩ := List.exists_cons_of_ne_nil (decimal_ne_nil (n / 10))
    rw [decimal, if_neg hn, heq] at h
    rw [heq] at ih
    have hmore : n / 10 = 0 := ih h
    omega

/-- The digits of a number write this number. -/
theorem writtenAfter?_decimal (n : Nat) : writtenAfter? 0 (decimal n) = some n := by
  induction n using decimal.induct with
  | case1 n hn =>
    rw [decimal, if_pos hn, writtenAfter?, decimalValue?_decimalDigit hn, Option.bind_some,
      writtenAfter?, Nat.mul_zero, Nat.zero_add]
  | case2 n hn ih =>
    have hlast : n % 10 < 10 := Nat.mod_lt n (by decide)
    rw [decimal, if_neg hn, writtenAfter?_append, ih, Option.bind_some, writtenAfter?,
      decimalValue?_decimalDigit hlast, Option.bind_some, Nat.div_add_mod]
    rfl

theorem readMagnitude_decimal {limit n : Nat} (beyond : IntegerFault) (h : n ≤ limit) :
    readMagnitude limit beyond (decimal n) = .ok n := by
  rw [readMagnitude, List.isEmpty_eq_false_iff.2 (decimal_ne_nil n), if_neg Bool.false_ne_true]
  exact (readDigits_eq_ok_iff beyond (Nat.zero_le limit)).2 ⟨writtenAfter?_decimal n, h⟩

/-- A sign is no digit. -/
theorem ne_of_decimal_eq_cons {n : Nat} {c sign : Char} {rest : List Char}
    (h : decimal n = c :: rest) (hsign : decimalValue? sign = none) : c ≠ sign := by
  have hmem : c ∈ decimal n := by
    rw [h]
    exact List.mem_cons_self
  obtain ⟨d, hd, rfl⟩ := exists_of_mem_decimal hmem
  rintro rfl
  rw [decimalValue?_decimalDigit hd] at hsign
  cases hsign

/-- A natural number in range is read back from its text. -/
theorem parseNat_decimal {greatest n : Nat} (h : n ≤ greatest) :
    parseNat greatest (decimal n) = .ok n := by
  unfold parseNat
  split
  · next hnil => exact absurd hnil (decimal_ne_nil n)
  · next hplus => exact absurd rfl (ne_of_decimal_eq_cons hplus rfl)
  · exact readMagnitude_decimal .tooLarge h

/-- An integer in range is read back from its text. -/
theorem parseInt_signedDecimal {depth greatest : Nat} {n : Int} (hdepth : -depth ≤ n)
    (hgreatest : n ≤ greatest) : parseInt depth greatest (signedDecimal n) = .ok n := by
  unfold signedDecimal
  split
  · next hneg =>
    have hmagnitude : readMagnitude depth .tooSmall (decimal n.natAbs) = .ok n.natAbs :=
      readMagnitude_decimal .tooSmall (by omega)
    rw [parseInt, hmagnitude]
    show Except.ok (-(n.natAbs : Int)) = .ok n
    congr 1
    omega
  · next hnonneg =>
    have hnat : parseNat greatest (decimal n.natAbs) = .ok n.natAbs := parseNat_decimal (by omega)
    unfold parseInt
    split
    · next hminus => exact absurd rfl (ne_of_decimal_eq_cons hminus rfl)
    · rw [hnat]
      show Except.ok (n.natAbs : Int) = .ok n
      congr 1
      exact Int.natAbs_of_nonneg (Int.not_lt.1 hnonneg)

theorem isBlank_of_mem_decimal {n : Nat} {c : Char} (h : c ∈ decimal n) : isBlank c = false := by
  obtain ⟨d, hd, rfl⟩ := exists_of_mem_decimal h
  exact isBlank_decimalDigit hd

theorem isBlank_of_mem_signedDecimal {n : Int} {c : Char} (h : c ∈ signedDecimal n) :
    isBlank c = false := by
  unfold signedDecimal at h
  split at h
  · rcases List.mem_cons.1 h with rfl | hmem
    · rfl
    · exact isBlank_of_mem_decimal hmem
  · exact isBlank_of_mem_decimal h

/-! ### Digits that denote a number -/

/-- Digits that denote a number in decimal. There may be zeros before the others. -/
structure Denotes (digits : List Char) (n : Nat) : Prop where
  ne_nil : digits ≠ []
  isDigit : ∀ c ∈ digits, c.isDigit = true
  value_eq : Nat.ofDigitChars 10 digits 0 = n

theorem decimalValue?_eq_some_iff {c : Char} {d : Nat} :
    decimalValue? c = some d ↔ c.isDigit = true ∧ c.toNat - '0'.toNat = d := by
  have hdigit : c.isDigit = true ↔ '0' ≤ c ∧ c ≤ '9' := by
    rw [Char.isDigit, Bool.and_eq_true, decide_eq_true_eq, decide_eq_true_eq]
    rfl
  rw [hdigit, decimalValue?]
  split
  · next h => rw [and_iff_right h, Option.some.injEq]
  · next h => exact iff_of_false nofun fun hd => h hd.1

/-- The value that is computed on the way is that of all digits at once. -/
theorem writtenAfter?_eq_some_iff {value n : Nat} {digits : List Char} :
    writtenAfter? value digits = some n ↔
      (∀ c ∈ digits, c.isDigit = true) ∧ Nat.ofDigitChars 10 digits value = n := by
  induction digits generalizing value with
  | nil => simp [writtenAfter?, Nat.ofDigitChars]
  | cons c rest ih =>
    rw [writtenAfter?, Option.bind_eq_some_iff, Nat.ofDigitChars_cons, List.forall_mem_cons]
    simp only [decimalValue?_eq_some_iff, ih]
    constructor
    · rintro ⟨d, ⟨hc, rfl⟩, hrest, hvalue⟩
      exact ⟨⟨hc, hrest⟩, hvalue⟩
    · rintro ⟨⟨hc, hrest⟩, hvalue⟩
      exact ⟨_, ⟨hc, rfl⟩, hrest, hvalue⟩

theorem denotes_iff {digits : List Char} {n : Nat} :
    Denotes digits n ↔ digits ≠ [] ∧ writtenAfter? 0 digits = some n := by
  rw [writtenAfter?_eq_some_iff]
  exact ⟨fun h => ⟨h.ne_nil, h.isDigit, h.value_eq⟩, fun h => ⟨h.1, h.2.1, h.2.2⟩⟩

/-- Digits are read if they denote a number up to the limit. -/
theorem readMagnitude_eq_ok_iff {limit n : Nat} (beyond : IntegerFault) {digits : List Char} :
    readMagnitude limit beyond digits = .ok n ↔ Denotes digits n ∧ n ≤ limit := by
  rw [readMagnitude, denotes_iff, and_assoc]
  cases digits with
  | nil => simp
  | cons c rest =>
    rw [List.isEmpty_cons, if_neg Bool.false_ne_true,
      readDigits_eq_ok_iff beyond (Nat.zero_le limit)]
    simp

/-- A sign is no digit, so it cannot be the first one. -/
theorem Denotes.ne_cons {digits rest : List Char} {n : Nat} {sign : Char} (h : Denotes digits n)
    (hsign : sign.isDigit = false) : digits ≠ sign :: rest := by
  rintro rfl
  have hdigit := h.isDigit sign List.mem_cons_self
  rw [hsign] at hdigit
  cases hdigit

/-- A natural number is read from its digits, with a plus sign or without. -/
theorem parseNat_eq_ok_iff {greatest n : Nat} {text : List Char} :
    parseNat greatest text = .ok n ↔
      n ≤ greatest ∧ ∃ digits, Denotes digits n ∧ (text = digits ∨ text = '+' :: digits) := by
  unfold parseNat
  split
  · constructor
    · nofun
    · rintro ⟨-, digits, hdigits, rfl | h⟩
      · exact absurd rfl hdigits.ne_nil
      · cases h
  · next digits =>
    rw [readMagnitude_eq_ok_iff, and_comm]
    constructor
    · rintro ⟨hle, hdigits⟩
      exact ⟨hle, digits, hdigits, .inr rfl⟩
    · rintro ⟨hle, digits', hdigits, rfl | h⟩
      · exact absurd rfl (hdigits.ne_cons rfl)
      · obtain rfl := List.tail_eq_of_cons_eq h
        exact ⟨hle, hdigits⟩
  · next hnil hplus =>
    rw [readMagnitude_eq_ok_iff, and_comm]
    constructor
    · rintro ⟨hle, hdigits⟩
      exact ⟨hle, text, hdigits, .inl rfl⟩
    · rintro ⟨hle, digits', hdigits, rfl | rfl⟩
      · exact ⟨hle, hdigits⟩
      · exact absurd rfl (hplus digits')

/-- An integer is read from a sign and digits, each sign with a limit of its own. -/
theorem parseInt_eq_ok_iff {depth greatest : Nat} {n : Int} {text : List Char} :
    parseInt depth greatest text = .ok n ↔ ∃ m digits, Denotes digits m ∧
      ((text = digits ∨ text = '+' :: digits) ∧ m ≤ greatest ∧ n = m ∨
        text = '-' :: digits ∧ m ≤ depth ∧ n = -m) := by
  unfold parseInt
  split
  · next digits =>
    simp only [Except.map_eq_ok_iff, Except.bind_eq_ok_iff, readMagnitude_eq_ok_iff]
    constructor
    · rintro ⟨-, ⟨m, ⟨hdigits, hle⟩, ⟨⟩⟩, rfl⟩
      exact ⟨m, digits, hdigits, .inr ⟨rfl, hle, rfl⟩⟩
    · rintro ⟨m, digits', hdigits, ⟨rfl | h, -, -⟩ | ⟨h, hle, rfl⟩⟩
      · exact absurd rfl (hdigits.ne_cons rfl)
      · cases h
      · obtain rfl := List.tail_eq_of_cons_eq h
        exact ⟨m, ⟨m, ⟨hdigits, hle⟩, rfl⟩, rfl⟩
  · next hminus =>
    simp only [Except.map_eq_ok_iff, parseNat_eq_ok_iff]
    constructor
    · rintro ⟨m, ⟨hle, digits, hdigits, htext⟩, rfl⟩
      exact ⟨m, digits, hdigits, .inl ⟨htext, hle, rfl⟩⟩
    · rintro ⟨m, digits, hdigits, ⟨htext, hle, rfl⟩ | ⟨rfl, -, -⟩⟩
      · exact ⟨m, ⟨hle, digits, hdigits, htext⟩, rfl⟩
      · exact absurd rfl (hminus digits)

def WritesInteger (text : List Char) (n : Int) : Prop :=
  ∃ digits m, Denotes digits m ∧
    ((text = digits ∨ text = '+' :: digits) ∧ n = m ∨ text = '-' :: digits ∧ n = -m)

def WritesNatural (text : List Char) (n : Nat) : Prop :=
  ∃ digits, Denotes digits n ∧ (text = digits ∨ text = '+' :: digits)

/-- An integer with a minus sign cannot be too great, and one without it cannot be too small. -/
theorem parseInt_eq_ok_iff_writesInteger {depth greatest : Nat} {n : Int} {text : List Char} :
    parseInt depth greatest text = .ok n ↔ WritesInteger text n ∧ -depth ≤ n ∧ n ≤ greatest := by
  rw [parseInt_eq_ok_iff]
  constructor
  · rintro ⟨m, digits, hdigits, ⟨htext, hle, rfl⟩ | ⟨htext, hle, rfl⟩⟩
    · exact ⟨⟨digits, m, hdigits, .inl ⟨htext, rfl⟩⟩, by omega, by omega⟩
    · exact ⟨⟨digits, m, hdigits, .inr ⟨htext, rfl⟩⟩, by omega, by omega⟩
  · rintro ⟨⟨digits, m, hdigits, ⟨htext, rfl⟩ | ⟨htext, rfl⟩⟩, hdepth, hgreatest⟩
    · exact ⟨m, digits, hdigits, .inl ⟨htext, by omega, rfl⟩⟩
    · exact ⟨m, digits, hdigits, .inr ⟨htext, by omega, rfl⟩⟩

theorem lt_of_decimalValue? {c : Char} {d : Nat} (h : decimalValue? c = some d) :
    d < 10 ∧ c = decimalDigit d := by
  unfold decimalValue? at h
  split at h
  · next hrange =>
    obtain rfl := Option.some.inj h
    have hleast : '0'.toNat ≤ c.toNat := hrange.1
    have hgreatest : c.toNat ≤ '9'.toNat := hrange.2
    constructor
    · exact Nat.sub_lt_left_of_lt_add hleast (Nat.lt_succ_of_le hgreatest)
    · rw [decimalDigit, Nat.add_sub_cancel' hleast, Char.ofNat_toNat]
  · cases h

theorem writtenAfter?_replicate_zero (zeros : Nat) :
    writtenAfter? 0 (List.replicate zeros '0') = some 0 := by
  induction zeros with
  | zero => rfl
  | succ zeros ih => exact ih

theorem decimal_of_lt {d : Nat} (h : d < 10) : decimal d = [decimalDigit d] := by
  rw [decimal, if_pos h]

theorem decimal_append_digit {n d : Nat} (hn : 0 < n) (hd : d < 10) :
    decimal (10 * n + d) = decimal n ++ [decimalDigit d] := by
  have hmore : (10 * n + d) / 10 = n := by omega
  have hlast : (10 * n + d) % 10 = d := by omega
  rw [decimal, if_neg (by omega), hmore, hlast]

/-- As many digits as there are bound the number. -/
theorem lt_of_writtenAfter? {value n : Nat} {digits : List Char}
    (h : writtenAfter? value digits = some n) : n < (value + 1) * 10 ^ digits.length := by
  induction digits generalizing value with
  | nil =>
    obtain rfl := Option.some.inj h
    rw [List.length_nil, Nat.pow_zero, Nat.mul_one]
    exact Nat.lt_succ_self value
  | cons c rest ih =>
    obtain ⟨d, hd, hrest⟩ := Option.bind_eq_some_iff.1 h
    obtain ⟨hlt, -⟩ := lt_of_decimalValue? hd
    calc n < (10 * value + d + 1) * 10 ^ rest.length := ih hrest
      _ ≤ ((value + 1) * 10) * 10 ^ rest.length := Nat.mul_le_mul_right _ (by omega)
      _ = (value + 1) * 10 ^ (c :: rest).length := by
        rw [List.length_cons, Nat.pow_succ', Nat.mul_assoc]

theorem Denotes.lt_pow {digits : List Char} {n : Nat} (h : Denotes digits n) :
    n < 10 ^ digits.length := by
  have hlt := lt_of_writtenAfter? (denotes_iff.1 h).2
  rwa [Nat.zero_add, Nat.one_mul] at hlt

/-- Zeros at the front do not change the number, and the other digits are its decimal text. -/
theorem denotes_iff_zeros {digits : List Char} {n : Nat} :
    Denotes digits n ↔ ∃ zeros, digits = List.replicate zeros '0' ++ decimal n := by
  rw [denotes_iff]
  constructor
  · rintro ⟨hne, hwritten⟩
    -- From the back: the last digit ends the decimal text, unless all digits before it are zeros.
    induction digits using List.reverseRecOn generalizing n with
    | nil => exact absurd rfl hne
    | append_singleton digits c ih =>
      rw [writtenAfter?_append] at hwritten
      obtain ⟨m, hm, hlast⟩ := Option.bind_eq_some_iff.1 hwritten
      obtain ⟨d, hd, hn⟩ := Option.bind_eq_some_iff.1 hlast
      obtain rfl : 10 * m + d = n := Option.some.inj hn
      obtain ⟨hlt, rfl⟩ := lt_of_decimalValue? hd
      rcases Nat.eq_zero_or_pos m with rfl | hpos
      · rw [Nat.mul_zero, Nat.zero_add, decimal_of_lt hlt]
        by_cases hnil : digits = []
        · exact ⟨0, by rw [hnil]; rfl⟩
        · -- The digits before are zeros too.
          obtain ⟨zeros, rfl⟩ := ih hnil hm
          refine ⟨zeros + 1, ?_⟩
          rw [List.replicate_succ', decimal_of_lt (by decide)]
          rfl
      · rw [decimal_append_digit hpos hlt]
        have hnil : digits ≠ [] := by
          rintro rfl
          exact Nat.ne_of_lt hpos (Option.some.inj hm)
        obtain ⟨zeros, rfl⟩ := ih hnil hm
        exact ⟨zeros, List.append_assoc _ _ _⟩
  · rintro ⟨zeros, rfl⟩
    constructor
    · exact List.append_ne_nil_of_right_ne_nil _ (decimal_ne_nil n)
    · rw [writtenAfter?_append, writtenAfter?_replicate_zero, Option.bind_some,
        writtenAfter?_decimal]

end TokenRing.Text
