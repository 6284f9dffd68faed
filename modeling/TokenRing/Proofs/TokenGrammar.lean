import Mathlib.Algebra.Ring.Int.Defs
import Mathlib.Algebra.Ring.Nat
import TokenRing.Partitioner
import TokenRing.Proofs.Text.Blank
import TokenRing.Proofs.Text.Decimal
import TokenRing.Proofs.Text.HexBytes

/-!
# Which texts are tokens

A text is a token of one of the three token spaces if and only if, without the blanks around it, it
has the form that the token space asks for. The token is then the one that the form stands for, and
any other text is given back as it was with the error.
-/

namespace TokenRing

open Text (IsHexDigit TrimsTo WritesBytes WritesInteger WritesNatural)

namespace Partitioner

variable {p : Partitioner} {v : String}

theorem parse_eq_ok_iff {t : p.Token} : p.parse v = .ok t ↔ p.read v = .ok t :=
  Except.mapError_eq_ok_iff

/-- A text that is refused comes back untouched, also with the blanks around it. -/
theorem exists_fault_iff :
    (∃ fault, p.parse v = .error ⟨p, v, fault⟩) ↔ ¬ ∃ t, p.parse v = .ok t := by
  rw [parse]
  cases p.read v with
  | ok t => simp [Except.mapError]
  | error fault => simp [Except.mapError]

end Partitioner

/-! ### Integers -/

def IsInteger (v : String) (n : Int) : Prop :=
  ∃ core, TrimsTo v.toList core ∧ WritesInteger core n

def IsNatural (v : String) (n : Nat) : Prop :=
  ∃ core, TrimsTo v.toList core ∧ WritesNatural core n

/-- What stands between the blanks is the stripped text. -/
theorem isInteger_iff {v : String} {n : Int} :
    IsInteger v n ↔ WritesInteger (Text.trim v.toList) n := by
  simp only [IsInteger, ← Text.trim_eq_iff, exists_eq_left']

theorem isNatural_iff {v : String} {n : Nat} :
    IsNatural v n ↔ WritesNatural (Text.trim v.toList) n := by
  simp only [IsNatural, ← Text.trim_eq_iff, exists_eq_left']

/-- The range of the reader is that of the tokens. -/
theorem Murmur3Token.parse_eq_ok_iff {v : String} {t : Murmur3Token} :
    parse v = .ok t ↔ IsInteger v t.value.toInt := by
  rw [isInteger_iff]
  constructor
  · intro h
    unfold parse at h
    split at h
    · next n hn =>
      obtain rfl := Except.ok.inj h
      obtain ⟨hwrites, hleast, hgreatest⟩ := Text.parseInt_eq_ok_iff_writesInteger.1 hn
      have hvalue : (Int64.ofInt n).toInt = n := Int64.toInt_ofInt_of_le (by omega) (by omega)
      rwa [hvalue]
    · cases h
  · intro h
    have hleast := t.value.le_toInt
    have hgreatest := t.value.toInt_lt
    have hparse : Text.parseInt 0x8000000000000000 0x7fffffffffffffff (Text.trim v.toList) =
        .ok t.value.toInt :=
      Text.parseInt_eq_ok_iff_writesInteger.2 ⟨h, by omega, by omega⟩
    rw [parse, hparse]
    show Except.ok (⟨Int64.ofInt t.value.toInt⟩ : Murmur3Token) = .ok t
    rw [Int64.ofInt_toInt]

theorem RandomToken.parse_eq_ok_iff {v : String} {t : RandomToken} :
    parse v = .ok t ↔ IsNatural v t.value := by
  rw [isNatural_iff]
  constructor
  · intro h
    unfold parse at h
    split at h
    · next n hn =>
      split at h
      · obtain rfl := Except.ok.inj h
        exact (Text.parseNat_eq_ok_iff.1 hn).2
      · cases h
    · cases h
  · intro h
    have hvalue := t.value_le
    -- Greater numbers than there are tokens are read as well, so the bound is checked apart.
    have hparse : Text.parseNat 0xffffffffffffffffffffffffffffffff (Text.trim v.toList) =
        .ok t.value :=
      Text.parseNat_eq_ok_iff.2 ⟨by omega, h⟩
    rw [parse, hparse]
    exact dif_pos hvalue

/-- The integers that are read as tokens are those of 64 bits. -/
theorem Partitioner.exists_parse_murmur3_iff {v : String} {n : Int} :
    (∃ t : Murmur3Token, murmur3.parse v = .ok t ∧ t.value.toInt = n) ↔
      IsInteger v n ∧ -2 ^ 63 ≤ n ∧ n ≤ 2 ^ 63 - 1 := by
  constructor
  · rintro ⟨t, ht, rfl⟩
    have hleast := t.value.le_toInt
    have hgreatest := t.value.toInt_lt
    exact ⟨Murmur3Token.parse_eq_ok_iff.1 (parse_eq_ok_iff.1 ht), hleast, by omega⟩
  · rintro ⟨hn, hleast, hgreatest⟩
    have hvalue : (Int64.ofInt n).toInt = n := Int64.toInt_ofInt_of_le hleast (by omega)
    refine ⟨⟨Int64.ofInt n⟩, parse_eq_ok_iff.2 (Murmur3Token.parse_eq_ok_iff.2 ?_), hvalue⟩
    rwa [hvalue]

/-- The numbers that are read as tokens go up to 2^127. -/
theorem Partitioner.exists_parse_random_iff {v : String} {n : Nat} :
    (∃ t : RandomToken, random.parse v = .ok t ∧ t.value = n) ↔ IsNatural v n ∧ n ≤ 2 ^ 127 := by
  constructor
  · rintro ⟨t, ht, rfl⟩
    exact ⟨RandomToken.parse_eq_ok_iff.1 (parse_eq_ok_iff.1 ht), t.value_le⟩
  · rintro ⟨hn, hle⟩
    exact ⟨⟨n, hle⟩, parse_eq_ok_iff.2 (RandomToken.parse_eq_ok_iff.2 hn), rfl⟩

/-- The signed tokens are the integers of 64 bits with a sign before them or without, and the tokens
up to 2^127 are the natural numbers with a plus sign before them or without. There may be blanks
around a text and zeros before its other digits; the token is the number itself. Every other text is
reported with all that is in it. -/
theorem Partitioner.parse_integer (v : String) :
    (∀ n : Int, (∃ t : Murmur3Token, murmur3.parse v = .ok t ∧ t.value.toInt = n) ↔
      IsInteger v n ∧ -2 ^ 63 ≤ n ∧ n ≤ 2 ^ 63 - 1) ∧
    (∀ n : Nat, (∃ t : RandomToken, random.parse v = .ok t ∧ t.value = n) ↔
      IsNatural v n ∧ n ≤ 2 ^ 127) ∧
    ((∃ fault, murmur3.parse v = .error ⟨murmur3, v, fault⟩) ↔
      ¬ ∃ n, IsInteger v n ∧ -2 ^ 63 ≤ n ∧ n ≤ 2 ^ 63 - 1) ∧
    ((∃ fault, random.parse v = .error ⟨random, v, fault⟩) ↔
      ¬ ∃ n, IsNatural v n ∧ n ≤ 2 ^ 127) := by
  -- A text is refused exactly if there is no number that it is read as.
  have hmurmur : (∃ t, murmur3.parse v = .ok t) ↔
      ∃ n, IsInteger v n ∧ -2 ^ 63 ≤ n ∧ n ≤ 2 ^ 63 - 1 := by
    simp only [← exists_parse_murmur3_iff]
    constructor
    · rintro ⟨t, ht⟩
      exact ⟨_, t, ht, rfl⟩
    · rintro ⟨_, t, ht, -⟩
      exact ⟨t, ht⟩
  have hrandom : (∃ t, random.parse v = .ok t) ↔ ∃ n, IsNatural v n ∧ n ≤ 2 ^ 127 := by
    simp only [← exists_parse_random_iff]
    constructor
    · rintro ⟨t, ht⟩
      exact ⟨_, t, ht, rfl⟩
    · rintro ⟨_, t, ht, -⟩
      exact ⟨t, ht⟩
  refine ⟨fun n => exists_parse_murmur3_iff, fun n => exists_parse_random_iff, ?_, ?_⟩
  · rw [exists_fault_iff, hmurmur]
  · rw [exists_fault_iff, hrandom]

-- Zeros before the other digits do not count, however many there are.
example : Partitioner.murmur3.parse "\u3000-0000000000000000000000009223372036854775808\n" =
    .ok (⟨Int64.minValue⟩ : Murmur3Token) := by
  rfl

/-! ### Hexadecimal -/

def hexMarks : List (List Char) :=
  [[], ['0', 'x'], ['0', 'X']]

/-- Whether a text shows these hexadecimal digits, with at most one mark before them and with blanks
around both. -/
def HasHexDigits (v : String) (digits : List Char) : Prop :=
  ∃ mark ∈ hexMarks, TrimsTo v.toList (mark ++ digits) ∧ ∀ c ∈ digits, ∃ d, IsHexDigit c d

section Hexadecimal

variable {v : String} {digits : List Char} {t : ByteToken}

/-- The letter of a mark is no digit, so digits without a mark keep all that they begin with. -/
theorem ByteToken.stripMark_append {mark : List Char} (hmark : mark ∈ hexMarks)
    (hdigits : ∀ c ∈ digits, ∃ d, IsHexDigit c d) : stripMark (mark ++ digits) = digits := by
  simp only [hexMarks, List.mem_cons, List.not_mem_nil, or_false] at hmark
  rcases hmark with rfl | rfl | rfl
  · have hvalue {c : Char} (hc : c ∈ digits) : Text.hexValue? c ≠ none := by
      obtain ⟨d, hd⟩ := hdigits c hc
      simp [Text.isHexDigit_iff.1 hd]
    rw [List.nil_append]
    unfold stripMark
    split
    · exact absurd (rfl : Text.hexValue? 'x' = none) (hvalue (by simp))
    · exact absurd (rfl : Text.hexValue? 'X' = none) (hvalue (by simp))
    · rfl
  · rfl
  · rfl

theorem ByteToken.exists_mark (core : List Char) :
    ∃ mark ∈ hexMarks, mark ++ stripMark core = core := by
  unfold stripMark
  split
  · exact ⟨['0', 'x'], by simp [hexMarks], rfl⟩
  · exact ⟨['0', 'X'], by simp [hexMarks], rfl⟩
  · exact ⟨[], by simp [hexMarks], rfl⟩

/-- The digits that a text shows are what is left of it without blanks and mark. -/
theorem hasHexDigits_iff :
    HasHexDigits v digits ↔
      ByteToken.stripMark (Text.trim v.toList) = digits ∧ ∀ c ∈ digits, ∃ d, IsHexDigit c d := by
  constructor
  · rintro ⟨mark, hmark, htrims, hdigits⟩
    rw [Text.trim_of_trimsTo htrims]
    exact ⟨ByteToken.stripMark_append hmark hdigits, hdigits⟩
  · rintro ⟨rfl, hdigits⟩
    obtain ⟨mark, hmark, hcore⟩ := ByteToken.exists_mark (Text.trim v.toList)
    exact ⟨mark, hmark, Text.trim_eq_iff.1 hcore.symm, hdigits⟩

/-- A text shows one run of digits only. -/
theorem HasHexDigits.eq {digits' : List Char} (h : HasHexDigits v digits)
    (h' : HasHexDigits v digits') : digits = digits' :=
  (hasHexDigits_iff.1 h).1.symm.trans (hasHexDigits_iff.1 h').1

/-- A text is read as the bytes that its digits write. -/
theorem ByteToken.parse_eq_ok_iff :
    parse v = .ok t ↔ ∃ digits, HasHexDigits v digits ∧ WritesBytes digits t.bytes := by
  have hread : parse v = .ok t ↔ WritesBytes (stripMark (Text.trim v.toList)) t.bytes := by
    obtain ⟨bytes⟩ := t
    rw [← Text.parseHexBytes_utf8_eq_ok_iff, parse]
    split
    · next hbytes => simp [hbytes]
    · next hfault => simp [hfault]
  rw [hread]
  constructor
  · intro h
    obtain ⟨-, hdigits⟩ := Text.exists_writesBytes_iff.1 ⟨_, h⟩
    exact ⟨_, hasHexDigits_iff.2 ⟨rfl, hdigits⟩, h⟩
  · rintro ⟨digits, hv, hbytes⟩
    obtain ⟨rfl, -⟩ := hasHexDigits_iff.1 hv
    exact hbytes

/-- A text is read if it shows an even number of digits. -/
theorem ByteToken.exists_parse_iff :
    (∃ t, parse v = .ok t) ↔ ∃ digits, HasHexDigits v digits ∧ digits.length % 2 = 0 := by
  simp only [parse_eq_ok_iff]
  constructor
  · rintro ⟨t, digits, hv, hbytes⟩
    exact ⟨digits, hv, (Text.exists_writesBytes_iff.1 ⟨_, hbytes⟩).1⟩
  · rintro ⟨digits, hv, heven⟩
    obtain ⟨bytes, hbytes⟩ := Text.exists_writesBytes_iff.2 ⟨heven, (hasHexDigits_iff.1 hv).2⟩
    exact ⟨⟨bytes⟩, digits, hv, hbytes⟩

/-- The digits that a token is read from are the ones in its own text, but for their case. -/
theorem HasHexDigits.map_toLower (hv : HasHexDigits v digits) (hparse : ByteToken.parse v = .ok t) :
    digits.map Char.toLower = Text.hexBytes t.bytes := by
  obtain ⟨digits', hv', hbytes⟩ := ByteToken.parse_eq_ok_iff.1 hparse
  rw [hv.eq hv']
  exact hbytes.map_toLower

theorem Partitioner.parse_byteOrdered_eq_ok_iff :
    byteOrdered.parse v = .ok t ↔ ByteToken.parse v = .ok t :=
  parse_eq_ok_iff

/-- The tokens of bytes are the texts with an even number of hexadecimal digits, possibly none, with
or without a mark before them. The case of a digit does not matter, and there may be blanks around a
text. Each pair of digits is one byte. The text of the token is a mark and the digits in lower case,
so two texts are one token if and only if their digits are the same in lower case. -/
theorem Partitioner.parse_hexadecimal (v : String) :
    (∀ t : ByteToken, byteOrdered.parse v = .ok t ↔
      ∃ digits, HasHexDigits v digits ∧ WritesBytes digits t.bytes) ∧
    ((∃ t, byteOrdered.parse v = .ok t) ↔
      ∃ digits, HasHexDigits v digits ∧ digits.length % 2 = 0) ∧
    ((∃ fault, byteOrdered.parse v = .error ⟨byteOrdered, v, fault⟩) ↔
      ¬ ∃ digits, HasHexDigits v digits ∧ digits.length % 2 = 0) ∧
    ∀ (t : ByteToken) (digits : List Char), byteOrdered.parse v = .ok t → HasHexDigits v digits →
      Token.text t = String.ofList ('0' :: 'x' :: digits.map Char.toLower) ∧
      ∀ (w : String) (u : ByteToken) (digits' : List Char), byteOrdered.parse w = .ok u →
        HasHexDigits w digits' → (t = u ↔ digits.map Char.toLower = digits'.map Char.toLower) := by
  have hexists : (∃ t, byteOrdered.parse v = .ok t) ↔
      ∃ digits, HasHexDigits v digits ∧ digits.length % 2 = 0 :=
    (exists_congr fun _ => parse_byteOrdered_eq_ok_iff).trans ByteToken.exists_parse_iff
  refine ⟨fun t => parse_byteOrdered_eq_ok_iff.trans ByteToken.parse_eq_ok_iff, hexists, ?_, ?_⟩
  · rw [exists_fault_iff, hexists]
  intro t digits ht hv
  have htext := hv.map_toLower (parse_byteOrdered_eq_ok_iff.1 ht)
  constructor
  · rw [htext]
    rfl
  · intro w u digits' hu hw
    rw [htext, hw.map_toLower (parse_byteOrdered_eq_ok_iff.1 hu), Text.hexBytes_inj]
    constructor
    · rintro rfl
      rfl
    · intro hbytes
      exact congrArg ByteToken.mk hbytes

/-- Two spellings of one token, the second of them with no mark. -/
theorem Partitioner.parse_hexadecimal_spellings :
    byteOrdered.parse "\u2003 0X0aFf\n" = .ok (⟨[0x0a, 0xff]⟩ : ByteToken) ∧
    byteOrdered.parse "0AfF" = .ok (⟨[0x0a, 0xff]⟩ : ByteToken) ∧
    Token.text (⟨[0x0a, 0xff]⟩ : ByteToken) = "0x0aff" ∧
    "0aFf".toList.map Char.toLower = "0AfF".toList.map Char.toLower := by
  have hbytes : WritesBytes "0aFf".toList [0x0a, 0xff] :=
    .cons (m := 0) (n := 10) rfl rfl (.cons (m := 15) (n := 15) rfl rfl .nil)
  have hbytes' : WritesBytes "0AfF".toList [0x0a, 0xff] :=
    .cons (m := 0) (n := 10) rfl rfl (.cons (m := 15) (n := 15) rfl rfl .nil)
  have hv : HasHexDigits "\u2003 0X0aFf\n" "0aFf".toList :=
    hasHexDigits_iff.2 ⟨rfl, (Text.exists_writesBytes_iff.1 ⟨_, hbytes⟩).2⟩
  have hw : HasHexDigits "0AfF" "0AfF".toList :=
    hasHexDigits_iff.2 ⟨rfl, (Text.exists_writesBytes_iff.1 ⟨_, hbytes'⟩).2⟩
  obtain ⟨haccept, -, -, htext⟩ := parse_hexadecimal "\u2003 0X0aFf\n"
  have ht := (haccept ⟨[0x0a, 0xff]⟩).2 ⟨_, hv, hbytes⟩
  have hu := ((parse_hexadecimal "0AfF").1 ⟨[0x0a, 0xff]⟩).2 ⟨_, hw, hbytes'⟩
  obtain ⟨hshown, hsame⟩ := htext _ _ ht hv
  exact ⟨ht, hu, hshown, (hsame _ _ _ hu hw).1 rfl⟩

end Hexadecimal

end TokenRing
