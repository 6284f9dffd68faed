import Mathlib.Algebra.Ring.Nat
import Mathlib.Tactic.SplitIfs
import TokenRing.Text.Utf8

/-!
# The order of texts

Texts are ordered by their characters. The order of their bytes is the same one: a character is
coded by a first byte and digits to base 64 behind it, and the first bytes are ascending.
-/

namespace TokenRing.Text

/-! ### Characters -/

/-- The last digits of a number to base 64, as bytes. -/
def trailing : (count : Nat) → (n : Nat) → List UInt8
  | 0, _ => []
  | count + 1, n => trailing count (n / 64) ++ [UInt8.ofNat (n % 64 + 128)]

def trailingCount (n : Nat) : Nat :=
  if n < 0x80 then 0 else if n < 0x800 then 1 else if n < 0x10000 then 2 else 3

def leading (n : Nat) : Nat :=
  if n < 0x80 then n else if n < 0x800 then 192 + n / 64 else if n < 0x10000 then 224 + n / 64 ^ 2
  else 240 + n / 64 ^ 3

theorem lt_of_char (c : Char) : c.val.toNat < 0x110000 := by
  rcases c.valid with h | ⟨-, h⟩
  · exact Nat.lt_trans h (by decide)
  · exact h

/-- The code of a character is its first byte and the digits behind it. -/
theorem utf8EncodeChar_eq (c : Char) :
    String.utf8EncodeChar c =
      UInt8.ofNat (leading c.val.toNat) :: trailing (trailingCount c.val.toNat) c.val.toNat := by
  have hlt := lt_of_char c
  unfold String.utf8EncodeChar leading trailingCount
  generalize c.val.toNat = n at *
  -- Each length of the code has numbers of its own.
  by_cases hone : n < 0x80
  · have hle : n ≤ 127 := by omega
    simp only [hone, hle, if_true, trailing]
  by_cases htwo : n < 0x800
  · have hle : ¬ n ≤ 127 ∧ n ≤ 2047 := by omega
    have hfirst : n / 64 % 32 + 192 = 192 + n / 64 := by omega
    simp only [hone, htwo, hle, hfirst, if_true, if_false, trailing, List.nil_append]
  by_cases hthree : n < 0x10000
  · have hle : ¬ n ≤ 127 ∧ ¬ n ≤ 2047 ∧ n ≤ 65535 := by omega
    have hfirst : n / 4096 % 16 + 224 = 224 + n / 64 ^ 2 := by omega
    simp only [hone, htwo, hthree, hle, hfirst, if_true, if_false, trailing, List.nil_append,
      List.cons_append]
  · have hle : ¬ n ≤ 127 ∧ ¬ n ≤ 2047 ∧ ¬ n ≤ 65535 := by omega
    have hfirst : n / 262144 % 8 + 240 = 240 + n / 64 ^ 3 := by omega
    have hsecond : n / 4096 = n / 64 / 64 := by omega
    simp only [hone, htwo, hthree, hle, hfirst, hsecond, if_false, trailing, List.nil_append,
      List.cons_append]

/-- Of two characters the smaller one has a smaller first byte, or the same one and as many
digits. -/
theorem leading_lt {m n : Nat} (h : m < n) (hn : n < 0x110000) :
    leading m < leading n ∨ leading m = leading n ∧ trailingCount m = trailingCount n ∧
      m / 64 ^ trailingCount m = n / 64 ^ trailingCount n := by
  unfold leading trailingCount
  split_ifs <;> omega

theorem leading_lt_size {n : Nat} (hn : n < 0x110000) : leading n < 256 := by
  unfold leading
  split_ifs <;> omega

theorem ofNat_lt_ofNat {m n : Nat} (h : m < n) (hn : n < 256) : UInt8.ofNat m < UInt8.ofNat n := by
  rw [UInt8.lt_iff_toNat_lt, UInt8.toNat_ofNat', UInt8.toNat_ofNat']
  omega

/-- With a common front, the smaller number has the smaller digits. -/
theorem trailing_append_lt {count m n : Nat} (hlt : m < n)
    (hsame : m / 64 ^ count = n / 64 ^ count) (rest rest' : List UInt8) :
    trailing count m ++ rest < trailing count n ++ rest' := by
  induction count generalizing m n rest rest' with
  | zero => omega
  | succ count ih =>
    rw [Nat.pow_succ', ← Nat.div_div_eq_div_mul, ← Nat.div_div_eq_div_mul] at hsame
    rw [trailing, trailing, List.append_assoc, List.append_assoc]
    rcases Nat.lt_or_eq_of_le (Nat.div_le_div_right (c := 64) (Nat.le_of_lt hlt)) with hhigh | hhigh
    · exact ih hhigh hsame _ _
    · -- Only the last digits differ.
      rw [hhigh]
      apply List.append_left_lt
      rw [List.singleton_append, List.singleton_append, List.cons_lt_cons_iff]
      exact .inl (ofNat_lt_ofNat (by omega) (by omega))

/-- The codes of different characters are in the order of the characters, whatever follows them. -/
theorem utf8EncodeChar_append_lt {c d : Char} (h : c < d) (rest rest' : List UInt8) :
    String.utf8EncodeChar c ++ rest < String.utf8EncodeChar d ++ rest' := by
  have hlt : c.val.toNat < d.val.toNat := h
  have hmax := lt_of_char d
  rw [utf8EncodeChar_eq, utf8EncodeChar_eq, List.cons_append, List.cons_append,
    List.cons_lt_cons_iff]
  rcases leading_lt hlt hmax with hfirst | ⟨hfirst, hcount, hsame⟩
  · exact .inl (ofNat_lt_ofNat hfirst (leading_lt_size hmax))
  · rw [hcount] at hsame
    rw [hfirst, hcount]
    exact .inr ⟨rfl, trailing_append_lt hlt hsame rest rest'⟩

/-! ### Texts -/

/-- The bytes of a text are those by which the standard library codes it. -/
theorem utf8_toList (text : String) : utf8 text.toList = text.toUTF8.data.toList := by
  rw [String.toUTF8, ← String.utf8Encode_toList, List.utf8Encode, List.data_toByteArray]
  rfl

theorem utf8_cons (c : Char) (text : List Char) :
    utf8 (c :: text) = String.utf8EncodeChar c ++ utf8 text :=
  List.flatMap_cons

theorem utf8_lt_of_lt {a b : List Char} (h : a < b) : utf8 a < utf8 b := by
  induction a generalizing b with
  | nil =>
    cases b with
    | nil => exact absurd h (List.not_lt_nil _)
    | cons d b =>
      rw [utf8_cons, utf8EncodeChar_eq]
      exact List.nil_lt_cons _ _
  | cons c a ih =>
    cases b with
    | nil => exact absurd h (List.not_lt_nil _)
    | cons d b =>
      rw [utf8_cons, utf8_cons]
      -- The first characters that differ decide, and their codes do likewise.
      rcases List.cons_lt_cons_iff.1 h with hlt | ⟨rfl, hlt⟩
      · exact utf8EncodeChar_append_lt hlt _ _
      · exact List.append_left_lt (ih hlt)

/-- Texts and their bytes are in the same order. -/
theorem utf8_lt_utf8_iff {a b : List Char} : utf8 a < utf8 b ↔ a < b := by
  refine ⟨fun h => ?_, utf8_lt_of_lt⟩
  rcases Std.lt_trichotomy a b with hlt | rfl | hgt
  · exact hlt
  · exact absurd h Std.lt_irrefl
  · exact absurd (Std.lt_trans h (utf8_lt_of_lt hgt)) Std.lt_irrefl

theorem utf8_toList_lt_iff {a b : String} : utf8 a.toList < utf8 b.toList ↔ a < b :=
  utf8_lt_utf8_iff

end TokenRing.Text
