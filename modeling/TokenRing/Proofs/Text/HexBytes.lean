import Mathlib.Data.List.Induction
import TokenRing.Proofs.Text.Hex
import TokenRing.Proofs.Text.Utf8
import TokenRing.Proofs.Traversal
import TokenRing.Text.Blank

/-!
# Bytes in hexadecimal

A text is read as bytes if and only if it is pairs of hexadecimal digits of either case, one pair
for each byte. The reader goes through the bytes of the text: a character beyond the digits has a
first byte beyond them too. In lower case the digits are the text that is written for the bytes.
-/

namespace TokenRing.Text

/-! ### Digits that write bytes -/

def IsHexDigit (c : Char) (d : Nat) : Prop :=
  "0123456789abcdef".toList[d]? = some c.toLower

inductive WritesBytes : List Char → List UInt8 → Prop where
  | nil : WritesBytes [] []
  | cons {high low : Char} {m n : Nat} {digits : List Char} {bytes : List UInt8}
    (hhigh : IsHexDigit high m) (hlow : IsHexDigit low n) (hdigits : WritesBytes digits bytes) :
    WritesBytes (high :: low :: digits) (UInt8.ofNat (16 * m + n) :: bytes)

variable {c : Char} {d position : Nat} {digits : List Char} {bytes : List UInt8}

theorem isHexDigit_iff : IsHexDigit c d ↔ hexValue? c = some d := by
  rw [IsHexDigit, hexValue?_eq_some_iff]
  by_cases hd : d < 16
  · have hall : ∀ d : Fin 16, "0123456789abcdef".toList[d.val]? = some (hexDigit d) := by decide
    rw [hall ⟨d, hd⟩, Option.some.injEq, and_iff_right hd, eq_comm]
  · have hnone : "0123456789abcdef".toList[d]? = none := List.getElem?_eq_none (Nat.le_of_not_lt hd)
    rw [hnone]
    exact iff_of_false nofun fun h => hd h.1

theorem toNat_byteChar (b : UInt8) : (byteChar b).toNat = b.toNat := by
  have hvalid : b.toNat.isValidChar := .inl (Nat.lt_trans b.toNat_lt (by decide))
  rw [byteChar, Char.ofNat, dif_pos hvalid]
  rfl

/-- A character is a digit if and only if its first byte is one, and then there is no other byte. -/
theorem exists_utf8EncodeChar (c : Char) :
    ∃ b more, String.utf8EncodeChar c = b :: more ∧ hexValue? (byteChar b) = hexValue? c ∧
      ∀ d, hexValue? c = some d → more = [] := by
  have hnone {c : Char} (hc : 128 ≤ c.toNat) : hexValue? c = none :=
    Option.eq_none_iff_forall_ne_some.2 fun d hd => Nat.not_lt.2 hc (toNat_lt_of_hexValue? hd)
  -- Below 128 a character is its own byte, and from 128 on its first byte is no digit.
  by_cases hc : c.toNat < 128
  · have hall : ∀ n : Fin 128, String.utf8EncodeChar (Char.ofNat n) = [UInt8.ofNat n] ∧
        byteChar (UInt8.ofNat n) = Char.ofNat n := by decide
    obtain ⟨n, rfl⟩ := exists_eq_ofNat hc
    obtain ⟨hbytes, hchar⟩ := hall n
    exact ⟨_, [], hbytes, by rw [hchar], fun _ _ => rfl⟩
  · have hleading : 128 ≤ leading c.toNat ∧ leading c.toNat < 256 := by
      refine ⟨?_, leading_lt_size (lt_of_char c)⟩
      unfold leading
      split_ifs <;> omega
    have hfirst : 128 ≤ (byteChar (UInt8.ofNat (leading c.toNat))).toNat := by
      rw [toNat_byteChar, UInt8.toNat_ofNat', Nat.mod_eq_of_lt hleading.2]
      exact hleading.1
    refine ⟨_, _, utf8EncodeChar_eq c, (hnone hfirst).trans (hnone (Nat.le_of_not_lt hc)).symm,
      fun d hd => ?_⟩
    rw [hnone (Nat.le_of_not_lt hc)] at hd
    cases hd

theorem readHexByte_eq_ok_iff {b : UInt8} :
    readHexByte position b = .ok d ↔ hexValue? (byteChar b) = some d := by
  rw [readHexByte]
  split <;> simp_all

theorem exists_hexValue?_of_readHexPairs {b : UInt8} {more : List UInt8}
    (h : readHexPairs position (b :: more) = .ok bytes) : ∃ d, hexValue? (byteChar b) = some d := by
  cases more with
  | nil => cases h
  | cons b' more =>
    obtain ⟨d, hd, -⟩ := Except.bind_eq_ok_iff.1 h
    exact ⟨d, readHexByte_eq_ok_iff.1 hd⟩

/-- The first pair makes the first byte, and the rest the others. -/
theorem readHexPairs_cons_eq_ok_iff {a b : UInt8} {rest : List UInt8} :
    readHexPairs position (a :: b :: rest) = .ok bytes ↔
      ∃ m n more, hexValue? (byteChar a) = some m ∧ hexValue? (byteChar b) = some n ∧
        readHexPairs (position + 2) rest = .ok more ∧ UInt8.ofNat (16 * m + n) :: more = bytes := by
  rw [readHexPairs]
  simp only [Except.bind_eq_ok_iff, readHexByte_eq_ok_iff, pure, Except.pure, Except.ok.injEq]
  constructor
  · rintro ⟨m, hm, n, hn, more, hmore, rfl⟩
    exact ⟨m, n, more, hm, hn, hmore, rfl⟩
  · rintro ⟨m, n, more, hm, hn, hmore, rfl⟩
    exact ⟨m, hm, n, hn, more, hmore, rfl⟩

theorem even_length_of_readHexPairs {digits : List UInt8}
    (h : readHexPairs position digits = .ok bytes) : digits.length % 2 = 0 := by
  induction position, digits using readHexPairs.induct generalizing bytes with
  | case1 => rfl
  | case2 => cases h
  | case3 position a b rest ih =>
    obtain ⟨m, n, more, -, -, hmore, -⟩ := readHexPairs_cons_eq_ok_iff.1 h
    rw [List.length_cons, List.length_cons, Nat.add_assoc, Nat.add_mod_right]
    exact ih hmore

/-- Along the characters of two digits at a time; the first byte that is no digit is an error. -/
theorem readHexPairs_utf8_eq_ok_iff :
    readHexPairs position (utf8 digits) = .ok bytes ↔ WritesBytes digits bytes := by
  induction digits using List.twoStepInduction generalizing position bytes with
  | nil =>
    constructor
    · rintro ⟨⟩
      exact .nil
    · rintro ⟨⟩
      rfl
  | singleton c =>
    -- A character alone is no digit, or a digit without another one behind it.
    obtain ⟨b, more, hc, hvalue, hmore⟩ := exists_utf8EncodeChar c
    rw [utf8_cons, hc, List.cons_append]
    constructor
    · intro h
      obtain ⟨d, hd⟩ := exists_hexValue?_of_readHexPairs h
      rw [hmore d (hvalue ▸ hd)] at h
      cases h
    · nofun
  | cons_cons c c' rest ih _ =>
    obtain ⟨b, more, hc, hvalue, hmore⟩ := exists_utf8EncodeChar c
    obtain ⟨b', more', hc', hvalue', hmore'⟩ := exists_utf8EncodeChar c'
    rw [utf8_cons, utf8_cons, hc, hc', List.cons_append]
    constructor
    · intro h
      -- Since the first byte is a digit, it is the whole character, and likewise the next.
      obtain ⟨m, hm⟩ := exists_hexValue?_of_readHexPairs h
      rw [hmore m (hvalue ▸ hm), List.nil_append, List.cons_append,
        readHexPairs_cons_eq_ok_iff] at h
      obtain ⟨m, n, bytes, hm, hn, hbytes, rfl⟩ := h
      rw [hmore' n (hvalue' ▸ hn), List.nil_append] at hbytes
      exact .cons (isHexDigit_iff.2 (hvalue ▸ hm)) (isHexDigit_iff.2 (hvalue' ▸ hn)) (ih.1 hbytes)
    · rintro (_ | ⟨hm, hn, hbytes⟩)
      rw [isHexDigit_iff] at hm hn
      rw [hmore _ hm, hmore' _ hn, List.nil_append, List.cons_append, List.nil_append,
        readHexPairs_cons_eq_ok_iff]
      exact ⟨_, _, _, hvalue.trans hm, hvalue'.trans hn, ih.2 hbytes, rfl⟩

theorem parseHexBytes_utf8_eq_ok_iff :
    parseHexBytes (utf8 digits) = .ok bytes ↔ WritesBytes digits bytes := by
  rw [parseHexBytes]
  constructor
  · intro h
    split at h
    · cases h
    · exact readHexPairs_utf8_eq_ok_iff.1 h
  · intro h
    have hread : readHexPairs 0 (utf8 digits) = .ok bytes := readHexPairs_utf8_eq_ok_iff.2 h
    rw [if_neg (by rw [even_length_of_readHexPairs hread]; decide)]
    exact hread

/-! ### Digits up to their case -/

theorem IsHexDigit.toLower_eq (h : IsHexDigit c d) : d < 16 ∧ c.toLower = hexDigit d :=
  hexValue?_eq_some_iff.1 (isHexDigit_iff.1 h)

/-- The bytes are known from the digits in lower case, which are their own text. -/
theorem WritesBytes.map_toLower (h : WritesBytes digits bytes) :
    digits.map Char.toLower = hexBytes bytes := by
  induction h with
  | nil => rfl
  | @cons high low m n digits bytes hhigh hlow hdigits ih =>
    obtain ⟨hm, hhigh⟩ := hhigh.toLower_eq
    obtain ⟨hn, hlow⟩ := hlow.toLower_eq
    -- The digits are the two halves of the byte.
    have hbyte : (UInt8.ofNat (16 * m + n)).toNat = 16 * m + n := by
      rw [UInt8.toNat_ofNat', Nat.mod_eq_of_lt (by omega)]
    have hfirst : (16 * m + n) / 16 = m := by omega
    have hsecond : (16 * m + n) % 16 = n := by omega
    rw [List.map_cons, List.map_cons, hhigh, hlow, ih, hexBytes, hexBytes, List.flatMap_cons, hbyte,
      hfirst, hsecond]
    rfl

/-- Any even number of digits writes some bytes. -/
theorem exists_writesBytes_iff :
    (∃ bytes, WritesBytes digits bytes) ↔
      digits.length % 2 = 0 ∧ ∀ c ∈ digits, ∃ d, IsHexDigit c d := by
  induction digits using List.twoStepInduction with
  | nil => exact iff_of_true ⟨[], .nil⟩ ⟨rfl, List.forall_mem_nil _⟩
  | singleton c => exact iff_of_false nofun nofun
  | cons_cons c c' rest ih _ =>
    rw [List.length_cons, List.length_cons, Nat.add_assoc, Nat.add_mod_right, List.forall_mem_cons,
      List.forall_mem_cons]
    constructor
    · rintro ⟨_, _ | ⟨hc, hc', hbytes⟩⟩
      obtain ⟨heven, hall⟩ := ih.1 ⟨_, hbytes⟩
      exact ⟨heven, ⟨_, hc⟩, ⟨_, hc'⟩, hall⟩
    · rintro ⟨heven, ⟨m, hm⟩, ⟨n, hn⟩, hall⟩
      obtain ⟨bytes, hbytes⟩ := ih.2 ⟨heven, hall⟩
      exact ⟨_, .cons hm hn hbytes⟩

/-! ### Texts of bytes -/

/-- The text of bytes is one of their writings. -/
theorem writesBytes_hexBytes (bytes : List UInt8) : WritesBytes (hexBytes bytes) bytes := by
  induction bytes with
  | nil => exact .nil
  | cons b rest ih =>
    have hb := b.toNat_lt
    have hhigh : IsHexDigit (hexDigit (b.toNat / 16)) (b.toNat / 16) :=
      isHexDigit_iff.2 (hexValue?_hexDigit (by omega))
    have hlow : IsHexDigit (hexDigit (b.toNat % 16)) (b.toNat % 16) :=
      isHexDigit_iff.2 (hexValue?_hexDigit (by omega))
    have hpair := WritesBytes.cons hhigh hlow ih
    rwa [Nat.div_add_mod, UInt8.ofNat_toNat] at hpair

/-- Bytes are read back from their text. -/
theorem parseHexBytes_hexBytes (bytes : List UInt8) :
    parseHexBytes (utf8 (hexBytes bytes)) = .ok bytes :=
  parseHexBytes_utf8_eq_ok_iff.2 (writesBytes_hexBytes bytes)

/-- Every byte is two digits to base 16, the first of which may be a zero. -/
theorem ofList_hexBytes (bytes : List UInt8) :
    String.ofList (hexBytes bytes) = String.join (bytes.map fun b =>
      String.ofList ((Nat.toDigits 16 b.toNat).leftpad 2 '0')) := by
  have hpair (b : UInt8) : (Nat.toDigits 16 b.toNat).leftpad 2 '0' =
      [hexDigit (b.toNat / 16), hexDigit (b.toNat % 16)] := by
    have hb := b.toNat_lt
    rw [← hexFixed_eq_leftpad hb, hexFixed, hexFixed, hexFixed, Nat.mod_eq_of_lt (by omega)]
    rfl
  rw [← String.toList_inj, String.toList_ofList, String.toList_join, List.flatMap_map]
  simp only [String.toList_ofList, hpair]
  rfl

theorem hexBytes_inj {bytes' : List UInt8} : hexBytes bytes = hexBytes bytes' ↔ bytes = bytes' := by
  constructor
  · intro h
    have hparse := parseHexBytes_hexBytes bytes
    rw [h, parseHexBytes_hexBytes, Except.ok.injEq] at hparse
    exact hparse.symm
  · rintro rfl
    rfl

theorem isBlank_hexDigit {d : Nat} (h : d < 16) : isBlank (hexDigit d) = false := by
  have hall : ∀ d : Fin 16, isBlank (hexDigit d) = false := by decide
  exact hall ⟨d, h⟩

theorem isBlank_of_mem_hexBytes {bytes : List UInt8} {c : Char} (h : c ∈ hexBytes bytes) :
    isBlank c = false := by
  obtain ⟨b, -, hc⟩ := List.mem_flatMap.1 h
  have hb := b.toNat_lt
  rcases List.mem_cons.1 hc with rfl | hlow
  · exact isBlank_hexDigit (by omega)
  · obtain rfl := List.mem_singleton.1 hlow
    exact isBlank_hexDigit (by omega)

end TokenRing.Text
