import TokenRing.Proofs.Json.Elements
import TokenRing.Proofs.Text.Hex

/-!
# Reading text literals back

A literal is read back as the text that it spells, however its characters are written. What is
written for a text is one of its spellings.
-/

namespace TokenRing.Json

/-! ### Code units -/

/-- A code unit that is a character alone gives this character. -/
theorem closeUnit_toNat (c : Char) : closeUnit none c.toNat = .ok (.inl c) := by
  have hvalid : c.toNat < 0xD800 ∨ 0xDFFF < c.toNat ∧ c.toNat < 0x110000 := c.valid
  have htrailing : isTrailing c.toNat = false := by
    simp only [isTrailing, Bool.and_eq_false_iff, decide_eq_false_iff_not]
    omega
  have hleading : isLeading c.toNat = false := by
    simp only [isLeading, Bool.and_eq_false_iff, decide_eq_false_iff_not]
    omega
  simp [closeUnit, htrailing, hleading]

theorem closeUnit_leading {unit : Nat} (h : isLeading unit = true) :
    closeUnit none unit = .ok (.inr unit) := by
  have htrailing : isTrailing unit = false := by
    simp only [isLeading, Bool.and_eq_true, decide_eq_true_eq] at h
    simp only [isTrailing, Bool.and_eq_false_iff, decide_eq_false_iff_not]
    omega
  simp [closeUnit, htrailing, h]

/-- Two halves of a pair give the character that they code. -/
theorem closeUnit_trailing {c : Char} {leading trailing : Nat} (h : isTrailing trailing = true)
    (hvalue : c.toNat = 0x10000 + 0x400 * (leading - 0xD800) + (trailing - 0xDC00)) :
    closeUnit (some leading) trailing = .ok (.inl c) := by
  simp [closeUnit, h, ← hvalue]

/-- The digits that are missing give the value of the unit. -/
theorem readLiteral_unit {leading : Option Nat} {missing value unit : Nat} {digits : List Char}
    (hlength : digits.length = missing + 1) (hvalue : Text.readHex? value digits = some unit)
    (read rest : List Char) :
    readLiteral true (.unit leading (missing + 1) value) read (digits ++ rest) =
      match closeUnit leading unit with
      | .error fault => .error fault
      | .ok (.inl char) => readLiteral true .between (char :: read) rest
      | .ok (.inr first) => readLiteral true (.pair first) read rest := by
  -- On the digits that are missing, the last of which closes the unit.
  induction digits generalizing missing value with
  | nil => cases hlength
  | cons c more ih =>
    obtain ⟨d, hd, hmore⟩ := Option.bind_eq_some_iff.1 hvalue
    rw [List.cons_append, readLiteral, hd]
    cases missing with
    | zero =>
      obtain rfl := List.length_eq_zero_iff.1 (Nat.succ.inj hlength)
      obtain rfl : _ = unit := Option.some.inj hmore
      rfl
    | succ missing =>
      rw [← ih (Nat.succ.inj hlength) hmore]
      rfl

/-! ### Reading -/

/-- Each spelling of a character is read as this character. -/
theorem readLiteral_charSpelling {c : Char} {spelling : List Char} (h : CharSpelling c spelling)
    (read rest : List Char) :
    readLiteral true .between read (spelling ++ rest) =
      readLiteral true .between (c :: read) rest := by
  cases h with
  | plain hquote hbackslash hcontrol =>
    rw [List.singleton_append, readLiteral, if_neg hquote, if_neg hbackslash,
      if_neg (Nat.not_lt.2 hcontrol)]
  | @short letter hletter =>
    have hne : letter ≠ 'u' := by
      rintro rfl
      cases hletter
    rw [List.cons_append, List.singleton_append, readLiteral, if_neg (by decide), if_pos rfl,
      readLiteral, if_neg hne, hletter]
  | unit hlength hvalue =>
    rw [List.cons_append, List.cons_append, readLiteral, if_neg (by decide), if_pos rfl,
      readLiteral, if_pos rfl, readLiteral_unit hlength hvalue, closeUnit_toNat]
  | pair hhigh hlow hleading htrailing isLeading isTrailing hvalue =>
    -- The first half leaves the reader at a second escape, which closes the pair.
    rw [List.cons_append, List.cons_append, List.append_assoc, readLiteral, if_neg (by decide),
      if_pos rfl, readLiteral, if_pos rfl, readLiteral_unit hhigh hleading,
      closeUnit_leading isLeading]
    dsimp only
    rw [List.cons_append, List.cons_append, readLiteral, if_pos rfl, readLiteral, if_pos rfl,
      readLiteral_unit hlow htrailing, closeUnit_trailing isTrailing hvalue]

/-- A literal is read up to its closing quote, however its characters are spelled. -/
theorem readLiteral_spells {text body : List Char} (h : Spells text body) (read rest : List Char) :
    readLiteral true .between read (body ++ '"' :: rest) = .ok (read.reverse ++ text, rest) := by
  induction h generalizing read with
  | nil =>
    rw [List.nil_append, readLiteral, if_pos rfl, List.append_nil]
  | @cons c text spelling body hchar hrest ih =>
    rw [List.append_assoc, readLiteral_charSpelling hchar, ih, List.reverse_cons,
      List.append_assoc, List.singleton_append]

/-! ### Writing -/

/-- What is written for a character is one of its spellings. -/
theorem charSpelling_writeChar (c : Char) : CharSpelling c (writeChar c) := by
  unfold writeChar
  -- The seven characters with a letter of their own come first.
  iterate 7
    split
    · next h =>
      subst h
      exact .short rfl
  split
  · exact .unit (Text.length_hexFixed 4 _) (Text.readHex?_hexFixed (by omega))
  · next hquote hbackslash _ _ _ _ _ hcontrol =>
    exact .plain hquote hbackslash (Nat.not_lt.1 hcontrol)

theorem spells_flatMap_writeChar (text : List Char) : Spells text (text.flatMap writeChar) := by
  induction text with
  | nil => exact .nil
  | cons c rest ih => exact .cons (charSpelling_writeChar c) ih

end TokenRing.Json
