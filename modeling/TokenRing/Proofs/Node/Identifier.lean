import Mathlib.Data.List.SplitLengths
import TokenRing.Node.Identifier
import TokenRing.Proofs.Text.Decimal
import TokenRing.Proofs.Text.Hex

/-!
# What a text of an identifier says

An identifier can be written in decimal, and in several ways with its 32 hexadecimal digits: in
groups, in groups within braces, in groups behind a mark, or, if one of them is a letter, just so.
A text is read as an identifier if and only if it is one of these.
-/

namespace TokenRing.NodeId

variable {id : NodeId} {text digits : List Char}

/-! ### Digits -/

def HasDigits (id : NodeId) (digits : List Char) : Prop :=
  digits.map Char.toLower = Text.hexFixed 32 id.value

theorem HasDigits.length_eq (h : id.HasDigits digits) : digits.length = 32 := by
  rw [← List.length_map Char.toLower, h, Text.length_hexFixed]

theorem ofNat?_eq_some_iff {n : Nat} : ofNat? n = some id ↔ n = id.value := by
  unfold ofNat?
  constructor
  · intro h
    split at h
    · rw [← Option.some.inj h]
    · cases h
  · rintro rfl
    rw [dif_pos id.value_lt]

/-- The digits of an identifier are 32 that are read as its number. -/
theorem hasDigits_iff : id.HasDigits digits ↔
    digits.length = 32 ∧ Text.readHex? 0 digits = some id.value := by
  rw [Text.readHex?_eq_some_iff]
  constructor
  · intro h
    rw [h.length_eq]
    exact ⟨rfl, id.value_lt, h⟩
  · rintro ⟨hlength, -, h⟩
    rwa [hlength] at h

theorem HasDigits.hexValue?_eq (h : id.HasDigits digits) {c : Char} (hc : c ∈ digits) :
    ∃ d, Text.hexValue? c = some d := by
  obtain ⟨d, hd, hlower⟩ := Text.exists_of_mem_hexFixed (h ▸ List.mem_map_of_mem hc)
  exact ⟨d, Text.hexValue?_eq_some_iff.2 ⟨hd, hlower⟩⟩

theorem HasDigits.isDigit_eq (h : id.HasDigits digits) {c : Char} (hc : c ∈ digits) :
    c.isDigit = !c.isAlpha := by
  obtain ⟨d, hd⟩ := h.hexValue?_eq hc
  exact Text.isDigit_eq_of_hexValue? hd

/-! ### Groups -/

def hyphenated (digits : List Char) : List Char :=
  ['-'].intercalate (groupLengths.splitLengths digits)

example : hyphenated "00010203040506070809aabbccddeeff".toList =
    "00010203-0405-0607-0809-aabbccddeeff".toList := by
  decide

theorem intercalate_splitLengths_cons (length : Nat) {lengths : List Nat}
    (hlengths : lengths ≠ []) :
    ['-'].intercalate ((length :: lengths).splitLengths digits) =
      digits.take length ++
        '-' :: ['-'].intercalate (lengths.splitLengths (digits.drop length)) := by
  obtain ⟨next, lengths, rfl⟩ := List.exists_cons_of_ne_nil hlengths
  simp [List.splitLengths]

/-- Groups are read as the digits that were split into them. -/
theorem readGroups?_eq_some_iff {lengths : List Nat} (hlengths : lengths ≠ []) :
    readGroups? lengths text = some digits ↔
      digits.length = lengths.sum ∧ text = ['-'].intercalate (lengths.splitLengths digits) := by
  induction lengths generalizing text digits with
  | nil => exact absurd rfl hlengths
  | cons length lengths ih =>
    -- The last group ends with the text, and every other one with a hyphen.
    by_cases hlast : lengths = []
    · subst hlast
      rw [readGroups?, List.sum_singleton]
      constructor
      · intro h
        split at h
        · next hlength =>
          obtain rfl := Option.some.inj h
          exact ⟨hlength, by simp [List.splitLengths, ← hlength]⟩
        · cases h
      · rintro ⟨rfl, rfl⟩
        simp [List.splitLengths]
    · rw [readGroups?, intercalate_splitLengths_cons length hlast, List.sum_cons]
      swap
      · exact hlast
      constructor
      · intro h
        split at h
        · next rest hdrop =>
          obtain ⟨more, hmore, rfl⟩ := Option.map_eq_some_iff.1 h
          obtain ⟨hlength, rfl⟩ := (ih hlast).1 hmore
          -- A hyphen is left behind the group, so none of its digits is missing.
          have hle : length ≤ text.length := by
            have hlength := congrArg List.length hdrop
            rw [List.length_drop, List.length_cons] at hlength
            omega
          have htake : (text.take length).length = length := List.length_take_of_le hle
          rw [List.take_left' htake, List.drop_left' htake, ← hdrop, List.take_append_drop,
            List.length_append, htake, hlength]
          exact ⟨rfl, rfl⟩
        · cases h
      · rintro ⟨hlength, rfl⟩
        have htake : (digits.take length).length = length :=
          List.length_take_of_le (hlength ▸ Nat.le_add_right _ _)
        rw [List.drop_left' htake, List.take_left' htake]
        have hmore := (ih hlast).2 ⟨by rw [List.length_drop, hlength, Nat.add_sub_cancel_left], rfl⟩
        simp only [hmore, Option.map_some, List.take_append_drop]

theorem hyphenated_eq (digits : List Char) :
    hyphenated digits = digits.take 8 ++ '-' ::
      ['-'].intercalate ([4, 4, 4, 12].splitLengths (digits.drop 8)) :=
  intercalate_splitLengths_cons 8 (by decide)

theorem hyphen_mem_hyphenated (digits : List Char) : '-' ∈ hyphenated digits := by
  rw [hyphenated_eq]
  exact List.mem_append_right _ List.mem_cons_self

theorem length_hyphenated (h : digits.length = 32) : (hyphenated digits).length = 36 := by
  simp [hyphenated, groupLengths, List.splitLengths, List.intercalate, h]

/-! ### Braces and marks -/

def IsMark (mark : List Char) : Prop :=
  mark.map Char.toLower = "urn:uuid:".toList

theorem IsMark.length_eq {mark : List Char} (h : IsMark mark) : mark.length = 9 := by
  rw [← List.length_map Char.toLower, h]
  rfl

/-- A text is what is left without its wrapping, or this in braces or behind a mark. -/
theorem of_unwrap_eq {body : List Char} (h : unwrap text = body) :
    text = body ∨ text = '\x7b' :: body ++ ['\x7d'] ∨
      ∃ mark, IsMark mark ∧ text = mark ++ body := by
  unfold unwrap at h
  split at h
  · next hbraces =>
    obtain ⟨hfirst, hlast⟩ := hbraces
    obtain ⟨rest, rfl⟩ := List.head?_eq_some_iff.1 hfirst
    have hne : rest ≠ [] := by
      rintro rfl
      cases hlast
    have hbody : rest.dropLast = body := h
    have hsplit := List.dropLast_append_getLast? _ hlast
    rw [List.dropLast_cons_of_ne_nil hne, hbody] at hsplit
    exact .inr (.inl hsplit.symm)
  split at h
  · next hmark => exact .inr (.inr ⟨text.take 9, hmark, by rw [← h, List.take_append_drop]⟩)
  · exact .inl h

theorem unwrap_braced (body : List Char) : unwrap ('\x7b' :: body ++ ['\x7d']) = body := by
  rw [unwrap, if_pos ⟨rfl, List.getLast?_concat⟩, List.cons_append, List.drop_succ_cons,
    List.drop_zero, List.dropLast_concat]

theorem unwrap_marked {mark : List Char} (body : List Char) (h : IsMark mark) :
    unwrap (mark ++ body) = body := by
  have hfirst : (mark ++ body).head? ≠ some '\x7b' := by
    cases mark with
    | nil => cases h
    | cons c rest =>
      intro hc
      obtain rfl : c = '\x7b' := Option.some.inj hc
      exact absurd (List.head_eq_of_cons_eq h) (by decide)
  have hmark : mark.map Char.toLower = "urn:uuid:".toList := h
  rw [unwrap, if_neg fun hbraces => hfirst hbraces.1, List.take_left' h.length_eq, if_pos hmark,
    List.drop_left' h.length_eq]

/-- A hexadecimal digit begins neither braces nor a mark. -/
theorem unwrap_hyphenated (h : id.HasDigits digits) :
    unwrap (hyphenated digits) = hyphenated digits := by
  cases digits with
  | nil => cases h.length_eq
  | cons c rest =>
    obtain ⟨d, hd⟩ := h.hexValue?_eq List.mem_cons_self
    obtain ⟨hlt, hlower⟩ := Text.hexValue?_eq_some_iff.1 hd
    have hdigit : ∀ d : Fin 16, Text.hexDigit d ≠ 'u' := by decide
    have hfirst : ∃ tail, hyphenated (c :: rest) = c :: tail := ⟨_, hyphenated_eq (c :: rest)⟩
    obtain ⟨tail, htail⟩ := hfirst
    rw [htail, unwrap, if_neg, if_neg]
    · intro hmark
      exact hdigit ⟨d, hlt⟩ (hlower.symm.trans (List.head_eq_of_cons_eq hmark))
    · rintro ⟨hbrace, -⟩
      obtain rfl : c = '\x7b' := Option.some.inj hbrace
      cases hd

/-! ### Texts -/

/-- The ways to write an identifier. -/
inductive IsWritten (id : NodeId) : List Char → Prop
  | decimal (zeros : Nat) : IsWritten id (List.replicate zeros '0' ++ Text.decimal id.value)
  | plain {digits : List Char} : id.HasDigits digits → (∃ c ∈ digits, c.isAlpha = true) →
    IsWritten id digits
  | hyphenated {digits : List Char} : id.HasDigits digits → IsWritten id (hyphenated digits)
  | braced {digits : List Char} : id.HasDigits digits →
    IsWritten id ('\x7b' :: NodeId.hyphenated digits ++ ['\x7d'])
  | marked {mark digits : List Char} : IsMark mark → id.HasDigits digits →
    IsWritten id (mark ++ NodeId.hyphenated digits)

theorem ofUuid?_eq_some_iff : ofUuid? text = some id ↔
    ∃ digits, uuidDigits? text = some digits ∧ Text.readHex? 0 digits = some id.value := by
  simp [ofUuid?, Option.bind_eq_some_iff, ofNat?_eq_some_iff]

/-- Wrapped or not, the hyphenated digits are read as the identifier. -/
theorem ofUuid?_of_unwrap (h : id.HasDigits digits) (hlength : text.length ≠ 32)
    (hunwrap : unwrap text = hyphenated digits) : ofUuid? text = some id := by
  obtain ⟨hdigits, hread⟩ := hasDigits_iff.1 h
  refine ofUuid?_eq_some_iff.2 ⟨digits, ?_, hread⟩
  rw [uuidDigits?, if_neg hlength, hunwrap]
  exact (readGroups?_eq_some_iff (by decide)).2 ⟨hdigits, rfl⟩

/-- A decimal text has digits alone, and one at least. -/
theorem isDecimal_iff : isDecimal text = true ↔ text ≠ [] ∧ ∀ c ∈ text, c.isDigit = true := by
  have hdigit (c : Char) : (Text.decimalValue? c).isSome = true ↔ c.isDigit = true := by
    simp [Option.isSome_iff_exists, Text.decimalValue?_eq_some_iff]
  simp only [isDecimal, Bool.and_eq_true, Bool.not_eq_true', List.isEmpty_eq_false_iff,
    List.all_eq_true, hdigit, ne_eq]

theorem isDecimal_of_denotes {n : Nat} (h : Text.Denotes text n) : isDecimal text = true :=
  isDecimal_iff.2 ⟨h.ne_nil, h.isDigit⟩

theorem isDecimal_eq_false {c : Char} (hc : c ∈ text) (h : c.isDigit = false) :
    isDecimal text = false := by
  rw [← Bool.not_eq_true, isDecimal_iff]
  rintro ⟨-, hall⟩
  rw [hall c hc] at h
  cases h

/-- Hexadecimal digits are taken for decimal ones if there is no letter among them. -/
theorem HasDigits.isDecimal_iff (h : id.HasDigits text) :
    isDecimal text = true ↔ ∀ c ∈ text, c.isAlpha = false := by
  have hne : text ≠ [] := List.ne_nil_of_length_pos (h.length_eq ▸ by decide)
  rw [NodeId.isDecimal_iff, and_iff_right hne]
  refine forall₂_congr fun c hc => ?_
  rw [h.isDigit_eq hc, Bool.not_eq_true']

/-! ### Reading -/

/-- Digits alone are always read in decimal. -/
theorem parse_of_isDecimal {text : String} (h : isDecimal text.toList = true) :
    parse text = .ok id ↔ Text.Denotes text.toList id.value := by
  obtain ⟨hne, hall⟩ := isDecimal_iff.1 h
  have hdenotes : Text.Denotes text.toList _ := ⟨hne, hall, rfl⟩
  rw [parse, if_pos h, Except.mapError_eq_ok_iff, ofDecimal, Except.bind_eq_ok_iff]
  constructor
  · rintro ⟨n, hn, hid⟩
    obtain ⟨-, digits, hdigits, htext | htext⟩ := Text.parseNat_eq_ok_iff.1 hn
    · cases hof : ofNat? n with
      | none =>
        rw [hof] at hid
        cases hid
      | some id' =>
        rw [hof] at hid
        obtain rfl : id' = id := Except.ok.inj hid
        rwa [htext, ← ofNat?_eq_some_iff.1 hof]
    · -- There is no plus sign among digits alone.
      exact absurd htext (hdenotes.ne_cons rfl)
  · intro hid
    have hle : id.value ≤ 0xffffffffffffffffffffffffffffffff := Nat.le_of_lt_succ id.value_lt
    refine ⟨id.value, Text.parseNat_eq_ok_iff.2 ⟨hle, _, hid, .inl rfl⟩, ?_⟩
    rw [ofNat?_eq_some_iff.2 rfl]
    rfl

/-- Everything else is read as a UUID. -/
theorem parse_of_not_isDecimal {text : String} (h : isDecimal text.toList = false) :
    parse text = .ok id ↔ ofUuid? text.toList = some id := by
  rw [parse, h, if_neg Bool.false_ne_true]
  cases ofUuid? text.toList <;> simp

/-- What is read as a UUID is written in one of its forms. -/
theorem isWritten_of_ofUuid? (h : ofUuid? text = some id) (hdecimal : isDecimal text = false) :
    id.IsWritten text := by
  obtain ⟨digits, hdigits, hread⟩ := ofUuid?_eq_some_iff.1 h
  unfold uuidDigits? at hdigits
  split at hdigits
  · next hlength =>
    obtain rfl := Option.some.inj hdigits
    have hid : id.HasDigits text := hasDigits_iff.2 ⟨hlength, hread⟩
    rw [← Bool.not_eq_true, hid.isDecimal_iff] at hdecimal
    refine .plain hid ?_
    -- Without a letter it would be taken for a decimal text.
    by_contra! hnone
    exact hdecimal fun c hc => Bool.not_eq_true _ ▸ hnone c hc
  · obtain ⟨hlength, hbody⟩ := (readGroups?_eq_some_iff (by decide)).1 hdigits
    have hid : id.HasDigits digits := hasDigits_iff.2 ⟨hlength, hread⟩
    obtain htext | htext | ⟨mark, hmark, htext⟩ := of_unwrap_eq hbody
    · exact htext ▸ .hyphenated hid
    · exact htext ▸ .braced hid
    · exact htext ▸ .marked hmark hid

/-- Every way to write an identifier but the decimal one has a letter or a hyphen. -/
theorem IsWritten.denotes_or (h : id.IsWritten text) :
    Text.Denotes text id.value ∨ isDecimal text = false ∧ ofUuid? text = some id := by
  cases h with
  | decimal zeros => exact .inl (Text.denotes_iff_zeros.2 ⟨zeros, rfl⟩)
  | plain hid hletter =>
    obtain ⟨c, hc, hletter⟩ := hletter
    have hdigit : c.isDigit = false := by rw [hid.isDigit_eq hc, hletter, Bool.not_true]
    refine .inr ⟨isDecimal_eq_false hc hdigit, ofUuid?_eq_some_iff.2 ⟨text, ?_, ?_⟩⟩
    · rw [uuidDigits?, if_pos hid.length_eq]
    · exact (hasDigits_iff.1 hid).2
  | @hyphenated digits hid =>
    have hlength := length_hyphenated hid.length_eq
    refine .inr ⟨isDecimal_eq_false (hyphen_mem_hyphenated digits) rfl, ?_⟩
    exact ofUuid?_of_unwrap hid (by omega) (unwrap_hyphenated hid)
  | @braced digits hid =>
    have hlength := length_hyphenated hid.length_eq
    have hhyphen := List.mem_append_left ['\x7d']
      (List.mem_cons_of_mem '\x7b' (hyphen_mem_hyphenated digits))
    refine .inr ⟨isDecimal_eq_false hhyphen rfl, ofUuid?_of_unwrap hid ?_ (unwrap_braced _)⟩
    rw [List.length_append, List.length_cons, hlength]
    decide
  | @marked mark digits hmark hid =>
    have hlength := length_hyphenated hid.length_eq
    have hhyphen := List.mem_append_right mark (hyphen_mem_hyphenated digits)
    refine .inr ⟨isDecimal_eq_false hhyphen rfl, ofUuid?_of_unwrap hid ?_ (unwrap_marked _ hmark)⟩
    rw [List.length_append, hmark.length_eq, hlength]
    decide

/-- The reader takes exactly the writings of identifiers. -/
theorem parse_eq_ok_iff {text : String} : parse text = .ok id ↔ id.IsWritten text.toList := by
  constructor
  · intro h
    cases hdecimal : isDecimal text.toList with
    | true =>
      obtain ⟨zeros, hzeros⟩ := Text.denotes_iff_zeros.1 ((parse_of_isDecimal hdecimal).1 h)
      exact hzeros ▸ .decimal zeros
    | false => exact isWritten_of_ofUuid? ((parse_of_not_isDecimal hdecimal).1 h) hdecimal
  · intro h
    obtain hdenotes | ⟨hdecimal, hid⟩ := h.denotes_or
    · exact (parse_of_isDecimal (isDecimal_of_denotes hdenotes)).2 hdenotes
    · exact (parse_of_not_isDecimal hdecimal).2 hid

/-! ### Main result -/

/-- A text is read as an identifier exactly if it is one of the ways to write it. The hexadecimal
digits of an identifier without a letter among them are read in decimal, so they may be those of
another one. Every other text is refused. -/
theorem parse_written (text : String) :
    (∀ id, parse text = .ok id ↔ id.IsWritten text.toList) ∧
    (∀ id : NodeId, id.HasDigits text.toList → (∀ c ∈ text.toList, c.isAlpha = false) →
      ∃ id' : NodeId, parse text = .ok id' ∧ id'.value = Nat.ofDigitChars 10 text.toList 0) ∧
    ((∃ fault, parse text = .error fault) ↔ ∀ id : NodeId, ¬ id.IsWritten text.toList) := by
  refine ⟨fun _ => parse_eq_ok_iff, ?_, ?_⟩
  · intro id hid hletters
    have hdecimal := hid.isDecimal_iff.2 hletters
    obtain ⟨hne, hall⟩ := isDecimal_iff.1 hdecimal
    have hdenotes : Text.Denotes text.toList (Nat.ofDigitChars 10 text.toList 0) := ⟨hne, hall, rfl⟩
    have hlt := hdenotes.lt_pow
    rw [hid.length_eq] at hlt
    exact ⟨⟨_, hlt.trans (by decide)⟩, (parse_of_isDecimal hdecimal).2 hdenotes, rfl⟩
  · simp only [← parse_eq_ok_iff]
    cases parse text <;> simp

/-- The mark may have capitals, and 32 digits without a letter are a decimal number. -/
theorem parse_written_forms :
    IsWritten ⟨255, by decide⟩ "URN:uuid:00000000-0000-0000-0000-0000000000fF".toList ∧
    (∃ id : NodeId, parse "00000000000000000000000000000010" = .ok id ∧ id.value = 10) ∧
    ∀ id : NodeId, ¬ id.IsWritten " 42".toList := by
  obtain ⟨hwritten, -, -⟩ := parse_written "URN:uuid:00000000-0000-0000-0000-0000000000fF"
  obtain ⟨-, hdecimal, -⟩ := parse_written "00000000000000000000000000000010"
  obtain ⟨-, -, hrefused⟩ := parse_written " 42"
  refine ⟨(hwritten _).1 (by rfl), ?_, hrefused.1 ⟨.notUuid, by rfl⟩⟩
  exact hdecimal ⟨16, by decide⟩ (by rw [HasDigits]; decide) (by simp)

end TokenRing.NodeId
