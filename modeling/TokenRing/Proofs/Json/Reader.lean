import TokenRing.Proofs.Json.TextLiteral

/-!
# Reading elements

`Reads` says that a reader takes the elements of a value from the front of any writing of them and
leaves what follows. It holds of the readers of texts, labels, numbers and sequences.
-/

namespace TokenRing.Json

variable {α β : Type}

/-- Whether a reader takes elements as a value, whatever follows them. -/
def Reads (read : Reader α) (es : List Element) (a : α) : Prop :=
  ∀ {more : List Element} {text : List Char}, Delimits more → Spaced (es ++ more) text →
    ∃ rest, read text = .ok (a, rest) ∧ Spaced more rest

theorem Reads.map {read : Reader α} {es : List Element} {a : α} (h : Reads read es a) (f : α → β) :
    Reads (fun text => (read text).map fun r => (f r.1, r.2)) es (f a) := by
  intro more text hmore htext
  obtain ⟨rest, hread, hrest⟩ := h hmore htext
  refine ⟨rest, ?_, hrest⟩
  dsimp only
  rw [hread]
  rfl

/-- A document that shows the elements of a value, and nothing else, is read as this value. -/
theorem readDocument_of_reads {read : Reader α} {es : List Element} {a : α} {text : List Char}
    (h : Reads read es a) (htext : Spaced es text) : readDocument read text = .ok a := by
  rw [← List.append_nil es] at htext
  obtain ⟨rest, hread, hrest⟩ := h delimits_nil htext
  rw [readDocument, hread]
  show (if (skipBlank rest).isEmpty then .ok a else .error .malformed : Except Fault α) = .ok a
  rw [hrest.skipBlank_eq_nil]
  rfl

/-! ### Texts, labels and numbers -/

theorem reads_text (value : String) : Reads readText [.text value] value := by
  intro more text _ htext
  obtain ⟨body, rest, hskip, hbody, hrest⟩ := htext.exists_skipBlank_text
  refine ⟨rest, ?_, hrest⟩
  rw [readText, hskip]
  show Except.map _ (readLiteral true .between [] (body ++ '"' :: rest)) = _
  rw [readLiteral_spells hbody]
  show Except.ok (String.ofList value.toList, rest) = _
  rw [String.ofList_toList]

theorem reads_optionalText_some (value : String) :
    Reads readOptionalText [.text value] (some value) := by
  intro more text hmore htext
  obtain ⟨body, behind, hskip, -, -⟩ := htext.exists_skipBlank_text
  obtain ⟨rest, hread, hrest⟩ := reads_text value hmore htext.afterBlanks
  refine ⟨rest, ?_, hrest⟩
  rw [hskip] at hread
  rw [readOptionalText, hskip]
  show Except.map _ (readText ('"' :: (body ++ '"' :: behind))) = _
  rw [hread]
  rfl

theorem reads_optionalText_none : Reads readOptionalText [.null] none := by
  intro more text _ htext
  obtain ⟨written, rest, hskip, hwritten, hrest⟩ := htext.exists_skipBlank
  cases hwritten
  refine ⟨rest, ?_, hrest⟩
  rw [readOptionalText, hskip]
  rfl

/-- A number in its range is read from its element. -/
theorem reads_natural {greatest n : Nat} (h : n ≤ greatest) :
    Reads (readNatural greatest) [.natural n] n := by
  intro more text hmore htext
  obtain ⟨written, rest, hskip, hwritten, hrest⟩ := htext.exists_skipBlank
  cases hwritten
  refine ⟨rest, ?_, hrest⟩
  have hdigits := readWhole_decimal (fun _ => hmore.head_not_digit hrest) .malformed n
  rw [readNatural, hskip]
  split
  · next hnil => exact absurd hnil (by simp [Text.decimal_ne_nil])
  · rw [hdigits]
    show (if Numeral.natural (Text.decimal n) ≤ greatest then
      .ok (Numeral.natural (Text.decimal n), rest)
      else .error .malformed : Except Fault (Nat × List Char)) = _
    rw [natural_decimal, if_pos h]

/-! ### Sequences -/

/-- Whether elements begin a value: there is a first one, and it does not close a sequence. -/
def Opens (es : List Element) : Prop :=
  ∃ e rest, es = e :: rest ∧ e ≠ .symbol ']'

theorem Opens.ne_nil {es : List Element} (h : Opens es) : es ≠ [] := by
  obtain ⟨e, rest, rfl, -⟩ := h
  exact List.cons_ne_nil e rest

/-- Behind the blanks at the front, a value begins with a character other than the closing
bracket. -/
theorem Opens.exists_skipBlank {es more : List Element} {text : List Char} (h : Opens es)
    (htext : Spaced (es ++ more) text) :
    ∃ c rest, skipBlank text = c :: rest ∧ c ≠ ']' ∧ Spaced (es ++ more) (c :: rest) := by
  obtain ⟨e, behind, rfl, hne⟩ := h
  obtain ⟨written, rest, hskip, hwritten, -⟩ := htext.exists_skipBlank
  have hafter := htext.afterBlanks
  rw [hskip] at hafter ⊢
  -- Only the closing bracket itself begins with that character.
  cases hwritten with
  | symbol hc =>
    refine ⟨_, rest, rfl, ?_, hafter⟩
    rintro rfl
    exact hne rfl
  | null => exact ⟨_, _, rfl, by decide, hafter⟩
  | natural n =>
    obtain ⟨c, digits, heq⟩ := List.exists_cons_of_ne_nil (Text.decimal_ne_nil n)
    have hdigit : isDigit c = true := isDigit_of_mem_decimal (heq ▸ List.mem_cons_self)
    rw [heq] at hafter ⊢
    refine ⟨c, digits ++ rest, rfl, ?_, hafter⟩
    rintro rfl
    exact absurd hdigit (by decide)
  | text => exact ⟨_, _, rfl, by decide, hafter⟩

variable {isFirst : Bool} {closing : Char} {items : List (List Element)} {more : List Element}
  {text : List Char}

theorem delimits_listing : Delimits (listing closing false items ++ more) := by
  cases items with
  | nil => exact delimits_symbol closing more
  | cons item rest => exact delimits_symbol ',' _

theorem length_lt_listing (h : ∀ item ∈ items, item ≠ []) :
    items.length < (listing closing isFirst items).length := by
  induction items generalizing isFirst with
  | nil => exact Nat.zero_lt_one
  | cons item rest ih =>
    have hitem := List.length_pos_iff.2 (h item List.mem_cons_self)
    have hrest : rest.length < (listing closing false rest).length :=
      ih fun item hmem => h item (List.mem_cons_of_mem _ hmem)
    simp only [listing, List.length_append, List.length_cons]
    omega

/-- A listing has more characters than items, so the length of its text is fuel enough. -/
theorem length_lt_of_listing (h : ∀ item ∈ items, item ≠ [])
    (htext : Spaced (listing closing isFirst items ++ more) text) :
    items.length < text.length + 1 := by
  have hitems : items.length < (listing closing isFirst items).length := length_lt_listing h
  have hlength := htext.length_le
  rw [List.length_append] at hlength
  omega

theorem nextValue_closed (htext : Spaced (.symbol ']' :: more) text) :
    ∃ rest, nextValue isFirst text = .ok (.closed rest) ∧ Spaced more rest := by
  obtain ⟨rest, hskip, hrest⟩ := htext.exists_skipBlank_symbol
  refine ⟨rest, ?_, hrest⟩
  rw [nextValue, hskip]
  rfl

/-- In front of an item the reader goes over the comma, which the first item has none of. -/
theorem nextValue_item {item : List Element} (hitem : Opens item)
    (htext : Spaced ((if isFirst then [] else [.symbol ',']) ++ (item ++ more)) text) :
    ∃ rest, nextValue isFirst text = .ok (.item rest) ∧ Spaced (item ++ more) rest := by
  cases isFirst with
  | true =>
    obtain ⟨c, rest, hskip, hne, hrest⟩ := hitem.exists_skipBlank htext
    refine ⟨c :: rest, ?_, hrest⟩
    rw [nextValue, hskip]
    split <;> simp_all
  | false =>
    obtain ⟨behind, hcomma, hbehind⟩ := htext.exists_skipBlank_symbol
    obtain ⟨c, rest, hskip, hne, hrest⟩ := hitem.exists_skipBlank hbehind
    refine ⟨c :: rest, ?_, hrest⟩
    rw [nextValue, hcomma]
    simp [hskip, hne]

/-- The items of a listing are read one after another, given fuel for all of them and the end. -/
theorem readValues_listing {read : Reader α} {elements : α → List Element} {values : List α}
    (h : ∀ a ∈ values, Opens (elements a) ∧ Reads read (elements a) a) {fuel : Nat}
    (hfuel : values.length < fuel)
    (htext : Spaced (listing ']' isFirst (values.map elements) ++ more) text) :
    ∃ rest, readValues read fuel isFirst text = .ok (values, rest) ∧ Spaced more rest := by
  -- On the values still to come, each of which costs one unit of fuel.
  induction values generalizing fuel isFirst text with
  | nil =>
    obtain ⟨fuel, rfl⟩ := Nat.exists_eq_succ_of_ne_zero (Nat.ne_zero_of_lt hfuel)
    obtain ⟨rest, hnext, hrest⟩ := nextValue_closed htext
    refine ⟨rest, ?_, hrest⟩
    rw [readValues, hnext]
    rfl
  | cons a values ih =>
    obtain ⟨fuel, rfl⟩ := Nat.exists_eq_succ_of_ne_zero (Nat.ne_zero_of_lt hfuel)
    obtain ⟨hopens, hreads⟩ := h a List.mem_cons_self
    rw [List.map_cons, listing, List.append_assoc, List.append_assoc] at htext
    obtain ⟨front, hnext, hfront⟩ := nextValue_item hopens htext
    obtain ⟨behind, hread, hbehind⟩ := hreads delimits_listing hfront
    have hvalues := fun b hb => h b (List.mem_cons_of_mem a hb)
    obtain ⟨rest, htail, hrest⟩ := ih hvalues (Nat.lt_of_succ_lt_succ hfuel) hbehind
    refine ⟨rest, ?_, hrest⟩
    simp only [readValues, bind, Except.bind, hnext, hread, htail]
    rfl

/-- A sequence is read if each of its values is. -/
theorem reads_sequence {read : Reader α} {elements : α → List Element} {values : List α}
    (h : ∀ a ∈ values, Opens (elements a) ∧ Reads read (elements a) a) :
    Reads (readSequence read) (sequence (values.map elements)) values := by
  intro more text _ htext
  rw [sequence, List.cons_append] at htext
  obtain ⟨behind, hskip, hbehind⟩ := htext.exists_skipBlank_symbol
  have hfuel : values.length < behind.length + 1 := by
    rw [← List.length_map]
    refine length_lt_of_listing ?_ hbehind
    intro item hitem
    obtain ⟨a, ha, rfl⟩ := List.mem_map.1 hitem
    exact (h a ha).1.ne_nil
  obtain ⟨rest, hread, hrest⟩ := readValues_listing h hfuel hbehind
  refine ⟨rest, ?_, hrest⟩
  rw [readSequence, hskip]
  exact hread

theorem opens_sequence (values : List (List Element)) : Opens (sequence values) :=
  ⟨_, _, rfl, by decide⟩

end TokenRing.Json
