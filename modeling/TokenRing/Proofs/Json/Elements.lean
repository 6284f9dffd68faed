import TokenRing.Json.Reader
import TokenRing.Proofs.Json.Numeral

/-!
# Lexical elements

A value is written as lexical elements with any blanks before, between and behind them: symbols,
`null`, natural numbers and texts. `Spaced` relates a list of elements to every text that is such a
writing of it. A text may escape any of its characters.
-/

namespace TokenRing.Json

def symbols : List Char :=
  ['[', ']', '\x7b', '\x7d', ',', ':']

inductive Element where
  | symbol (c : Char)
  | null
  | natural (n : Nat)
  | text (value : String)
  deriving DecidableEq

/-! ### Spelling -/

inductive CharSpelling (c : Char) : List Char → Prop where
  | plain (hquote : c ≠ '"') (hbackslash : c ≠ '\\') (hcontrol : 0x20 ≤ c.toNat) :
      CharSpelling c [c]
  | short {letter : Char} (h : escapedChar? letter = some c) : CharSpelling c ['\\', letter]
  | unit {digits : List Char} (hlength : digits.length = 4)
      (hvalue : Text.readHex? 0 digits = some c.toNat) : CharSpelling c ('\\' :: 'u' :: digits)
  | pair {high low : List Char} {leading trailing : Nat} (hhigh : high.length = 4)
      (hlow : low.length = 4) (hleading : Text.readHex? 0 high = some leading)
      (htrailing : Text.readHex? 0 low = some trailing) (isLeading : isLeading leading = true)
      (isTrailing : isTrailing trailing = true)
      (hvalue : c.toNat = 0x10000 + 0x400 * (leading - 0xD800) + (trailing - 0xDC00)) :
      CharSpelling c ('\\' :: 'u' :: (high ++ '\\' :: 'u' :: low))

/-- What stands between the quotes of a literal of a text. -/
inductive Spells : (text body : List Char) → Prop where
  | nil : Spells [] []
  | cons {c : Char} {text spelling body : List Char} (hchar : CharSpelling c spelling)
      (hrest : Spells text body) : Spells (c :: text) (spelling ++ body)

inductive Element.Written : Element → List Char → Prop where
  | symbol {c : Char} (h : c ∈ symbols) : Written (.symbol c) [c]
  | null : Written .null ['n', 'u', 'l', 'l']
  | natural (n : Nat) : Written (.natural n) (Text.decimal n)
  | text {value : String} {body : List Char} (h : Spells value.toList body) :
      Written (.text value) ('"' :: (body ++ ['"']))

/-- Elements in order, with blanks around them. -/
inductive Spaced : List Element → List Char → Prop where
  | nil {text : List Char} (h : ∀ c ∈ text, isBlank c = true) : Spaced [] text
  | cons {e : Element} {es : List Element} {before written rest : List Char}
      (hbefore : ∀ c ∈ before, isBlank c = true) (hwritten : e.Written written)
      (hrest : Spaced es rest) : Spaced (e :: es) (before ++ (written ++ rest))

/-! ### Sequences and mappings -/

def listing (closing : Char) : (isFirst : Bool) → (items : List (List Element)) → List Element
  | _, [] => [.symbol closing]
  | isFirst, item :: rest =>
    (if isFirst then [] else [.symbol ',']) ++ (item ++ listing closing false rest)

def sequence (values : List (List Element)) : List Element :=
  .symbol '[' :: listing ']' true values

def member (m : String × List Element) : List Element :=
  .text m.1 :: .symbol ':' :: m.2

def mapping (members : List (String × List Element)) : List Element :=
  .symbol '\x7b' :: listing '\x7d' true (members.map member)

/-! ### Blanks -/

theorem isDigit_of_isBlank {c : Char} (h : isBlank c = true) : isDigit c = false := by
  simp only [isBlank, Bool.or_eq_true, decide_eq_true_eq] at h
  rcases h with ((rfl | rfl) | rfl) | rfl <;> decide

theorem isBlank_of_isDigit {c : Char} (h : isDigit c = true) : isBlank c = false := by
  cases hblank : isBlank c with
  | false => rfl
  | true => exact absurd h (by simp [isDigit_of_isBlank hblank])

theorem isBlank_of_mem_symbols {c : Char} (h : c ∈ symbols) : isBlank c = false := by
  have hall : ∀ c ∈ symbols, isBlank c = false := by simp [symbols, isBlank]
  exact hall c h

theorem isDigit_of_mem_symbols {c : Char} (h : c ∈ symbols) : isDigit c = false := by
  have hall : ∀ c ∈ symbols, isDigit c = false := by simp [symbols, isDigit]
  exact hall c h

/-- Every element is written with a character at least, and the first one is no blank. -/
theorem Element.Written.exists_cons {e : Element} {written : List Char} (h : e.Written written) :
    ∃ c rest, written = c :: rest ∧ isBlank c = false := by
  cases h with
  | symbol hc => exact ⟨_, [], rfl, isBlank_of_mem_symbols hc⟩
  | null => exact ⟨_, _, rfl, by decide⟩
  | natural n =>
    obtain ⟨c, rest, heq⟩ := List.exists_cons_of_ne_nil (Text.decimal_ne_nil n)
    have hdigit : isDigit c = true := isDigit_of_mem_decimal (heq ▸ List.mem_cons_self)
    exact ⟨c, rest, heq, isBlank_of_isDigit hdigit⟩
  | text => exact ⟨_, _, rfl, by decide⟩

namespace Spaced

variable {es es' : List Element} {e : Element} {text text' before : List Char}

theorem blank_append (hbefore : ∀ c ∈ before, isBlank c = true) (h : Spaced es text) :
    Spaced es (before ++ text) := by
  cases h with
  | nil hblank =>
    apply Spaced.nil
    intro c hc
    exact (List.mem_append.1 hc).elim (hbefore c) (hblank c)
  | @cons e es between written rest hbetween hwritten hrest =>
    have hblank : ∀ c ∈ before ++ between, isBlank c = true := fun c hc =>
      (List.mem_append.1 hc).elim (hbefore c) (hbetween c)
    rw [← List.append_assoc]
    exact .cons hblank hwritten hrest

/-- Two texts one behind the other show the elements of both. -/
theorem append (h : Spaced es text) (h' : Spaced es' text') : Spaced (es ++ es') (text ++ text') := by
  induction h with
  | nil hblank => exact h'.blank_append hblank
  | @cons e es before written rest hbefore hwritten hrest ih =>
    rw [List.append_assoc, List.append_assoc]
    exact .cons hbefore hwritten ih

/-- No element is empty. -/
theorem length_le (h : Spaced es text) : es.length ≤ text.length := by
  induction h with
  | nil => exact Nat.zero_le _
  | @cons e es before written rest hbefore hwritten hrest ih =>
    obtain ⟨c, more, rfl, -⟩ := hwritten.exists_cons
    simp only [List.length_append, List.length_cons]
    omega

theorem skipBlank_eq_nil (h : Spaced [] text) : skipBlank text = [] := by
  cases h with
  | nil hblank =>
    have hdrop : (text ++ []).dropWhile isBlank = [] := List.dropWhile_append_of_pos hblank
    rwa [List.append_nil] at hdrop

/-- Behind the blanks at the front stands what writes the first element. -/
theorem exists_skipBlank (h : Spaced (e :: es) text) :
    ∃ written rest, skipBlank text = written ++ rest ∧ e.Written written ∧ Spaced es rest := by
  cases h with
  | @cons e es before written rest hbefore hwritten hrest =>
    refine ⟨written, rest, ?_, hwritten, hrest⟩
    obtain ⟨c, more, rfl, hc⟩ := hwritten.exists_cons
    rw [skipBlank, List.dropWhile_append_of_pos hbefore, List.cons_append,
      List.dropWhile_cons_of_neg]
    simp [hc]

theorem exists_skipBlank_symbol {c : Char} (h : Spaced (.symbol c :: es) text) :
    ∃ rest, skipBlank text = c :: rest ∧ Spaced es rest := by
  obtain ⟨written, rest, hskip, hwritten, hrest⟩ := h.exists_skipBlank
  cases hwritten
  exact ⟨rest, hskip, hrest⟩

/-- If the first element is a text, a quoted spelling of it stands behind the blanks. -/
theorem exists_skipBlank_text {value : String} (h : Spaced (.text value :: es) text) :
    ∃ body rest, skipBlank text = '"' :: (body ++ '"' :: rest) ∧ Spells value.toList body ∧
      Spaced es rest := by
  obtain ⟨written, rest, hskip, hwritten, hrest⟩ := h.exists_skipBlank
  cases hwritten with
  | @text value body hbody =>
    refine ⟨body, rest, ?_, hbody, hrest⟩
    rw [hskip, List.cons_append, List.append_assoc, List.singleton_append]

theorem afterBlanks (h : Spaced es text) : Spaced es (skipBlank text) := by
  cases es with
  | nil =>
    rw [h.skipBlank_eq_nil]
    exact .nil nofun
  | cons e es =>
    obtain ⟨written, rest, hskip, hwritten, hrest⟩ := h.exists_skipBlank
    rw [hskip]
    rw [← List.nil_append (written ++ rest)]
    exact .cons nofun hwritten hrest

end Spaced

/-! ### What may follow a value -/

/-- Whether elements begin with a symbol, if there are any. A number must not be followed by
another one. -/
def Delimits (es : List Element) : Prop :=
  ∀ e, es.head? = some e → ∃ c, e = .symbol c

theorem delimits_nil : Delimits [] :=
  fun _ h => nomatch h

theorem delimits_symbol (c : Char) (es : List Element) : Delimits (.symbol c :: es) :=
  fun _ h => ⟨c, (Option.some.inj h).symm⟩

/-- What may follow a number does not begin with a digit. -/
theorem Delimits.head_not_digit {es : List Element} {text : List Char} (h : Delimits es)
    (htext : Spaced es text) {c : Char} (hc : text.head? = some c) : isDigit c = false := by
  cases htext with
  | nil hall => exact isDigit_of_isBlank (hall c (List.mem_of_head? hc))
  | @cons e es before written rest hbefore hwritten hrest =>
    -- What comes first is a blank, or else the symbol itself.
    cases before with
    | nil =>
      obtain ⟨symbol, rfl⟩ := h e rfl
      cases hwritten with
      | symbol hmem =>
        obtain rfl : symbol = c := Option.some.inj hc
        exact isDigit_of_mem_symbols hmem
    | cons b before =>
      obtain rfl : b = c := Option.some.inj hc
      exact isDigit_of_isBlank (hbefore b List.mem_cons_self)

end TokenRing.Json
