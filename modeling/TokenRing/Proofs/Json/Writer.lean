import Mathlib.Data.List.Forall2
import TokenRing.Json.Writer
import TokenRing.Proofs.Json.TextLiteral

/-!
# Written elements

What a writer gives is a writing of the elements of the value, in every layout that only puts
blanks between them.
-/

namespace TokenRing.Json

structure Layout.IsBlank (layout : Layout) : Prop where
  newline : ∀ depth, ∀ c ∈ layout.newline depth, isBlank c = true
  colon : Spaced [.symbol ':'] layout.colon

def Writes (w : Writer) (es : List Element) : Prop :=
  ∀ ⦃layout : Layout⦄, layout.IsBlank → ∀ depth, Spaced es (w layout depth)

theorem Spaced.singleton {e : Element} {written : List Char} (h : e.Written written) :
    Spaced [e] written := by
  have hspaced : Spaced [e] ([] ++ (written ++ [])) := .cons nofun h (.nil nofun)
  rwa [List.append_nil, List.nil_append] at hspaced

theorem isBlank_compact : Layout.compact.IsBlank where
  newline _ := nofun
  colon := .singleton (.symbol (by decide))

theorem isBlank_pretty : Layout.pretty.IsBlank where
  newline depth c hc := by
    rcases List.mem_cons.1 hc with rfl | hc
    · decide
    · rw [List.eq_of_mem_replicate hc]
      decide
  colon := by
    have hblank : Spaced [] [' '] := .nil (List.all_eq_true.1 rfl)
    exact Spaced.append (.singleton (.symbol (by decide))) hblank

/-! ### Texts, labels and numbers -/

/-- A quoted text shows one element, the text. -/
theorem writes_literal (text : String) : Spaced [.text text] (writeLiteral text.toList) :=
  .singleton (.text (spells_flatMap_writeChar text.toList))

theorem writes_text (text : String) : Writes (writeText text) [.text text] :=
  fun _ _ _ => writes_literal text

theorem writes_natural (n : Nat) : Writes (writeNatural n) [.natural n] :=
  fun _ _ _ => .singleton (.natural n)

def optionalText : Option String → Element
  | none => .null
  | some text => .text text

theorem writes_optionalText (text : Option String) :
    Writes (writeOptionalText text) [optionalText text] := by
  cases text with
  | none => exact fun _ _ _ => .singleton .null
  | some text => exact writes_text text

/-! ### Sequences and mappings -/

variable {opening closing : Char} {items : List Writer} {es : List (List Element)}

/-- The items behind the first one come with a comma and a new line each, up to the closing
symbol. -/
theorem spaced_items (hclosing : closing ∈ symbols) (h : List.Forall₂ Writes items es)
    {layout : Layout} (hlayout : layout.IsBlank) (depth : Nat) :
    Spaced (listing closing false es)
      (items.flatMap (fun w => ',' :: (layout.newline (depth + 1) ++ w layout (depth + 1))) ++
        (layout.newline depth ++ [closing])) := by
  induction h with
  | nil =>
    rw [List.flatMap_nil, List.nil_append]
    exact Spaced.blank_append (hlayout.newline depth) (.singleton (.symbol hclosing))
  | @cons w elements items es hw _ ih =>
    have hcomma : Spaced [.symbol ','] [','] := .singleton (.symbol (by decide))
    have hvalue := Spaced.blank_append (hlayout.newline (depth + 1)) (hw hlayout (depth + 1))
    rw [List.flatMap_cons, List.append_assoc]
    exact hcomma.append (hvalue.append ih)

/-- Values between brackets show their listing, in either layout. -/
theorem writes_items (hopening : opening ∈ symbols) (hclosing : closing ∈ symbols)
    (h : List.Forall₂ Writes items es) :
    Writes (writeItems opening closing items) (.symbol opening :: listing closing true es) := by
  intro layout hlayout depth
  have hopen : Spaced [.symbol opening] [opening] := .singleton (.symbol hopening)
  cases h with
  | nil => exact hopen.append (.singleton (.symbol hclosing))
  | @cons w elements items es hw hrest =>
    have hvalue := Spaced.blank_append (hlayout.newline (depth + 1)) (hw hlayout (depth + 1))
    have hitems := spaced_items hclosing hrest hlayout depth
    have hall := hopen.append (hvalue.append hitems)
    simpa only [writeItems, listing, if_true, List.cons_append, List.nil_append,
      List.append_assoc] using hall

theorem writes_sequence (h : List.Forall₂ Writes items es) :
    Writes (writeSequence items) (sequence es) :=
  writes_items (by decide) (by decide) h

theorem writes_sequence_map {α : Type} {values : List α} {write : α → Writer}
    {elements : α → List Element} (h : ∀ a ∈ values, Writes (write a) (elements a)) :
    Writes (writeSequence (values.map write)) (sequence (values.map elements)) := by
  apply writes_sequence
  rw [List.forall₂_map_left_iff, List.forall₂_map_right_iff, List.forall₂_same]
  exact h

theorem writes_entry {key : String} {value : Writer} {elements : List Element}
    (h : Writes value elements) : Writes (writeEntry key value) (member (key, elements)) := by
  intro layout hlayout depth
  have hentry := ((writes_literal key).append hlayout.colon).append (h hlayout depth)
  exact hentry

def WritesMember (entry : String × Writer) (m : String × List Element) : Prop :=
  entry.1 = m.1 ∧ Writes entry.2 m.2

/-- A mapping is written with the elements of its members in order. -/
theorem writes_mapping {entries : List (String × Writer)} {members : List (String × List Element)}
    (h : List.Forall₂ WritesMember entries members) :
    Writes (writeMapping entries) (mapping members) := by
  refine writes_items (by decide) (by decide) ?_
  rw [List.forall₂_map_left_iff, List.forall₂_map_right_iff]
  refine h.imp ?_
  rintro ⟨key, value⟩ ⟨_, elements⟩ ⟨rfl, hvalue⟩
  exact writes_entry hvalue

end TokenRing.Json
