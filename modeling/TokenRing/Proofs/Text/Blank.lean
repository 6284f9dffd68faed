import Mathlib.Data.List.TakeWhile
import TokenRing.Text.Blank

/-!
# Stripping blanks

What is stripped from a text are the blanks around it.
-/

namespace TokenRing.Text

variable {before text core after : List Char}

/-- The part of a text between the blanks at its ends. -/
def TrimsTo (text core : List Char) : Prop :=
  ∃ before after, text = before ++ core ++ after ∧ (∀ c ∈ before, isBlank c = true) ∧
    (∀ c ∈ after, isBlank c = true) ∧ (∀ c ∈ core.head?, isBlank c = false) ∧
    ∀ c ∈ core.getLast?, isBlank c = false

/-- The blanks before a text are dropped, and nothing behind its first character is. -/
theorem dropWhile_isBlank_append (hbefore : ∀ c ∈ before, isBlank c = true)
    (hfirst : ∀ c ∈ core.head?, isBlank c = false) (hne : core ≠ []) (after : List Char) :
    (before ++ (core ++ after)).dropWhile isBlank = core ++ after := by
  obtain ⟨c, rest, rfl⟩ := List.exists_cons_of_ne_nil hne
  rw [List.dropWhile_append_of_pos hbefore, List.cons_append, List.dropWhile_cons_of_neg]
  simp [hfirst c rfl]

theorem isBlank_of_head?_dropWhile {c : Char} (text : List Char)
    (h : (text.dropWhile isBlank).head? = some c) : isBlank c = false := by
  have hhead := List.head?_dropWhile_not isBlank text
  rwa [h] at hhead

/-- What is cut off at both ends are blanks, and no blank is left there. -/
theorem trimsTo_trim (text : List Char) : TrimsTo text (trim text) := by
  have hfront : text.takeWhile isBlank ++ text.dropWhile isBlank = text :=
    List.takeWhile_append_dropWhile
  have hback : trim text ++ ((text.dropWhile isBlank).reverse.takeWhile isBlank).reverse =
      text.dropWhile isBlank := by
    rw [trim, ← List.reverse_append, List.takeWhile_append_dropWhile, List.reverse_reverse]
  refine ⟨text.takeWhile isBlank, ((text.dropWhile isBlank).reverse.takeWhile isBlank).reverse,
    ?_, fun c => List.mem_takeWhile_imp, fun c hc => ?_, fun c hc => ?_, fun c hc => ?_⟩
  · rw [List.append_assoc, hback, hfront]
  · exact List.mem_takeWhile_imp (List.mem_reverse.1 hc)
  · apply isBlank_of_head?_dropWhile text
    rw [← hback, List.head?_append, Option.mem_def.1 hc, Option.some_or]
  · apply isBlank_of_head?_dropWhile (text.dropWhile isBlank).reverse
    rw [← List.getLast?_reverse]
    exact hc

theorem trim_of_trimsTo (h : TrimsTo text core) : trim text = core := by
  obtain ⟨before, after, rfl, hbefore, hafter, hfirst, hlast⟩ := h
  by_cases hne : core = []
  · subst hne
    have hblank : (before ++ [] ++ after).dropWhile isBlank = [] := by
      rw [List.append_nil, List.dropWhile_eq_nil_iff]
      exact List.forall_mem_append.2 ⟨hbefore, hafter⟩
    rw [trim, hblank]
    rfl
  · -- From the back, the blanks after the rest come first.
    have hback : (after.reverse ++ (core.reverse ++ [])).dropWhile isBlank = core.reverse ++ [] :=
      dropWhile_isBlank_append (fun c hc => hafter c (List.mem_reverse.1 hc))
        (by rwa [List.head?_reverse]) (by simpa using hne) []
    rw [List.append_nil] at hback
    rw [trim, List.append_assoc, dropWhile_isBlank_append hbefore hfirst hne, List.reverse_append,
      hback, List.reverse_reverse]

/-- The stripped text is the part between the blanks, which is the only one. -/
theorem trim_eq_iff : trim text = core ↔ TrimsTo text core := by
  constructor
  · rintro rfl
    exact trimsTo_trim text
  · exact trim_of_trimsTo

/-- Blanks around a text without blanks are stripped. -/
theorem trim_append (hbefore : ∀ c ∈ before, isBlank c = true)
    (hafter : ∀ c ∈ after, isBlank c = true) (hcore : ∀ c ∈ core, isBlank c = false) :
    trim (before ++ core ++ after) = core :=
  trim_of_trimsTo ⟨before, after, rfl, hbefore, hafter,
    fun c hc => hcore c (List.mem_of_head? hc), fun c hc => hcore c (List.mem_of_getLast? hc)⟩

theorem trim_eq_self (hcore : ∀ c ∈ core, isBlank c = false) : trim core = core := by
  have htrim : trim ([] ++ core ++ []) = core :=
    trim_append (List.forall_mem_nil _) (List.forall_mem_nil _) hcore
  rwa [List.nil_append, List.append_nil] at htrim

theorem mem_dropWhile_isBlank {c : Char} (h : c ∈ text) (hc : isBlank c = false) :
    c ∈ text.dropWhile isBlank := by
  rw [← text.takeWhile_append_dropWhile (p := isBlank), List.mem_append] at h
  rcases h with hblank | hrest
  · rw [List.mem_takeWhile_imp hblank] at hc
    cases hc
  · exact hrest

/-- Only blanks are lost. -/
theorem mem_trim {c : Char} (h : c ∈ text) (hc : isBlank c = false) : c ∈ trim text :=
  List.mem_reverse.2 <|
    mem_dropWhile_isBlank (List.mem_reverse.2 (mem_dropWhile_isBlank h hc)) hc

end TokenRing.Text
