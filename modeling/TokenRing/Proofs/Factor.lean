import TokenRing.Proofs.Text.Blank
import TokenRing.Proofs.Text.Decimal
import TokenRing.Settings

/-!
# Texts of replication factors

A text is a replication factor if and only if it is a count, or a count of all replicas and a count
of transient ones with a slash between them. The written form of a factor that was read can be read
again.
-/

namespace TokenRing.Factor

open Text (Denotes trim isBlank decimal)

/-! ### Counts -/

/-- Whether a text writes a count, with blanks around it and a sign or without. Behind a minus sign
there can only be zero. -/
def IsCount (text : List Char) (n : Nat) : Prop :=
  n ≤ 0x7fffffffffffffff ∧ ∃ digits, Denotes digits n ∧
    (trim text = digits ∨ trim text = '+' :: digits ∨ trim text = '-' :: digits ∧ n = 0)

/-- The reader of counts takes exactly the writings of counts. -/
theorem parseCount_eq_ok_iff {text : List Char} {n : Nat} :
    parseCount text = .ok n ↔ IsCount text n := by
  constructor
  · intro h
    unfold parseCount at h
    split at h
    · next value hvalue =>
      split at h
      · cases h
      · next hnonneg =>
        obtain ⟨m, digits, hdigits, ⟨htext, hle, rfl⟩ | ⟨htext, -, rfl⟩⟩ :=
          Text.parseInt_eq_ok_iff.1 hvalue
        · obtain rfl : m = n := Except.ok.inj h
          exact ⟨hle, digits, hdigits, htext.imp_right .inl⟩
        · -- Behind a minus sign only zero is not negative.
          obtain rfl : m = 0 := by omega
          obtain rfl : 0 = n := Except.ok.inj h
          exact ⟨Nat.zero_le _, digits, hdigits, .inr (.inr ⟨htext, rfl⟩)⟩
    · cases h
  · rintro ⟨hle, digits, hdigits, htext⟩
    have hvalue :
        Text.parseInt 0x8000000000000000 0x7fffffffffffffff (trim text) = .ok (n : Int) := by
      refine Text.parseInt_eq_ok_iff.2 ⟨n, digits, hdigits, ?_⟩
      rcases htext with htext | htext | ⟨htext, rfl⟩
      · exact .inl ⟨.inl htext, hle, rfl⟩
      · exact .inl ⟨.inr htext, hle, rfl⟩
      · exact .inr ⟨htext, Nat.zero_le _, rfl⟩
    rw [parseCount, hvalue]
    show (if (n : Int) < 0 then _ else Except.ok n) = .ok n
    rw [if_neg (by omega)]

theorem isCount_decimal {n : Nat} (h : n ≤ 0x7fffffffffffffff) : IsCount (decimal n) n := by
  have htrim : trim (decimal n) = decimal n :=
    Text.trim_eq_self (fun _ => Text.isBlank_of_mem_decimal)
  exact ⟨h, decimal n, Text.denotes_iff_zeros.2 ⟨0, rfl⟩, .inl htrim⟩

theorem not_mem_of_isCount {text : List Char} {n : Nat} (h : IsCount text n) : '/' ∉ text := by
  obtain ⟨-, digits, hdigits, htext⟩ := h
  intro hmem
  have hslash : '/' ∉ digits := fun hslash => absurd (hdigits.isDigit _ hslash) (by decide)
  -- A slash is no blank, so trimming would leave it.
  have htrim : '/' ∈ trim text := Text.mem_trim hmem (by decide)
  rcases htext with htext | htext | ⟨htext, -⟩
  · rw [htext] at htrim
    exact hslash htrim
  · rw [htext] at htrim
    exact hslash (List.mem_of_ne_of_mem (by decide) htrim)
  · rw [htext] at htrim
    exact hslash (List.mem_of_ne_of_mem (by decide) htrim)

/-! ### Factors -/

/-- Whether a text writes a factor with these counts, blanks around it left out: one count where
there are no transient replicas, or both counts with a slash between them. -/
def IsWritten (text : String) (all transient : Nat) : Prop :=
  IsCount (trim text.toList) all ∧ transient = 0 ∨
    ∃ left right, trim text.toList = left ++ '/' :: right ∧ '/' ∉ left ∧
      IsCount left all ∧ IsCount right transient

/-- Two counts make a factor with these counts, if they make one at all. -/
theorem ofCounts_eq_ok_iff {all transient : Nat} {factor : Factor} :
    ofCounts all transient = .ok factor ↔ factor.all = all ∧ factor.transient = transient := by
  unfold ofCounts
  split
  · next hle =>
    rw [Except.ok.injEq, eq_comm]
    cases factor
    simp
  · next hgt =>
    apply iff_of_false nofun
    rintro ⟨rfl, rfl⟩
    exact hgt factor.transient_le_all

section Slash

variable {text left right : List Char}

/-- A text falls into two parts at its first slash. -/
theorem takeWhile_of_split (h : text = left ++ '/' :: right) (hleft : '/' ∉ left) :
    text.takeWhile (· ≠ '/') = left ∧ text.dropWhile (· ≠ '/') = '/' :: right := by
  have hall : ∀ c ∈ left, decide (c ≠ '/') = true := fun c hc =>
    decide_eq_true fun heq => hleft (heq ▸ hc)
  subst h
  constructor
  · rw [List.takeWhile_append_of_pos hall, List.takeWhile_cons_of_neg (by simp), List.append_nil]
  · rw [List.dropWhile_append_of_pos hall, List.dropWhile_cons_of_neg (by simp)]

/-- Where something is left from a slash on, the text is cut at its first slash. -/
theorem split_of_dropWhile {c : Char} (h : text.dropWhile (· ≠ '/') = c :: right) :
    text = text.takeWhile (· ≠ '/') ++ '/' :: right ∧ '/' ∉ text.takeWhile (· ≠ '/') := by
  have hslash : c = '/' := by
    have hhead := List.head?_dropWhile_not (· ≠ '/') text
    rw [h] at hhead
    simpa using hhead
  subst hslash
  constructor
  · rw [← h, List.takeWhile_append_dropWhile]
  · intro hmem
    simpa using List.mem_takeWhile_imp hmem

end Slash

/-- The reader of factors takes exactly the writings of factors. -/
theorem parse_eq_ok_iff {text : String} {factor : Factor} :
    parse text = .ok factor ↔ IsWritten text factor.all factor.transient := by
  unfold parse IsWritten
  dsimp only
  generalize trim text.toList = text
  split
  · next hnone =>
    -- Without a slash the whole text is one count.
    have hslash : '/' ∉ text := fun hmem =>
      absurd (List.dropWhile_eq_nil_iff.1 hnone _ hmem) (by decide)
    simp only [Except.bind_eq_ok_iff, parseCount_eq_ok_iff]
    constructor
    · rintro ⟨n, hcount, ⟨⟩⟩
      exact .inl ⟨hcount, rfl⟩
    · rintro (⟨hcount, htransient⟩ | ⟨left, right, rfl, -⟩)
      · refine ⟨factor.all, hcount, ?_⟩
        cases factor
        cases htransient
        rfl
      · exact absurd (List.mem_append_right left List.mem_cons_self) hslash
  · next c right hdrop =>
    obtain ⟨hsplit, hleft⟩ := split_of_dropWhile hdrop
    simp only [Except.bind_eq_ok_iff, parseCount_eq_ok_iff, ofCounts_eq_ok_iff]
    constructor
    · rintro ⟨all, hall, transient, htransient, rfl, rfl⟩
      exact .inr ⟨_, right, hsplit, hleft, hall, htransient⟩
    · rintro (⟨hcount, -⟩ | ⟨left, right', hsplit', hleft', hall, htransient⟩)
      · -- A text with a slash is no single count.
        rw [hsplit] at hcount
        exact absurd (List.mem_append_right _ List.mem_cons_self) (not_mem_of_isCount hcount)
      · -- The first slash is at one place only.
        obtain ⟨hbefore, hbehind⟩ := takeWhile_of_split hsplit' hleft'
        rw [hdrop] at hbehind
        obtain rfl := List.tail_eq_of_cons_eq hbehind
        rw [hbefore]
        exact ⟨_, hall, _, htransient, rfl, rfl⟩

/-- No count of a text is beyond the greatest integer of 64 bits. -/
theorem IsWritten.le {text : String} {all transient : Nat} (h : IsWritten text all transient) :
    all ≤ 0x7fffffffffffffff := by
  rcases h with ⟨hcount, -⟩ | ⟨left, right, -, -, hall, -⟩
  · exact hcount.1
  · exact hall.1

theorem isWritten_text {factor : Factor} (h : factor.all ≤ 0x7fffffffffffffff) :
    IsWritten factor.text factor.all factor.transient := by
  have hle := factor.transient_le_all
  have hblank {n : Nat} : ∀ c ∈ decimal n, isBlank c = false := fun _ => Text.isBlank_of_mem_decimal
  unfold IsWritten text
  rw [String.toList_ofList]
  split
  · refine .inr ⟨decimal factor.all, decimal factor.transient, ?_, ?_, ?_, ?_⟩
    · apply Text.trim_eq_self
      exact List.forall_mem_append.2 ⟨hblank, List.forall_mem_cons.2 ⟨by decide, hblank⟩⟩
    · exact not_mem_of_isCount (isCount_decimal h)
    · exact isCount_decimal h
    · exact isCount_decimal (Nat.le_trans hle h)
  · next hnone =>
    rw [Text.trim_eq_self hblank]
    refine .inl ⟨isCount_decimal h, ?_⟩
    rw [hasTransient, decide_eq_true_eq] at hnone
    omega

/-! ### Main result -/

/-- What a setting has to say to be a factor: a count of at most 64 bits with its sign, or two such
counts with a slash between them, of which the second is not the greater one. The factor then has
these counts. The transient replicas of a factor are among all of them, so the full ones are the
others, and a factor that was read is read from its own text again. -/
theorem ofSetting_written (key value : String) :
    (∀ all transient, (∃ hle, ofSetting key value = .ok ⟨all, transient, hle⟩) ↔
      IsWritten value all transient ∧ transient ≤ all) ∧
    (∀ factor, (ofSetting key value = .ok factor ∨ ∃ n, factor = ofNat n) →
      factor.transient ≤ factor.all ∧ factor.full + factor.transient = factor.all) ∧
    ∀ factor, ofSetting key value = .ok factor → ofSetting key factor.text = .ok factor := by
  have hread (value : String) (factor : Factor) :
      ofSetting key value = .ok factor ↔ IsWritten value factor.all factor.transient := by
    rw [ofSetting, Except.mapError_eq_ok_iff, parse_eq_ok_iff]
  simp only [hread]
  refine ⟨?_, ?_, ?_⟩
  · intro all transient
    rw [exists_prop, and_comm]
  · intro factor _
    exact ⟨factor.transient_le_all, Nat.sub_add_cancel factor.transient_le_all⟩
  · intro factor h
    exact isWritten_text h.le

/-- Blanks, signs and zeros at the front leave no trace in the text of the factor. -/
theorem ofSetting_written_padded :
    ofSetting "dc1" " +007 / 2\n" = .ok ⟨7, 2, by decide⟩ ∧
    IsWritten " +007 / 2\n" 7 2 ∧
    full ⟨7, 2, by decide⟩ + 2 = 7 ∧
    ofSetting "dc1" (text ⟨7, 2, by decide⟩) = .ok ⟨7, 2, by decide⟩ := by
  have hread : ofSetting "dc1" " +007 / 2\n" = .ok ⟨7, 2, by decide⟩ := by rfl
  obtain ⟨hwritten, hcounts, hagain⟩ := ofSetting_written "dc1" " +007 / 2\n"
  exact ⟨hread, ((hwritten 7 2).1 ⟨_, hread⟩).1, (hcounts _ (.inl hread)).2, hagain _ hread⟩

end TokenRing.Factor
