import TokenRing.Proofs.Ring.Conflict

/-!
# The order of registrations

Whether a ring can be built depends on pairs of filings only, and so does the ring: it is the same
for all registrations that file the same records and claims, in whichever order and however often.
-/

namespace TokenRing

namespace Filing

variable {τ : Type} [Token τ] {filings : List (Filing τ)}

def Agrees : Filing τ → Filing τ → Prop
  | record a, record b => a.id = b.id → a = b
  | claim id t, claim id' t' => t = t' → id = id'
  | _, _ => True

/-- Filings are harmonious if any two of them can both hold. -/
theorem harmonious_iff : Harmonious filings ↔ ∀ a ∈ filings, ∀ b ∈ filings, a.Agrees b := by
  constructor
  · intro h a ha b hb
    rw [← firstConflict?_eq_none_iff] at h
    match a, b with
    | record a, record b =>
      -- Both are the first record of their identifier.
      intro hid
      have hfirst := firstRecord?_of_mem h ha
      rw [hid, firstRecord?_of_mem h hb] at hfirst
      exact (Option.some.inj hfirst).symm
    | claim id t, claim id' t' =>
      rintro rfl
      have hfirst := firstClaimant?_of_mem h ha
      rw [firstClaimant?_of_mem h hb] at hfirst
      exact (Option.some.inj hfirst).symm
    | record _, claim _ _ => trivial
    | claim _ _, record _ => trivial
  · rintro h before filing after rfl conflict hcontra
    have hmem : filing ∈ before ++ filing :: after := by simp
    cases hcontra with
    | record hfirst hdiffer =>
      obtain ⟨hbefore, hid⟩ := record_mem_of_firstRecord? hfirst
      have hsame := h _ (List.mem_append_left _ hbefore) _ hmem hid
      exact (Node.ne_iff_of_id_eq hid).2 hdiffer hsame
    | claim hfirst hne =>
      have hbefore := claim_mem_of_firstClaimant? hfirst
      exact hne (h _ (List.mem_append_left _ hbefore) _ hmem rfl)

omit [Token τ] in
theorem Agrees.symm {a b : Filing τ} (h : a.Agrees b) : b.Agrees a := by
  match a, b with
  | record _, record _ => exact fun hid => (h hid.symm).symm
  | claim _ _, claim _ _ => exact fun ht => (h ht.symm).symm
  | record _, claim _ _ => trivial
  | claim _ _, record _ => trivial

theorem Harmonious.append {more : List (Filing τ)} (h : Harmonious filings)
    (hmore : Harmonious more) (hboth : ∀ a ∈ filings, ∀ b ∈ more, a.Agrees b) :
    Harmonious (filings ++ more) := by
  rw [harmonious_iff] at h hmore ⊢
  intro a ha b hb
  rcases List.mem_append.1 ha with ha | ha
  · rcases List.mem_append.1 hb with hb | hb
    · exact h a ha b hb
    · exact hboth a ha b hb
  · rcases List.mem_append.1 hb with hb | hb
    · exact (hboth b hb a ha).symm
    · exact hmore a ha b hb

/-- The filings of one registration are harmonious. -/
theorem harmonious_record_claims (node : Node) (tokens : List τ) :
    Harmonious (record node :: tokens.map (claim node.id)) := by
  have hcases {a : Filing τ} (ha : a ∈ record node :: tokens.map (claim node.id)) :
      a = record node ∨ ∃ t, a = claim node.id t := by
    rcases List.mem_cons.1 ha with rfl | ha
    · exact .inl rfl
    · obtain ⟨t, -, rfl⟩ := List.mem_map.1 ha
      exact .inr ⟨t, rfl⟩
  rw [harmonious_iff]
  intro a ha b hb
  rcases hcases ha with rfl | ⟨t, rfl⟩ <;> rcases hcases hb with rfl | ⟨t', rfl⟩
  · exact fun _ => rfl
  · trivial
  · trivial
  · exact fun _ => rfl

/-- Neither order nor repetition matters to harmony. -/
theorem Harmonious.of_mem_iff {filings' : List (Filing τ)} (h : Harmonious filings)
    (hmem : ∀ filing, filing ∈ filings ↔ filing ∈ filings') : Harmonious filings' := by
  rw [harmonious_iff] at h ⊢
  intro a ha b hb
  exact h a ((hmem a).2 ha) b ((hmem b).2 hb)

end Filing

variable {p : Partitioner} {steps steps' : List (Step p)}

/-- An entry is a record and a claim that were both filed, at whatever places. -/
theorem Builder.mem_entries_iff_mem_filed {ring : Ring p.Token}
    (h : (run steps).build = .ok ring) {t : p.Token} {node : Node} :
    (t, node) ∈ ring.entries ↔
      .record node ∈ filed steps ∧ .claim node.id t ∈ filed steps := by
  rw [mem_entries_iff h]
  constructor
  · intro hreg
    exact ⟨hreg.record_mem, claim_mem_filed.2 ⟨node, rfl, hreg⟩⟩
  · rintro ⟨hrecord, hclaim⟩
    obtain ⟨other, hid, hreg⟩ := claim_mem_filed.1 hclaim
    have hagree := Filing.harmonious_iff.1 (exists_build_run_iff.1 ⟨ring, h⟩)
    have hsame : other = node := hagree _ hreg.record_mem _ hrecord hid
    rwa [← hsame]

/-- Whether a ring can be built from both or from neither, and the same from both. -/
def SameRing (steps steps' : List (Step p)) : Prop :=
  ∀ ring, (Builder.run steps).build = .ok ring ↔ (Builder.run steps').build = .ok ring

/-- The ring is determined by which filings there are. -/
theorem build_of_mem_filed_iff {ring : Ring p.Token}
    (hmem : ∀ filing, filing ∈ filed steps ↔ filing ∈ filed steps')
    (h : (Builder.run steps).build = .ok ring) : (Builder.run steps').build = .ok ring := by
  have hharmonious := Builder.exists_build_run_iff.1 ⟨ring, h⟩
  obtain ⟨ring', h'⟩ := Builder.exists_build_run_iff.2 (hharmonious.of_mem_iff hmem)
  have hentries : ∀ e, e ∈ ring'.entries ↔ e ∈ ring.entries := by
    rintro ⟨t, node⟩
    rw [Builder.mem_entries_iff_mem_filed h', Builder.mem_entries_iff_mem_filed h, hmem, hmem]
  rw [h', Ring.eq_of_mem_entries_iff hentries]

theorem sameRing_of_mem_filed_iff (h : ∀ filing, filing ∈ filed steps ↔ filing ∈ filed steps') :
    SameRing steps steps' :=
  fun _ => ⟨build_of_mem_filed_iff h, build_of_mem_filed_iff fun filing => (h filing).symm⟩

namespace Step

/-- Whether a registration names its tokens, or says how many to generate. Then it does not matter
which number is set before it. -/
def IsComplete : Step p → Prop
  | addToken _ _ => True
  | addTokens _ _ => True
  | withVnodes _ => False
  | addNode _ => False
  | addNodeWithVnodes _ _ => True

/-- A complete registration files the same under any number. -/
theorem IsComplete.filings_eq {step : Step p} (h : step.IsComplete) (count count' : Nat) :
    step.filings count = step.filings count' := by
  cases step with
  | addToken t node => rfl
  | addTokens node tokens => rfl
  | withVnodes _ => rfl
  | addNode _ => cases h
  | addNodeWithVnodes node _ => rfl

/-- Registering several tokens files what registering each of them does. -/
theorem mem_filings_addTokens {node : Node} {tokens : List p.Token} (h : tokens ≠ []) {count : Nat}
    {filing : Filing p.Token} :
    filing ∈ (addTokens node tokens).filings count ↔
      ∃ t ∈ tokens, filing ∈ (addToken t node).filings count := by
  -- Every part repeats the record, so one part at least has to be there.
  obtain ⟨first, hfirst⟩ := List.exists_mem_of_ne_nil tokens h
  show filing ∈ .record node :: tokens.map (.claim node.id) ↔
    ∃ t ∈ tokens, filing ∈ [.record node, .claim node.id t]
  simp only [List.mem_cons, List.mem_map, List.not_mem_nil, or_false]
  constructor
  · rintro (rfl | ⟨t, ht, rfl⟩)
    · exact ⟨first, hfirst, .inl rfl⟩
    · exact ⟨t, ht, .inr rfl⟩
  · rintro ⟨t, ht, rfl | rfl⟩
    · exact .inl rfl
    · exact .inr ⟨t, ht, rfl⟩

end Step

/-- Complete registrations file what each of them files. -/
theorem mem_filed_iff (h : ∀ step ∈ steps, step.IsComplete) {filing : Filing p.Token} :
    filing ∈ filed steps ↔ ∃ step ∈ steps, filing ∈ step.filings 0 := by
  rw [filed, mem_filingsFrom]
  constructor
  · rintro ⟨before, step, after, rfl, hfiling⟩
    have hstep : step ∈ before ++ step :: after := by simp
    rw [(h step hstep).filings_eq _ 0] at hfiling
    exact ⟨step, hstep, hfiling⟩
  · rintro ⟨step, hstep, hfiling⟩
    obtain ⟨before, after, hsplit⟩ := List.append_of_mem hstep
    rw [(h step hstep).filings_eq 0] at hfiling
    exact ⟨before, step, after, hsplit, hfiling⟩

/-- Complete registrations may come in any order and any number of times. -/
theorem sameRing_of_mem_iff (h : ∀ step ∈ steps, step.IsComplete)
    (hmem : ∀ step, step ∈ steps ↔ step ∈ steps') : SameRing steps steps' := by
  have h' : ∀ step ∈ steps', step.IsComplete := fun step hstep => h step ((hmem step).2 hstep)
  apply sameRing_of_mem_filed_iff
  intro filing
  simp only [mem_filed_iff h, mem_filed_iff h', hmem]

/-- One registration of several tokens may be split. -/
theorem sameRing_split {before after : List (Step p)} {node : Node} {tokens : List p.Token}
    (h : ∀ step ∈ before ++ .addTokens node tokens :: after, step.IsComplete)
    (htokens : tokens ≠ []) :
    SameRing (before ++ .addTokens node tokens :: after)
      (before ++ tokens.map (.addToken · node) ++ after) := by
  have h' : ∀ step ∈ before ++ tokens.map (.addToken · node) ++ after, step.IsComplete := by
    intro step hstep
    rw [List.mem_append, List.mem_append, List.mem_map] at hstep
    rcases hstep with (hbefore | ⟨t, -, rfl⟩) | hafter
    · exact h step (by simp [hbefore])
    · trivial
    · exact h step (by simp [hafter])
  apply sameRing_of_mem_filed_iff
  intro filing
  rw [mem_filed_iff h, mem_filed_iff h']
  simp only [List.mem_append, List.mem_cons, List.mem_map, or_and_right, exists_or,
    exists_eq_left, Step.mem_filings_addTokens htokens, exists_exists_and_eq_and, or_assoc]

/-- The ring does not depend on the order of complete registrations, on whether one names all its
tokens or each is registered by itself, or on how often it comes. -/
theorem sameRing_of_isComplete (h : ∀ step ∈ steps, step.IsComplete) :
    (∀ steps', steps.Perm steps' → SameRing steps steps') ∧
    (∀ before node tokens after, steps = before ++ .addTokens node tokens :: after →
      tokens ≠ [] → SameRing steps (before ++ tokens.map (.addToken · node) ++ after)) ∧
    ∀ before step after, steps = before ++ after → step ∈ steps →
      SameRing steps (before ++ step :: after) := by
  refine ⟨fun steps' hperm => ?_, ?_, ?_⟩
  · exact sameRing_of_mem_iff h fun step => hperm.mem_iff
  · rintro before node tokens after rfl htokens
    exact sameRing_split h htokens
  · rintro before step after rfl hstep
    apply sameRing_of_mem_iff h
    intro other
    rw [List.mem_append] at hstep
    simp only [List.mem_append, List.mem_cons]
    grind

def completeSteps : List (Step .murmur3) :=
  [.addTokens (.sample 1 "east" "r1") [(⟨5⟩ : Murmur3Token), (⟨-3⟩ : Murmur3Token)],
    .addNodeWithVnodes (.sample 2 "east" none) 1,
    .addToken (⟨5⟩ : Murmur3Token) (.sample 1 "east" "r1")]

/-- Reversed, split and repeated, the registrations give one ring. -/
theorem sameRing_completeSteps :
    ∃ ring, (Builder.run completeSteps).build = .ok ring ∧
      (Builder.run completeSteps.reverse).build = .ok ring ∧
      (Builder.run ([.addToken (⟨5⟩ : Murmur3Token) (.sample 1 "east" "r1"),
        .addToken (⟨-3⟩ : Murmur3Token) (.sample 1 "east" "r1")] ++ completeSteps.tail)).build =
          .ok ring ∧
      (Builder.run (completeSteps ++ [.addNodeWithVnodes (.sample 2 "east" none) 1])).build =
        .ok ring := by
  have hcomplete : ∀ step ∈ completeSteps, step.IsComplete := by
    simp [completeSteps, Step.IsComplete]
  have hnone : (Builder.run completeSteps).conflict = none := by decide +kernel
  obtain ⟨ring, hring⟩ := Builder.exists_build hnone
  obtain ⟨hperm, hsplit, hrepeat⟩ := sameRing_of_isComplete hcomplete
  have hreverse := hperm _ (List.reverse_perm completeSteps).symm
  have hparts := hsplit [] _ _ completeSteps.tail rfl (List.cons_ne_nil _ _)
  have hagain := hrepeat completeSteps (.addNodeWithVnodes (.sample 2 "east" none) 1) [] (by simp)
    (by simp [completeSteps])
  exact ⟨ring, hring, (hreverse ring).1 hring, (hparts ring).1 hring, (hagain ring).1 hring⟩

end TokenRing
