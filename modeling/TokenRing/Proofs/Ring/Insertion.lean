import Mathlib.Data.List.Pairwise
import TokenRing.Proofs.Ring.Order
import TokenRing.Proofs.Ring.Ranges
import TokenRing.Proofs.SortedMap
import TokenRing.Proofs.TokenRange

/-!
# One more token on a ring

A token that is added to a ring cuts the range in which it lies. Its owner gets the tokens from the
start of this range up to the new token, and every other token stays with its owner.
-/

namespace TokenRing

namespace Ring

variable {τ : Type} [Token τ] (ring : Ring τ)

/-! ### The token before a token -/

/-- The last token of the ring before a token, or the last of all where there is none. -/
def tokenBefore? (t : τ) : Option τ :=
  (ring.tokens.filter (· < t)).getLast? <|> ring.tokens.getLast?

theorem le_of_getLast? {tokens : List τ} (h : tokens.Pairwise (· < ·)) {last t : τ}
    (hlast : tokens.getLast? = some last) (ht : t ∈ tokens) : t ≤ last := by
  have : Std.Refl fun a b : τ => a ≤ b := ⟨Std.le_refl⟩
  have hle : tokens.Pairwise (· ≤ ·) := h.imp Std.le_of_lt
  have hmax := hle.rel_getLast ht
  rw [List.getLast?_eq_some_getLast (List.ne_nil_of_mem ht), Option.some.injEq] at hlast
  rwa [hlast] at hmax

/-- The token before another one is the greatest of the smaller ones, or the greatest of all. -/
theorem tokenBefore?_cases {q t : τ} (h : ring.tokenBefore? t = some q) :
    q ∈ ring.tokens ∧ (q < t ∧ (∀ s ∈ ring.tokens, s < t → s ≤ q) ∨
      (∀ s ∈ ring.tokens, ¬ s < t) ∧ ∀ s ∈ ring.tokens, s ≤ q) := by
  unfold tokenBefore? at h
  cases hlast : (ring.tokens.filter (· < t)).getLast? with
  | some last =>
    rw [hlast] at h
    obtain rfl : last = q := Option.some.inj h
    obtain ⟨hmem, hlt⟩ := List.mem_filter.1 (List.mem_of_getLast? hlast)
    refine ⟨hmem, .inl ⟨of_decide_eq_true hlt, fun s hs hst => ?_⟩⟩
    exact le_of_getLast? (ring.ascending_tokens.filter _) hlast
      (List.mem_filter.2 ⟨hs, decide_eq_true hst⟩)
  | none =>
    rw [hlast] at h
    have hnone := List.filter_eq_nil_iff.1 (List.getLast?_eq_none_iff.1 hlast)
    refine ⟨List.mem_of_getLast? h, .inr ⟨fun s hs hst => hnone s hs (decide_eq_true hst), ?_⟩⟩
    exact fun s hs => le_of_getLast? ring.ascending_tokens h hs

theorem exists_tokenBefore? (h : ring.isEmpty = false) (t : τ) :
    ∃ q, ring.tokenBefore? t = some q := by
  have hne : ring.tokens ≠ [] := by simpa [tokens, isEmpty] using h
  unfold tokenBefore?
  rw [List.getLast?_eq_some_getLast hne]
  cases (ring.tokens.filter (· < t)).getLast? with
  | some last => exact ⟨last, rfl⟩
  | none => exact ⟨_, rfl⟩

/-- No token of the ring is between a new token and the one before it. -/
theorem not_contains_of_tokenBefore? {c q s : τ} (hc : c ∉ ring.tokens)
    (hq : ring.tokenBefore? c = some q) (hs : s ∈ ring.tokens) :
    ¬ (⟨q, c⟩ : TokenRange τ).contains s = true := by
  obtain ⟨hmem, hbefore⟩ := ring.tokenBefore?_cases hq
  have hqc : q ≠ c := fun h => hc (h ▸ hmem)
  have hsc : s ≠ c := fun h => hc (h ▸ hs)
  rw [TokenRange.contains_iff]
  dsimp only
  rcases hbefore with ⟨hlt, hlast⟩ | ⟨hnone, hlast⟩
  · have hle := hlast s hs
    grind
  · have hle := hlast s hs
    have hge := hnone s hs
    grind

/-! ### The ring with the new token -/

/-- The ring with one more token. Its owner must have the record that the ring has of it, if any. -/
def insert (t : τ) (node : Node) (hrecord : ∀ n ∈ ring.owners, n.id = node.id → n = node) :
    Ring τ where
  entries := (SortedMap.insertEntry t node ring.entries.toList).toArray
  ascending := SortedMap.pairwise_insertEntry t node ring.ascending
  one_record := by
    have howner (e : τ × Node) (he : e ∈ (SortedMap.insertEntry t node ring.entries.toList).toArray) :
        e.2 ∈ node :: ring.owners := by
      rcases SortedMap.mem_of_mem_insertEntry (List.mem_toArray.1 he) with rfl | he
      · exact List.mem_cons_self
      · exact List.mem_cons_of_mem _ (List.mem_map_of_mem he)
    intro a ha b hb
    exact ring.oneRecord_owners.cons hrecord a.2 (howner a ha) b.2 (howner b hb)

variable {ring}

theorem mem_entries_insert {t : τ} {node : Node} (ht : t ∉ ring.tokens)
    (hrecord : ∀ n ∈ ring.owners, n.id = node.id → n = node) (e : τ × Node) :
    e ∈ (ring.insert t node hrecord).entries ↔ e = (t, node) ∨ e ∈ ring.entries := by
  have hinsert : e ∈ (ring.insert t node hrecord).entries.toList ↔
      e = (t, node) ∨ e.1 ≠ t ∧ e ∈ ring.entries.toList :=
    SortedMap.mem_entries_insert (m := ⟨ring.entries.toList, ring.ascending⟩)
  have hne (he : e ∈ ring.entries.toList) : e.1 ≠ t := fun h =>
    ht (h ▸ List.mem_map_of_mem he)
  rw [← Array.mem_toList_iff, hinsert, and_iff_right_of_imp hne, Array.mem_toList_iff]

/-- The new token takes over the range behind the token before it, and nothing else. -/
theorem ownerOf?_eq_ite {ring' : Ring τ} {c q : τ} {node : Node} (hempty : ring.isEmpty = false)
    (hc : c ∉ ring.tokens)
    (hentries : ∀ e, e ∈ ring'.entries ↔ e = (c, node) ∨ e ∈ ring.entries)
    (hq : ring.tokenBefore? c = some q) (t : τ) :
    ring'.ownerOf? t =
      if (⟨q, c⟩ : TokenRange τ).contains t then some node else ring.ownerOf? t := by
  have hbetween {e : τ × Node} (he : e ∈ ring.entries) :
      ¬ (⟨q, c⟩ : TokenRange τ).contains e.1 = true :=
    ring.not_contains_of_tokenBefore? hc hq (List.mem_map_of_mem (Array.mem_toList_iff.2 he))
  split
  · next hin =>
    -- Seen from the token, the new one comes before all others.
    refine ring'.ownerOf?_eq_some_iff.2 ⟨c, (hentries _).2 (.inl rfl), fun e he => ?_⟩
    rcases (hentries e).1 he with rfl | he
    · exact TokenRange.contains_self _ _
    · exact TokenRange.contains_of_not_contains_start (hbetween he) hin
  · next hout =>
    obtain ⟨owner, howner⟩ := ring.exists_ownerOf? hempty t
    obtain ⟨s, hs, hall⟩ := ring.ownerOf?_eq_some_iff.1 howner
    obtain ⟨hmem, -⟩ := ring.tokenBefore?_cases hq
    obtain ⟨before, hbefore, rfl⟩ := List.mem_map.1 hmem
    -- The new token is no nearer to the token than the one of its owner.
    rw [howner]
    refine ring'.ownerOf?_eq_some_iff.2 ⟨s, (hentries _).2 (.inr hs), fun e he => ?_⟩
    rcases (hentries e).1 he with rfl | he
    · exact TokenRange.contains_of_not_contains_front (hbetween hs) hout
        (hall _ (Array.mem_toList_iff.1 hbefore))
    · exact hall e he

end Ring

/-! ### Registering the token -/

variable {p : Partitioner} {steps : List (Step p)} {ring : Ring p.Token} {c : p.Token} {node : Node}

namespace Builder

/-- The record and the claims of a registration can hold beside what is on file, if the node is new
or has the same record there, and if the tokens are new. -/
theorem exists_build_concat {step : Step p} (hbuild : (run steps).build = .ok ring)
    (hstep : step.node? = some node) (hnew : ∀ t ∈ step.tokens (vnodeCount steps), t ∉ ring.tokens)
    (hnode : ∀ step ∈ steps, ∀ n, step.node? = some n → n.id = node.id → n = node) :
    ∃ ring', (run (steps ++ [step])).build = .ok ring' := by
  rw [exists_build_run_iff, filed_concat, Step.filings, hstep]
  refine (exists_build_run_iff.1 ⟨ring, hbuild⟩).append (Filing.harmonious_record_claims node _) ?_
  intro a ha b hb
  -- A record can only disagree with a record, and a claim with a claim.
  rcases List.mem_cons.1 hb with rfl | hb
  · cases a with
    | record n =>
      obtain ⟨other, hother, hn⟩ := record_mem_filed.1 ha
      exact hnode other hother n hn
    | claim id t => trivial
  · obtain ⟨t, ht, rfl⟩ := List.mem_map.1 hb
    cases a with
    | record n => trivial
    | claim id t' =>
      -- The token would be on the ring already.
      rintro rfl
      obtain ⟨owner, -, hreg⟩ := claim_mem_filed.1 ha
      have hentry := (mem_entries_iff hbuild).2 hreg
      exact absurd (List.mem_map_of_mem (Array.mem_toList_iff.2 hentry)) (hnew t' ht)

/-- A registration of new tokens for a consistent node can be added to a build. -/
theorem build_concat {step : Step p} {ring' : Ring p.Token} (hbuild : (run steps).build = .ok ring)
    (hstep : step.node? = some node) (hnew : ∀ t ∈ step.tokens (vnodeCount steps), t ∉ ring.tokens)
    (hnode : ∀ step ∈ steps, ∀ n, step.node? = some n → n.id = node.id → n = node)
    (hentries : ∀ e, e ∈ ring'.entries ↔
      e ∈ ring.entries ∨ e.2 = node ∧ e.1 ∈ step.tokens (vnodeCount steps)) :
    (run (steps ++ [step])).build = .ok ring' := by
  obtain ⟨built, hbuilt⟩ := exists_build_concat hbuild hstep hnew hnode
  have hsame : built = ring' := by
    apply Ring.eq_of_mem_entries_iff
    rintro ⟨t, n⟩
    rw [mem_entries_iff hbuilt, registered_concat, ← mem_entries_iff hbuild, hentries,
      Step.registers_iff, hstep, Option.some.injEq]
    exact or_congr_right (and_congr_left' eq_comm)
  rw [hbuilt, hsame]

/-- Adding a token at last gives the ring with this token. -/
theorem build_addToken (hbuild : (run steps).build = .ok ring) (hc : c ∉ ring.tokens)
    (hrecord : ∀ n ∈ ring.owners, n.id = node.id → n = node)
    (hnode : ∀ step ∈ steps, ∀ n, step.node? = some n → n.id = node.id → n = node) :
    (run (steps ++ [.addToken c node])).build = .ok (ring.insert c node hrecord) := by
  apply build_concat hbuild rfl _ hnode
  · rintro ⟨t, n⟩
    rw [Ring.mem_entries_insert hc hrecord, or_comm, Prod.mk.injEq, and_comm]
    simp only [Step.tokens, List.mem_singleton]
  · simpa only [Step.tokens, List.forall_mem_singleton] using hc

end Builder

/-- Let a ring get one more token, of a node that has the same record as on the ring or none there.
A builder of the ring that takes the token builds exactly this. The tokens from the one before the
new token on, up to the new one, get its owner, and all others keep theirs. -/
theorem owner_insert (hempty : ring.isEmpty = false) (hc : c ∉ ring.tokens)
    (hrecord : ∀ n ∈ ring.owners, n.id = node.id → n = node) :
    (∀ e, e ∈ (ring.insert c node hrecord).entries ↔ e = (c, node) ∨ e ∈ ring.entries) ∧
    (∀ steps, (Builder.run steps).build = .ok ring →
      (∀ step ∈ steps, ∀ n, step.node? = some n → n.id = node.id → n = node) →
      (Builder.run (steps ++ [.addToken c node])).build = .ok (ring.insert c node hrecord)) ∧
    ∃ q, ring.tokenBefore? c = some q ∧
      ∀ t, (ring.insert c node hrecord).ownerOf? t =
        if (⟨q, c⟩ : TokenRange p.Token).contains t then some node else ring.ownerOf? t := by
  have hentries := Ring.mem_entries_insert hc hrecord
  obtain ⟨q, hq⟩ := ring.exists_tokenBefore? hempty c
  exact ⟨hentries, fun steps hbuild hnode => Builder.build_addToken hbuild hc hrecord hnode, q, hq,
    Ring.ownerOf?_eq_ite hempty hc hentries hq⟩

/-- The second node takes a part of the range that passes the greatest token. The rest stays. -/
theorem owner_insert_wrappingRing :
    ∃ hrecord : ∀ n ∈ wrappingRing.owners,
        n.id = (Node.sample 2 none none).id → n = .sample 2 none none,
      (wrappingRing.insert ⟨9⟩ (.sample 2 none none) hrecord).ownerOf? ⟨7⟩ =
        some (.sample 2 none none) ∧
      (wrappingRing.insert ⟨9⟩ (.sample 2 none none) hrecord).ownerOf? ⟨-9⟩ =
        wrappingRing.ownerOf? ⟨-9⟩ := by
  have hempty : wrappingRing.isEmpty = false := by decide
  have hnew : ⟨9⟩ ∉ wrappingRing.tokens := by decide
  have hrecord : ∀ n ∈ wrappingRing.owners,
      n.id = (Node.sample 2 none none).id → n = .sample 2 none none := by decide
  have hbefore : wrappingRing.tokenBefore? ⟨9⟩ = some ⟨5⟩ := by decide
  obtain ⟨-, -, q, hq, howner⟩ := owner_insert (p := .murmur3) hempty hnew hrecord
  obtain rfl : ⟨5⟩ = q := Option.some.inj (hbefore.symm.trans hq)
  refine ⟨hrecord, ?_, ?_⟩
  · exact (howner ⟨7⟩).trans (if_pos (by decide))
  · exact (howner ⟨-9⟩).trans (if_neg (by decide))

end TokenRing
