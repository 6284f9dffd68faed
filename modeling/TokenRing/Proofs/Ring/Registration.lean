import TokenRing.Proofs.Ring.Filing
import TokenRing.Proofs.Ring.Lookup
import TokenRing.Proofs.Text.Decimal
import TokenRing.Proofs.Text.Hex
import TokenRing.Proofs.Text.Utf8

/-!
# The ring of a sequence of registrations

Registrations are taken apart into filings, in order. If a ring can be built from them, its entries
are the tokens that some registration gave to a node, each with this node.
-/

namespace TokenRing

variable {p : Partitioner}

/-- The text whose hash is a generated token of a node: the identifier in 32 hexadecimal digits, a
colon, and an index in decimal. -/
def vnodeText (id : NodeId) (index : Nat) : String :=
  String.ofList ((Nat.toDigits 16 id.value).leftpad 32 '0') ++ ":" ++ toString index

namespace Step

def node? : Step p → Option Node
  | addToken _ node => some node
  | addTokens node _ => some node
  | withVnodes _ => none
  | addNode node => some node
  | addNodeWithVnodes node _ => some node

def tokens (count : Nat) : Step p → List p.Token
  | addToken t _ => [t]
  | addTokens _ tokens => tokens
  | withVnodes _ => []
  | addNode node => p.vnodeTokens node.id count
  | addNodeWithVnodes node count => p.vnodeTokens node.id count

def vnodesAfter (count : Nat) : Step p → Nat
  | withVnodes count => count
  | _ => count

def filings (count : Nat) (step : Step p) : List (Filing p.Token) :=
  match step.node? with
  | none => []
  | some node => .record node :: (step.tokens count).map (.claim node.id)

/-- Whether a registration gives a token to a node, while `count` tokens are set to be generated. -/
def Registers (count : Nat) (node : Node) (t : p.Token) : Step p → Prop
  | addToken t' node' => node' = node ∧ t' = t
  | addTokens node' tokens => node' = node ∧ t ∈ tokens
  | withVnodes _ => False
  | addNode node' =>
    node' = node ∧ ∃ i < count, t = p.ofKey (vnodeText node.id i).toUTF8.data.toList
  | addNodeWithVnodes node' count =>
    node' = node ∧ ∃ i < count, t = p.ofKey (vnodeText node.id i).toUTF8.data.toList

end Step

def vnodeCount (steps : List (Step p)) : Nat :=
  steps.foldl (fun count step => step.vnodesAfter count) 256

def Registered (steps : List (Step p)) (node : Node) (t : p.Token) : Prop :=
  ∃ before step after, steps = before ++ step :: after ∧
    step.Registers (vnodeCount before) node t

/-- What is filed by registrations, the first of which finds `count` tokens set to be generated. -/
def filingsFrom (count : Nat) : List (Step p) → List (Filing p.Token)
  | [] => []
  | step :: rest => step.filings count ++ filingsFrom (step.vnodesAfter count) rest

def filed (steps : List (Step p)) : List (Filing p.Token) :=
  filingsFrom 256 steps

/-! ### Filings of registrations -/

/-- The key of a generated token is the bytes of its text. -/
theorem vnodeKey_eq (id : NodeId) (index : Nat) :
    vnodeKey id index = (vnodeText id index).toUTF8.data.toList := by
  rw [← Text.utf8_toList, vnodeKey, Text.hexFixed_eq_leftpad id.value_lt, vnodeText,
    ← Text.ofList_decimal, String.toList_append, String.toList_append, String.toList_ofList,
    String.toList_ofList, String.toList_ofList, List.append_assoc]
  rfl

theorem mem_vnodeTokens {id : NodeId} {count : Nat} {t : p.Token} :
    t ∈ p.vnodeTokens id count ↔
      ∃ i < count, t = p.ofKey (vnodeText id i).toUTF8.data.toList := by
  simp only [Partitioner.vnodeTokens, vnodeKey_eq, List.mem_map, List.mem_range, eq_comm]

/-- A registration gives its tokens to its node. -/
theorem Step.registers_iff {step : Step p} {count : Nat} {node : Node} {t : p.Token} :
    step.Registers count node t ↔ step.node? = some node ∧ t ∈ step.tokens count := by
  cases step with
  | addToken t' node' =>
    simp only [Registers, node?, tokens, Option.some.injEq, List.mem_singleton, eq_comm]
  | addTokens node' tokens' => simp only [Registers, node?, tokens, Option.some.injEq]
  | withVnodes count' => simp only [Registers, node?, reduceCtorEq, false_and]
  | addNode node' =>
    simp only [Registers, node?, tokens, Option.some.injEq, mem_vnodeTokens]
    exact and_congr_right fun h => by rw [h]
  | addNodeWithVnodes node' count' =>
    simp only [Registers, node?, tokens, Option.some.injEq, mem_vnodeTokens]
    exact and_congr_right fun h => by rw [h]

theorem Step.record_mem_filings {step : Step p} {count : Nat} {node : Node} {t : p.Token}
    (h : step.Registers count node t) : .record node ∈ step.filings count := by
  rw [filings, (registers_iff.1 h).1]
  exact List.mem_cons_self

/-- A registration claims the tokens that it gives to a node. -/
theorem Step.claim_mem_filings {step : Step p} {count : Nat} {id : NodeId} {t : p.Token} :
    .claim id t ∈ step.filings count ↔ ∃ node, node.id = id ∧ step.Registers count node t := by
  simp only [registers_iff]
  unfold filings
  cases step.node? with
  | none => simp
  | some node => simp [and_comm, eq_comm]

/-- A filing comes from some registration, which finds the number that was set before it. -/
theorem mem_filingsFrom {steps : List (Step p)} {count : Nat} {filing : Filing p.Token} :
    filing ∈ filingsFrom count steps ↔ ∃ before step after, steps = before ++ step :: after ∧
      filing ∈ step.filings (before.foldl (fun count step => step.vnodesAfter count) count) := by
  induction steps generalizing count with
  | nil => simp [filingsFrom]
  | cons step rest ih =>
    rw [filingsFrom, List.mem_append, ih]
    constructor
    · rintro (hmem | ⟨before, step', after, rfl, hmem⟩)
      · exact ⟨[], step, rest, rfl, hmem⟩
      · exact ⟨step :: before, step', after, rfl, hmem⟩
    · rintro ⟨_ | ⟨first, before⟩, step', after, hsplit, hmem⟩
      · cases hsplit
        exact Or.inl hmem
      · cases hsplit
        exact Or.inr ⟨before, step', after, rfl, hmem⟩

theorem filingsFrom_append (count : Nat) (steps more : List (Step p)) :
    filingsFrom count (steps ++ more) = filingsFrom count steps ++
      filingsFrom (steps.foldl (fun count step => step.vnodesAfter count) count) more := by
  induction steps generalizing count with
  | nil => rfl
  | cons step steps ih =>
    rw [List.cons_append, filingsFrom, ih, filingsFrom, List.append_assoc, List.foldl_cons]

theorem filed_prefix (steps more : List (Step p)) : filed steps <+: filed (steps ++ more) := by
  rw [filed, filed, filingsFrom_append]
  exact List.prefix_append _ _

/-- The last registration files under the number that is set before it. -/
theorem filed_concat (steps : List (Step p)) (step : Step p) :
    filed (steps ++ [step]) = filed steps ++ step.filings (vnodeCount steps) := by
  rw [filed, filingsFrom_append]
  exact congrArg _ (List.append_nil _)

/-- The records filed are those of the nodes that are registered. -/
theorem record_mem_filed {steps : List (Step p)} {node : Node} :
    .record node ∈ filed steps ↔ ∃ step ∈ steps, step.node? = some node := by
  have hfiling (step : Step p) (count : Nat) :
      .record node ∈ step.filings count ↔ step.node? = some node := by
    unfold Step.filings
    cases step.node? <;> simp [eq_comm]
  simp only [filed, mem_filingsFrom, hfiling]
  constructor
  · rintro ⟨before, step, after, rfl, hnode⟩
    exact ⟨step, by simp, hnode⟩
  · rintro ⟨step, hstep, hnode⟩
    obtain ⟨before, after, hsplit⟩ := List.append_of_mem hstep
    exact ⟨before, step, after, hsplit, hnode⟩

/-- What is registered at last comes on top, under the number that was set before. -/
theorem registered_concat {steps : List (Step p)} {last : Step p} {node : Node} {t : p.Token} :
    Registered (steps ++ [last]) node t ↔
      Registered steps node t ∨ last.Registers (vnodeCount steps) node t := by
  constructor
  · rintro ⟨before, step, after, hsplit, hreg⟩
    -- The step that registers the token is the last one or comes before it.
    rcases List.eq_nil_or_concat after with rfl | ⟨rest, final, rfl⟩
    · obtain ⟨rfl, hlast⟩ := List.append_inj' hsplit rfl
      obtain rfl : last = step := List.singleton_inj.1 hlast
      exact .inr hreg
    · rw [List.concat_eq_append, ← List.cons_append, ← List.append_assoc] at hsplit
      obtain ⟨rfl, -⟩ := List.append_inj' hsplit rfl
      exact .inl ⟨before, step, rest, rfl, hreg⟩
  · rintro (⟨before, step, after, rfl, hreg⟩ | hreg)
    · exact ⟨before, step, after ++ [last], by simp, hreg⟩
    · exact ⟨steps, last, [], rfl, hreg⟩

theorem Registered.record_mem {steps : List (Step p)} {node : Node} {t : p.Token}
    (h : Registered steps node t) : .record node ∈ filed steps := by
  rcases h with ⟨before, step, after, hsplit, hreg⟩
  exact mem_filingsFrom.2 ⟨before, step, after, hsplit, Step.record_mem_filings hreg⟩

/-- The claims filed are those of the tokens that are registered. -/
theorem claim_mem_filed {steps : List (Step p)} {id : NodeId} {t : p.Token} :
    .claim id t ∈ filed steps ↔ ∃ node, node.id = id ∧ Registered steps node t := by
  rw [filed, mem_filingsFrom]
  constructor
  · rintro ⟨before, step, after, hsplit, hmem⟩
    rcases Step.claim_mem_filings.1 hmem with ⟨node, hid, hreg⟩
    exact ⟨node, hid, before, step, after, hsplit, hreg⟩
  · rintro ⟨node, hid, before, step, after, hsplit, hreg⟩
    exact ⟨before, step, after, hsplit, Step.claim_mem_filings.2 ⟨node, hid, hreg⟩⟩

namespace Builder

/-! ### Runs -/

theorem addTokens_eq {τ : Type} [Token τ] (b : Builder τ) (node : Node) (tokens : List τ) :
    b.addTokens node tokens = (.record node :: tokens.map (.claim node.id)).foldl file b := by
  rw [List.foldl_cons, List.foldl_map]
  rfl

/-- Every registration is its filings in order, once the number of tokens is set. -/
theorem step_eq (b : Builder p.Token) (step : Step p) :
    b.step step =
      (step.filings b.vnodes).foldl file { b with vnodes := step.vnodesAfter b.vnodes } := by
  cases step with
  | addToken t node => rfl
  | withVnodes count => rfl
  | addTokens node tokens => exact addTokens_eq b node tokens
  | addNode node => exact addTokens_eq b node _
  | addNodeWithVnodes node count => exact addTokens_eq b node _

theorem vnodes_foldl_file (b : Builder p.Token) (filings : List (Filing p.Token)) :
    (filings.foldl file b).vnodes = b.vnodes := by
  induction filings generalizing b with
  | nil => rfl
  | cons filing rest ih => rw [List.foldl_cons, ih, vnodes_file]

/-- Only one kind of registration sets the number of tokens. -/
theorem vnodes_step (b : Builder p.Token) (step : Step p) :
    (b.step step).vnodes = step.vnodesAfter b.vnodes := by
  rw [step_eq, vnodes_foldl_file]

/-- A builder keeps what one registration files. -/
theorem Keeps.step {b : Builder p.Token} {filings : List (Filing p.Token)} (h : b.Keeps filings)
    (step : Step p) : (b.step step).Keeps (filings ++ step.filings b.vnodes) := by
  have hset : { b with vnodes := step.vnodesAfter b.vnodes }.Keeps filings :=
    ⟨h.record?_eq, h.get?_claims, h.conflict_eq⟩
  rw [step_eq]
  exact hset.foldl_file _

theorem Keeps.foldl_step {b : Builder p.Token} {filings : List (Filing p.Token)}
    (h : b.Keeps filings) (steps : List (Step p)) :
    (steps.foldl Builder.step b).Keeps (filings ++ filingsFrom b.vnodes steps) := by
  induction steps generalizing b filings with
  | nil => rwa [filingsFrom, List.append_nil]
  | cons step rest ih =>
    have hrest := ih (h.step step)
    rwa [vnodes_step, List.append_assoc] at hrest

/-- A builder keeps what all registrations file. -/
theorem run_keeps (steps : List (Step p)) : (run steps).Keeps (filed steps) := by
  have hnil : ({} : Builder p.Token).Keeps [] := ⟨fun _ => rfl, fun _ => rfl, rfl⟩
  exact hnil.foldl_step steps

/-! ### Building -/

/-- A token is owned by the node on record for the identifier that claims it. -/
theorem mem_owned_iff {τ : Type} [Token τ] {b : Builder τ} {t : τ} {node : Node} :
    (t, node) ∈ b.owned ↔ b.claims.get? t = some node.id ∧ b.record? node.id = some node := by
  constructor
  · intro h
    exact ⟨SortedMap.get?_eq_some_iff.2 (mem_owned h).1, (mem_owned h).2⟩
  · rintro ⟨hclaim, hrecord⟩
    refine List.mem_filterMap.2 ⟨(t, node.id), SortedMap.get?_eq_some_iff.1 hclaim, ?_⟩
    change (b.record? node.id).map _ = _
    rw [hrecord, Option.map_some]

theorem conflict_of_build {τ : Type} [Token τ] {b : Builder τ} {ring : Ring τ}
    (h : b.build = .ok ring) : b.conflict = none := by
  unfold build at h
  split at h
  · cases h
  · assumption

theorem build_eq_error_iff {τ : Type} [Token τ] {b : Builder τ} {conflict : Conflict τ} :
    b.build = .error conflict ↔ b.conflict = some conflict := by
  unfold build
  split
  · next hsome => rw [hsome, Except.error.injEq, Option.some.injEq]
  · next hnone => simp [hnone]

theorem exists_build {τ : Type} [Token τ] {b : Builder τ} (h : b.conflict = none) :
    ∃ ring, b.build = .ok ring := by
  unfold build
  split
  · next hsome => rw [h] at hsome; cases hsome
  · exact ⟨_, rfl⟩

theorem entries_of_build {τ : Type} [Token τ] {b : Builder τ} {ring : Ring τ}
    (h : b.build = .ok ring) : ring.entries = b.owned.toArray := by
  unfold build at h
  split at h
  · cases h
  · cases h
    rfl

/-- Whoever claims a token is on record, so no claim is lost on the way to the ring. -/
theorem mem_entries_iff {steps : List (Step p)} {ring : Ring p.Token}
    (h : (run steps).build = .ok ring) {t : p.Token} {node : Node} :
    (t, node) ∈ ring.entries ↔ Registered steps node t := by
  have hkeeps := run_keeps steps
  have hnone : Filing.firstConflict? (filed steps) = none := by
    rw [← hkeeps.conflict_eq, conflict_of_build h]
  rw [entries_of_build h, List.mem_toArray, mem_owned_iff, hkeeps.get?_claims, hkeeps.record?_eq]
  constructor
  · rintro ⟨hclaim, hrecord⟩
    obtain ⟨other, hid, hreg⟩ :=
      claim_mem_filed.1 (Filing.claim_mem_of_firstClaimant? hclaim)
    -- Its record is the first one of its identifier, which is the one in the entry.
    have hother := Filing.firstRecord?_of_mem hnone hreg.record_mem
    rw [hid, hrecord, Option.some.injEq] at hother
    rwa [hother]
  · intro hreg
    have hclaim := claim_mem_filed.2 ⟨node, rfl, hreg⟩
    exact ⟨Filing.firstClaimant?_of_mem hnone hclaim,
      Filing.firstRecord?_of_mem hnone hreg.record_mem⟩

end Builder

/-- A ring that can be built holds what was registered, and nothing else. -/
theorem build_registered {steps : List (Step p)} {ring : Ring p.Token}
    (h : (Builder.run steps).build = .ok ring) :
    ring.entries.toList.Pairwise (·.1 < ·.1) ∧
      (∀ t, t ∈ ring.tokens ↔ ∃ node, Registered steps node t) ∧
      (∀ t node, Registered steps node t → ∀ owner, (t, owner) ∈ ring.entries ↔ owner = node) ∧
      ∀ a ∈ ring.entries, ∀ b ∈ ring.entries, a.2.id = b.2.id → a.2 = b.2 := by
  refine ⟨ring.ascending, fun t => ?_, fun t node hreg owner => ⟨fun howner => ?_, ?_⟩,
    ring.one_record⟩
  · simp [Ring.tokens, Builder.mem_entries_iff h]
  · have hnode := (Builder.mem_entries_iff h).2 hreg
    exact congrArg (·.2) (ring.entry_eq_of_token_eq howner hnode rfl)
  · rintro rfl
    exact (Builder.mem_entries_iff h).2 hreg

/-- Registrations with a node that comes twice and one that sets the number of tokens. -/
def sampleSteps : List (Step .murmur3) :=
  have first : Node := ⟨⟨1, by decide⟩, "first", some "east", some "r1"⟩
  have second : Node := ⟨⟨2, by decide⟩, "second", none, none⟩
  [.addToken (⟨5⟩ : Murmur3Token) first, .withVnodes 2, .addNode second,
    .addTokens first [(⟨5⟩ : Murmur3Token), (⟨-3⟩ : Murmur3Token)], .addNodeWithVnodes second 1]

/-- The second of two generated tokens is owned by the node that it was generated for. -/
theorem exists_build_sampleSteps :
    ∃ ring, (Builder.run sampleSteps).build = .ok ring ∧
      (∀ t, t ∈ ring.tokens ↔ ∃ node, Registered sampleSteps node t) ∧
      (Murmur3Token.ofKey "00000000000000000000000000000002:1".toUTF8.data.toList,
        (⟨⟨2, by decide⟩, "second", none, none⟩ : Node)) ∈ ring.entries := by
  have hnone : (Builder.run sampleSteps).conflict = none := by decide +kernel
  rcases Builder.exists_build hnone with ⟨ring, hring⟩
  have htext : vnodeText ⟨2, by decide⟩ 1 = "00000000000000000000000000000002:1" := by
    decide +kernel
  have hreg : Registered sampleSteps ⟨⟨2, by decide⟩, "second", none, none⟩
      (Murmur3Token.ofKey (vnodeText ⟨2, by decide⟩ 1).toUTF8.data.toList) :=
    ⟨sampleSteps.take 2, _, sampleSteps.drop 3, rfl, rfl, 1, by decide, rfl⟩
  obtain ⟨-, htokens, howner, -⟩ := build_registered hring
  rw [htext] at hreg
  exact ⟨ring, hring, htokens, (howner _ _ hreg _).2 rfl⟩

end TokenRing
