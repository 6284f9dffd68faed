import TokenRing.Node.Json
import TokenRing.Proofs.Json.Record
import TokenRing.Proofs.Json.Writer

/-!
# Nodes survive JSON

A node is read back from what is written of it, and from every other writing of the same members:
in any order, with any blanks and escapes, and with a missing label null or left out.
-/

namespace TokenRing

open Json

/-- The ways to write a label as a member, or to leave it out. -/
inductive LabelMembers (key : String) : Option String → List (String × List Element) → Prop where
  | written (label : Option String) : LabelMembers key label [(key, [optionalText label])]
  | omitted : LabelMembers key none []

namespace Node

def members (node : Node) : List (String × List Element) :=
  [("id", [.natural node.id.value]), ("name", [.text node.name]),
    ("datacenter", [optionalText node.datacenter]), ("rack", [optionalText node.rack])]

def HasMembers (node : Node) (members : List (String × List Element)) : Prop :=
  ∃ datacenter rack, LabelMembers "datacenter" node.datacenter datacenter ∧
    LabelMembers "rack" node.rack rack ∧
    members.Perm (("id", [.natural node.id.value]) :: ("name", [.text node.name]) ::
      (datacenter ++ rack))

def IsWriting (node : Node) (document : String) : Prop :=
  ∃ members, node.HasMembers members ∧ Spaced (mapping members) document.toList

end Node

variable {key : String} {label : Option String} {labels : List (String × List Element)}

theorem LabelMembers.eq_of_mem (h : LabelMembers key label labels) :
    ∀ m ∈ labels, m = (key, [optionalText label]) := by
  cases h with
  | written => exact fun m hm => List.mem_singleton.1 hm
  | omitted => exact nofun

theorem LabelMembers.mem_or_eq_none (h : LabelMembers key label labels) :
    key ∈ labels.map Prod.fst ∨ label = none := by
  cases h with
  | written => exact .inl List.mem_cons_self
  | omitted => exact .inr rfl

/-- A label has one member at most. -/
theorem LabelMembers.keys_sublist (h : LabelMembers key label labels) :
    (labels.map Prod.fst).Sublist [key] := by
  cases h with
  | written => exact .refl _
  | omitted => exact List.nil_sublist _

/-! ### Fields -/

theorem reads_nodeId (id : NodeId) : Reads NodeId.read [.natural id.value] id := by
  intro more text hmore htext
  have hle : id.value ≤ 0xffffffffffffffffffffffffffffffff := Nat.le_of_lt_succ id.value_lt
  obtain ⟨rest, hread, hrest⟩ := reads_natural hle hmore htext
  have hid : NodeId.ofNat? id.value = some id := dif_pos id.value_lt
  refine ⟨rest, ?_, hrest⟩
  simp only [NodeId.read, bind, Except.bind, hread, hid]
  rfl

theorem reads_label (label : Option String) : Reads readOptionalText [optionalText label] label := by
  cases label with
  | none => exact reads_optionalText_none
  | some label => exact reads_optionalText_some label

namespace Node

def draft (node : Node) (keys : List String) : Draft where
  id := if "id" ∈ keys then some node.id else none
  name := if "name" ∈ keys then some node.name else none
  datacenter := if "datacenter" ∈ keys then some node.datacenter else none
  rack := if "rack" ∈ keys then some node.rack else none

variable {node : Node}

/-- The record has a field for every member of a node. -/
theorem takes_of_mem_members {m : String × List Element} (h : m ∈ node.members) :
    record.Takes node.draft m := by
  simp only [members, List.mem_cons, List.not_mem_nil, or_false] at h
  rcases h with rfl | rfl | rfl | rfl
  · refine Record.takes_ofReader rfl (fun _ hkey => if_neg hkey) (fun _ => ?_)
      (reads_nodeId node.id)
    simp [draft]
  · refine Record.takes_ofReader rfl (fun _ hkey => if_neg hkey) (fun _ => ?_)
      (reads_text node.name)
    simp [draft]
  · refine Record.takes_ofReader rfl (fun _ hkey => if_neg hkey) (fun _ => ?_)
      (reads_label node.datacenter)
    simp [draft]
  · refine Record.takes_ofReader rfl (fun _ hkey => if_neg hkey) (fun _ => ?_)
      (reads_label node.rack)
    simp [draft]

theorem finish_draft {keys : List String} (hid : "id" ∈ keys) (hname : "name" ∈ keys)
    (hdatacenter : "datacenter" ∈ keys ∨ node.datacenter = none)
    (hrack : "rack" ∈ keys ∨ node.rack = none) :
    record.finish (node.draft keys) = .ok node := by
  have hjoin : ∀ {key : String} {label : Option String}, key ∈ keys ∨ label = none →
      (if key ∈ keys then some label else none).join = label := by
    intro key label h
    split
    · rfl
    · next hkey => exact (h.resolve_left hkey).symm
  show (do
    let id ← require "id" (node.draft keys).id
    let name ← require "name" (node.draft keys).name
    return ⟨id, name, (node.draft keys).datacenter.join, (node.draft keys).rack.join⟩ :
    Except Fault Node) = _
  simp only [draft, if_pos hid, if_pos hname, hjoin hdatacenter, hjoin hrack]
  rfl

/-! ### Members -/

namespace HasMembers

variable {members : List (String × List Element)}

/-- In whichever order, the members are among those of the full writing. -/
theorem mem_members (h : node.HasMembers members) : ∀ m ∈ members, m ∈ node.members := by
  obtain ⟨datacenter, rack, hdatacenter, hrack, hmembers⟩ := h
  intro m hm
  have hm := hmembers.mem_iff.1 hm
  simp only [List.mem_cons, List.mem_append] at hm
  rcases hm with rfl | rfl | hm | hm
  · simp [Node.members]
  · simp [Node.members]
  · simp [Node.members, hdatacenter.eq_of_mem m hm]
  · simp [Node.members, hrack.eq_of_mem m hm]

theorem nodup_keys (h : node.HasMembers members) : (members.map Prod.fst).Nodup := by
  obtain ⟨datacenter, rack, hdatacenter, hrack, hmembers⟩ := h
  have hlabels := hdatacenter.keys_sublist.append hrack.keys_sublist
  have hdistinct : ["id", "name", "datacenter", "rack"].Nodup := by decide
  rw [(hmembers.map Prod.fst).nodup_iff, List.map_cons, List.map_cons, List.map_append]
  exact hdistinct.sublist ((hlabels.cons_cons "name").cons_cons "id")

theorem finish_draft (h : node.HasMembers members) :
    record.finish (node.draft (members.map Prod.fst).reverse) = .ok node := by
  obtain ⟨datacenter, rack, hdatacenter, hrack, hmembers⟩ := h
  have hmem : ∀ {key : String}, key ∈ (members.map Prod.fst).reverse ↔
      key = "id" ∨ key = "name" ∨
        key ∈ datacenter.map Prod.fst ∨ key ∈ rack.map Prod.fst := by
    intro key
    rw [List.mem_reverse, (hmembers.map Prod.fst).mem_iff]
    simp only [List.map_cons, List.map_append, List.mem_cons, List.mem_append]
  apply Node.finish_draft
  · exact hmem.2 (.inl rfl)
  · exact hmem.2 (.inr (.inl rfl))
  · exact hdatacenter.mem_or_eq_none.imp_left fun hkey => hmem.2 (.inr (.inr (.inl hkey)))
  · exact hrack.mem_or_eq_none.imp_left fun hkey => hmem.2 (.inr (.inr (.inr hkey)))

/-- A node is read back from its members, in any order and with labels left out. -/
theorem reads (h : node.HasMembers members) : Reads read (mapping members) node := by
  have hblank : record.blank = node.draft [] := rfl
  have htakes : ∀ m ∈ members, record.Takes node.draft m := fun m hm =>
    takes_of_mem_members (h.mem_members m hm)
  show Reads record.read (mapping members) node
  exact Record.reads_mapping hblank htakes h.nodup_keys h.finish_draft

end HasMembers

theorem hasMembers_members (node : Node) : node.HasMembers node.members :=
  ⟨_, _, .written _, .written _, .refl _⟩

theorem writes_members (node : Node) : Writes node.write (mapping node.members) :=
  writes_mapping (.cons ⟨rfl, writes_natural _⟩ (.cons ⟨rfl, writes_text _⟩
    (.cons ⟨rfl, writes_optionalText _⟩ (.cons ⟨rfl, writes_optionalText _⟩ .nil))))

/-- What is printed is a writing of the node. -/
theorem isWriting_toJson (node : Node) : node.IsWriting node.toJson := by
  refine ⟨node.members, node.hasMembers_members, ?_⟩
  rw [toJson, String.toList_ofList]
  exact writes_members node isBlank_compact 0

/-- No writing of a node loses anything of it, the compact one among them. -/
theorem ofJson_eq_ok (node : Node) :
    ofJson node.toJson = .ok node ∧
      ∀ document, node.IsWriting document → ofJson document = .ok node := by
  have hread : ∀ document, node.IsWriting document → ofJson document = .ok node := by
    intro document hdocument
    obtain ⟨members, hmembers, htext⟩ := hdocument
    exact readDocument_of_reads hmembers.reads htext
  exact ⟨hread _ node.isWriting_toJson, hread⟩

def samplePlain : Node :=
  ⟨⟨7, by decide⟩, "\"😀", none, none⟩

/-- A document with one label null and one left out, and with an escaped surrogate pair. -/
def sampleWriting : String :=
  "\x7b\"rack\" :null,\n \"name\":\"\\\"\\ud83d\\uDE00\", \"id\": 7\x7d\r\n"

/-- Blanks, order and escapes make no difference. -/
theorem ofJson_sampleWriting :
    samplePlain.IsWriting sampleWriting ∧ ofJson sampleWriting = .ok samplePlain := by
  have hwriting : samplePlain.IsWriting sampleWriting := by
    refine ⟨[("rack", [.null]), ("name", [.text samplePlain.name]), ("id", [.natural 7])],
      ⟨[], [("rack", [.null])], .omitted, .written none, by decide⟩, ?_⟩
    have hname : Spells samplePlain.name.toList
        ['\\', '"', '\\', 'u', 'd', '8', '3', 'd', '\\', 'u', 'D', 'E', '0', '0'] :=
      .cons (.short rfl) (.cons (@CharSpelling.pair '😀' ['d', '8', '3', 'd'] ['D', 'E', '0', '0']
        0xd83d 0xde00 rfl rfl (by decide) (by decide) rfl rfl rfl) .nil)
    have hid : (Element.natural 7).Written ['7'] := by
      have hseven : Text.decimal 7 = ['7'] := by decide +kernel
      exact hseven ▸ .natural 7
    -- `decide` can take the conclusion to be about all characters there are.
    have hblank : ∀ {before : List Char}, before.all isBlank = true →
        ∀ c ∈ before, isBlank c = true := List.all_eq_true.1
    have hend : Spaced [] ['\r', '\n'] := .nil (hblank rfl)
    exact @Spaced.cons _ _ [] _ _ nofun (.symbol (by decide)) <|
      @Spaced.cons _ _ [] _ _ nofun (.text (spells_flatMap_writeChar "rack".toList)) <|
      @Spaced.cons _ _ [' '] _ _ (hblank rfl) (.symbol (by decide)) <|
      @Spaced.cons _ _ [] _ _ nofun .null <|
      @Spaced.cons _ _ [] _ _ nofun (.symbol (by decide)) <|
      @Spaced.cons _ _ ['\n', ' '] _ _ (hblank rfl)
        (.text (spells_flatMap_writeChar "name".toList)) <|
      @Spaced.cons _ _ [] _ _ nofun (.symbol (by decide)) <|
      @Spaced.cons _ _ [] _ _ nofun (.text hname) <|
      @Spaced.cons _ _ [] _ _ nofun (.symbol (by decide)) <|
      @Spaced.cons _ _ [' '] _ _ (hblank rfl) (.text (spells_flatMap_writeChar "id".toList)) <|
      @Spaced.cons _ _ [] _ _ nofun (.symbol (by decide)) <|
      @Spaced.cons _ _ [' '] _ _ (hblank rfl) hid <|
      @Spaced.cons _ _ [] _ _ nofun (.symbol (by decide)) hend
  exact ⟨hwriting, (ofJson_eq_ok samplePlain).2 sampleWriting hwriting⟩

end Node

end TokenRing
