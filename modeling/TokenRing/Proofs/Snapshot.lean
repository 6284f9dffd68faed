import TokenRing.Proofs.Ring.Conflict
import TokenRing.Proofs.Traversal
import TokenRing.Snapshot

/-!
# The ring of a snapshot

The texts of a snapshot are read in order, and the first one that cannot be read is its fault,
however many entries before it contradict each other. If all can be read, the entries are registered
in order: the first conflict among them is the fault, or else the ring has just the tokens that they
list.
-/

namespace TokenRing

variable {p : Partitioner}

/-! ### Entries -/

namespace NodeEntry

variable {entry : NodeEntry} {node : Node}

/-- Whether an entry describes a node. The text of the identifier serves as the name of a node that
has none. -/
structure StandsFor (entry : NodeEntry) (node : Node) : Prop where
  id : NodeId.parse entry.id = .ok node.id
  name : entry.name = some node.name ∨ entry.name = none ∧ entry.id = node.name
  datacenter : entry.datacenter = node.datacenter
  rack : entry.rack = node.rack

def Lists (entry : NodeEntry) (t : p.Token) : Prop :=
  ∃ text ∈ entry.tokens, p.parse text = .ok t

/-- What is wrong with the texts of an entry: the identifier, or otherwise the first text that is no
token. -/
inductive HasFault (p : Partitioner) (entry : NodeEntry) : RingFault p → Prop
  | nodeId {fault : NodeIdFault} : NodeId.parse entry.id = .error fault →
    HasFault p entry (.nodeId entry.id fault)
  | token {node : Node} {before after : List String} {text : String} {error : InvalidToken} :
    entry.StandsFor node → entry.tokens = before ++ text :: after →
    (∀ earlier ∈ before, ∃ t, p.parse earlier = .ok t) → p.parse text = .error error →
    HasFault p entry (.token node.name error)

/-- An entry gives the node that it stands for. -/
theorem node_eq_ok_iff : entry.node = .ok node ↔ entry.StandsFor node := by
  rw [NodeEntry.node, Except.map_eq_ok_iff]
  constructor
  · rintro ⟨id, hid, rfl⟩
    refine ⟨hid, ?_, rfl, rfl⟩
    cases entry.name <;> simp
  · rintro ⟨hid, hname, hdatacenter, hrack⟩
    refine ⟨node.id, hid, ?_⟩
    rw [hdatacenter, hrack]
    rcases hname with hname | ⟨hname, htext⟩
    · rw [hname, Option.getD_some]
    · rw [hname, Option.getD_none, htext]

theorem node_eq_error_iff {fault : NodeIdFault} :
    entry.node = .error fault ↔ NodeId.parse entry.id = .error fault :=
  Except.map_eq_error_iff

/-- An entry is resolved to the node it stands for and to the tokens that its texts write. -/
theorem resolve_eq_ok_iff {n : Node × List p.Token} :
    entry.resolve p = .ok n ↔ entry.StandsFor n.1 ∧ p.parseAll entry.tokens = .ok n.2 := by
  rw [resolve, Except.bind_eq_ok_iff]
  simp only [Except.bind_eq_ok_iff, Except.mapError_eq_ok_iff, node_eq_ok_iff]
  constructor
  · rintro ⟨node, hnode, tokens, htokens, ⟨⟩⟩
    exact ⟨hnode, htokens⟩
  · rintro ⟨hnode, htokens⟩
    exact ⟨n.1, hnode, n.2, htokens, rfl⟩

/-- An entry that is not resolved is refused for its first fault. -/
theorem resolve_eq_error_iff {fault : RingFault p} :
    entry.resolve p = .error fault ↔ entry.HasFault p fault := by
  rw [resolve, Except.bind_eq_error_iff]
  simp only [Except.bind_eq_error_iff, Except.mapError_eq_error_iff, Except.mapError_eq_ok_iff,
    node_eq_ok_iff, node_eq_error_iff]
  constructor
  · rintro (⟨fault, hid, rfl⟩ | ⟨node, hnode, ⟨error, htokens, rfl⟩ | ⟨_, -, ⟨⟩⟩⟩)
    · exact .nodeId hid
    · obtain ⟨before, text, after, hsplit, hbefore, htext⟩ := mapM_eq_error_iff.1 htokens
      exact .token hnode hsplit hbefore htext
  · intro h
    cases h with
    | nodeId hid => exact .inl ⟨_, hid, rfl⟩
    | token hnode hsplit hbefore htext =>
      have htokens := mapM_eq_error_iff.2 ⟨_, _, _, hsplit, hbefore, htext⟩
      exact .inr ⟨_, hnode, .inl ⟨_, htokens, rfl⟩⟩

/-- An entry is resolved exactly if it has no fault. -/
theorem exists_resolve_iff :
    (∃ r, entry.resolve p = .ok r) ↔ ∀ fault, ¬ entry.HasFault p fault := by
  simp only [← resolve_eq_error_iff]
  cases entry.resolve p <;> simp

end NodeEntry

/-! ### Registrations -/

def registrations (nodes : List (Node × List p.Token)) : List (Step p) :=
  nodes.map fun n => .addTokens n.1 n.2

/-- What is registered are the tokens that are listed, each for its node. -/
theorem registered_registrations_iff {nodes : List (Node × List p.Token)} {node : Node}
    {t : p.Token} :
    Registered (registrations nodes) node t ↔ ∃ n ∈ nodes, n.1 = node ∧ t ∈ n.2 := by
  constructor
  · rintro ⟨before, step, after, hsplit, hreg⟩
    have hstep : step ∈ registrations nodes := by simp [hsplit]
    obtain ⟨n, hn, rfl⟩ := List.mem_map.1 hstep
    exact ⟨n, hn, hreg⟩
  · rintro ⟨n, hn, hnode, ht⟩
    obtain ⟨before, after, rfl⟩ := List.append_of_mem hn
    exact ⟨registrations before, .addTokens n.1 n.2, registrations after, List.map_append,
      hnode, ht⟩

namespace Snapshot

variable {snapshot : Snapshot} {nodes : List (Node × List p.Token)} {ring : Ring p.Token}

/-- Whether all texts of a snapshot can be read, and these are its nodes with their tokens. -/
def Reads (snapshot : Snapshot) (nodes : List (Node × List p.Token)) : Prop :=
  List.Forall₂ (fun entry n => entry.StandsFor n.1 ∧
    List.Forall₂ (fun text t => p.parse text = .ok t) entry.tokens n.2) snapshot.nodes nodes

def HasFirstFault (p : Partitioner) (snapshot : Snapshot) (fault : RingFault p) : Prop :=
  ∃ before entry after, snapshot.nodes = before ++ entry :: after ∧
    (∀ earlier ∈ before, ∀ fault, ¬ earlier.HasFault p fault) ∧ entry.HasFault p fault

theorem mapM_resolve_eq_ok_iff :
    snapshot.nodes.mapM (NodeEntry.resolve p) = .ok nodes ↔ snapshot.Reads nodes := by
  rw [mapM_eq_ok_iff, Reads]
  simp only [NodeEntry.resolve_eq_ok_iff, Partitioner.parseAll, mapM_eq_ok_iff]

/-- Of several entries with faults the first one is reported. -/
theorem mapM_resolve_eq_error_iff {fault : RingFault p} :
    snapshot.nodes.mapM (NodeEntry.resolve p) = .error fault ↔
      snapshot.HasFirstFault p fault := by
  rw [mapM_eq_error_iff, HasFirstFault]
  simp only [NodeEntry.exists_resolve_iff, NodeEntry.resolve_eq_error_iff]

/-- Entries are registered one after another. -/
theorem foldl_addTokens (nodes : List (Node × List p.Token)) :
    nodes.foldl (fun b n => b.addTokens n.1 n.2) {} = Builder.run (registrations nodes) := by
  rw [Builder.run, registrations, List.foldl_map]
  rfl

/-- There is a ring if all texts are read and the registrations make one. -/
theorem ring_eq_ok_iff :
    snapshot.ring p = .ok ring ↔ ∃ nodes, snapshot.Reads nodes ∧
      (Builder.run (registrations nodes)).build = .ok ring := by
  rw [Snapshot.ring, Except.bind_eq_ok_iff]
  simp only [mapM_resolve_eq_ok_iff, foldl_addTokens, Except.mapError_eq_ok_iff]

/-- A fault in a text comes before every conflict. -/
theorem ring_eq_error_iff {fault : RingFault p} :
    snapshot.ring p = .error fault ↔ snapshot.HasFirstFault p fault ∨
      ∃ nodes conflict, snapshot.Reads nodes ∧
        (Builder.run (registrations nodes)).build = .error conflict ∧
        fault = .conflict conflict := by
  rw [Snapshot.ring, Except.bind_eq_error_iff]
  simp only [mapM_resolve_eq_error_iff, mapM_resolve_eq_ok_iff, foldl_addTokens,
    Except.mapError_eq_error_iff, eq_comm (a := fault), exists_and_left]

/-- An entry stands for one node, so its tokens are registered for no other. -/
theorem Reads.registered_iff (h : snapshot.Reads nodes) {node : Node} {t : p.Token} :
    Registered (registrations nodes) node t ↔
      ∃ entry ∈ snapshot.nodes, entry.StandsFor node ∧ entry.Lists t := by
  have hmapM := mapM_resolve_eq_ok_iff.2 h
  rw [registered_registrations_iff]
  constructor
  · rintro ⟨n, hn, rfl, ht⟩
    obtain ⟨entry, hentry, hresolve⟩ := (mem_of_mapM_eq_ok hmapM).1 hn
    obtain ⟨hnode, htokens⟩ := NodeEntry.resolve_eq_ok_iff.1 hresolve
    exact ⟨entry, hentry, hnode, (mem_of_mapM_eq_ok htokens).1 ht⟩
  · rintro ⟨entry, hentry, hnode, hlists⟩
    obtain ⟨n, hresolve⟩ := exists_of_mapM_eq_ok hmapM entry hentry
    obtain ⟨hother, htokens⟩ := NodeEntry.resolve_eq_ok_iff.1 hresolve
    -- An entry is resolved to the one node that it stands for.
    have hsame := (NodeEntry.node_eq_ok_iff.2 hother).symm.trans (NodeEntry.node_eq_ok_iff.2 hnode)
    exact ⟨n, (mem_of_mapM_eq_ok hmapM).2 ⟨entry, hentry, hresolve⟩, Except.ok.inj hsame,
      (mem_of_mapM_eq_ok htokens).2 hlists⟩

end Snapshot

/-! ### Main result -/

/-- A snapshot makes no ring for one of two reasons. One is the fault of the first entry that has
one: its identifier, or else the first of its texts that is no token. The other is only there if all
texts can be read: the first conflict among the entries, each of which is registered with its tokens
in order. Otherwise the owner of each token on the ring is the node of the entry that lists it, and
there are no other tokens. -/
theorem ring_of_snapshot (p : Partitioner) (snapshot : Snapshot) :
    (∀ fault, snapshot.ring p = .error fault ↔ snapshot.HasFirstFault p fault ∨
      ∃ (nodes : List (Node × List p.Token)) (conflict : Conflict p.Token),
        snapshot.Reads nodes ∧ fault = .conflict conflict ∧
        ∃ before filing after, filed (registrations nodes) = before ++ filing :: after ∧
          filing.Contradicts before conflict ∧ Filing.Harmonious before) ∧
    ∀ ring, snapshot.ring p = .ok ring ↔
      ∃ nodes : List (Node × List p.Token), snapshot.Reads nodes ∧
        Filing.Harmonious (filed (registrations nodes)) ∧
        ∀ t node, (t, node) ∈ ring.entries ↔
          ∃ entry ∈ snapshot.nodes, entry.StandsFor node ∧ entry.Lists t := by
  constructor
  · intro fault
    rw [Snapshot.ring_eq_error_iff]
    simp only [Builder.build_run_eq_error_iff, and_comm (a := fault = _)]
  · intro ring
    rw [Snapshot.ring_eq_ok_iff]
    constructor
    · rintro ⟨nodes, hreads, hbuild⟩
      refine ⟨nodes, hreads, Builder.exists_build_run_iff.1 ⟨ring, hbuild⟩, fun t node => ?_⟩
      rw [Builder.mem_entries_iff hbuild, hreads.registered_iff]
    · rintro ⟨nodes, hreads, hharmonious, hentries⟩
      obtain ⟨built, hbuild⟩ := Builder.exists_build_run_iff.2 hharmonious
      -- The entries determine the ring, so it is the one that is built.
      have hsame : ring = built := by
        apply Ring.eq_of_mem_entries_iff
        rintro ⟨t, node⟩
        rw [hentries, Builder.mem_entries_iff hbuild, hreads.registered_iff]
      exact ⟨nodes, hreads, hsame ▸ hbuild⟩

/-- Two entries for one node that list one token in different writings. One of them has no name. -/
def repeatingSnapshot : Snapshot where
  nodes := [⟨"1", none, some "east", none, ["0x20", "30"]⟩,
    ⟨"01", some "1", some "east", none, [" 20"]⟩]
  keyspaces := .empty

def clashingSnapshot : Snapshot where
  nodes := [⟨"1", some "a", none, none, ["0x20"]⟩, ⟨"01", some "b", none, none, ["20"]⟩]
  keyspaces := .empty

/-- A text behind the clash is no token. -/
def brokenSnapshot : Snapshot where
  nodes := clashingSnapshot.nodes ++ [⟨"2", none, none, none, ["20", "3"]⟩]
  keyspaces := .empty

/-- The fault behind the clash is reported, not the clash. -/
theorem ring_of_brokenSnapshot :
    brokenSnapshot.ring .byteOrdered =
      .error (.token "2" ⟨.byteOrdered, "3", .hex .oddLength⟩) ∧
    (∃ a b : Node, a.name = "a" ∧ b.name = "b" ∧
      clashingSnapshot.ring .byteOrdered = .error (.conflict (.record a b))) ∧
    ∃ ring : Ring ByteToken, repeatingSnapshot.ring .byteOrdered = .ok ring ∧
      ∀ (t : ByteToken) node, (t, node) ∈ ring.entries ↔ ∃ entry ∈ repeatingSnapshot.nodes,
        entry.StandsFor node ∧ entry.Lists (p := .byteOrdered) t := by
  let a : Node := ⟨⟨1, by decide⟩, "a", none, none⟩
  let b : Node := ⟨⟨1, by decide⟩, "b", none, none⟩
  let t : Partitioner.byteOrdered.Token := (⟨[0x20]⟩ : ByteToken)
  have hreads : clashingSnapshot.Reads [(a, [t]), (b, [t])] :=
    .cons ⟨⟨rfl, .inl rfl, rfl, rfl⟩, .cons rfl .nil⟩
      (.cons ⟨⟨rfl, .inl rfl, rfl, rfl⟩, .cons rfl .nil⟩ .nil)
  refine ⟨?_, ⟨a, b, rfl, rfl, ?_⟩, ?_⟩
  · have hlast : brokenSnapshot.nodes =
        clashingSnapshot.nodes ++ [⟨"2", none, none, none, ["20", "3"]⟩] := rfl
    have hstands : NodeEntry.StandsFor ⟨"2", none, none, none, ["20", "3"]⟩
        ⟨⟨2, by decide⟩, "2", none, none⟩ := ⟨rfl, .inr ⟨rfl, rfl⟩, rfl, rfl⟩
    refine ((ring_of_snapshot .byteOrdered brokenSnapshot).1 _).2 (.inl ⟨_, _, [], hlast, ?_, ?_⟩)
    · intro earlier hearlier
      exact NodeEntry.exists_resolve_iff.1
        (exists_of_mapM_eq_ok (Snapshot.mapM_resolve_eq_ok_iff.2 hreads) earlier hearlier)
    · have hsplit : ["20", "3"] = ["20"] ++ "3" :: [] := rfl
      exact .token hstands hsplit (List.forall_mem_singleton.2 ⟨t, rfl⟩) rfl
  · refine ((ring_of_snapshot .byteOrdered clashingSnapshot).1 _).2 (.inr ⟨_, _, hreads, rfl, ?_⟩)
    refine ⟨[.record a, .claim a.id t], .record b, [.claim b.id t], rfl, ?_, ?_⟩
    · exact .record rfl (.inl (by decide))
    · exact Filing.firstConflict?_eq_none_iff.1 rfl
  · have hring : ∃ ring : Ring ByteToken, repeatingSnapshot.ring .byteOrdered = .ok ring := ⟨_, rfl⟩
    obtain ⟨ring, hring⟩ := hring
    obtain ⟨-, -, -, hentries⟩ := ((ring_of_snapshot .byteOrdered repeatingSnapshot).2 ring).1 hring
    exact ⟨ring, hring, hentries⟩

end TokenRing
