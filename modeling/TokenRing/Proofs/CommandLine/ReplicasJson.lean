import TokenRing.Proofs.CommandLine.Report
import TokenRing.Proofs.Node.Json
import TokenRing.Proofs.TokenText

/-!
# The dump of replicas

The replicas of a keyspace printed as JSON are a sequence with a pair for every token of the ring:
the text of the token, and its replicas as nodes. Reading it back gives the tokens and the nodes.
-/

namespace TokenRing

open Json

/-! ### Pairs -/

namespace Json

variable {α β : Type} {first : Reader α} {second : Reader β}

def readPair (first : Reader α) (second : Reader β) : Reader (α × β) := fun text =>
  match skipBlank text with
  | '[' :: rest => do
    match ← nextValue true rest with
    | .closed _ => .error .malformed
    | .item text =>
      let (a, text) ← first text
      match ← nextValue false text with
      | .closed _ => .error .malformed
      | .item text =>
        let (b, text) ← second text
        return ((a, b), ← closeSequence text)
  | text => .error (wrongKind .sequence text)

theorem closeSequence_symbol {more : List Element} {text : List Char}
    (htext : Spaced (.symbol ']' :: more) text) :
    ∃ rest, closeSequence text = .ok rest ∧ Spaced more rest := by
  obtain ⟨rest, hskip, hrest⟩ := htext.exists_skipBlank_symbol
  refine ⟨rest, ?_, hrest⟩
  rw [closeSequence, hskip]
  rfl

/-- A pair is read as its two values in a sequence. -/
theorem reads_pair {es es' : List Element} {a : α} {b : β} (hopens : Opens es)
    (hopens' : Opens es') (hfirst : Reads first es a) (hsecond : Reads second es' b) :
    Reads (readPair first second) (sequence [es, es']) (a, b) := by
  intro more text _ htext
  rw [sequence, List.cons_append, listing, listing, listing, List.append_assoc, List.append_assoc,
    List.append_assoc, List.append_assoc] at htext
  -- Opening bracket, first value, comma, second value, closing bracket.
  obtain ⟨inner, hskip, hinner⟩ := htext.exists_skipBlank_symbol
  obtain ⟨front, hnext, hfront⟩ := nextValue_item hopens hinner
  obtain ⟨middle, hread, hmiddle⟩ := hfirst (delimits_symbol ',' _) hfront
  have hsecondItem : Spaced ((if false then [] else [.symbol ',']) ++
      (es' ++ .symbol ']' :: more)) middle := hmiddle
  obtain ⟨front', hnext', hfront'⟩ := nextValue_item hopens' hsecondItem
  obtain ⟨back, hread', hback⟩ := hsecond (delimits_symbol ']' more) hfront'
  obtain ⟨rest, hclose, hrest⟩ := closeSequence_symbol hback
  refine ⟨rest, ?_, hrest⟩
  rw [readPair, hskip]
  simp only [bind, Except.bind, hnext, hread, hnext', hread', hclose]
  rfl

end Json

/-! ### Rows -/

namespace Report

def rowElements (row : String × List Node) : List Element :=
  sequence [[.text row.1], sequence (row.2.map fun node => mapping node.members)]

def readRows : Reader (List (String × List Node)) :=
  readSequence (readPair readText (readSequence Node.read))

/-- The rows are read back, each as a text and the nodes. -/
theorem reads_rows (rows : List (String × List Node)) :
    Reads readRows (sequence (rows.map rowElements)) rows := by
  apply reads_sequence
  intro row _
  refine ⟨opens_sequence _, reads_pair ⟨_, _, rfl, by simp⟩ (opens_sequence _) (reads_text row.1) ?_⟩
  apply reads_sequence
  intro node _
  exact ⟨opens_mapping _, node.hasMembers_members.reads⟩

variable {τ : Type} [Token τ]

/-- The dump shows the rows of the replica map in order. -/
theorem spaced_replicasJson (map : ReplicaMap τ) :
    Spaced (sequence (map.entries.map fun e => rowElements (Token.text e.1, e.2)))
      (replicasJson map).toList := by
  have hrow : ∀ e ∈ map.entries,
      Writes (writeSequence [writeText (Token.text e.1), writeSequence (e.2.map Node.write)])
        (rowElements (Token.text e.1, e.2)) := by
    intro e _
    have hnodes := writes_sequence_map fun node (_ : node ∈ e.2) => node.writes_members
    exact writes_sequence (.cons (writes_text _) (.cons hnodes .nil))
  have hrows := writes_sequence_map hrow isBlank_pretty 0
  have hend : Spaced [] ['\n'] := .nil (List.all_eq_true.1 rfl)
  have hall := hrows.append hend
  rw [List.append_nil] at hall
  simpa [replicasJson, lines, String.join] using hall

end Report

/-! ### Main result -/

variable {p : Partitioner} {snapshot : Snapshot} {keyspace : String} {ring : Ring p.Token}
  {strategy : Strategy}

/-- The dump of the replicas of a keyspace is a sequence with a row for every token of the ring, in
order. Reading it gives texts that are read as the tokens, and the nodes that the replica map has for
them with all their labels. The table of replicas has the names of the same nodes. -/
theorem replicasJson_faithful (h : snapshot.Describes p keyspace ring strategy) :
    ∃ (placed : Keyspaces p.Token) (nodes : p.Token → List Node) (dump table : String)
      (events : List Event),
      snapshot.replicas ring keyspace = .ok (placed, events) ∧
      placed.maps.get? keyspace = some (strategy.place ring).replicas ∧
      (∀ t ∈ ring.tokens, (strategy.place ring).replicas.get? t = some (nodes t)) ∧
      (Command.replicas keyspace true).execute p snapshot = .ok ⟨dump, events⟩ ∧
      Spaced (sequence (ring.tokens.map fun t => Report.rowElements (Token.text t, nodes t)))
        dump.toList ∧
      readDocument Report.readRows dump.toList =
        .ok (ring.tokens.map fun t => (Token.text t, nodes t)) ∧
      (∀ t ∈ ring.tokens, p.parse (Token.text t) = .ok t) ∧
      (Command.replicas keyspace false).execute p snapshot = .ok ⟨table, events⟩ ∧
      table = String.join (ring.tokens.map fun t =>
        Token.text t ++ "  " ++ String.intercalate ", " ((nodes t).map (·.name)) ++ "\n") := by
  obtain ⟨placed, events, hplaced, hget⟩ := h.exists_placed
  let map := (strategy.place ring).replicas
  let nodes (t : p.Token) := (map.get? t).getD []
  have hnodes : ∀ t ∈ ring.tokens, map.get? t = some (nodes t) := by
    intro t ht
    rw [← strategy.keys_place ring, SortedMap.mem_keys_iff] at ht
    obtain ⟨found, hfound⟩ := ht
    show map.get? t = some ((map.get? t).getD [])
    rw [hfound, Option.getD_some]
  -- The map has one entry for each token of the ring, in order.
  have hentries : map.entries = ring.tokens.map fun t => (t, nodes t) := by
    rw [map.entries_eq_map_keys [], strategy.keys_place ring]
  have hspaced : Spaced (sequence (ring.tokens.map fun t =>
      Report.rowElements (Token.text t, nodes t))) (Report.replicasJson map).toList := by
    have hdump := Report.spaced_replicasJson map
    rwa [hentries, List.map_map] at hdump
  refine ⟨placed, nodes, _, _, events, hplaced, hget, hnodes,
    Command.execute_replicas h.ring hplaced hget true, hspaced, ?_, ?_,
    Command.execute_replicas h.ring hplaced hget false, ?_⟩
  · apply readDocument_of_reads (Report.reads_rows _)
    rw [List.map_map]
    exact hspaced
  · intro t _
    have hblank : ∀ c ∈ "".toList, Text.isBlank c = true := by simp
    have hparse := Partitioner.parse_padded hblank hblank p t
    rwa [String.empty_append, String.append_empty] at hparse
  · show Report.replicas map = _
    rw [Report.replicas_eq, hentries, List.map_map]
    simp only [p.text_eq_written]
    rfl

/-- Both nodes hold a copy of every token. -/
theorem replicasJson_faithful_sampleSnapshot :
    sampleSnapshot.Describes .byteOrdered "simple" snapshotRing snapshotStrategy ∧
      ∃ dump events, (Command.replicas "simple" true).execute .byteOrdered sampleSnapshot =
          .ok ⟨dump, events⟩ ∧
        readDocument Report.readRows dump.toList =
          .ok [("0x20", [nodeB, nodeA]), ("0x40", [nodeA, nodeB]), ("0x60", [nodeB, nodeA])] := by
  obtain ⟨-, nodes, dump, -, events, -, -, hnodes, hdump, -, hread, -, -, -⟩ :=
    replicasJson_faithful describes_sampleSnapshot
  refine ⟨describes_sampleSnapshot, dump, events, hdump, ?_⟩
  have hget : ∀ t : ByteToken, t ∈ snapshotRing.tokens →
      (snapshotStrategy.place snapshotRing).replicas.get? t = some (nodes t) := hnodes
  have hfirst : nodes (⟨[0x20]⟩ : ByteToken) = [nodeB, nodeA] :=
    Option.some.inj ((hget ⟨[0x20]⟩ (by decide)).symm.trans (by decide +kernel))
  have hsecond : nodes (⟨[0x40]⟩ : ByteToken) = [nodeA, nodeB] :=
    Option.some.inj ((hget ⟨[0x40]⟩ (by decide)).symm.trans (by decide +kernel))
  have hthird : nodes (⟨[0x60]⟩ : ByteToken) = [nodeB, nodeA] :=
    Option.some.inj ((hget ⟨[0x60]⟩ (by decide)).symm.trans (by decide +kernel))
  have hrows : snapshotRing.tokens.map (fun t => (Token.text t, nodes t)) =
      [("0x20", [nodeB, nodeA]), ("0x40", [nodeA, nodeB]), ("0x60", [nodeB, nodeA])] := by
    show [(Token.text (⟨[0x20]⟩ : ByteToken), nodes (⟨[0x20]⟩ : ByteToken)),
      (Token.text (⟨[0x40]⟩ : ByteToken), nodes (⟨[0x40]⟩ : ByteToken)),
      (Token.text (⟨[0x60]⟩ : ByteToken), nodes (⟨[0x60]⟩ : ByteToken))] = _
    rw [hfirst, hsecond, hthird]
    decide +kernel
  exact hread.trans (congrArg Except.ok hrows)

end TokenRing
