import TokenRing.CommandLine.Report
import TokenRing.Proofs.Keyspaces
import TokenRing.Proofs.TokenText
import TokenRing.Proofs.Text.Utf8

/-!
# The commands agree

The ranges of the ring, the table of replicas and the route of a key are reported in different ways.
They are about the same tokens in the same order, and a key has the replicas of the row of its range.
-/

namespace TokenRing

variable {p : Partitioner} {snapshot : Snapshot} {keyspace : String} {ring : Ring p.Token}
  {strategy : Strategy}

/-- Whether the nodes of a snapshot make a ring, and its settings for a keyspace a strategy. -/
structure Snapshot.Describes (snapshot : Snapshot) (p : Partitioner) (keyspace : String)
    (ring : Ring p.Token) (strategy : Strategy) : Prop where
  ring : snapshot.ring p = .ok ring
  strategy : ∃ settings, snapshot.keyspaces.get? keyspace = some settings ∧
    Strategy.ofSettings settings = .ok strategy

/-! ### The texts of the reports -/

namespace Report

/-- The list of the ranges has a line with the counts, and a line for every range. -/
theorem ring_eq (ring : Ring p.Token) :
    Report.ring ring = String.join ((s!"{ring.size} tokens, {ring.nodeCount} nodes" ++ "\n") ::
      ring.ranges.map fun (range, owner) =>
        s!"({p.written range.start}, {p.written range.stop}]" ++ "  " ++ owner.text ++ "\n") := by
  simp only [Report.ring, lines, List.map_cons, List.map_map, ← p.text_eq_written]
  rfl

/-- The table of replicas has a line for every token, with the names of its nodes. -/
theorem replicas_eq (map : ReplicaMap p.Token) :
    Report.replicas map = String.join (map.entries.map fun (t, nodes) =>
      p.written t ++ "  " ++ String.intercalate ", " (nodes.map (·.name)) ++ "\n") := by
  simp only [Report.replicas, lines, List.map_map, ← p.text_eq_written]
  rfl

/-- The route has a line for the token of the key, and one with the names of its nodes. -/
theorem route_eq (t : p.Token) (nodes : List Node) :
    Report.route t nodes = String.join ["token: " ++ p.written t ++ "\n",
      "replicas: " ++ String.intercalate ", " (nodes.map (·.name)) ++ "\n"] := by
  rw [← p.text_eq_written]
  rfl

end Report

/-! ### What the commands answer -/

namespace Snapshot.Describes

/-- The keyspace map of a single valid keyspace holds the replicas of its strategy. -/
theorem exists_placed (h : snapshot.Describes p keyspace ring strategy) :
    ∃ placed events, snapshot.replicas ring keyspace = .ok (placed, events) ∧
      placed.maps.get? keyspace = some (strategy.place ring).replicas := by
  obtain ⟨settings, hsettings, hstrategy⟩ := h.strategy
  have hmapM : [(keyspace, settings)].mapM (fun k => Keyspace.check k.1 k.2) =
      .ok [⟨keyspace, settings, strategy⟩] := by
    rw [List.mapM_cons, Keyspace.check_of_ok hstrategy]
    rfl
  have hchecked : ∀ k ∈ [(⟨keyspace, settings, strategy⟩ : Keyspace)], k.IsChecked :=
    List.forall_mem_singleton.2 hstrategy
  obtain ⟨events, hbuild⟩ := Keyspaces.build_eq_unshared ring hmapM hchecked
  refine ⟨Keyspaces.unshared ring [⟨keyspace, settings, strategy⟩], events, ?_, ?_⟩
  · rw [Snapshot.replicas, hsettings]
    show (Keyspaces.build ring [(keyspace, settings)]).mapError Failure.keyspace = _
    rw [hbuild]
    rfl
  · rw [Keyspaces.get?_unshared, Keyspaces.latest?]
    simp

end Snapshot.Describes

namespace Command

theorem execute_ring (hring : snapshot.ring p = .ok ring) :
    Command.ring.execute p snapshot = .ok { output := Report.ring ring } := by
  rw [execute, hring]
  rfl

variable {placed : Keyspaces p.Token} {events : List Event} {map : ReplicaMap p.Token}

/-- The command prints the replica map of the keyspace, in one of its two forms. -/
theorem execute_replicas (hring : snapshot.ring p = .ok ring)
    (hplaced : snapshot.replicas ring keyspace = .ok (placed, events))
    (hget : placed.maps.get? keyspace = some map) (json : Bool) :
    (Command.replicas keyspace json).execute p snapshot =
      .ok ⟨if json then Report.replicasJson map else Report.replicas map, events⟩ := by
  rw [execute, hring]
  simp only [bind, Except.bind, Except.mapError, hplaced, hget, Option.getD_some]
  rfl

/-- The command prints the token of the key and the nodes that the map has for it. -/
theorem execute_route (hring : snapshot.ring p = .ok ring)
    (hplaced : snapshot.replicas ring keyspace = .ok (placed, events))
    (hget : placed.maps.get? keyspace = some map) (key : String) :
    (Command.route keyspace key).execute p snapshot =
      .ok ⟨Report.route (p.ofKey (Text.utf8 key.toList))
        ((map.replicasFor? (p.ofKey (Text.utf8 key.toList))).getD []), events⟩ := by
  rw [execute, hring]
  simp only [bind, Except.bind, Except.mapError, hplaced, Keyspaces.replicas?, hget, Option.bind_some]
  rfl

end Command

/-! ### Main result -/

/-- The ranges of the ring end at its tokens, in order, and each token has a row of replicas in the
same order. A key is in one range, and its replicas are those of the row of the token at which that
range ends. On an empty ring there are neither rows nor replicas. -/
theorem commands_agree (h : snapshot.Describes p keyspace ring strategy) (key : String) :
    ∃ (t : p.Token) (rows : List (p.Token × List Node)) (routed : List Node) (events : List Event),
      Command.ring.execute p snapshot = .ok ⟨
        String.join ((s!"{ring.size} tokens, {ring.nodeCount} nodes" ++ "\n") ::
          ring.ranges.map fun (range, owner) =>
            s!"({p.written range.start}, {p.written range.stop}]" ++ "  " ++ owner.text ++ "\n"),
        []⟩ ∧
      (Command.replicas keyspace false).execute p snapshot = .ok ⟨
        String.join (rows.map fun (token, nodes) =>
          p.written token ++ "  " ++ String.intercalate ", " (nodes.map (·.name)) ++ "\n"),
        events⟩ ∧
      (Command.route keyspace key).execute p snapshot = .ok ⟨
        String.join ["token: " ++ p.written t ++ "\n",
          "replicas: " ++ String.intercalate ", " (routed.map (·.name)) ++ "\n"],
        events⟩ ∧
      t = p.ofKey key.toUTF8.data.toList ∧
      rows.map (·.1) = ring.tokens ∧ ring.ranges.map (·.1.stop) = ring.tokens ∧
      (ring.isEmpty = true → rows = [] ∧ routed = []) ∧
      (ring.isEmpty = false → ∃ (i : Nat) (range : TokenRange p.Token) (owner : Node),
        ring.ranges[i]? = some (range, owner) ∧ range.contains t = true ∧
        (∀ (j : Nat) r, ring.ranges[j]? = some r → r.1.contains t = true → j = i) ∧
        rows[i]? = some (range.stop, routed)) := by
  obtain ⟨placed, events, hplaced, hget⟩ := h.exists_placed
  have hring := Command.execute_ring h.ring
  rw [Report.ring_eq] at hring
  have hreplicas := Command.execute_replicas h.ring hplaced hget false
  rw [if_neg Bool.false_ne_true, Report.replicas_eq] at hreplicas
  have hroute := Command.execute_route h.ring hplaced hget key
  rw [Report.route_eq] at hroute
  have hkeys := strategy.keys_place ring
  refine ⟨p.ofKey (Text.utf8 key.toList), (strategy.place ring).replicas.entries, _, events,
    hring, hreplicas, hroute, congrArg p.ofKey (Text.utf8_toList key), hkeys, ring.stops_ranges,
    ?_, ?_⟩
  · intro hempty
    -- No index owns the token, and the map has no keys.
    have hindex := (ring.ownerIndex?_eq_none_iff (p.ofKey (Text.utf8 key.toList))).2 hempty
    rw [strategy.replicasFor?_place, hindex]
    refine ⟨List.map_eq_nil_iff.1 (hkeys.trans ?_), rfl⟩
    rw [Ring.tokens, Array.isEmpty_iff.1 hempty]
    rfl
  · intro hempty
    -- The index that owns the token is that of its range and of its row.
    obtain ⟨i, hindex, hi⟩ := ring.exists_ownerIndex? (p.ofKey (Text.utf8 key.toList)) hempty
    refine ⟨i, ring.rangeAt i hi, ring.entries[i].2,
      ring.getElem?_ranges_eq_some_iff.2 ⟨hi, rfl⟩, (ring.contains_rangeAt_iff hi).2 hindex, ?_, ?_⟩
    · intro j r hr hcontains
      have hother := ring.ownerIndex?_of_contains hr hcontains
      exact Option.some.inj (hother.symm.trans hindex)
    · rw [strategy.replicasFor?_place, hindex]
      exact strategy.getElem?_entries_place ring hi

def sampleSnapshot : Snapshot where
  nodes := [⟨"1", some "a", none, none, ["40"]⟩, ⟨"2", some "b", none, none, ["20", "60"]⟩]
  keyspaces := .ofList [("simple", simpleSettings)]

def nodeA : Node :=
  { Node.sample 1 none none with name := "a" }

def nodeB : Node :=
  { Node.sample 2 none none with name := "b" }

def snapshotRing : Ring ByteToken where
  entries := #[(⟨[0x20]⟩, nodeB), (⟨[0x40]⟩, nodeA), (⟨[0x60]⟩, nodeB)]
  ascending := by decide
  one_record := by decide

def snapshotStrategy : Strategy :=
  .simple (.ofNat 2) (by decide)

theorem describes_sampleSnapshot :
    sampleSnapshot.Describes .byteOrdered "simple" snapshotRing snapshotStrategy where
  ring := rfl
  strategy := ⟨simpleSettings, rfl, rfl⟩

/-- The key is behind the last token, so its replicas are in the first row. -/
theorem commands_agree_sampleSnapshot :
    sampleSnapshot.Describes .byteOrdered "simple" snapshotRing snapshotStrategy ∧
      Command.ring.execute .byteOrdered sampleSnapshot =
        .ok ⟨"3 tokens, 2 nodes\n(0x60, 0x20]  b\n(0x20, 0x40]  a\n(0x40, 0x60]  b\n", []⟩ ∧
      ∃ events,
        (Command.replicas "simple" false).execute .byteOrdered sampleSnapshot =
          .ok ⟨"0x20  b, a\n0x40  a, b\n0x60  b, a\n", events⟩ ∧
        (Command.route "simple" "z").execute .byteOrdered sampleSnapshot =
          .ok ⟨"token: 0x7a\nreplicas: b, a\n", events⟩ := by
  obtain ⟨t, rows, routed, events, hring, hreplicas, hroute, -⟩ :=
    commands_agree describes_sampleSnapshot "z"
  obtain ⟨placed, events', hplaced, hget⟩ := describes_sampleSnapshot.exists_placed
  have htable := hreplicas.symm.trans
    (Command.execute_replicas describes_sampleSnapshot.ring hplaced hget false)
  have hanswer := hroute.symm.trans
    (Command.execute_route describes_sampleSnapshot.ring hplaced hget "z")
  refine ⟨describes_sampleSnapshot, hring.trans ?_, events, ?_, ?_⟩
  · exact congrArg (fun output => Except.ok (Answer.mk output [])) (by decide +kernel)
  · rw [hreplicas, (Answer.mk.inj (Except.ok.inj htable)).1]
    exact congrArg (fun output => Except.ok (Answer.mk output events)) (by decide +kernel)
  · rw [hroute, (Answer.mk.inj (Except.ok.inj hanswer)).1]
    exact congrArg (fun output => Except.ok (Answer.mk output events)) (by decide +kernel)

end TokenRing
