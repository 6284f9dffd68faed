import TokenRing.Proofs.CommandLine.Report
import TokenRing.Proofs.Text.Utf8

/-!
# Which keyspaces are valid

The list of all keyspaces and the commands about one of them check settings apart from each other.
They refuse the same keyspaces for the same reasons, and a keyspace that is refused matters to no
command about another.
-/

namespace TokenRing

variable {p : Partitioner} {snapshot other : Snapshot} {ring : Ring p.Token} {name : String}
  {settings : Settings} {failure : Failure}

/-! ### One keyspace -/

namespace Snapshot

def Accepts (snapshot : Snapshot) (name : String) : Prop :=
  ∃ settings strategy, snapshot.keyspaces.get? name = some settings ∧
    Strategy.ofSettings settings = .ok strategy

inductive Refuses (snapshot : Snapshot) (name : String) : Failure → Prop where
  | unknown (hname : snapshot.keyspaces.get? name = none) :
      snapshot.Refuses name (.unknownKeyspace name)
  | invalid {settings : Settings} {cause : SettingsError}
      (hsettings : snapshot.keyspaces.get? name = some settings)
      (hcause : Strategy.ofSettings settings = .error cause) :
      snapshot.Refuses name (.keyspace ⟨name, cause⟩)

/-- Every name is accepted or refused for a reason. -/
theorem accepts_or_refuses (snapshot : Snapshot) (name : String) :
    snapshot.Accepts name ∨ ∃ failure, snapshot.Refuses name failure := by
  cases hsettings : snapshot.keyspaces.get? name with
  | none => exact .inr ⟨_, .unknown hsettings⟩
  | some settings =>
    cases hstrategy : Strategy.ofSettings settings with
    | ok strategy => exact .inl ⟨settings, strategy, hsettings, hstrategy⟩
    | error cause => exact .inr ⟨_, .invalid hsettings hstrategy⟩

theorem accepts_iff (h : (name, settings) ∈ snapshot.keyspaces.entries) :
    snapshot.Accepts name ↔ ∃ strategy, Strategy.ofSettings settings = .ok strategy := by
  simp [Accepts, SortedMap.get?_eq_some_iff.2 h]

theorem refuses_invalid_iff {cause : SettingsError} :
    snapshot.Refuses name (.keyspace ⟨name, cause⟩) ↔
      ∃ settings, (name, settings) ∈ snapshot.keyspaces.entries ∧
        Strategy.ofSettings settings = .error cause := by
  simp only [← SortedMap.get?_eq_some_iff]
  constructor
  · rintro (_ | ⟨hsettings, hcause⟩)
    exact ⟨_, hsettings, hcause⟩
  · rintro ⟨settings, hsettings, hcause⟩
    exact .invalid hsettings hcause

/-- A keyspace that is refused has no replicas, for the same reason. -/
theorem replicas_of_refuses (h : snapshot.Refuses name failure) (ring : Ring p.Token) :
    snapshot.replicas ring name = .error failure := by
  cases h with
  | unknown hname => rw [replicas, hname]
  | invalid hsettings hcause =>
    rw [replicas, hsettings]
    show (Keyspaces.build ring [(name, _)]).mapError Failure.keyspace = _
    rw [Keyspaces.build, List.mapM_cons, Keyspace.check_of_error hcause]
    rfl

/-! ### Other keyspaces -/

theorem ring_congr (hnodes : other.nodes = snapshot.nodes) : other.ring p = snapshot.ring p := by
  rw [Snapshot.ring, Snapshot.ring, hnodes]

theorem replicas_congr (hsettings : other.keyspaces.get? name = snapshot.keyspaces.get? name)
    (ring : Ring p.Token) : other.replicas ring name = snapshot.replicas ring name := by
  rw [replicas, replicas, hsettings]

end Snapshot

/-! ### The commands about one keyspace -/

namespace Command

def Succeeds (command : Command) (p : Partitioner) (snapshot : Snapshot) : Prop :=
  ∃ answer, command.execute p snapshot = .ok answer

/-- On a keyspace that is accepted the commands answer, whichever the form and the key. -/
theorem succeeds_of_accepts (hring : snapshot.ring p = .ok ring) (h : snapshot.Accepts name)
    (json : Bool) (key : String) :
    (Command.replicas name json).Succeeds p snapshot ∧
      (Command.route name key).Succeeds p snapshot := by
  obtain ⟨settings, strategy, hsettings, hstrategy⟩ := h
  have hdescribes : snapshot.Describes p name ring strategy :=
    ⟨hring, settings, hsettings, hstrategy⟩
  obtain ⟨placed, events, hplaced, hget⟩ := hdescribes.exists_placed
  exact ⟨⟨_, execute_replicas hring hplaced hget json⟩, _, execute_route hring hplaced hget key⟩

/-- On a keyspace that is refused the commands fail with the one reason. -/
theorem execute_of_refuses (hring : snapshot.ring p = .ok ring) (h : snapshot.Refuses name failure)
    (json : Bool) (key : String) :
    (Command.replicas name json).execute p snapshot = .error failure ∧
      (Command.route name key).execute p snapshot = .error failure := by
  rw [execute, execute, hring]
  simp only [bind, Except.bind, Except.mapError, Snapshot.replicas_of_refuses h ring, and_self]

/-- The table is printed exactly for the keyspaces that are accepted. -/
theorem replicas_succeeds_iff (hring : snapshot.ring p = .ok ring) (json : Bool) :
    (Command.replicas name json).Succeeds p snapshot ↔ snapshot.Accepts name := by
  refine ⟨?_, fun h => (succeeds_of_accepts hring h json "").1⟩
  rintro ⟨answer, hanswer⟩
  refine (snapshot.accepts_or_refuses name).resolve_right ?_
  rintro ⟨failure, hrefuses⟩
  rw [(execute_of_refuses hring hrefuses json "").1] at hanswer
  cases hanswer

/-- The table fails exactly for the reasons of refusal. -/
theorem execute_replicas_eq_error_iff (hring : snapshot.ring p = .ok ring) (json : Bool) :
    (Command.replicas name json).execute p snapshot = .error failure ↔
      snapshot.Refuses name failure := by
  refine ⟨fun h => ?_, fun h => (execute_of_refuses hring h json "").1⟩
  rcases snapshot.accepts_or_refuses name with haccepts | ⟨failure', hrefuses⟩
  · obtain ⟨answer, hanswer⟩ := (replicas_succeeds_iff hring json).2 haccepts
    rw [hanswer] at h
    cases h
  · rw [(execute_of_refuses hring hrefuses json "").1] at h
    exact Except.error.inj h ▸ hrefuses

/-- The commands about a keyspace look at the nodes and at its own settings. -/
theorem execute_congr (hnodes : other.nodes = snapshot.nodes)
    (hsettings : other.keyspaces.get? name = snapshot.keyspaces.get? name) (json : Bool)
    (key : String) :
    (Command.replicas name json).execute p other =
        (Command.replicas name json).execute p snapshot ∧
      (Command.route name key).execute p other = (Command.route name key).execute p snapshot := by
  simp only [execute, Snapshot.ring_congr hnodes, Snapshot.replicas_congr hsettings, and_self]

end Command

/-! ### The list of all keyspaces -/

namespace Report

/-- The line of a keyspace: its name, the class of its strategy, and what else is set. -/
def keyspaceLine (name : String) (settings : Settings) (strategy : Strategy) : String :=
  let others := settings.entries.filter fun e => e.1 ≠ "class"
  let others := String.intercalate " " (others.map fun (key, value) => s!"{key}={value}")
  s!"{name}  {strategy.strategyClass.name}  {others}"

/-- A keyspace has its line exactly if its settings describe a strategy. -/
theorem keyspace_eq_ok_iff {line : String} :
    Report.keyspace name settings = .ok line ↔
      ∃ strategy, Strategy.ofSettings settings = .ok strategy ∧
        line = keyspaceLine name settings strategy := by
  rw [Report.keyspace, Except.bind_eq_ok_iff]
  simp only [Except.mapError_eq_ok_iff]
  constructor
  · rintro ⟨strategy, hstrategy, hline⟩
    exact ⟨strategy, hstrategy, (Except.ok.inj hline).symm⟩
  · rintro ⟨strategy, hstrategy, rfl⟩
    exact ⟨strategy, hstrategy, rfl⟩

theorem keyspace_eq_error_iff :
    Report.keyspace name settings = .error failure ↔
      ∃ cause, Strategy.ofSettings settings = .error cause ∧ failure = .settings name cause := by
  rw [Report.keyspace, Except.bind_eq_error_iff, Except.mapError_eq_error_iff]
  simp [pure, Except.pure, eq_comm]

theorem exists_keyspace_iff (h : (name, settings) ∈ snapshot.keyspaces.entries) :
    (∃ line, Report.keyspace name settings = .ok line) ↔ snapshot.Accepts name := by
  rw [Snapshot.accepts_iff h]
  simp only [keyspace_eq_ok_iff]
  constructor
  · rintro ⟨_, strategy, hstrategy, -⟩
    exact ⟨strategy, hstrategy⟩
  · rintro ⟨strategy, hstrategy⟩
    exact ⟨_, strategy, hstrategy, rfl⟩

/-- There is a list if every keyspace is accepted. -/
theorem exists_keyspaces_iff :
    (∃ output, Report.keyspaces snapshot = .ok output) ↔
      ∀ name ∈ snapshot.keyspaces.keys, snapshot.Accepts name := by
  constructor
  · rintro ⟨output, houtput⟩ name hname
    obtain ⟨⟨name, settings⟩, hmem, rfl⟩ := List.mem_map.1 hname
    obtain ⟨lines, hlines, -⟩ := Except.map_eq_ok_iff.1 houtput
    exact (exists_keyspace_iff hmem).1 (exists_of_mapM_eq_ok hlines _ hmem)
  · intro h
    have hlines : ∀ e ∈ snapshot.keyspaces.entries, ∃ line, Report.keyspace e.1 e.2 = .ok line :=
      fun e he => (exists_keyspace_iff he).2 (h e.1 (List.mem_map_of_mem he))
    obtain ⟨lines, hlines⟩ := exists_mapM_eq_ok hlines
    exact ⟨_, Except.map_eq_ok_iff.2 ⟨lines, hlines, rfl⟩⟩

/-- The list has the lines of all keyspaces in order. -/
theorem keyspaces_eq_ok_iff {output : String} :
    Report.keyspaces snapshot = .ok output ↔
      ∃ rows, List.Forall₂ (fun e row => ∃ strategy,
          Strategy.ofSettings e.2 = .ok strategy ∧ row = keyspaceLine e.1 e.2 strategy)
        snapshot.keyspaces.entries rows ∧ lines rows = output := by
  rw [Report.keyspaces, Except.map_eq_ok_iff]
  simp only [mapM_eq_ok_iff, keyspace_eq_ok_iff]

/-- The first keyspace that is refused is the reason. -/
theorem keyspaces_eq_error_iff :
    Report.keyspaces snapshot = .error failure ↔
      ∃ name ∈ snapshot.keyspaces.keys, ∃ cause, failure = .settings name cause ∧
        snapshot.Refuses name (.keyspace ⟨name, cause⟩) ∧
        ∀ name' ∈ snapshot.keyspaces.keys, name' < name → snapshot.Accepts name' := by
  rw [Report.keyspaces, Except.map_eq_error_iff, mapM_eq_error_iff]
  constructor
  · rintro ⟨before, ⟨name, settings⟩, after, hsplit, hbefore, herror⟩
    obtain ⟨cause, hcause, rfl⟩ := keyspace_eq_error_iff.1 herror
    have hmem : (name, settings) ∈ snapshot.keyspaces.entries := by
      rw [hsplit]
      exact List.mem_append_right before List.mem_cons_self
    refine ⟨name, List.mem_map_of_mem hmem, cause, rfl,
      Snapshot.refuses_invalid_iff.2 ⟨settings, hmem, hcause⟩, ?_⟩
    intro name' hname' hlt
    -- A smaller name stands before, so there was a line for it.
    obtain ⟨e, he, rfl⟩ := List.mem_map.1 hname'
    exact (exists_keyspace_iff he).1 (hbefore e ((SortedMap.mem_before_iff hsplit).2 ⟨he, hlt⟩))
  · rintro ⟨name, -, cause, rfl, hrefuses, hbefore⟩
    obtain ⟨settings, hmem, hcause⟩ := Snapshot.refuses_invalid_iff.1 hrefuses
    obtain ⟨before, after, hsplit⟩ := List.append_of_mem hmem
    refine ⟨before, _, after, hsplit, ?_, keyspace_eq_error_iff.2 ⟨cause, hcause, rfl⟩⟩
    intro e he
    obtain ⟨he, hlt⟩ := (SortedMap.mem_before_iff hsplit).1 he
    exact (exists_keyspace_iff he).2 (hbefore e.1 (List.mem_map_of_mem he) hlt)

end Report

namespace Command

/-- The command prints the list, and reports no events. -/
theorem execute_keyspaces (hring : snapshot.ring p = .ok ring) :
    Command.keyspaces.execute p snapshot =
      (Report.keyspaces snapshot).map fun output => { output } := by
  rw [execute, hring]
  rfl

theorem keyspaces_succeeds_iff (hring : snapshot.ring p = .ok ring) :
    Command.keyspaces.Succeeds p snapshot ↔
      ∀ name ∈ snapshot.keyspaces.keys, snapshot.Accepts name := by
  rw [Succeeds, execute_keyspaces hring, ← Report.exists_keyspaces_iff]
  simp only [Except.map_eq_ok_iff]
  constructor
  · rintro ⟨_, output, houtput, -⟩
    exact ⟨output, houtput⟩
  · rintro ⟨output, houtput⟩
    exact ⟨_, output, houtput, rfl⟩

end Command

/-! ### Main result -/

/-- For a snapshot whose nodes make a ring, all keyspaces can be listed if and only if the replicas
in each of them can be shown. About one keyspace the commands all succeed, for every key, or all fail
for the same reason. The list fails for the first keyspace in byte order for which they do, and has
the cause that they have. Otherwise it prints a line for each keyspace, in byte order of the names.
What the commands about a keyspace answer depends on the nodes and on the settings of that keyspace
only. -/
theorem commands_valid (snapshot : Snapshot) (p : Partitioner) :
    (∀ ring, snapshot.ring p = .ok ring →
      (Command.keyspaces.Succeeds p snapshot ↔
        ∀ name ∈ snapshot.keyspaces.keys, (Command.replicas name false).Succeeds p snapshot) ∧
      (∀ name,
        (∀ json key, (Command.replicas name json).Succeeds p snapshot ∧
          (Command.route name key).Succeeds p snapshot) ∨
        ∃ failure, ∀ json key,
          (Command.replicas name json).execute p snapshot = .error failure ∧
          (Command.route name key).execute p snapshot = .error failure) ∧
      (∀ failure, Command.keyspaces.execute p snapshot = .error failure ↔
        ∃ name ∈ snapshot.keyspaces.keys, ∃ cause, failure = .settings name cause ∧
          (Command.replicas name false).execute p snapshot = .error (.keyspace ⟨name, cause⟩) ∧
          ∀ other ∈ snapshot.keyspaces.keys,
            other.toUTF8.data.toList < name.toUTF8.data.toList →
              (Command.replicas other false).Succeeds p snapshot) ∧
      ∀ answer, Command.keyspaces.execute p snapshot = .ok answer →
        ∃ rows : List String, answer = ⟨String.join (rows.map (· ++ "\n")), []⟩ ∧
          List.Forall₂ (fun (name, settings) row => ∃ strategy,
            Strategy.ofSettings settings = .ok strategy ∧
            row = Report.keyspaceLine name settings strategy) snapshot.keyspaces.entries rows ∧
          snapshot.keyspaces.keys.Pairwise (·.toUTF8.data.toList < ·.toUTF8.data.toList)) ∧
    ∀ other name, other.nodes = snapshot.nodes →
      other.keyspaces.get? name = snapshot.keyspaces.get? name → ∀ json key,
        (Command.replicas name json).execute p other =
            (Command.replicas name json).execute p snapshot ∧
        (Command.route name key).execute p other =
            (Command.route name key).execute p snapshot := by
  refine ⟨fun ring hring => ⟨?_, ?_, ?_, ?_⟩, ?_⟩
  · simp only [Command.keyspaces_succeeds_iff hring, Command.replicas_succeeds_iff hring]
  · intro name
    rcases snapshot.accepts_or_refuses name with haccepts | ⟨failure, hrefuses⟩
    · exact .inl (Command.succeeds_of_accepts hring haccepts)
    · exact .inr ⟨failure, Command.execute_of_refuses hring hrefuses⟩
  · intro failure
    -- Keyspaces are kept in the order of the bytes of their names.
    simp only [Command.execute_keyspaces hring, Except.map_eq_error_iff,
      Report.keyspaces_eq_error_iff, Command.execute_replicas_eq_error_iff hring,
      Command.replicas_succeeds_iff hring, ← Text.utf8_toList, Text.utf8_toList_lt_iff]
  · intro answer hanswer
    rw [Command.execute_keyspaces hring, Except.map_eq_ok_iff] at hanswer
    obtain ⟨output, houtput, rfl⟩ := hanswer
    obtain ⟨rows, hrows, rfl⟩ := Report.keyspaces_eq_ok_iff.1 houtput
    refine ⟨rows, rfl, hrows, List.pairwise_map.2 ?_⟩
    simp only [← Text.utf8_toList, Text.utf8_toList_lt_iff]
    exact snapshot.keyspaces.ascending
  · intro other name hnodes hsettings json key
    exact Command.execute_congr hnodes hsettings json key

def mixedSnapshot : Snapshot where
  nodes := sampleSnapshot.nodes
  keyspaces := .ofList [("wrong", .empty), ("unknown", .ofList [("class", "foo")]),
    ("simple", simpleSettings)]

/-- The list fails for the first of the two keyspaces, and the third is not affected. -/
theorem commands_valid_mixedSnapshot :
    mixedSnapshot.ring .byteOrdered = .ok snapshotRing ∧
    Command.keyspaces.execute .byteOrdered mixedSnapshot =
      .error (.settings "unknown" (.unsupportedClass "foo")) ∧
    (∀ key, (Command.route "wrong" key).execute .byteOrdered mixedSnapshot =
      .error (.keyspace ⟨"wrong", .missingClass .empty⟩)) ∧
    (∀ json, (Command.replicas "simple" json).execute .byteOrdered mixedSnapshot =
      (Command.replicas "simple" json).execute .byteOrdered sampleSnapshot) ∧
    Command.keyspaces.execute .byteOrdered sampleSnapshot =
      .ok ⟨"simple  SimpleStrategy  replication_factor=2\n", []⟩ := by
  have hring : mixedSnapshot.ring .byteOrdered = .ok snapshotRing := rfl
  have hmixed := (commands_valid mixedSnapshot .byteOrdered).1 snapshotRing hring
  refine ⟨hring, ?_, ?_, ?_, ?_⟩
  · refine (hmixed.2.2.1 _).2 ⟨"unknown", by decide, _, rfl, rfl, ?_⟩
    have hkeys : mixedSnapshot.keyspaces.keys = ["simple", "unknown", "wrong"] := rfl
    rw [hkeys, List.forall_mem_cons, List.forall_mem_cons, List.forall_mem_singleton]
    exact ⟨fun _ => ⟨_, rfl⟩, fun hlt => absurd hlt (by decide), fun hlt => absurd hlt (by decide)⟩
  · intro key
    have hwrong : (Command.replicas "wrong" false).execute .byteOrdered mixedSnapshot =
        .error (.keyspace ⟨"wrong", .missingClass .empty⟩) := rfl
    rcases hmixed.2.1 "wrong" with hsucceeds | ⟨failure, hfails⟩
    · obtain ⟨answer, hanswer⟩ := (hsucceeds false key).1
      cases hwrong.symm.trans hanswer
    · cases hwrong.symm.trans (hfails false key).1
      exact (hfails false key).2
  · intro json
    exact ((commands_valid sampleSnapshot .byteOrdered).2 mixedSnapshot "simple" rfl rfl json "").1
  · have hsample := (commands_valid sampleSnapshot .byteOrdered).1 snapshotRing rfl
    have hkeys : sampleSnapshot.keyspaces.keys = ["simple"] := rfl
    have hsucceeds : Command.keyspaces.Succeeds .byteOrdered sampleSnapshot := by
      rw [hsample.1, hkeys, List.forall_mem_singleton]
      exact ⟨_, rfl⟩
    obtain ⟨answer, hanswer⟩ := hsucceeds
    obtain ⟨rows, rfl, hrows, -⟩ := hsample.2.2.2 answer hanswer
    obtain ⟨row, _, ⟨strategy, hstrategy, rfl⟩, hrest, rfl⟩ := List.forall₂_cons_left_iff.1 hrows
    obtain rfl := List.forall₂_nil_left_iff.1 hrest
    cases hstrategy
    have houtput : String.join ([Report.keyspaceLine "simple" simpleSettings
        snapshotStrategy].map (· ++ "\n")) = "simple  SimpleStrategy  replication_factor=2\n" := by
      decide +kernel
    exact hanswer.trans (congrArg (fun output => Except.ok (Answer.mk output [])) houtput)

end TokenRing
