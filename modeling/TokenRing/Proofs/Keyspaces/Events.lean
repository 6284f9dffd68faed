import TokenRing.Proofs.Keyspaces
import TokenRing.Proofs.Placement.Warnings
import TokenRing.Proofs.Traversal

/-!
# Events of a build

A build that reports while it goes on leaves behind what it reported before a failure. As all
keyspaces are checked first, nothing is reported where the settings of one are refused. Otherwise
each of the different settings is computed once, and what is reported are the events of these
computations and then the event of the whole build.
-/

namespace TokenRing

open Node

/-! ### Reports -/

/-- A computation that reports events while it goes on. A failure does not take them back. -/
abbrev Reporting (ε : Type) :=
  ExceptT ε (StateM (List Event))

namespace Reporting

variable {ε α β : Type}

def report (events : List Event) : Reporting ε Unit :=
  modify (· ++ events)

def exec (x : Reporting ε α) (log : List Event) : Except ε α × List Event :=
  x.run.run log

/-- Whether a computation has a result and reports some events on the way. -/
def Emits (x : Reporting ε α) (result : Except ε α) (events : List Event) : Prop :=
  ∀ log, x.exec log = (result, log ++ events)

theorem emits_pure (a : α) : Emits (pure a : Reporting ε α) (.ok a) [] := by
  intro log
  rw [List.append_nil]
  rfl

theorem emits_liftM (x : Except ε α) : Emits (liftM x : Reporting ε α) x [] := by
  intro log
  rw [List.append_nil]
  cases x <;> rfl

theorem emits_report_pure (events : List Event) (a : α) :
    Emits (do report events; return a : Reporting ε α) (.ok a) events :=
  fun _ => rfl

variable {x : Reporting ε α} {f : α → Reporting ε β} {events more : List Event}

/-- A failure ends the computation, and what was reported until then stays. -/
theorem exec_bind (log : List Event) :
    (x >>= f).exec log = match x.exec log with
      | (.ok a, log) => (f a).exec log
      | (.error e, log) => (.error e, log) := by
  unfold exec
  rw [ExceptT.run_bind, StateT.run_bind]
  generalize StateT.run (ExceptT.run x) log = outcome
  obtain ⟨_ | _, _⟩ := outcome <;> rfl

/-- The events of two steps come one after the other. -/
theorem Emits.bind {a : α} {result : Except ε β} (hx : Emits x (.ok a) events)
    (hf : Emits (f a) result more) : Emits (x >>= f) result (events ++ more) := by
  intro log
  rw [exec_bind, hx, ← List.append_assoc]
  exact hf _

/-- Behind a failure there are no further events. -/
theorem Emits.bind_error {e : ε} (hx : Emits x (.error e) events) :
    Emits (x >>= f) (.error e) events := by
  intro log
  rw [exec_bind, hx]

/-- Where nothing is reported, the results alone say what happens. -/
theorem Emits.bind_nil {result : Except ε α} {g : α → Except ε β} (hx : Emits x result [])
    (hf : ∀ a, Emits (f a) (g a) []) : Emits (x >>= f) (result >>= g) [] := by
  cases result with
  | error e => exact hx.bind_error
  | ok a => exact hx.bind (hf a)

/-- Checks that report nothing can be run one after another without a report. -/
theorem emits_mapM {γ : Type} (check : γ → Except ε α) (list : List γ) :
    Emits (list.mapM fun c => (liftM (check c) : Reporting ε α)) (list.mapM check) [] := by
  induction list with
  | nil => exact emits_pure []
  | cons c rest ih =>
    rw [List.mapM_cons, List.mapM_cons]
    exact (emits_liftM (check c)).bind_nil fun a => ih.bind_nil fun results => emits_pure _

end Reporting

/-! ### Builds that report -/

namespace Keyspaces

open Reporting

variable {τ : Type} [Token τ] {ring : Ring τ}

def Progress.addReporting (ring : Ring τ) (progress : Progress τ) (keyspace : Keyspace) :
    Reporting InvalidKeyspace (Progress τ) := do
  if ∀ c ∈ progress.computed, c.1 ≠ keyspace.settings then
    report (keyspace.strategy.place ring).events
  return progress.add ring keyspace

/-- The replicas of keyspaces in list order, with every event reported when it happens. -/
def buildReporting (ring : Ring τ) (keyspaces : List (String × Settings)) :
    Reporting InvalidKeyspace (Keyspaces τ) := do
  let checked ← keyspaces.mapM fun k => liftM (Keyspace.check k.1 k.2)
  let result ← checked.foldlM (Progress.addReporting ring) {}
  report [.keyspacesBuilt result.maps.size result.computed.length ring.size]
  return ⟨ring, result.maps⟩

namespace Progress

variable {progress : Progress τ} {done : List Keyspace} {k : Keyspace}

def newEvents (ring : Ring τ) (progress : Progress τ) (k : Keyspace) : List Event :=
  if ∀ c ∈ progress.computed, c.1 ≠ k.settings then (k.strategy.place ring).events else []

theorem find?_computed_eq_none_iff :
    (progress.computed.find? fun c => c.1 = k.settings) = none ↔
      ∀ c ∈ progress.computed, c.1 ≠ k.settings := by
  simp

/-- A keyspace with settings that are not computed yet adds them, any other adds neither. -/
theorem computed_add (progress : Progress τ) (k : Keyspace) :
    (progress.add ring k).computed.map (·.1) = progress.computed.map (·.1) ++
      if ∀ c ∈ progress.computed, c.1 ≠ k.settings then [k.settings] else [] := by
  simp only [Progress.add, ← find?_computed_eq_none_iff]
  split
  · next hfound => simp [hfound]
  · next hnone => simp [hnone]

theorem events_add (progress : Progress τ) (k : Keyspace) :
    (progress.add ring k).events = progress.events ++ progress.newEvents ring k := by
  simp only [Progress.add, newEvents, ← find?_computed_eq_none_iff]
  split
  · next hfound => simp [hfound]
  · next hnone => simp [hnone]

/-- A keyspace is added with the reports of its computation, if there is one. -/
theorem emits_addReporting (progress : Progress τ) (k : Keyspace) :
    Emits (progress.addReporting ring k) (.ok (progress.add ring k))
      (progress.newEvents ring k) := by
  unfold Progress.addReporting newEvents
  split
  · exact emits_report_pure _ _
  · exact emits_pure _

/-- The reports come in the order of the keyspaces. -/
theorem emits_foldlM (ring : Ring τ) (checked : List Keyspace) (progress : Progress τ) :
    ∃ events, (checked.foldl (Progress.add ring) progress).events = progress.events ++ events ∧
      Emits (checked.foldlM (Progress.addReporting ring) progress)
        (.ok (checked.foldl (Progress.add ring) progress)) events := by
  induction checked generalizing progress with
  | nil => exact ⟨[], (List.append_nil _).symm, emits_pure progress⟩
  | cons k rest ih =>
    obtain ⟨events, hevents, hemits⟩ := ih (progress.add ring k)
    refine ⟨progress.newEvents ring k ++ events, ?_, (emits_addReporting progress k).bind hemits⟩
    rw [List.foldl_cons, hevents, events_add, List.append_assoc]

end Progress

theorem emits_of_build_ok {list : List (String × Settings)} {keyspaces : Keyspaces τ}
    {events : List Event} (h : build ring list = .ok (keyspaces, events)) :
    Emits (buildReporting ring list) (.ok keyspaces) events := by
  obtain ⟨checked, hchecked, ⟨⟩⟩ := Except.bind_eq_ok_iff.1 h
  obtain ⟨events, hevents, hfold⟩ := Progress.emits_foldlM ring checked {}
  have hcheck := emits_mapM (fun k => Keyspace.check k.1 k.2) list
  rw [hchecked] at hcheck
  rw [hevents]
  exact hcheck.bind (hfold.bind (emits_report_pure _ _))

/-- A build that fails has reported nothing. -/
theorem emits_of_build_error {list : List (String × Settings)} {e : InvalidKeyspace}
    (h : build ring list = .error e) : Emits (buildReporting ring list) (.error e) [] := by
  have hchecked := (Except.bind_eq_error_iff.1 h).resolve_right nofun
  have hcheck := emits_mapM (fun k => Keyspace.check k.1 k.2) list
  rw [hchecked] at hcheck
  exact hcheck.bind_error

end Keyspaces

/-! ### Computations -/

def Settings.computation {τ : Type} [Token τ] (ring : Ring τ) (settings : Settings) : List Event :=
  match Strategy.ofSettings settings with
  | .ok strategy => (strategy.place ring).events
  | .error _ => []

namespace Keyspaces

variable {τ : Type} [Token τ] {ring : Ring τ}

namespace Progress

/-- What is computed and reported after some keyspaces: each of their different settings once. -/
structure Reported (ring : Ring τ) (progress : Progress τ) (done : List Keyspace) : Prop where
  settings_eq : progress.computed.map (·.1) = (done.map (·.settings)).eraseDups
  events_eq : progress.events = (done.map (·.settings)).eraseDups.flatMap (·.computation ring)

variable {progress : Progress τ} {done : List Keyspace} {k : Keyspace}

/-- Settings are computed already exactly if an earlier keyspace has them. -/
theorem Reported.forall_ne_iff (h : Reported ring progress done) :
    (∀ c ∈ progress.computed, c.1 ≠ k.settings) ↔ k.settings ∉ done.map (·.settings) := by
  rw [← List.mem_eraseDups, ← h.settings_eq]
  simp only [List.mem_map, not_exists, not_and, ne_eq]

/-- One more keyspace is computed and reported unless its settings were. -/
theorem Reported.add (h : Reported ring progress done) (hk : k.IsChecked) :
    Reported ring (progress.add ring k) (done ++ [k]) := by
  have hcomputation : k.settings.computation ring = (k.strategy.place ring).events := by
    rw [Settings.computation, hk]
  constructor
  · rw [computed_add, h.settings_eq, List.map_append, List.map_singleton, eraseDups_concat]
    simp only [h.forall_ne_iff]
    by_cases hmem : k.settings ∈ done.map (·.settings) <;> simp [hmem]
  · rw [events_add, newEvents, h.events_eq, List.map_append, List.map_singleton, eraseDups_concat]
    simp only [h.forall_ne_iff]
    by_cases hmem : k.settings ∈ done.map (·.settings) <;> simp [hmem, hcomputation]

/-- Each of the different settings is computed and reported once. -/
theorem reported_foldl (ring : Ring τ) {checked : List Keyspace} (h : ∀ k ∈ checked, k.IsChecked) :
    Reported ring (checked.foldl (Progress.add ring) {}) checked := by
  induction checked using List.reverseRecOn with
  | nil => exact ⟨rfl, rfl⟩
  | append_singleton done k ih =>
    rw [List.foldl_append]
    apply Reported.add
    · exact ih fun k hk => h k (List.mem_append_left _ hk)
    · exact h k (by simp)

end Progress

theorem size_maps_unshared (ring : Ring τ) (checked : List Keyspace) :
    (unshared ring checked).maps.size = (checked.map (·.name)).eraseDups.length := by
  -- Both sides count every name once, in different orders.
  have hperm : (unshared ring checked).names.Perm (checked.map (·.name)).eraseDups := by
    apply (List.perm_ext_iff_of_nodup (SortedMap.nodup_keys _) (nodup_eraseDups _)).2
    intro name
    rw [List.mem_eraseDups]
    exact mem_names_unshared ring
  rw [← hperm.length_eq, names, SortedMap.keys, List.length_map, SortedMap.size]

/-- The events of a build: those of a computation for each of the different settings, then one with
the number of names, of different settings and of tokens. -/
def buildEvents (ring : Ring τ) (names : List String) (settings : List Settings) : List Event :=
  settings.eraseDups.flatMap (·.computation ring) ++
    [.keyspacesBuilt names.eraseDups.length settings.eraseDups.length ring.size]

/-- The result and the events of a build depend on the checked keyspaces only. -/
theorem build_eq_ok (ring : Ring τ) {list : List (String × Settings)} {checked : List Keyspace}
    (hmapM : list.mapM (fun k => Keyspace.check k.1 k.2) = .ok checked)
    (hchecked : ∀ k ∈ checked, k.IsChecked) :
    build ring list = .ok (unshared ring checked,
      buildEvents ring (checked.map (·.name)) (checked.map (·.settings))) := by
  have hmaps : (checked.foldl (Progress.add ring) {}).maps = .ofList _ :=
    (Progress.tracks_foldl hchecked).maps
  have hreported := Progress.reported_foldl ring hchecked
  rw [build, hmapM, buildEvents, ← hreported.events_eq, ← hreported.settings_eq, List.length_map,
    ← size_maps_unshared ring, unshared, ← hmaps]
  rfl

theorem exists_ofSettings_of_build {list : List (String × Settings)}
    {result : Keyspaces τ × List Event} (h : build ring list = .ok result) :
    ∀ k ∈ list, ∃ strategy, Strategy.ofSettings k.2 = .ok strategy := by
  obtain ⟨checked, hchecked, -⟩ := Except.bind_eq_ok_iff.1 h
  intro k hk
  obtain ⟨keyspace, hcheck⟩ := exists_of_mapM_eq_ok hchecked k hk
  obtain ⟨hsame, hkeyspace⟩ := Keyspace.check_eq_ok_iff.1 hcheck
  obtain ⟨-, hsettings⟩ := Prod.mk.inj hsame
  exact ⟨keyspace.strategy, hsettings ▸ hkeyspace⟩

end Keyspaces

/-! ### Main result -/

/-- If the settings of one keyspace in a list describe no strategy, the build of the list fails, and
a build that reports while it goes on reports nothing. Otherwise both have the same result, and what
is reported are the events of one computation for each of the different settings in the list, also
of those that a later keyspace of the same name replaces, and then one event with the number of
names, of different settings and of tokens. -/
theorem events_build {τ : Type} [Token τ] (ring : Ring τ) (list : List (String × Settings))
    (log : List Event) :
    ((∃ k ∈ list, ∀ strategy, Strategy.ofSettings k.2 ≠ .ok strategy) →
      ∃ e, Keyspaces.build ring list = .error e ∧
        (Keyspaces.buildReporting ring list).exec log = (.error e, log)) ∧
    ((∀ k ∈ list, ∃ strategy, Strategy.ofSettings k.2 = .ok strategy) →
      ∃ keyspaces events, Keyspaces.build ring list = .ok (keyspaces, events) ∧
        (Keyspaces.buildReporting ring list).exec log = (.ok keyspaces, log ++ events) ∧
        events = Keyspaces.buildEvents ring (list.map (·.1)) (list.map (·.2))) := by
  constructor
  · rintro ⟨k, hk, hinvalid⟩
    cases hbuild : Keyspaces.build ring list with
    | error e =>
      have hexec := Keyspaces.emits_of_build_error hbuild log
      rw [List.append_nil] at hexec
      exact ⟨e, rfl, hexec⟩
    | ok result =>
      -- A build that succeeds has made a strategy of all settings.
      obtain ⟨strategy, hstrategy⟩ := Keyspaces.exists_ofSettings_of_build hbuild k hk
      exact absurd hstrategy (hinvalid strategy)
  · intro hvalid
    obtain ⟨checked, hmapM, hlist, hchecked⟩ := Keyspace.mapM_check hvalid
    have hnames : list.map (·.1) = checked.map (·.name) := by
      rw [← hlist, List.map_map]
      rfl
    have hsettings : list.map (·.2) = checked.map (·.settings) := by
      rw [← hlist, List.map_map]
      rfl
    have hbuild := Keyspaces.build_eq_ok ring hmapM hchecked
    refine ⟨_, _, hbuild, Keyspaces.emits_of_build_ok hbuild log, ?_⟩
    rw [hnames, hsettings]

def paddedSettings : Settings :=
  .ofList [("class", "SimpleStrategy"), ("replication_factor", " 2")]

/-- A computation is reported for each of two writings of a factor. -/
theorem events_build_sampleRing :
    (∃ keyspaces, (Keyspaces.buildReporting sampleRing
      [("a", simpleSettings), ("b", simpleSettings), ("a", paddedSettings)]).exec [] =
        (.ok keyspaces, [.replicasComputed .simple 5 6, .replicasComputed .simple 5 6,
          .keyspacesBuilt 2 2 6])) ∧
    ∃ e, (Keyspaces.buildReporting sampleRing
      [("a", simpleSettings), ("b", .ofList [("class", "foo")])]).exec [] = (.error e, []) := by
  obtain ⟨hpos, hsimple⟩ := exists_ofSettings_simpleSettings
  have hpadded : Strategy.ofSettings paddedSettings = .ok (.simple (.ofNat 2) hpos) := rfl
  constructor
  · have hvalid : ∀ k ∈ [("a", simpleSettings), ("b", simpleSettings), ("a", paddedSettings)],
        ∃ strategy, Strategy.ofSettings k.2 = .ok strategy := by
      simp [hsimple, hpadded]
    obtain ⟨keyspaces, events, -, hexec, rfl⟩ := (events_build sampleRing _ []).2 hvalid
    exact ⟨keyspaces, hexec⟩
  · have hrefused : ∃ k ∈ [("a", simpleSettings), ("b", .ofList [("class", "foo")])],
        ∀ strategy, Strategy.ofSettings k.2 ≠ .ok strategy := by
      refine ⟨("b", .ofList [("class", "foo")]), by simp, ?_⟩
      intro strategy h
      cases h
    obtain ⟨e, -, hexec⟩ := (events_build sampleRing _ []).1 hrefused
    exact ⟨e, hexec⟩

end TokenRing
