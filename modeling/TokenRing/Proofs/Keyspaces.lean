import TokenRing.Keyspaces
import TokenRing.Proofs.Placement.Routing
import TokenRing.Proofs.Traversal

/-!
# Replicas of keyspaces

That keyspaces with equal settings share one computation cannot be seen in the result: the map of
all keyspaces is the one that has for every keyspace the replicas of its own strategy.
-/

namespace TokenRing

/-! ### Checks -/

namespace Keyspace

def IsChecked (k : Keyspace) : Prop :=
  Strategy.ofSettings k.settings = .ok k.strategy

variable {name : String} {settings : Settings}

theorem check_of_ok {strategy : Strategy} (h : Strategy.ofSettings settings = .ok strategy) :
    check name settings = .ok ⟨name, settings, strategy⟩ := by
  rw [check, h]

theorem check_of_error {cause : SettingsError} (h : Strategy.ofSettings settings = .error cause) :
    check name settings = .error ⟨name, cause⟩ := by
  rw [check, h]

/-- A checked keyspace keeps its name and its settings. -/
theorem check_eq_ok_iff {k : Keyspace} :
    check name settings = .ok k ↔ (k.name, k.settings) = (name, settings) ∧ k.IsChecked := by
  rw [Prod.mk.injEq]
  constructor
  · intro h
    cases hstrategy : Strategy.ofSettings settings with
    | ok strategy =>
      rw [check_of_ok hstrategy] at h
      obtain rfl := Except.ok.inj h
      exact ⟨⟨rfl, rfl⟩, hstrategy⟩
    | error cause =>
      rw [check_of_error hstrategy] at h
      cases h
  · rintro ⟨⟨rfl, rfl⟩, hchecked⟩
    exact check_of_ok hchecked

variable {list before after : List (String × Settings)} {checked : List Keyspace}

theorem map_of_mapM_check (h : list.mapM (fun k => check k.1 k.2) = .ok checked) :
    checked.map (fun k => (k.name, k.settings)) = list := by
  have hmap := map_of_mapM_eq_ok (u := id) (fun _ _ hcheck => (check_eq_ok_iff.1 hcheck).1) h
  rwa [List.map_id] at hmap

theorem isChecked_of_mapM_check (h : list.mapM (fun k => check k.1 k.2) = .ok checked) :
    ∀ k ∈ checked, k.IsChecked := by
  intro k hk
  obtain ⟨_, -, hcheck⟩ := (mem_of_mapM_eq_ok h).1 hk
  exact (check_eq_ok_iff.1 hcheck).2

/-- If all settings describe a strategy, all keyspaces pass the check. -/
theorem mapM_check (h : ∀ k ∈ list, ∃ strategy, Strategy.ofSettings k.2 = .ok strategy) :
    ∃ checked, list.mapM (fun k => check k.1 k.2) = .ok checked ∧
      checked.map (fun k => (k.name, k.settings)) = list ∧ ∀ k ∈ checked, k.IsChecked := by
  have hcheck : ∀ k ∈ list, ∃ keyspace, check k.1 k.2 = .ok keyspace := by
    intro k hk
    obtain ⟨strategy, hstrategy⟩ := h k hk
    exact ⟨_, check_of_ok hstrategy⟩
  obtain ⟨checked, hmapM⟩ := exists_mapM_eq_ok hcheck
  exact ⟨checked, hmapM, map_of_mapM_check hmapM, isChecked_of_mapM_check hmapM⟩

/-- Nothing is checked behind the first keyspace that is refused. -/
theorem mapM_check_of_error {k : String × Settings} {cause : SettingsError}
    (h : ∀ k ∈ before, ∃ strategy, Strategy.ofSettings k.2 = .ok strategy)
    (hk : Strategy.ofSettings k.2 = .error cause) :
    (before ++ k :: after).mapM (fun k => check k.1 k.2) = .error ⟨k.1, cause⟩ := by
  refine mapM_eq_error_iff.2 ⟨before, k, after, rfl, ?_, check_of_error hk⟩
  intro k hk
  obtain ⟨strategy, hstrategy⟩ := h k hk
  exact ⟨_, check_of_ok hstrategy⟩

end Keyspace

variable {τ : Type} [Token τ] {ring : Ring τ}

/-! ### Computations -/

def Keyspace.placed (ring : Ring τ) (k : Keyspace) : String × ReplicaMap τ :=
  (k.name, (k.strategy.place ring).replicas)

namespace Keyspaces.Progress

/-- What is known after some keyspaces. The settings are looked up apart from any keyspace, so what
is kept for them has to be right for every keyspace with them. -/
structure Tracks (ring : Ring τ) (progress : Progress τ) (done : List Keyspace) : Prop where
  computed : ∀ c ∈ progress.computed, ∃ strategy,
    Strategy.ofSettings c.1 = .ok strategy ∧ c.2 = (strategy.place ring).replicas
  maps : progress.maps = .ofList (done.map (Keyspace.placed ring))

variable {progress : Progress τ} {done : List Keyspace} {k : Keyspace}

theorem Tracks.maps_insert (h : Tracks ring progress done) :
    progress.maps.insert k.name (k.strategy.place ring).replicas =
      .ofList ((done ++ [k]).map (Keyspace.placed ring)) := by
  rw [h.maps, List.map_append, List.map_singleton, SortedMap.ofList_concat]
  rfl

/-- One more keyspace gets the replicas of its own strategy, shared or new. -/
theorem Tracks.add (h : Tracks ring progress done) (hk : k.IsChecked) :
    Tracks ring (progress.add ring k) (done ++ [k]) := by
  unfold Progress.add
  split
  · next settings replicas hfound =>
    have hsettings : settings = k.settings := by simpa using List.find?_some hfound
    obtain ⟨strategy, hstrategy, hreplicas⟩ := h.computed _ (List.mem_of_find?_eq_some hfound)
    -- The settings describe one strategy only.
    have hsame : strategy = k.strategy := by
      rw [hsettings, hk] at hstrategy
      exact (Except.ok.inj hstrategy).symm
    subst hsame
    obtain rfl : replicas = _ := hreplicas
    exact ⟨h.computed, h.maps_insert⟩
  · refine ⟨?_, h.maps_insert⟩
    intro c hc
    rcases List.mem_append.1 hc with hold | hnew
    · exact h.computed c hold
    · obtain rfl := List.mem_singleton.1 hnew
      exact ⟨k.strategy, hk, rfl⟩

/-- All keyspaces get the replicas of their own strategies. -/
theorem tracks_foldl {checked : List Keyspace} (h : ∀ k ∈ checked, k.IsChecked) :
    Tracks ring (checked.foldl (Progress.add ring) {}) checked := by
  -- From the back, since each keyspace is added to what is known after those before it.
  induction checked using List.reverseRecOn with
  | nil => exact ⟨nofun, rfl⟩
  | append_singleton done k ih =>
    rw [List.foldl_append]
    apply Tracks.add
    · exact ih fun k hk => h k (List.mem_append_left _ hk)
    · exact h k (by simp)

end Keyspaces.Progress

/-! ### The keyspace that counts -/

namespace Keyspaces

def latest? (checked : List Keyspace) (name : String) : Option Keyspace :=
  checked.reverse.find? (·.name = name)

variable {checked : List Keyspace} {name : String}

/-- A search from the back finds the last keyspace of a name. -/
theorem lookup_reverse_map {α : Type} (checked : List Keyspace) (name : String)
    (value : Keyspace → α) :
    (checked.map fun k => (k.name, value k)).reverse.lookup name =
      (latest? checked name).map value := by
  rw [latest?, ← List.map_reverse]
  -- Once the list is reversed, both searches go from the front.
  induction checked.reverse with
  | nil => rfl
  | cons k rest ih =>
    rw [List.map_cons, List.lookup_cons, ih, List.find?_cons, beq_eq_decide]
    by_cases h : k.name = name
    · simp [h]
    · simp [h, Ne.symm h]

theorem exists_latest?_iff :
    (∃ k, latest? checked name = some k) ↔ name ∈ checked.map (·.name) := by
  rw [← Option.isSome_iff_exists, latest?, List.find?_isSome]
  simp

/-- The keyspaces with the replicas of each computed on its own. -/
def unshared (ring : Ring τ) (checked : List Keyspace) : Keyspaces τ :=
  ⟨ring, .ofList (checked.map (Keyspace.placed ring))⟩

/-- The last keyspace of a name determines its replicas. -/
theorem get?_unshared (ring : Ring τ) (checked : List Keyspace) (name : String) :
    (unshared ring checked).maps.get? name =
      (latest? checked name).map fun k => (k.strategy.place ring).replicas := by
  rw [unshared, SortedMap.get?_ofList]
  exact lookup_reverse_map checked name _

theorem mem_names_unshared (ring : Ring τ) :
    name ∈ (unshared ring checked).names ↔ name ∈ checked.map (·.name) := by
  rw [names, SortedMap.mem_keys_iff, ← exists_latest?_iff]
  simp [get?_unshared]

theorem replicas?_unshared (ring : Ring τ) (checked : List Keyspace) (name : String) (t : τ) :
    (unshared ring checked).replicas? name t =
      (latest? checked name).bind fun k => (k.strategy.place ring).replicas.replicasFor? t := by
  rw [replicas?, get?_unshared, Option.bind_map]
  rfl

/-- A lookup finds nothing only for a name that was not given, or on an empty ring. -/
theorem replicas?_unshared_eq_none_iff (t : τ) :
    (unshared ring checked).replicas? name t = none ↔
      name ∉ checked.map (·.name) ∨ ring.isEmpty = true := by
  rw [replicas?_unshared, ← exists_latest?_iff]
  cases latest? checked name with
  | none => simp
  | some k => simp [Strategy.replicasFor?_place, Ring.ownerIndex?_eq_none_iff]

/-- Sharing replicas between keyspaces with the same settings changes no result. -/
theorem build_eq_unshared (ring : Ring τ) {list : List (String × Settings)}
    (hmapM : list.mapM (fun k => Keyspace.check k.1 k.2) = .ok checked)
    (hchecked : ∀ k ∈ checked, k.IsChecked) :
    ∃ events, build ring list = .ok (unshared ring checked, events) := by
  rw [build, hmapM, unshared, ← (Progress.tracks_foldl hchecked).maps]
  exact ⟨_, rfl⟩

end Keyspaces

/-! ### Main result -/

/-- If the settings of all keyspaces in a list describe a strategy, the keyspaces can be built. Their
names are those of the list, ascending. For any token the replicas of a keyspace are those of the
strategy that the last settings under its name describe, and there are none only if the list does not
have the name or the ring is empty. If some settings describe no strategy, the first of them are the
reason why nothing is built, even where there are later ones under the same name. -/
theorem replicas_build (ring : Ring τ) (list : List (String × Settings)) :
    ((∀ k ∈ list, ∃ strategy, Strategy.ofSettings k.2 = .ok strategy) →
      ∃ keyspaces events, Keyspaces.build ring list = .ok (keyspaces, events) ∧
        keyspaces.names.Pairwise (· < ·) ∧
        (∀ name, name ∈ keyspaces.names ↔ name ∈ list.map (·.1)) ∧
        (∀ name settings, list.reverse.lookup name = some settings →
          ∃ strategy, Strategy.ofSettings settings = .ok strategy ∧
            ∀ t, keyspaces.replicas? name t = (strategy.place ring).replicas.replicasFor? t) ∧
        ∀ name t, keyspaces.replicas? name t = none ↔
          name ∉ list.map (·.1) ∨ ring.isEmpty = true) ∧
    ∀ before k after cause, list = before ++ k :: after →
      (∀ k ∈ before, ∃ strategy, Strategy.ofSettings k.2 = .ok strategy) →
      Strategy.ofSettings k.2 = .error cause →
      Keyspaces.build ring list = .error ⟨k.1, cause⟩ := by
  constructor
  · intro hvalid
    obtain ⟨checked, hmapM, hlist, hchecked⟩ := Keyspace.mapM_check hvalid
    obtain ⟨events, hbuild⟩ := Keyspaces.build_eq_unshared ring hmapM hchecked
    have hnames : list.map (·.1) = checked.map (·.name) := by
      rw [← hlist, List.map_map]
      rfl
    rw [hnames]
    refine ⟨_, events, hbuild, ?_, ?_, ?_, ?_⟩
    · exact List.pairwise_map.2 (SortedMap.ascending _)
    · intro name
      exact Keyspaces.mem_names_unshared ring
    · intro name settings hsettings
      rw [← hlist, Keyspaces.lookup_reverse_map, Option.map_eq_some_iff] at hsettings
      obtain ⟨k, hlatest, rfl⟩ := hsettings
      refine ⟨k.strategy, ?_, ?_⟩
      · exact hchecked k (List.mem_reverse.1 (List.mem_of_find?_eq_some hlatest))
      · intro t
        rw [Keyspaces.replicas?_unshared, hlatest, Option.bind_some]
    · intro name t
      exact Keyspaces.replicas?_unshared_eq_none_iff t
  · rintro before k after cause rfl hbefore hk
    rw [Keyspaces.build, Keyspace.mapM_check_of_error hbefore hk]
    rfl

def simpleSettings : Settings :=
  .ofList [("class", "SimpleStrategy"), ("replication_factor", "2")]

def everywhereSettings : Settings :=
  .ofList [("class", "EverywhereStrategy")]

theorem exists_ofSettings_simpleSettings :
    ∃ full_pos, Strategy.ofSettings simpleSettings = .ok (.simple (.ofNat 2) full_pos) :=
  ⟨by decide, rfl⟩

/-- One of two keyspaces with equal settings gets others later on, and settings that are refused
stay refused. -/
theorem replicas_build_sampleRing :
    (∃ keyspaces events,
      Keyspaces.build sampleRing
        [("a", simpleSettings), ("b", simpleSettings), ("a", everywhereSettings)] =
          .ok (keyspaces, events) ∧
      (∀ t, keyspaces.replicas? "a" t =
        (Strategy.everywhere.place sampleRing).replicas.replicasFor? t) ∧
      ∃ full_pos, ∀ t, keyspaces.replicas? "b" t =
        ((Strategy.simple (.ofNat 2) full_pos).place sampleRing).replicas.replicasFor? t) ∧
    Keyspaces.build sampleRing
      [("a", simpleSettings), ("b", .ofList [("class", "foo")]), ("b", simpleSettings)] =
        .error ⟨"b", .unsupportedClass "foo"⟩ := by
  obtain ⟨hpos, hsimple⟩ := exists_ofSettings_simpleSettings
  have heverywhere : Strategy.ofSettings everywhereSettings = .ok .everywhere := rfl
  constructor
  · have hvalid : ∀ k ∈ [("a", simpleSettings), ("b", simpleSettings), ("a", everywhereSettings)],
        ∃ strategy, Strategy.ofSettings k.2 = .ok strategy := by
      simp [hsimple, heverywhere]
    obtain ⟨keyspaces, events, hbuild, -, -, hlast, -⟩ := (replicas_build sampleRing _).1 hvalid
    obtain ⟨strategy, hstrategy, ha⟩ := hlast "a" everywhereSettings rfl
    obtain rfl := Except.ok.inj (heverywhere.symm.trans hstrategy)
    obtain ⟨strategy, hstrategy, hb⟩ := hlast "b" simpleSettings rfl
    obtain rfl := Except.ok.inj (hsimple.symm.trans hstrategy)
    exact ⟨keyspaces, events, hbuild, ha, hpos, hb⟩
  · apply (replicas_build sampleRing _).2 [("a", simpleSettings)] ("b", .ofList [("class", "foo")])
      [("b", simpleSettings)] _ rfl
    · simp [hsimple]
    · rfl

end TokenRing
