import TokenRing.Proofs.SortedMap
import TokenRing.Proofs.Traversal
import TokenRing.Strategy

/-!
# Settings that describe a strategy

Settings describe a strategy if they name its class and have the factors that the class asks for.
Otherwise they are refused for the first of these reasons: there is no class, it is not known, the
factor is missing, or a factor is not valid.
-/

namespace TokenRing

variable {settings : Settings}

/-! ### The class -/

namespace StrategyClass

/-- A text names a class by its name alone or by the one with the package before it. -/
def IsNamed (c : StrategyClass) (text : String) : Prop :=
  text = c.name ∨ text = c.qualifiedName

variable {c : StrategyClass} {text : String}

theorem ofName?_eq_some_iff : ofName? text = some c ↔ text = c.name := by
  constructor
  · intro h
    exact (of_decide_eq_true (List.find?_some h :)).symm
  · rintro rfl
    cases c <;> rfl

theorem toList_qualifiedName (c : StrategyClass) :
    c.qualifiedName.toList = package.toList ++ c.name.toList :=
  String.toList_append

/-- No name has the package before it already. -/
theorem isPrefixOf?_name (c : StrategyClass) : package.toList.isPrefixOf? c.name.toList = none := by
  cases c <;> rfl

/-- The package is cut off once. -/
theorem unqualified_qualifiedName (c : StrategyClass) : unqualified c.qualifiedName = c.name := by
  rw [unqualified, toList_qualifiedName, List.isPrefixOf?_eq_some_iff_append_eq.2 rfl,
    Option.getD_some, String.ofList_toList]

theorem unqualified_name (c : StrategyClass) : unqualified c.name = c.name := by
  rw [unqualified, isPrefixOf?_name, Option.getD_none, String.ofList_toList]

/-- A text is read as the class that it names. -/
theorem parse?_eq_some_iff : parse? text = some c ↔ c.IsNamed text := by
  rw [parse?, ofName?_eq_some_iff]
  constructor
  · intro h
    unfold unqualified at h
    cases hpackage : package.toList.isPrefixOf? text.toList with
    | none =>
      rw [hpackage, Option.getD_none, String.ofList_toList] at h
      exact .inl h
    | some rest =>
      rw [hpackage, Option.getD_some] at h
      right
      rw [← String.toList_inj, toList_qualifiedName, ← h, String.toList_ofList]
      exact (List.isPrefixOf?_eq_some_iff_append_eq.1 hpackage).symm
  · rintro (rfl | rfl)
    · exact unqualified_name c
    · exact unqualified_qualifiedName c

def ReadsFactor : StrategyClass → String → Prop
  | networkTopology, key => key ≠ "class" ∧ key ≠ "replication_factor"
  | _, key => key = "replication_factor"

end StrategyClass

namespace Settings

def HasClass (settings : Settings) (c : StrategyClass) : Prop :=
  ∃ text, settings.get? "class" = some text ∧ c.IsNamed text

/-- The class is found exactly if there is one that the settings name. -/
theorem strategyClass_eq_ok_iff {c : StrategyClass} :
    settings.strategyClass = .ok c ↔ settings.HasClass c := by
  unfold strategyClass HasClass classKey
  cases settings.get? "class" with
  | none => simp
  | some text =>
    simp only [Option.some.injEq, exists_eq_left', ← StrategyClass.parse?_eq_some_iff]
    cases StrategyClass.parse? text <;> simp

theorem HasClass.eq {c c' : StrategyClass} (h : settings.HasClass c)
    (h' : settings.HasClass c') : c = c' :=
  Except.ok.inj ((strategyClass_eq_ok_iff.2 h).symm.trans (strategyClass_eq_ok_iff.2 h'))

/-! ### Factors -/

def HasFactor (settings : Settings) (key : String) (factor : Factor) : Prop :=
  ∃ value, settings.get? key = some value ∧ Factor.parse value = .ok factor

/-- Whether settings have nothing but a factor under a key. -/
def AllowsFactor (settings : Settings) (key : String) : Prop :=
  settings.get? key = none ∨ ∃ factor, settings.HasFactor key factor

variable {key : String}

theorem HasFactor.eq {factor factor' : Factor} (h : settings.HasFactor key factor)
    (h' : settings.HasFactor key factor') : factor = factor' := by
  obtain ⟨value, hvalue, hfactor⟩ := h
  obtain ⟨value', hvalue', hfactor'⟩ := h'
  obtain rfl := Option.some.inj (hvalue.symm.trans hvalue')
  exact Except.ok.inj (hfactor.symm.trans hfactor')

end Settings

namespace Strategy

open Settings

/-- Whether factors are those of all datacenters that settings name. -/
def AreFactors (settings : Settings) (factors : SortedMap String Factor) : Prop :=
  ∀ dc factor, factors.get? dc = some factor ↔
    StrategyClass.networkTopology.ReadsFactor dc ∧ settings.HasFactor dc factor

/-- Settings have one map of factors only. -/
theorem AreFactors.eq {factors factors' : SortedMap String Factor}
    (h : AreFactors settings factors) (h' : AreFactors settings factors') : factors = factors' := by
  apply SortedMap.ext_of_mem
  rintro ⟨dc, factor⟩
  rw [← SortedMap.get?_eq_some_iff, ← SortedMap.get?_eq_some_iff, h dc factor, h' dc factor]

end Strategy

/-! ### Descriptions -/

namespace Strategy

open Settings

inductive Describes (settings : Settings) : Strategy → Prop
  | localOnly : settings.HasClass .localOnly → settings.AllowsFactor "replication_factor" →
    Describes settings .localOnly
  | simple {factor : Factor} (full_pos : 0 < factor.full) : settings.HasClass .simple →
    settings.HasFactor "replication_factor" factor → Describes settings (.simple factor full_pos)
  | networkTopology {factors : SortedMap String Factor} : settings.HasClass .networkTopology →
    (∀ dc, StrategyClass.networkTopology.ReadsFactor dc → settings.AllowsFactor dc) →
    AreFactors settings factors → Describes settings (.networkTopology factors)
  | everywhere : settings.HasClass .everywhere → settings.AllowsFactor "replication_factor" →
    Describes settings .everywhere

inductive Refuses (settings : Settings) : SettingsError → Prop
  | missingClass : settings.get? "class" = none → Refuses settings (.missingClass settings)
  | unsupportedClass {text : String} : settings.get? "class" = some text →
    (∀ c : StrategyClass, ¬ c.IsNamed text) → Refuses settings (.unsupportedClass text)
  | missingFactor : settings.HasClass .simple → settings.get? "replication_factor" = none →
    Refuses settings (.missingFactor .simple settings)
  | invalidFactor {c : StrategyClass} {key value : String} {fault : FactorFault} :
    settings.HasClass c → c.ReadsFactor key → settings.get? key = some value →
    Factor.parse value = .error fault → Refuses settings (.invalidFactor key value fault)
  | noFullReplica {factor : Factor} : settings.HasClass .simple →
    settings.HasFactor "replication_factor" factor → factor.full = 0 →
    Refuses settings (.invalidFactor "replication_factor" factor.text .noFullReplica)

end Strategy

end TokenRing
