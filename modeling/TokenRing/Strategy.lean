import TokenRing.Settings

/-!
# Replication strategies

A strategy says which nodes hold a copy of a token's data. It is made from settings, which are
checked completely before anything is placed.
-/

namespace TokenRing

inductive Strategy where
  /-- The owner of the token alone. -/
  | localOnly
  /-- The next nodes around the ring. -/
  | simple (factor : Factor) (full_pos : 0 < factor.full)
  /-- In each datacenter as many nodes as its factor asks for, on as many racks as possible. -/
  | networkTopology (factors : SortedMap String Factor)
  /-- All nodes of the ring. -/
  | everywhere
  deriving DecidableEq

namespace Strategy

def strategyClass : Strategy → StrategyClass
  | localOnly => .localOnly
  | simple _ _ => .simple
  | networkTopology _ => .networkTopology
  | everywhere => .everywhere

/-- The simple strategy with a factor, which needs a full replica. -/
def ofFactor (factor : Factor) : Except SettingsError Strategy :=
  if h : 0 < factor.full then .ok (simple factor h)
  else .error (.invalidFactor Settings.factorKey factor.text .noFullReplica)

/-- The network topology strategy with factors for datacenters. The last factor of a datacenter
counts. -/
def ofDatacenters (factors : List (String × Factor)) : Strategy :=
  networkTopology (.ofList factors)

def fullReplicasIn (factors : SortedMap String Factor) (datacenter : String) : Nat :=
  ((factors.get? datacenter).map Factor.full).getD 0

/-- Checks the factor of settings that need none. -/
def checkFactor (settings : Settings) : Except SettingsError Unit :=
  match settings.get? Settings.factorKey with
  | none => .ok ()
  | some value => (Factor.ofSetting Settings.factorKey value).map fun _ => ()

def requiredFactor (strategy : StrategyClass) (settings : Settings) :
    Except SettingsError Factor :=
  match settings.get? Settings.factorKey with
  | none => .error (.missingFactor strategy settings)
  | some value => Factor.ofSetting Settings.factorKey value

def isDatacenterKey (key : String) : Bool :=
  key ≠ Settings.classKey && key ≠ Settings.factorKey

def datacenterFactors (settings : Settings) : Except SettingsError (SortedMap String Factor) := do
  let entries := (settings.filterKeys isDatacenterKey).entries
  return .ofList (← entries.mapM fun e => return (e.1, ← Factor.ofSetting e.1 e.2))

def ofSettings (settings : Settings) : Except SettingsError Strategy := do
  match ← settings.strategyClass with
  | .localOnly =>
    checkFactor settings
    return localOnly
  | .simple => ofFactor (← requiredFactor .simple settings)
  | .networkTopology => return networkTopology (← datacenterFactors settings)
  | .everywhere =>
    checkFactor settings
    return everywhere

end Strategy

end TokenRing
