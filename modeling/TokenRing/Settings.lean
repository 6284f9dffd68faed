import TokenRing.Factor
import TokenRing.SortedMap
import TokenRing.Text.Quoted

/-!
# Replication settings

A keyspace says how it is replicated by a map from texts to texts. One entry names the class of
the strategy; what the others mean depends on the class.
-/

namespace TokenRing

abbrev Settings := SortedMap String String

inductive StrategyClass where
  | localOnly
  | simple
  | networkTopology
  | everywhere
  deriving DecidableEq, Repr

namespace StrategyClass

def package : String :=
  "org.apache.cassandra.locator."

def name : StrategyClass → String
  | localOnly => "LocalStrategy"
  | simple => "SimpleStrategy"
  | networkTopology => "NetworkTopologyStrategy"
  | everywhere => "EverywhereStrategy"

def qualifiedName (c : StrategyClass) : String :=
  package ++ c.name

def ofName? (name : String) : Option StrategyClass :=
  [localOnly, simple, networkTopology, everywhere].find? (·.name = name)

def unqualified (text : String) : String :=
  String.ofList ((package.toList.isPrefixOf? text.toList).getD text.toList)

def parse? (text : String) : Option StrategyClass :=
  ofName? (unqualified text)

end StrategyClass

inductive SettingsError where
  | missingClass (settings : Settings)
  | unsupportedClass (text : String)
  | missingFactor (strategy : StrategyClass) (settings : Settings)
  | invalidFactor (key value : String) (fault : FactorFault)
  deriving DecidableEq

namespace Settings

def classKey : String :=
  "class"

def factorKey : String :=
  "replication_factor"

def text (settings : Settings) : String :=
  let entry (key value : String) : List Char :=
    Text.quoted key.toList ++ ':' :: ' ' :: Text.quoted value.toList
  let entries := settings.entries.map fun e => String.ofList (entry e.1 e.2)
  "\x7b" ++ String.intercalate ", " entries ++ "\x7d"

def strategyClass (settings : Settings) : Except SettingsError StrategyClass :=
  match settings.get? classKey with
  | none => .error (.missingClass settings)
  | some text =>
    match StrategyClass.parse? text with
    | none => .error (.unsupportedClass text)
    | some c => .ok c

end Settings

def SettingsError.message : SettingsError → String
  | .missingClass settings => s!"Missing replication strategy class in {settings.text}"
  | .unsupportedClass text => s!"Unsupported replication strategy: {text}"
  | .missingFactor strategy settings =>
    s!"Missing replication factor for {strategy.name} in {settings.text}"
  | .invalidFactor key value fault =>
    s!"Invalid replication factor '{value}' for '{key}': {fault.message}"

def Factor.ofSetting (key value : String) : Except SettingsError Factor :=
  (Factor.parse value).mapError (.invalidFactor key value ·)

end TokenRing
