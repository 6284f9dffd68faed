import TokenRing.Text.Blank
import TokenRing.Text.Decimal

/-!
# Replication factors

How many replicas there shall be, and how many of them are transient. Only the others, the full
ones, are placed.
-/

namespace TokenRing

/-- A count of replicas, some of them transient. -/
structure Factor where
  all : Nat
  transient : Nat
  transient_le_all : transient ≤ all
  deriving DecidableEq, Repr

inductive FactorFault where
  | notANumber (fault : Text.IntegerFault)
  | negative
  | tooManyTransient (transient all : Nat)
  /-- The strategy cannot work without a full replica. -/
  | noFullReplica
  deriving DecidableEq, Repr

def FactorFault.message : FactorFault → String
  | .notANumber fault => s!"not a number ({fault.message})"
  | .negative => "must not be negative"
  | .tooManyTransient transient all =>
    s!"{transient} transient replicas exceed {all} total replicas"
  | .noFullReplica => "needs at least one full replica"

namespace Factor

def ofNat (n : Nat) : Factor :=
  ⟨n, 0, Nat.zero_le n⟩

def full (f : Factor) : Nat :=
  f.all - f.transient

def hasTransient (f : Factor) : Bool :=
  0 < f.transient

/-- The written form: the count, and the transient part behind a slash where there is one. -/
def text (f : Factor) : String :=
  String.ofList <|
    if f.hasTransient then Text.decimal f.all ++ '/' :: Text.decimal f.transient
    else Text.decimal f.all

/-- Reads a count: a decimal integer of 64 bits that is not negative. -/
def parseCount (text : List Char) : Except FactorFault Nat :=
  match Text.parseInt 0x8000000000000000 0x7fffffffffffffff (Text.trim text) with
  | .ok n => if n < 0 then .error .negative else .ok n.toNat
  | .error fault => .error (.notANumber fault)

def ofCounts (all transient : Nat) : Except FactorFault Factor :=
  if h : transient ≤ all then .ok ⟨all, transient, h⟩
  else .error (.tooManyTransient transient all)

def parse (text : String) : Except FactorFault Factor :=
  let text := Text.trim text.toList
  match text.dropWhile (· ≠ '/') with
  | [] => do return ofNat (← parseCount text)
  | _ :: transient => do
    let all ← parseCount (text.takeWhile (· ≠ '/'))
    ofCounts all (← parseCount transient)

end Factor

end TokenRing
