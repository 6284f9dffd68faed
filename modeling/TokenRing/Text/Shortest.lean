import TokenRing.Text.Decimal

/-!
# Shortest decimals

The decimal with the fewest digits among those that lie nearer to a floating-point number than to
any other. All arithmetic is on natural numbers.
-/

namespace TokenRing.Text

structure Scaled where
  digits : Nat
  exponent : Int
  deriving DecidableEq, Repr

/-- A positive floating-point number: `mantissa · 2 ^ exponent`. The gap below it is half the gap
above where the mantissa is the least of its exponent. -/
structure Binary where
  mantissa : Nat
  exponent : Int
  narrowBelow : Bool
  deriving DecidableEq, Repr

namespace Binary

def ofFloat (x : Float) : Binary :=
  let bits := x.toBits.toNat
  let fraction : Nat := bits % 0x10000000000000
  let biased : Nat := bits / 0x10000000000000 % 0x800
  if biased = 0 then ⟨fraction, -1074, false⟩
  else ⟨0x10000000000000 + fraction, (biased : Int) - 1075, fraction = 0 && 1 < biased⟩

/-- `n · 2 ^ two · 10 ^ -ten` as a fraction. -/
def fraction (n : Nat) (two ten : Int) : Nat × Nat :=
  (n * Nat.pow 2 two.toNat * Nat.pow 10 (-ten).toNat,
    Nat.pow 2 (-two).toNat * Nat.pow 10 ten.toNat)

/-- A multiple of `10 ^ ten` that rounds to the number: the nearer one of its two neighbours, the
even one of two that are equally near. -/
def onGrid? (x : Binary) (ten : Int) : Option Nat :=
  let (value, unit) := fraction (4 * x.mantissa) (x.exponent - 2) ten
  let quarter := (fraction 1 (x.exponent - 2) ten).1
  let low := value - (if x.narrowBelow then 1 else 2) * quarter
  let high := value + 2 * quarter
  let inside (d : Nat) : Bool :=
    if x.mantissa % 2 = 0 then low ≤ d * unit && d * unit ≤ high
    else low < d * unit && d * unit < high
  let down := value / unit
  let up := down + 1
  match inside down, inside up with
  | false, false => none
  | true, false => some down
  | false, true => some up
  | true, true =>
    let below := value - down * unit
    let above := up * unit - value
    some (if below < above ∨ below = above ∧ down % 2 = 0 then down else up)

def firstHit (x : Binary) (ten : Int) : (grids : Nat) → Scaled
  | 0 => ⟨0, 0⟩
  | grids + 1 =>
    match x.onGrid? ten with
    | some digits => ⟨digits, ten⟩
    | none => firstHit x (ten - 1) grids

/-- The shortest decimal of a number. Powers of ten from 10^309 down to 10^-324 suffice. -/
def shortest (x : Binary) : Scaled :=
  if x.mantissa = 0 then ⟨0, 0⟩ else firstHit x 309 634

end Binary

end TokenRing.Text
