import Comprehend.Decimal.Binary64

/-! The fewest digits that read back. A decimal reads back as a number exactly when it lies in the
interval of reals that round to it, ends included for an even mantissa. On the grid of a given
number of digits the value has two neighbours; the first grid with one of them in the interval
wins, the nearer neighbour if both are, and the even one in a tie. -/

namespace Comprehend.Decimal

/-- A decimal: `digits` times ten to the power `exponent`. -/
structure Scientific where
  digits : Nat
  exponent : Int
  deriving DecidableEq, Repr

/-- The interval around a positive value, all three points over one denominator. -/
structure Interval where
  low : Nat
  value : Nat
  high : Nat
  den : Nat
  closed : Bool

def Interval.of (m : Nat) (e : Int) : Interval :=
  let up := 2 ^ (e - 2).toNat
  let below := if m = 2 ^ fractionBits ∧ -1074 < e then 1 else 2
  { low := (4 * m - below) * up
    value := 4 * m * up
    high := (4 * m + 2) * up
    den := 2 ^ (2 - e).toNat
    closed := m % 2 == 0 }

def Interval.holds (i : Interval) (num den : Nat) : Bool :=
  if i.closed then i.low * den ≤ num * i.den && num * i.den ≤ i.high * den
  else i.low * den < num * i.den && num * i.den < i.high * den

def Scientific.fraction (d : Scientific) : Nat × Nat :=
  (d.digits * 10 ^ d.exponent.toNat, 10 ^ (-d.exponent).toNat)

def Interval.holdsDecimal (i : Interval) (d : Scientific) : Bool :=
  i.holds d.fraction.1 d.fraction.2

/-- The greater exponent of ten that does not exceed the quotient, searched near an estimate. -/
def tenExponent (num den : Nat) : Int :=
  let bits : Int := (Nat.log2 num : Int) - Nat.log2 den
  let guess : Int := Int.fdiv (bits * 30103) 100000
  let reached (k : Int) : Bool := den * 10 ^ k.toNat ≤ num * 10 ^ (-k).toNat
  if reached (guess + 1) then guess + 1
  else if reached guess then guess
  else if reached (guess - 1) then guess - 1
  else guess - 2

/-- The value's neighbour on the grid of ten to the power `exponent` that reads back, if any. -/
def Interval.onGrid (i : Interval) (exponent : Int) : Option Scientific :=
  let num := i.value * 10 ^ (-exponent).toNat
  let den := i.den * 10 ^ exponent.toNat
  let q := num / den
  let r := num % den
  let floor : Scientific := ⟨q, exponent⟩
  let ceiling : Scientific := ⟨q + 1, exponent⟩
  match i.holdsDecimal floor, i.holdsDecimal ceiling with
  | true, false => some floor
  | false, true => some ceiling
  | false, false => none
  | true, true =>
    if 2 * r < den || (2 * r == den && q % 2 == 0) then some floor else some ceiling

def Interval.search (i : Interval) (top : Int) : (more : Nat) → (exponent : Int) → Scientific
  | 0, exponent => ⟨i.value * 10 ^ (-exponent).toNat / (i.den * 10 ^ exponent.toNat), exponent⟩
  | more + 1, exponent =>
    match i.onGrid exponent with
    | some d => d
    | none => i.search top more (exponent - 1)

/-- Drops the trailing zeros of at most `fuel` places. -/
def stripZeros : (fuel : Nat) → Scientific → Scientific
  | 0, d => d
  | fuel + 1, d =>
    if d.digits ≠ 0 ∧ d.digits % 10 = 0 then stripZeros fuel ⟨d.digits / 10, d.exponent + 1⟩
    else d

/-- The shortest decimal that reads back as a positive value. Seventeen digits always do. -/
def shortest (m : Nat) (e : Int) : Scientific :=
  let i := Interval.of m e
  let top := tenExponent i.value i.den
  stripZeros 17 (i.search top 17 top)

end Comprehend.Decimal
