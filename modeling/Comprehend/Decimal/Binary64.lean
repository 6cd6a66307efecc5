/-! Binary floating-point numbers as the exact values they stand for. A finite number is a sign and
a natural number times a power of two, and the only rounding here takes a quotient of naturals to
the nearest number, a tie to the even one, and to infinity past the largest. -/

namespace Comprehend.Decimal

/-- A power here is that of the core library, whatever other instance is in scope. -/
scoped instance (priority := high) natPower : Pow Nat Nat := instPowNat

inductive Parts
  | nan
  | infinite (negative : Bool)
  | finite (negative : Bool) (mantissa : Nat) (exponent : Int)
  deriving DecidableEq, Repr

/-- Above the bits of the fraction stand those of the exponent, and above these the sign. -/
def fractionBits : Nat := 52

def exponentBits : Nat := 11

def signPlace : Nat := fractionBits + exponentBits

def partsOfBits (bits : Nat) : Parts :=
  let negative := 2 ^ signPlace ≤ bits
  let biased : Nat := bits / 2 ^ fractionBits % 2 ^ exponentBits
  let fraction : Nat := bits % 2 ^ fractionBits
  if biased = 2047 then (if fraction = 0 then .infinite negative else .nan)
  else if biased = 0 then .finite negative fraction (-1074)
  else .finite negative (fraction + 2 ^ fractionBits) ((biased : Int) - 1075)

def parts (x : Float) : Parts := partsOfBits x.toBits.toNat

def isNegative (x : Float) : Bool := 2 ^ signPlace ≤ x.toBits.toNat

def positiveInfinity : Float := Float.ofBits 0x7FF0000000000000

def notANumber : Float := Float.ofBits 0x7FF8000000000000

def infinity (negative : Bool) : Float :=
  if negative then Float.ofBits 0xFFF0000000000000 else positiveInfinity

/-- The quotient rounded to the nearest natural number, a tie to the even one. -/
def roundHalfEven (num den : Nat) : Nat :=
  let q := num / den
  let r := num % den
  if den < 2 * r || (2 * r == den && q % 2 == 1) then q + 1 else q

/-- The exponent at which a quotient has a full mantissa, or the least exponent there is. -/
def exponentOf (num den : Nat) : Int :=
  let e : Int := (Nat.log2 num : Int) - Nat.log2 den - fractionBits
  let short : Bool := num * 2 ^ (-e).toNat < 2 ^ fractionBits * den * 2 ^ e.toNat
  max (if short then e - 1 else e) (-1074)

def bitsOfRatio (negative : Bool) (num den : Nat) : Nat :=
  let sign := if negative then 2 ^ signPlace else 0
  if num = 0 then sign
  else
    let e := exponentOf num den
    let m := roundHalfEven (num * 2 ^ (-e).toNat) (den * 2 ^ e.toNat)
    let (m, e) := if m = 2 ^ (fractionBits + 1) then (2 ^ fractionBits, e + 1) else (m, e)
    if 971 < e then sign + 2047 * 2 ^ fractionBits
    else if m < 2 ^ fractionBits then sign + m
    else sign + (e + 1075).toNat * 2 ^ fractionBits + (m - 2 ^ fractionBits)

/-- The number nearest to a quotient of naturals, the second of them positive. -/
def ofRatio (negative : Bool) (num den : Nat) : Float :=
  Float.ofBits (UInt64.ofNat (bitsOfRatio negative num den))

/-- The number nearest to a natural one times a power of two. -/
def ofScaled (negative : Bool) (m : Nat) (e : Int) : Float :=
  ofRatio negative (m * 2 ^ e.toNat) (2 ^ (-e).toNat)

/-- The integer next to a finite value on the side of zero. -/
def truncate (negative : Bool) (m : Nat) (e : Int) : Int :=
  let n : Nat := m * 2 ^ e.toNat / 2 ^ (-e).toNat
  if negative then -n else n

def isWhole (m : Nat) (e : Int) : Bool := m % 2 ^ (-e).toNat == 0

/-- The remainder on dividing toward zero; it has the sign of the dividend and is exact. -/
def remainder (x y : Float) : Float :=
  match parts x, parts y with
  | .finite s m e, .infinite _ => ofScaled s m e
  | .finite s m e, .finite _ n f =>
    if n = 0 then notANumber
    else
      let g := min e f
      ofScaled s (m * 2 ^ (e - g).toNat % (n * 2 ^ (f - g).toNat)) g
  | _, _ => notANumber

example : bitsOfRatio false 1 3 = 0x3FD5555555555555 := by decide
example : bitsOfRatio true 1 (2 ^ 1075) = 2 ^ 63 := by decide +kernel
example : bitsOfRatio false (2 ^ 1024) 1 = 0x7FF0000000000000 := by decide +kernel

end Comprehend.Decimal
