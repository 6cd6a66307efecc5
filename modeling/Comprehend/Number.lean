import Comprehend.Decimal.Numeral
import Comprehend.Text.Blank
import Comprehend.Word

/-! Numbers of the script language. Integers are exact and unbounded, everything else is binary
floating point; an operation on two integers stays exact where the operator allows it, and a mixed
one first rounds the integer, which has to be in range. Comparison never rounds. The bit operators
work on 32-bit words. -/

namespace Comprehend

open Decimal

inductive Number
  | int (n : Int)
  | float (x : Float)

namespace Number

def nan : Number := .float notANumber

def parts : Number → Parts
  | .int n => .finite (n < 0) n.natAbs 0
  | .float x => Decimal.parts x

def isNaN (a : Number) : Bool := a.parts == .nan

def isZero (a : Number) : Bool :=
  match a.parts with
  | .finite _ 0 _ => true
  | _ => false

def isInfinite (a : Number) : Bool :=
  match a.parts with
  | .infinite _ => true
  | _ => false

@[simp] theorem isNaN_int (n : Int) : (int n).isNaN = false := rfl

@[simp] theorem isInfinite_int (n : Int) : (int n).isInfinite = false := rfl

theorem isZero_int (n : Int) : (int n).isZero = (n == 0) := by
  rcases n with (_ | n) | n <;> rfl

def signedScale (negative : Bool) (m : Nat) (up : Int) : Int :=
  signed negative (m * 2 ^ up.toNat)

/-- The exact order of two values, none for one that is not a number. -/
def order : Parts → Parts → Option Ordering
  | .nan, _ => none
  | _, .nan => none
  | .infinite s, .infinite t => some (compare (signed s 1) (signed t 1))
  | .infinite s, .finite .. => some (if s then .lt else .gt)
  | .finite .., .infinite t => some (if t then .gt else .lt)
  | .finite s m e, .finite t n f =>
    let g := min e f
    some (compare (signedScale s m (e - g)) (signedScale t n (f - g)))

def compare? (a b : Number) : Option Ordering := order a.parts b.parts

def equals (a b : Number) : Bool := a.compare? b == some .eq

theorem compare?_int (m n : Int) : (int m).compare? (int n) = some (compare m n) := by
  have h (k : Int) : signedScale (decide (k < 0)) k.natAbs 0 = k := by
    simp only [signedScale, signed, Int.toNat_zero, Nat.pow_zero, Nat.mul_one, decide_eq_true_eq]
    split <;> omega
  simp [compare?, parts, order, h]

def toFloat : Number → Except Refusal Float
  | .int n =>
    let x := ofRatio (n < 0) n.natAbs 1
    match Decimal.parts x with
    | .infinite _ => .error .tooLarge
    | _ => .ok x
  | .float x => .ok x

/-- The integer on the side of zero. -/
def toInteger : Number → Except Refusal Int
  | .int n => .ok n
  | .float x =>
    match Decimal.parts x with
    | .nan => .error .outOfDomain
    | .infinite _ => .error .tooLarge
    | .finite s m e => .ok (truncate s m e)

def exactly (whole : Int → Int → Int) (rounded : Float → Float → Float) :
    Number → Number → Except Refusal Number
  | .int m, .int n => .ok (.int (whole m n))
  | a, b => do return .float (rounded (← a.toFloat) (← b.toFloat))

def add : Number → Number → Except Refusal Number := exactly (· + ·) (· + ·)

def sub : Number → Number → Except Refusal Number := exactly (· - ·) (· - ·)

def mul : Number → Number → Except Refusal Number := exactly (· * ·) (· * ·)

@[simp] theorem add_int (m n : Int) : add (int m) (int n) = .ok (int (m + n)) := rfl

@[simp] theorem sub_int (m n : Int) : sub (int m) (int n) = .ok (int (m - n)) := rfl

@[simp] theorem mul_int (m n : Int) : mul (int m) (int n) = .ok (int (m * n)) := rfl

def neg : Number → Number
  | .int n => .int (-n)
  | .float x => .float (-x)

def signBit : Number → Bool
  | .int n => n < 0
  | .float x => isNegative x

/-- The quotient is never exact: that of two integers is rounded once, and by zero it is infinite. -/
def div (a b : Number) : Except Refusal Number :=
  if b.isZero then
    if a.isZero || a.isNaN then .ok nan
    else do
      let x ← a.toFloat
      return .float (infinity (isNegative x != b.signBit))
  else
    match a, b with
    | .int m, .int n =>
      let x := ofRatio ((m < 0) != (n < 0)) m.natAbs n.natAbs
      match Decimal.parts x with
      | .infinite _ => .error .tooLarge
      | _ => .ok (.float x)
    | a, b => do return .float ((← a.toFloat) / (← b.toFloat))

/-- The remainder is taken between floating-point numbers even for two integers, and then cut back
to an integer. -/
def rem (a b : Number) : Except Refusal Number :=
  if b.isZero then .ok nan
  else do
    let x ← a.toFloat
    if a.isInfinite || a.isNaN || b.isNaN then return nan
    let r := remainder x (← b.toFloat)
    match a, b with
    | .int _, .int _ => return .int (← (Number.float r).toInteger)
    | _, _ => return .float r

/-- The outcome of a power: a negative number to a broken exponent leaves the real line. -/
inductive Power
  | real (n : Number)
  | complex (re im : Float)

def isWholeFloat (x : Float) : Bool :=
  match Decimal.parts x with
  | .finite _ m e => isWhole m e
  | _ => false

def isOddFloat (x : Float) : Bool :=
  match Decimal.parts x with
  | .finite s m e => isWhole m e && (truncate s m e) % 2 != 0
  | _ => false

def isInfiniteFloat (x : Float) : Bool :=
  match Decimal.parts x with
  | .infinite _ => true
  | _ => false

def complexPower (x y : Float) : Except Refusal Power :=
  let length := Float.pow (-x) y
  let phase := Float.atan2 0.0 x * y
  let re := length * Float.cos phase
  let im := length * Float.sin phase
  if isInfiniteFloat re || isInfiniteFloat im then .error .tooLarge else .ok (.complex re im)

/-- A power of floating-point numbers; zero to a negative exponent is infinite. -/
def floatPower (x y : Float) : Except Refusal Power :=
  let odd := isOddFloat y
  let real (z : Float) : Except Refusal Power := .ok (.real (.float z))
  if y == 0.0 then real 1.0
  else if x.isNaN then real x
  else if y.isNaN then real (if x == 1.0 then 1.0 else y)
  else if isInfiniteFloat y then
    if x.abs == 1.0 then real 1.0
    else if (0.0 < y) == (1.0 < x.abs) then real positiveInfinity
    else real 0.0
  else if isInfiniteFloat x then
    if 0.0 < y then real (if odd then x else positiveInfinity)
    else real (if odd && isNegative x then -0.0 else 0.0)
  else if x == 0.0 then
    if y < 0.0 then real positiveInfinity else real (if odd then x else 0.0)
  else if x < 0.0 && !isWholeFloat y then complexPower x y
  else
    let negated := x < 0.0 && odd
    let z := if x.abs == 1.0 then 1.0 else Float.pow x.abs y
    if isInfiniteFloat z then .error .tooLarge else real (if negated then -z else z)

/-- An integer power, its three trivial bases apart. -/
def integerPower (m : Int) (n : Nat) : Int :=
  if m = 1 then 1
  else if m = -1 then (if n % 2 = 0 then 1 else -1)
  else if m = 0 then (if n = 0 then 1 else 0)
  else signed (m < 0 && n % 2 == 1) (m.natAbs ^ n)

def pow (a b : Number) : Except Refusal Power :=
  match a, b with
  | .int m, .int (.ofNat n) => .ok (.real (.int (integerPower m n)))
  | a, b => do floatPower (← a.toFloat) (← b.toFloat)

/-- The signed word of a number's integer part, and zero where it has none. -/
def toWord (a : Number) : Except Refusal Int :=
  if a.isNaN || a.isInfinite then .ok 0
  else do
    let _ ← a.toFloat
    return Word.signed (← a.toInteger)

/-- A condition takes every number for true but zero and the one that is not a number. -/
def isTruthy (a : Number) : Bool := !a.isZero && !a.isNaN

/-- Whole numbers of so many digits are written without a point. -/
def positionalDigits : Nat := 21

def text : Number → Except Refusal String
  | .int n => integerText n
  | .float x =>
    match Decimal.parts x with
    | .nan => .ok "NaN"
    | .infinite s => .ok (if s then "-Infinity" else "Infinity")
    | .finite s m e =>
      let n := truncate s m e
      if isWhole m e && n.natAbs < 10 ^ positionalDigits then integerText n
      else .ok (floatText .standalone x)

/-- The number that a text denotes; one of white space alone denotes zero. -/
def ofText (s : String) : Number :=
  let cs := Text.trim s.toList
  if cs.isEmpty then .int 0
  else
    match if hasHexMark cs then readHexadecimal cs else readDecimal cs with
    | .ok n => .int n
    | .error _ => .float ((readFloat cs).getD notANumber)

/-- The value of a numeral in a program: an integer unless it has a point or an exponent. -/
def ofLiteral (s : String) : Except Refusal Number :=
  let cs := s.toList
  if hasHexMark cs then (readHexadecimal (Text.trim cs)).map .int
  else if cs.any fun c => c == '.' || c == 'e' || c == 'E' then
    match readFloat (Text.trim cs) with
    | some x => .ok (.float x)
    | none => .error .outOfDomain
  else (readDecimal (Text.trim cs)).map .int

end Number

end Comprehend
