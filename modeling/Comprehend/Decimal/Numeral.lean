import Comprehend.Refusal
import Comprehend.Decimal.Shortest
import Comprehend.Text.Digit

/-! Numerals: the texts of integers and of binary floating-point numbers, read and written. A low
line may separate two digits, decimal digits of every script count, and a decimal integer text of
more than `digitLimit` digits is refused both ways. -/

namespace Comprehend.Decimal

open Comprehend.Text

def digitLimit : Nat := 4300

/-- The values of a run of digits to the end of the text, single low lines between them;
`after` says that a digit stands right before. -/
def digitRun (value? : Char → Option Nat) : (after : Bool) → List Char → Option (List Nat)
  | after, [] => if after then some [] else none
  | after, c :: cs =>
    if c = '_' then (if after then digitRun value? false cs else none)
    else
      match value? c with
      | some d => (digitRun value? true cs).map (d :: ·)
      | none => none

def ofDigits (base : Nat) (ds : List Nat) : Nat := ds.foldl (fun n d => base * n + d) 0

def hexValue? (c : Char) : Option Nat :=
  let n := c.toNat
  if 97 ≤ n && n ≤ 102 then some (n - 87)
  else if 65 ≤ n && n ≤ 70 then some (n - 55)
  else decimalValue? c

def splitSign : List Char → Bool × List Char
  | '-' :: cs => (true, cs)
  | '+' :: cs => (false, cs)
  | cs => (false, cs)

def signed (negative : Bool) (n : Nat) : Int := if negative then -n else n

def readDecimal (cs : List Char) : Except Refusal Int :=
  let (negative, ds) := splitSign cs
  match digitRun decimalValue? false ds with
  | some vs => if vs.length ≤ digitLimit then .ok (signed negative (ofDigits 10 vs))
      else .error .outOfDomain
  | none => .error .outOfDomain

def hasHexMark : List Char → Bool
  | '0' :: x :: _ => x == 'x' || x == 'X'
  | _ => false

/-- Reads a hexadecimal numeral with its mark, after which one low line may stand. -/
def readHexadecimal (cs : List Char) : Except Refusal Int :=
  let body :=
    match cs.drop 2 with
    | '_' :: ds => ds
    | ds => ds
  match hasHexMark cs, digitRun hexValue? false body with
  | true, some vs => .ok (ofDigits 16 vs)
  | _, _ => .error .outOfDomain

/-- Decimal digits of any script as the ten of ASCII. -/
def plainDigit (c : Char) : Char :=
  match decimalValue? c with
  | some d => Char.ofNat (48 + d)
  | none => c

/-- Drops low lines; each has to stand between two digits. -/
def dropSeparators : (after : Bool) → List Char → Option (List Char)
  | _, [] => some []
  | after, '_' :: c :: cs =>
    if after && c.isDigit then (dropSeparators true cs).map (c :: ·) else none
  | _, ['_'] => none
  | _, c :: cs => (dropSeparators c.isDigit cs).map (c :: ·)

/-- An exponent part to the end of the text; none at all is zero. -/
def readExponent : List Char → Option Int
  | [] => some 0
  | e :: cs =>
    let (negative, ds) := splitSign cs
    if (e == 'e' || e == 'E') && !ds.isEmpty && ds.all Char.isDigit then
      some (signed negative (ofDigits 10 (ds.map fun d => d.toNat - 48)))
    else none

/-- The number nearest to `n` times ten to the power `e`, far exponents decided by size alone. -/
def ofScientific (negative : Bool) (n : Nat) (e : Int) : Float :=
  let size := (Nat.log2 n : Int) * 30103 / 100000 + e
  if n = 0 then ofRatio negative 0 1
  else if 400 < size then infinity negative
  else if size < -800 then ofRatio negative 0 1
  else ofRatio negative (n * 10 ^ e.toNat) (10 ^ (-e).toNat)

def readMagnitude (negative : Bool) (cs : List Char) : Option Float :=
  let whole := cs.takeWhile Char.isDigit
  let rest := cs.drop whole.length
  let (fraction, rest) :=
    match rest with
    | '.' :: ds => (ds.takeWhile Char.isDigit, ds.dropWhile Char.isDigit)
    | ds => ([], ds)
  let digits := (whole ++ fraction).map fun d => d.toNat - 48
  if digits.isEmpty then none
  else (readExponent rest).map fun e =>
    ofScientific negative (ofDigits 10 digits) (e - fraction.length)

/-- Reads a floating-point numeral, or one of the names of the values that have none. -/
def readFloat (cs : List Char) : Option Float := do
  let plain ← dropSeparators false (cs.map plainDigit)
  let (negative, body) := splitSign plain
  let name := String.ofList (body.map Char.toLower)
  if name == "inf" || name == "infinity" then return infinity negative
  else if name == "nan" then return notANumber
  else readMagnitude negative body

def integerText (n : Int) : Except Refusal String :=
  if n.natAbs < 10 ^ digitLimit then .ok (toString n) else .error .outOfDomain

/-- How floating-point numbers are spelled: positional notation for decimal points from
`pointFrom` to `pointTo` digits into the number, and whether a whole number keeps a zero after its
point. An exponent has a sign and at least two digits. -/
structure Spelling where
  pointFrom : Int
  pointTo : Int
  keepsPoint : Bool

def Spelling.standalone : Spelling := ⟨-3, 16, true⟩

def Spelling.component : Spelling := ⟨-3, 16, false⟩

def exponentText (e : Int) : String :=
  let ds := toString e.natAbs
  "e" ++ (if e < 0 then "-" else "+") ++ (if ds.length < 2 then "0" ++ ds else ds)

def zeros (n : Nat) : List Char := List.replicate n '0'

/-- A positive decimal in a spelling. -/
def Scientific.render (f : Spelling) (d : Scientific) : String :=
  let ds := Nat.toDigits 10 d.digits
  let point : Int := ds.length + d.exponent
  if f.pointFrom ≤ point ∧ point ≤ f.pointTo then
    if point ≤ 0 then String.ofList ('0' :: '.' :: zeros (-point).toNat ++ ds)
    else if (ds.length : Int) ≤ point then
      String.ofList (ds ++ zeros (point - ds.length).toNat) ++ (if f.keepsPoint then ".0" else "")
    else String.ofList (ds.take point.toNat ++ '.' :: ds.drop point.toNat)
  else
    String.ofList (ds.take 1 ++ (if ds.length = 1 then [] else '.' :: ds.drop 1)) ++
      exponentText (point - 1)

def floatText (f : Spelling) (x : Float) : String :=
  match parts x with
  | .nan => "nan"
  | .infinite negative => if negative then "-inf" else "inf"
  | .finite negative m e =>
    (if negative then "-" else "") ++
      if m = 0 then (if f.keepsPoint then "0.0" else "0")
      else (shortest m e).render f

end Comprehend.Decimal
