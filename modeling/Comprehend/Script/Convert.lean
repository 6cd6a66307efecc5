import Comprehend.Script.Value
import Comprehend.Text.Digit

/-! Conversions between values: text, number, index. An array's text is that of its items with
commas between, where nothing stands for the two empty values. A conversion can be refused only for
the size of a number. -/

namespace Comprehend.Script

open Decimal

/-- The text of every function. -/
def functionText : String := "function () \x7b [native code] \x7d"

/-- A complex number in the notation with a unit `j`. -/
def complexText (re im : Float) : String :=
  let part (x : Float) : String := floatText .component x
  let imaginary := part im ++ "j"
  if re == 0.0 && !isNegative re then imaginary
  else "(" ++ part re ++ (if isNegative im then "" else "+") ++ imaginary ++ ")"

namespace Value

mutual

def text : Value → Except Refusal String
  | .undefined => .ok "undefined"
  | .null => .ok "null"
  | .bool b => .ok (if b then "true" else "false")
  | .number n => n.text
  | .string s => .ok s
  | .array _ items => do return ",".intercalate (← itemTexts items)
  | .object .. => .ok "[object Object]"
  | .closure .. => .ok functionText
  | .method .. => .ok functionText
  | .host _ => .ok functionText
  | .regexp _ r => .ok ("/" ++ r.source ++ "/" ++ r.flags)
  | .box .. => .ok "<Box>"
  | .complex _ re im => .ok (complexText re im)

/-- The texts of the items of an array. -/
def itemTexts : List Value → Except Refusal (List String)
  | [] => .ok []
  | v :: vs => do
    let head ← match v with
      | .undefined => .ok ""
      | .null => .ok ""
      | v => text v
    return head :: (← itemTexts vs)

end

@[simp] theorem text_string (s : String) : (Value.string s).text = .ok s := by simp [text]

def toNumber : Value → Except Refusal Number
  | .bool b => .ok (.int (if b then 1 else 0))
  | .number n => .ok n
  | .null => .ok (.int 0)
  | .string s => .ok (.ofText s)
  | .array tag items => do return .ofText (← text (.array tag items))
  | _ => .ok .nan

/-- The index that a key stands for: a whole number that is not negative, or a text of digits. -/
def index? : Value → Except Refusal (Option Nat)
  | .number n => do
    let i ← n.toInteger
    return if n.equals (.int i) && 0 ≤ i then some i.toNat else none
  | .string s =>
    if Text.allDigits s then (readDecimal s.toList).map fun i => some i.toNat else .ok none
  | _ => .ok none

def strictEquals (a b : Value) : Bool :=
  match a, b with
  | .undefined, .undefined => true
  | .null, .null => true
  | .bool x, .bool y => x == y
  | .number x, .number y => x.equals y
  | .string s, .string t => s == t
  | a, b => a.isSame b

/-- How far a value is from what loose comparison compares in the end. -/
def looseWeight (v : Value) : Nat :=
  match v.category with
  | .boolean | .object | .function => 1
  | _ => 0

def isObjectLike (v : Value) : Bool := v.category == .object || v.category == .function

theorem looseWeight_of_isObjectLike {v : Value} (h : v.isObjectLike = true) :
    v.looseWeight = 1 := by
  cases v <;> simp_all [isObjectLike, looseWeight, category]

/-- Equality across kinds: truth values count as numbers, objects as their texts. -/
def looseEquals (a b : Value) : Except Refusal Bool :=
  if a.category = b.category then .ok (a.strictEquals b)
  else if a.isNullish || b.isNullish then .ok (a.isNullish && b.isNullish)
  else
    match a, b with
    | .bool x, b => looseEquals (.int (if x then 1 else 0)) b
    | a, .bool y => looseEquals a (.int (if y then 1 else 0))
    | a, b =>
      if a.isObjectLike then
        match a.text with
        | .ok s => looseEquals (.string s) b
        | .error e => .error e
      else if b.isObjectLike then
        match b.text with
        | .ok s => looseEquals a (.string s)
        | .error e => .error e
      else do return (← a.toNumber).equals (← b.toNumber)
termination_by a.looseWeight + b.looseWeight
decreasing_by
  · simp [looseWeight, category, int]
  · simp [looseWeight, category, int]
  · have := looseWeight_of_isObjectLike (by assumption)
    simp_all [looseWeight, category]
  · have := looseWeight_of_isObjectLike (by assumption)
    simp_all [looseWeight, category]

end Value

end Comprehend.Script
