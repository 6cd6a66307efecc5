import Comprehend.Fault
import Comprehend.Script.Convert

/-! Binary operators. Sums join texts when an array, an object or a text is among the operands, and
add numbers otherwise; order compares two texts by code points and anything else as numbers, none of
which is below or above one that is not a number. -/

namespace Comprehend.Script

/-- Why an evaluation stops without a value: a fault of the script, a number too large or outside a
conversion's domain, a call that a built-in or host function does not take, a tree that holds
something else than nodes, an operator that there is not, or a depth that was not allowed for. -/
inductive Stop
  | fault (fault : Fault)
  | refusal (refusal : Refusal)
  | misuse
  | noNode
  | noOperator
  | tooDeep
  deriving DecidableEq, Repr

instance : MonadLift (Except Refusal) (Except Stop) where
  monadLift a := a.mapError .refusal

def Stop.evaluation (cause : EvaluationFault) : Stop := .fault (.evaluation cause)

def Stop.unsupported (cause : UnsupportedFault) : Stop := .fault (.unsupported cause)

/-- An order between operands. -/
inductive Relation
  | less
  | lessEqual
  | greater
  | greaterEqual
  deriving DecidableEq, Repr

def Relation.holds : Relation → Ordering → Bool
  | .less, o => o.isLT
  | .lessEqual, o => o.isLE
  | .greater, o => o.isGT
  | .greaterEqual, o => o.isGE

inductive Operator
  | strictEqual (negated : Bool)
  | looseEqual (negated : Bool)
  | compare (relation : Relation)
  | add
  | sub
  | mul
  | div
  | rem
  | bitAnd
  | bitOr
  | bitXor
  | shiftLeft
  | shiftRight
  | shiftRightZero
  | isIn
  | instanceOf
  deriving DecidableEq, Repr

namespace Operator

def table : List (String × Operator) :=
  [("===", .strictEqual false), ("!==", .strictEqual true), ("==", .looseEqual false),
    ("!=", .looseEqual true), ("<", .compare .less), ("<=", .compare .lessEqual),
    (">", .compare .greater), (">=", .compare .greaterEqual), ("+", .add), ("-", .sub),
    ("*", .mul), ("/", .div), ("%", .rem), ("&", .bitAnd), ("|", .bitOr), ("^", .bitXor),
    ("<<", .shiftLeft), (">>", .shiftRight), (">>>", .shiftRightZero), ("in", .isIn),
    ("instanceof", .instanceOf)]

def ofText? (s : String) : Option Operator := (table.find? (·.1 == s)).map (·.2)

end Operator

namespace Value

/-- The order of two values, none if one is not a number. -/
def compare? (a b : Value) : Except Refusal (Option Ordering) :=
  match a, b with
  | .string s, .string t => .ok (some (compareOfLessAndEq s t))
  | a, b => do return (← a.toNumber).compare? (← b.toNumber)

def joinsText : Value → Bool
  | .array .. | .object .. | .string _ => true
  | _ => false

def add (a b : Value) : Except Refusal Value :=
  if a.joinsText || b.joinsText then do return .string ((← a.text) ++ (← b.text))
  else do return .number (← (← a.toNumber).add (← b.toNumber))

/-- An operation on the numbers of two values. -/
def arithmetic (op : Number → Number → Except Refusal Number) (a b : Value) :
    Except Refusal Value := do
  let x ← a.toNumber
  let y ← b.toNumber
  return .number (← op x y)

def toWord (v : Value) : Except Refusal Int := do (← v.toNumber).toWord

/-- An operation on the signed words of two values. -/
def bitwise (op : Int → Int → Int) (a b : Value) : Except Refusal Value := do
  let x ← a.toWord
  let y ← b.toWord
  return .int (op x y)

/-- Whether an array has an index or an object a field. -/
def has (key target : Value) : Except Stop Bool :=
  match target with
  | .array _ items => do
    match ← key.index? with
    | some i => if i < items.length then return true else return (← key.text) == "length"
    | none => return (← key.text) == "length"
  | .object _ fields => do return (getField? fields (← key.text)).isSome
  | target => do
    let k ← key.text
    let t ← target.text
    throw (.evaluation (.notSearchable k t))

/-- Whether a value was made by a class. Only boxes have one. -/
def isInstance (v cls : Value) : Except Stop Bool :=
  match cls with
  | .host f =>
    match v with
    | .box .. => .ok (f == .box)
    | _ => .ok false
  | cls => if cls.isCallable then .ok false else .error (.evaluation .notClass)

end Value

def Operator.apply (op : Operator) (a b : Value) : Except Stop Value :=
  match op with
  | .strictEqual negated => .ok (.bool (a.strictEquals b != negated))
  | .looseEqual negated => do return .bool ((← a.looseEquals b) != negated)
  | .compare relation => do return .bool ((← a.compare? b).any relation.holds)
  | .add => do return ← a.add b
  | .sub => do return ← Value.arithmetic Number.sub a b
  | .mul => do return ← Value.arithmetic Number.mul a b
  | .div => do return ← Value.arithmetic Number.div a b
  | .rem => do return ← Value.arithmetic Number.rem a b
  | .bitAnd => do return ← Value.bitwise (Word.bitwise and) a b
  | .bitOr => do return ← Value.bitwise (Word.bitwise or) a b
  | .bitXor => do return ← Value.bitwise (Word.bitwise xor) a b
  | .shiftLeft => do return ← Value.bitwise Word.shiftLeft a b
  | .shiftRight => do return ← Value.bitwise Word.shiftRight a b
  | .shiftRightZero => do return ← Value.bitwise Word.shiftRightZero a b
  | .isIn => do return .bool (← Value.has a b)
  | .instanceOf => do return .bool (← Value.isInstance a b)

end Comprehend.Script
