import Comprehend.Number
import Comprehend.Regexp.Matcher
import Comprehend.Syntax.Node

/-! Values of the script language. Nothing in the language changes a value, so arrays and objects
are plain data; what tells two equal ones apart is the identity they were made with. A function
keeps the frames it was written in. Host functions stand for what the surrounding program brings in,
which is taken not to change a value either, and a negative number to a broken exponent gives a
complex number, which no operator understands. -/

namespace Comprehend.Script

/-- An identity or the name of a frame. -/
abbrev Tag := Nat

/-- Frames that a name is looked up in, innermost first. -/
abbrev Scope := List Tag

structure Closure where
  params : List Node
  body : Node
  scope : Scope

inductive Method
  | filter
  | map
  | flatMap
  | concat
  | arrayIncludes
  | indexOf
  | join
  | slice
  | toUpperCase
  | toLowerCase
  | includes
  | startsWith
  | endsWith
  | test
  | apply
  | call
  deriving DecidableEq, Repr

/-- A function of the surrounding program. What it does when it is called is up to that program. -/
structure HostFunction where
  name : String
  deriving DecidableEq, Repr

namespace HostFunction

def increment : HostFunction := ⟨"inc"⟩
def pair : HostFunction := ⟨"pair"⟩
def count : HostFunction := ⟨"count"⟩
def box : HostFunction := ⟨"Box"⟩
def filter : HostFunction := ⟨"filter"⟩
def map : HostFunction := ⟨"map"⟩
def flatMap : HostFunction := ⟨"flatMap"⟩

end HostFunction

inductive Value
  | undefined
  | null
  | bool (b : Bool)
  | number (n : Number)
  | string (s : String)
  | array (tag : Tag) (items : List Value)
  | object (tag : Tag) (fields : List (String × Value))
  | closure (tag : Tag) (closure : Closure)
  | method (tag : Tag) (receiver : Value) (method : Method)
  | host (function : HostFunction)
  | regexp (tag : Tag) (regexp : Regexp)
  | box (tag : Tag) (content : Value)
  | complex (tag : Tag) (re im : Float)

/-- What operators tell values apart by. -/
inductive Category
  | null
  | undefined
  | boolean
  | number
  | string
  | function
  | object
  deriving DecidableEq, Repr

def Category.name : Category → String
  | .null => "null"
  | .undefined => "undefined"
  | .boolean => "boolean"
  | .number => "number"
  | .string => "string"
  | .function => "function"
  | .object => "object"

namespace Value

def int (n : Int) : Value := .number (.int n)

def category : Value → Category
  | .undefined => .undefined
  | .null => .null
  | .bool _ => .boolean
  | .number _ => .number
  | .string _ => .string
  | .closure .. | .method .. | .host _ => .function
  | .array .. | .object .. | .regexp .. | .box .. | .complex .. => .object

def isNullish : Value → Bool
  | .undefined | .null => true
  | _ => false

def isCallable (v : Value) : Bool := v.category == .function

/-- The name of a value's kind; nothing is an object. -/
def typeName (v : Value) : String :=
  match v.category with
  | .null => Category.object.name
  | c => c.name

/-- Whether a condition takes a value for true. -/
def isTruthy : Value → Bool
  | .undefined | .null => false
  | .bool b => b
  | .number n => n.isTruthy
  | .string s => s != ""
  | _ => true

/-- Objects and functions are the same when they were made as one. -/
def isSame : Value → Value → Bool
  | .array a _, .array b _ => a == b
  | .object a _, .object b _ => a == b
  | .closure a _, .closure b _ => a == b
  | .method a _ _, .method b _ _ => a == b
  | .host f, .host g => f == g
  | .regexp a _, .regexp b _ => a == b
  | .box a _, .box b _ => a == b
  | .complex a _ _, .complex b _ _ => a == b
  | _, _ => false

theorem isSame_comm (a b : Value) : a.isSame b = b.isSame a := by
  cases a <;> cases b <;> simp [isSame, Bool.beq_comm]

end Value

/-- Sets a field, which keeps its place if it is there already. -/
def setField (fields : List (String × Value)) (key : String) (v : Value) :
    List (String × Value) :=
  match fields with
  | [] => [(key, v)]
  | f :: fs => if f.1 == key then (key, v) :: fs else f :: setField fs key v

def getField? (fields : List (String × Value)) (key : String) : Option Value :=
  (fields.find? (·.1 == key)).map (·.2)

theorem getField?_setField (fields : List (String × Value)) (key other : String) (v : Value) :
    getField? (setField fields key v) other =
      if key = other then some v else getField? fields other := by
  induction fields with
  | nil => by_cases h : key = other <;> simp [setField, getField?, h]
  | cons f fs ih =>
    simp only [setField]
    split
    · next hk =>
      have hk : f.1 = key := by simpa using hk
      by_cases h : key = other
      · simp [getField?, h]
      · simp [getField?, h, hk]
    · by_cases hf : f.1 = other
      · have : key ≠ other := by rintro rfl; simp_all
        simp [getField?, hf, this]
      · simpa [getField?, List.find?_cons, hf] using ih

end Comprehend.Script
