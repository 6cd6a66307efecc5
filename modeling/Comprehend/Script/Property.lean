import Comprehend.Script.Machine
import Comprehend.Text.Case

/-! Properties and built-in methods. Arrays and texts have items by index, a length and methods;
objects have their fields; regular expressions and functions have a few names of their own, and
nothing else has any. A method is a function that keeps its receiver, made anew at each reading. -/

namespace Comprehend.Script

def arrayMethod? (name : String) : Option Method :=
  match name with
  | "filter" => some .filter
  | "map" => some .map
  | "flatMap" => some .flatMap
  | "concat" => some .concat
  | "includes" => some .arrayIncludes
  | "indexOf" => some .indexOf
  | "join" => some .join
  | "slice" => some .slice
  | _ => none

def stringMethod? (name : String) : Option Method :=
  match name with
  | "toUpperCase" => some .toUpperCase
  | "toLowerCase" => some .toLowerCase
  | "includes" => some .includes
  | "startsWith" => some .startsWith
  | "endsWith" => some .endsWith
  | _ => none

namespace Value

/-- The method of a receiver, or nothing. -/
def method? (receiver : Value) (found : Option Method) : Run Value :=
  match found with
  | some m => return .method (← Run.newTag) receiver m
  | none => return .undefined

def charAt (s : String) (i : Nat) : Value :=
  match s.toList[i]? with
  | some c => .string (String.singleton c)
  | none => .undefined

/-- Reads a property. -/
def property (v key : Value) : Run Value := do
  match v with
  | .undefined | .null =>
    let k ← key.text
    let t ← v.text
    Run.stop (.evaluation (.noProperties k t))
  | .array _ items =>
    match ← key.index? with
    | some i => return items[i]?.getD .undefined
    | none =>
      let name ← key.text
      if name == "length" then return .int items.length
      else v.method? (arrayMethod? name)
  | .string s =>
    match ← key.index? with
    | some i => return charAt s i
    | none =>
      let name ← key.text
      if name == "length" then return .int s.length
      else v.method? (stringMethod? name)
  | .object _ fields => return (getField? fields (← key.text)).getD .undefined
  | .regexp _ r =>
    match ← key.text with
    | "test" => v.method? (some .test)
    | "source" => return .string r.source
    | "flags" => return .string r.flags
    | _ => return .undefined
  | v =>
    if v.isCallable then
      match ← key.text with
      | "apply" => v.method? (some .apply)
      | "call" => v.method? (some .call)
      | _ => return .undefined
    else return .undefined

/-- The items of a value that a list of them can be made from. -/
def items? : Value → Option (List Value)
  | .array _ items => some items
  | .string s => some (s.toList.map fun c => .string (String.singleton c))
  | _ => none

/-- What host functions and `apply` go through: items, or the keys of an object. -/
def iterate (v : Value) : Run (List Value) :=
  match v with
  | .object _ fields => return fields.map fun f => .string f.1
  | v =>
    match v.items? with
    | some items => return items
    | none => Run.stop .misuse

/-- Whether `apply` takes a value for no arguments at all. -/
def isNoArguments : Value → Bool
  | .undefined | .null => true
  | .bool b => !b
  | .number n => n.isZero
  | .string s => s == ""
  | .array _ items => items.isEmpty
  | .object _ fields => fields.isEmpty
  | _ => false

end Value

/-- Flattens the arrays among some values, one level deep. -/
def flattenOne (vs : List Value) : List Value :=
  vs.flatMap fun
    | .array _ items => items
    | v => [v]

/-- How arrays look for a value: one that is not a number is found too. -/
def includesValue (items : List Value) (v : Value) : Bool :=
  items.any fun x =>
    x.strictEquals v ||
      match x, v with
      | .number a, .number b => a.isNaN && b.isNaN
      | _, _ => false

def indexOfValue (items : List Value) (v : Value) : Int :=
  match items.findIdx? (·.strictEquals v) with
  | some i => i
  | none => -1

/-- A bound of a slice, counted from the end if negative, kept within a length. -/
def clampIndex (i : Int) (length : Nat) : Nat :=
  min (if i < 0 then (length + i).toNat else i.toNat) length

def sliceList (items : List α) (start : Int) (stop : Option Int) : List α :=
  let last :=
    match stop with
    | some i => clampIndex i items.length
    | none => items.length
  (items.take last).drop (clampIndex start items.length)

def isPartOf (needle : List Char) : List Char → Bool
  | [] => needle.isEmpty
  | c :: cs => needle.isPrefixOf (c :: cs) || isPartOf needle cs

/-- Calls a function on each item in order. -/
def mapItems (f : Value → Nat → Run α) : (index : Nat) → List Value → Run (List α)
  | _, [] => return []
  | index, v :: vs => return (← f v index) :: (← mapItems f (index + 1) vs)

def filterItems (f : Value → Nat → Run Bool) : (index : Nat) → List Value → Run (List Value)
  | _, [] => return []
  | index, v :: vs => do
    let keep ← f v index
    let rest ← filterItems f (index + 1) vs
    return if keep then v :: rest else rest

abbrev Caller := Value → List Value → Run Value

/-- The integer of an argument. -/
def integerOf (v : Value) : Run Int := do
  let n ← v.toNumber
  n.toInteger

def arrayMethod (call : Caller) (receiver : Value) (items : List Value) (m : Method)
    (args : List Value) : Run Value := do
  let callback (f v : Value) (i : Nat) : Run Value := call f [v, .int i, receiver]
  match m, args with
  | .filter, [f] =>
    Run.newArray (← filterItems (fun v i => do return (← callback f v i).isTruthy) 0 items)
  | .map, [f] => Run.newArray (← mapItems (callback f) 0 items)
  | .flatMap, [f] => Run.newArray (flattenOne (← mapItems (callback f) 0 items))
  | .concat, args => Run.newArray (items ++ flattenOne args)
  | .arrayIncludes, [v] => return .bool (includesValue items v)
  | .indexOf, [v] => return .int (indexOfValue items v)
  | .join, [] => return .string (",".intercalate (← Value.itemTexts items))
  | .join, [separator] =>
    let s ← separator.text
    return .string (s.intercalate (← Value.itemTexts items))
  | .slice, [] => Run.newArray items
  | .slice, [start] => Run.newArray (sliceList items (← integerOf start) none)
  | .slice, [start, .undefined] => Run.newArray (sliceList items (← integerOf start) none)
  | .slice, [start, stop] =>
    let i ← integerOf start
    let j ← integerOf stop
    Run.newArray (sliceList items i (some j))
  | _, _ => Run.stop .misuse

def stringMethod (s : String) (m : Method) (args : List Value) : Run Value := do
  match m, args with
  | .toUpperCase, [] => return .string (Text.upper s)
  | .toLowerCase, [] => return .string (Text.lower s)
  | .includes, [v] => return .bool (isPartOf (← v.text).toList s.toList)
  | .startsWith, [v] => return .bool ((← v.text).toList.isPrefixOf s.toList)
  | .endsWith, [v] => return .bool ((← v.text).toList.isSuffixOf s.toList)
  | _, _ => Run.stop .misuse

/-- Calls a built-in method. -/
def callMethod (call : Caller) (receiver : Value) (m : Method) (args : List Value) :
    Run Value := do
  match receiver, m, args with
  | .array _ items, m, args => arrayMethod call receiver items m args
  | .string s, m, args => stringMethod s m args
  | .regexp _ r, .test, [] => return .bool (r.test (← Value.undefined.text))
  | .regexp _ r, .test, [v] => return .bool (r.test (← v.text))
  | f, .apply, [] => call f []
  | f, .apply, [_] => call f []
  | f, .apply, [_, list] => if list.isNoArguments then call f [] else call f (← list.iterate)
  | f, .call, [] => call f []
  | f, .call, _ :: args => call f args
  | _, _, _ => Run.stop .misuse

end Comprehend.Script
