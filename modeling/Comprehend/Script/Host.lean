import Comprehend.Script.Property

/-! The surrounding program. It brings functions into the environment of a script, and what they do is
not written here: a machine runs in some host, whatever its functions answer, call back, make and
note. One host is at hand, with the functions that scripts are tried out with. -/

namespace Comprehend.Script

/-- What a function of the surrounding program does with its arguments. It can call what it is given. -/
abbrev HostCall := Caller → List Value → Run Value

/-- The surrounding program. -/
class Host where
  call : HostFunction → HostCall

/-- The three chain links as functions of a library, whose callbacks get one argument. -/
def callLibrary (op : Combinator) : HostCall := fun call args => do
  match op, args with
  | .filter, [xs, g] =>
    Run.newArray (← filterItems (fun v _ => do return (← call g [v]).isTruthy) 0 (← xs.iterate))
  | .map, [xs, g] => Run.newArray (← mapItems (fun v _ => call g [v]) 0 (← xs.iterate))
  | .flatMap, [xs, g] =>
    let parts ← mapItems (fun v _ => do (← call g [v]).iterate) 0 (← xs.iterate)
    Run.newArray parts.flatten
  | _, _ => Run.stop .misuse

/-- The object that has the chain links for functions. -/
def libraryObject : Value :=
  .object 0 [("filter", .host .filter), ("map", .host .map), ("flatMap", .host .flatMap)]

def callIncrement : HostCall := fun _ args =>
  match args with
  | [v] => do v.add (.int 1)
  | _ => Run.stop .misuse

def callPair : HostCall := fun _ args =>
  match args with
  | [a, b] => Run.newArray [a, b]
  | _ => Run.stop .misuse

def callCount : HostCall := fun _ args => return .int args.length

/-- A call of the class of boxes. -/
def callBox : HostCall := fun _ args =>
  match args with
  | [] => return .box (← Run.newTag) .undefined
  | [v] => return .box (← Run.newTag) v
  | _ => Run.stop .misuse

/-- The successor of a value, a pair, the number of arguments, the class of boxes, and the library. -/
def standardFunctions : List (HostFunction × HostCall) :=
  [(.increment, callIncrement), (.pair, callPair), (.count, callCount), (.box, callBox),
    (.filter, callLibrary .filter), (.map, callLibrary .map), (.flatMap, callLibrary .flatMap)]

/-- The host that is there where no other is given. -/
instance Host.standard : Host where
  call f call args :=
    match standardFunctions.lookup f with
    | some g => g call args
    | none => Run.stop .misuse

end Comprehend.Script
