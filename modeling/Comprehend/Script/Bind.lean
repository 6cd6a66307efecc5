import Comprehend.Script.Host
import Comprehend.Syntax.Labelled

/-! Binding values to parameters. A name is set in the innermost frame; a pattern takes an array, a
text or an object apart, and a default value is evaluated in the frame that is being filled, so it
sees the parameters before it. -/

namespace Comprehend.Script

/-- How an expression gets its value in a scope. -/
abbrev Evaluator := Scope → Node → Run Value

def noBinding (x : Node) : Run α := Run.stop (.unsupported (.boundPattern x.label))

/-- The key that a plain item of an object pattern reads, and its default if it has one. -/
def plainKey? : Node → Option String
  | .bindingName t => some t.text
  | .patternDefault (.bindingName t) _ => some t.text
  | _ => none

/-- The fields of an object but those used already. -/
def otherFields (v : Value) (used : List String) : List (String × Value) :=
  match v with
  | .object _ fields => fields.filter fun f => !used.contains f.1
  | _ => []

/-- The frame that a scope binds in. -/
def Scope.assign (scope : Scope) (name : String) (v : Value) : Run Unit :=
  match scope with
  | frame :: _ => Run.assign frame name v
  | [] => pure ()

mutual

/-- Binds a value to a name or a pattern. -/
def bind (ev : Evaluator) (scope : Scope) : Node → Value → Run Unit
  | .bindingName t, v => scope.assign t.text v
  | .patternDefault target x, v =>
    match v with
    | .undefined => do bind ev scope target (← ev scope x)
    | v => bind ev scope target v
  | .arrayPattern items, v =>
    match v.items? with
    | some vs => bindItems ev scope items vs
    | none => do Run.stop (.evaluation (.notIterable (← v.text)))
  | .objectPattern items, v =>
    if v.isNullish then do Run.stop (.evaluation (.notDestructurable (← v.text)))
    else bindFields ev scope v [] items
  | x, _ => noBinding x

/-- Binds items in order; a rest takes all that are left. -/
def bindItems (ev : Evaluator) (scope : Scope) : List Node → List Value → Run Unit
  | [], _ => pure ()
  | .patternRest target :: _, vs => do bind ev scope target (← Run.newArray vs)
  | x :: xs, vs => do
    bind ev scope x (vs.head?.getD .undefined)
    bindItems ev scope xs vs.tail

/-- Binds fields in order, those in `used` having been read. -/
def bindFields (ev : Evaluator) (scope : Scope) (v : Value) : (used : List String) →
    List Node → Run Unit
  | _, [] => pure ()
  | used, .patternRest target :: xs => do
    bind ev scope target (← Run.newObject (otherFields v used))
    bindFields ev scope v used xs
  | used, .propertyPattern key target :: xs => do
    bind ev scope target (← v.property (.string key.text))
    bindFields ev scope v (key.text :: used) xs
  | used, x :: xs =>
    match plainKey? x with
    | some key => do
      bind ev scope x (← v.property (.string key))
      bindFields ev scope v (key :: used) xs
    | none => noBinding x

end

end Comprehend.Script
