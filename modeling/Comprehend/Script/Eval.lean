import Comprehend.Script.Bind
import Comprehend.Syntax.Operand

/-! Evaluation, in a host. An expression is evaluated in a scope, and a call opens a frame of its own
on top of those that the function was written in. A missing base of an optional link ends the whole chain of
links above it, whose value is then undefined; what encloses the chain goes on with that. The depth
of evaluation is bounded, and running out of it is an ending of its own. -/

namespace Comprehend.Script

/-- The values of arguments or items, spreads taken apart. -/
def spreadValues (ev : Node → Run Value) : List Node → Run (List Value)
  | [] => return []
  | .spread x :: xs => do
    let v ← ev x
    match v.items? with
    | some vs => return vs ++ (← spreadValues ev xs)
    | none => Run.stop (.evaluation (.notIterable (← v.text)))
  | x :: xs => do
    let v ← ev x
    return v :: (← spreadValues ev xs)

/-- Calls a value with arguments yet to be evaluated. -/
def callWith (ev : Node → Run Value) (call : Caller) (f : Value) (args : List Node) :
    Run Value := do
  if f.isCallable then call f (← spreadValues ev args)
  else Run.stop (.evaluation (.notFunction (← f.text)))

/-- Goes on with the base of a link, unless the chain has ended below or ends here. -/
def linkFrom (optional : Bool) (base : Option Value) (go : Value → Run Value) :
    Run (Option Value) := do
  match base with
  | none => return none
  | some v => if optional && v.isNullish then return none else return some (← go v)

/-- The value of a chain of links, none if it was ended by a missing base. -/
def link (ev : Node → Run Value) (call : Caller) : Node → Run (Option Value)
  | .member optional target name => do
    let base ← link ev call target
    linkFrom optional base fun v => v.property (.string name.text)
  | .index optional target key => do
    let base ← link ev call target
    linkFrom optional base fun v => do v.property (← ev key)
  | .call optional callee args => do
    let base ← link ev call callee
    linkFrom optional base fun f => callWith ev call f args
  | x => return some (← ev x)

/-- The fields of an object literal, `fields` having been read. -/
def objectFields (ev : Node → Run Value) (lookup : String → Run Value) :
    (fields : List (String × Value)) → List Node → Run (List (String × Value))
  | fields, [] => return fields
  | fields, .spread x :: xs => do
    match ← ev x with
    | .object _ more =>
      objectFields ev lookup (more.foldl (fun fs f => setField fs f.1 f.2) fields) xs
    | _ => objectFields ev lookup fields xs
  | fields, .shorthand t :: xs => do
    objectFields ev lookup (setField fields t.text (← lookup t.text)) xs
  | fields, .property key x :: xs => do
    let name ← if key.cls = .string then (Text.decodeLiteral key.text : Except Refusal String)
      else pure key.text
    objectFields ev lookup (setField fields name (← ev x)) xs
  | _, _ :: _ => Run.stop .noNode

def lookupName (scope : Scope) (name : String) : Run Value := do
  match ← Run.lookup? scope name with
  | some v => return v
  | none => Run.stop (.evaluation (.unbound name))

/-- Cuts a literal between its slashes. -/
def splitRegex (text : String) : Except Refusal (String × String) :=
  let cs := text.toList
  let flags := (cs.reverse.takeWhile (· != '/')).reverse
  if flags.length = cs.length then .error .outOfDomain
  else .ok (String.ofList (cs.take (cs.length - flags.length - 1) |>.drop 1), String.ofList flags)

def newRegexp (source flags : String) : Run Value := do
  match Regexp.compile source flags with
  | .ok r => return .regexp (← Run.newTag) r
  | .error .malformed => Run.stop (.unsupported (.regularExpression source flags))
  | .error .tooManyRepeats => Run.stop (.refusal .tooLarge)

def leafValue (scope : Scope) (kind : LeafKind) (text : String) : Run Value := do
  match kind with
  | .number => return .number (← Number.ofLiteral text)
  | .string => return .string (← Text.decodeLiteral text)
  | .template =>
    let body := Text.literalBody text
    if Text.hasSubstitution body then Run.stop (.unsupported .substitution)
    else return .string (← Text.decodeEscapes body)
  | .regex =>
    let (source, flags) ← splitRegex text
    newRegexp source flags
  | .name => lookupName scope text

def Constant.value : Constant → Value
  | .true => .bool true
  | .false => .bool false
  | .null => .null
  | .undefined => .undefined

/-- Whether a logical operator goes on to its second operand. -/
def needsSecond (op : LogicalOp) (first : Value) : Bool :=
  match op with
  | .coalesce => first.isNullish
  | .or => !first.isTruthy
  | .and => first.isTruthy

/-- An operator in front of a value; any but the known ones makes a number of it. -/
def unaryValue (op : String) (v : Value) : Run Value := do
  match op with
  | "typeof" => return .string v.typeName
  | "void" => return .undefined
  | "!" => return .bool !v.isTruthy
  | "~" => return .int (~~~(← v.toWord))
  | "-" => return .number (← v.toNumber).neg
  | _ => return .number (← v.toNumber)

def powerValue (a b : Number) : Run Value := do
  match ← a.pow b with
  | .real n => return .number n
  | .complex re im => return .complex (← Run.newTag) re im

/-- A construction calls its callee, which cannot be a function of the script. -/
def construct (ev : Node → Run Value) (call : Caller) (f : Value) (args : List Node) :
    Run Value := do
  match f with
  | .closure .. => Run.stop (.unsupported .scriptConstruction)
  | f =>
    if f.isCallable then call f (← spreadValues ev args)
    else Run.stop (.evaluation (.notConstructor (← f.text)))

def newClosure (scope : Scope) (params : List Node) (body : Node) : Run Value :=
  return .closure (← Run.newTag) ⟨params, body, scope⟩

variable [Host]

mutual

/-- The value of an expression. -/
def eval : (depth : Nat) → Scope → Node → Run Value
  | 0, _, _ => Run.stop .tooDeep
  | depth + 1, scope, x => do
    let ev := eval depth scope
    match x with
    | .leaf kind t => leafValue scope kind t.text
    | .constant value => return Constant.value value
    | .array items => Run.newArray (← spreadValues ev items)
    | .object members => Run.newObject (← objectFields ev (lookupName scope) [] members)
    | .arrow params body => newClosure scope params body
    | .function params body => newClosure scope params body
    | .ternary test yes no => if (← ev test).isTruthy then ev yes else ev no
    | .logical op lhs rhs =>
      let first ← ev lhs
      if needsSecond op first then ev rhs else return first
    | .binary _ op lhs rhs =>
      match Operator.ofText? op with
      | none => Run.stop .noOperator
      | some op =>
        let a ← ev lhs
        let b ← ev rhs
        op.apply a b
    | .power base exponent =>
      let a ← (← ev base).toNumber
      let b ← (← ev exponent).toNumber
      powerValue a b
    | .unary op operand =>
      if op.text = "delete" then Run.stop (.unsupported .deletion)
      else unaryValue op.text (← ev operand)
    | .member .. => return (← link ev (apply depth) x).getD .undefined
    | .index .. => return (← link ev (apply depth) x).getD .undefined
    | .call .. => return (← link ev (apply depth) x).getD .undefined
    | .construct callee args => construct ev (apply depth) (← ev callee) args
    | .tagged .. => Run.stop (.unsupported .taggedTemplate)
    | .token _ => Run.stop .noNode
    | .datum _ => Run.stop .noNode
    | .chain .. => Run.stop .noNode
    | x => Run.stop (.unsupported (.evaluatedNode x.label))

/-- Calls a function. -/
def apply : (depth : Nat) → Value → List Value → Run Value
  | 0, _, _ => Run.stop .tooDeep
  | depth + 1, f, args => do
    match f with
    | .closure _ c =>
      let frame ← Run.newFrame []
      let scope := frame :: c.scope
      bindItems (eval depth) scope c.params args
      eval depth scope c.body
    | .method _ receiver m => callMethod (apply depth) receiver m args
    | .host f => Host.call f (apply depth) args
    | _ => Run.stop .misuse

end

/-- The value of a tree in an environment. -/
def evaluateTree (depth : Nat) (environment : Frame) (x : Node) : Run Value := do
  let frame ← Run.newFrame environment
  eval depth [frame] x

/-- The value of an expression text in an environment. -/
def evaluateText (depth : Nat) (environment : Frame) (text : String) : Run Value := do
  match parseExpression text with
  | .ok x => evaluateTree depth environment x
  | .error fault => Run.stop (.fault fault)

/-- The value of an expression in an environment. A token on its own stands for its text. -/
def evaluate (depth : Nat) (environment : Frame) (x : Node) : Run Value :=
  match x with
  | .token t => evaluateText depth environment t.text
  | x => evaluateTree depth environment x

end Comprehend.Script
