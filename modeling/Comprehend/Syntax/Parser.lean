import Comprehend.Syntax.Lexeme

/-! The grammar of expressions and binding patterns, read over what remains of the text. A reader
gives the list of its outcomes, each a node and the rest, in order of preference. Nearly always
there is one, for an operator that can be taken is taken. There are two where a text can be cut in
two ways: two plus or minus signs after an operand are an update or two operators, and a constant
glued to an operator word is also a name. The whole text is a node when some outcome leaves nothing.

Recursion is on a fuel that one call takes one of. The longest descent that reads nothing is shorter
than `depthPerChar`, so the fuel that `fuelFor` gives is never used up. -/

namespace Comprehend.Parser

open Comprehend.Text Comprehend.Lexeme

abbrev Outcomes (α : Type) := List (α × List Char)

def one (x : α) (r : List Char) : Outcomes α := [(x, r)]

def Outcomes.giving (os : Outcomes α) (f : α → β) : Outcomes β :=
  List.map (fun o => (f o.1, o.2)) os

/-- Goes on from each outcome in turn. -/
def Outcomes.andThen (os : Outcomes α) (f : α → List Char → Outcomes β) : Outcomes β :=
  os.flatMap fun o => f o.1 o.2

@[simp] theorem andThen_one (x : α) (r : List Char) (f : α → List Char → Outcomes β) :
    (one x r).andThen f = f x r := by
  simp [one, Outcomes.andThen]

@[simp] theorem andThen_nil (f : α → List Char → Outcomes β) :
    Outcomes.andThen [] f = [] := rfl

/-- What follows a punctuation mark, blanks before it skipped. -/
def mark (spelling : String) (cs : List Char) : Option (List Char) :=
  after spelling (skipBlanks cs)

/-- Keeps the outcomes that a mark follows. -/
def Outcomes.closedBy (spelling : String) (os : Outcomes α) : Outcomes α :=
  os.andThen fun x r =>
    match mark spelling r with
    | some r => one x r
    | none => []

/-- A name that a variable can have. -/
def plainName (cs : List Char) : Scan := (word (skipBlanks cs)).filter fun p => !isReserved p.1

/-- One item or more with commas between, `more` bounding their number. A comma that no item
follows is left standing. -/
def items (item : List Char → Outcomes α) : (more : Nat) → List Char → Outcomes (List α)
  | 0, _ => []
  | more + 1, cs =>
    (item cs).andThen fun x r =>
      match mark "," r with
      | none => one [x] r
      | some r' =>
        match items item more r' with
        | [] => one [x] r
        | os => os.giving (x :: ·)

/-- No item, or some, up to a closing mark. -/
def itemsTo (close : String) (item : List Char → Outcomes α) (cs : List Char) :
    Outcomes (List α) :=
  match mark close cs with
  | some r => one [] r
  | none => (items item (cs.length + 1) cs).closedBy close

/-- The same with one spare comma allowed before the closing mark. -/
def itemsToSpare (close : String) (item : List Char → Outcomes α) (cs : List Char) :
    Outcomes (List α) :=
  match mark close cs with
  | some r => one [] r
  | none =>
    match (mark "," cs).bind (mark close) with
    | some r => one [] r
    | none =>
      (items item (cs.length + 1) cs).andThen fun xs r =>
        match mark close ((mark "," r).getD r) with
        | some r => one xs r
        | none => []

/-- An operator between two operands. -/
inductive Joint
  | logical (op : LogicalOp)
  | binary (group : OperatorGroup) (op : String)

def Joint.build : Joint → Node → Node → Node
  | .logical op => .logical op
  | .binary group op => .binary group op

/-- The first of some spellings that the text starts with. -/
def anyOf (spellings : List String) (cs : List Char) : Option (String × List Char) :=
  spellings.findSome? fun s => (after s cs).map (s, ·)

def binaryAt (group : OperatorGroup) (cs : List Char) : Option (Joint × List Char) :=
  let found : Option (String × List Char) :=
    match group with
    | .bitOr => (anyOf ["|"] cs).filter fun p => !startsWith (· == '|') p.2
    | .bitXor => anyOf ["^"] cs
    | .bitAnd => (anyOf ["&"] cs).filter fun p => !startsWith (· == '&') p.2
    | .equality => anyOf ["===", "!==", "==", "!="] cs
    | .relational =>
      (["instanceof", "in"].findSome? fun s => (keyword s cs).map (s, ·)).or
        (anyOf ["<=", ">=", "<", ">"] cs)
    | .shift => anyOf [">>>", "<<", ">>"] cs
    | .additive => anyOf ["+", "-"] cs
    | .multiplicative => anyOf ["*", "/", "%"] cs
  found.map fun p => (.binary group p.1, p.2)

def logicalAt (op : LogicalOp) (spelling : String) (cs : List Char) : Option (Joint × List Char) :=
  (after spelling cs).map fun r => (.logical op, r)

/-- The levels of operators that group to the left, loosest first. -/
def jointAt (level : Nat) (cs : List Char) : Option (Joint × List Char) :=
  let cs := skipBlanks cs
  match level with
  | 0 => logicalAt .coalesce "??" cs
  | 1 => logicalAt .or "||" cs
  | 2 => logicalAt .and "&&" cs
  | 3 => binaryAt .bitOr cs
  | 4 => binaryAt .bitXor cs
  | 5 => binaryAt .bitAnd cs
  | 6 => binaryAt .equality cs
  | 7 => binaryAt .relational cs
  | 8 => binaryAt .shift cs
  | 9 => binaryAt .additive cs
  | 10 => binaryAt .multiplicative cs
  | _ => none

def jointLevels : Nat := 11

/-- An operator before its operand; two equal signs in a row are not one. -/
def unaryAt (cs : List Char) : Option (Token × List Char) :=
  match skipBlanks cs with
  | '-' :: r => if startsWith (· == '-') r then none else some (⟨.unaryOp, "-"⟩, r)
  | '+' :: r => if startsWith (· == '+') r then none else some (⟨.unaryOp, "+"⟩, r)
  | '!' :: r => some (⟨.unaryOp, "!"⟩, r)
  | '~' :: r => some (⟨.unaryOp, "~"⟩, r)
  | r => ["typeof", "void", "delete"].findSome? fun s =>
      (keyword s r).map fun r => (⟨.unaryKeyword, s⟩, r)

def updateAt (cs : List Char) : Option (Token × List Char) :=
  (anyOf ["++", "--"] (skipBlanks cs)).map fun p => (⟨.updateOp, p.1⟩, p.2)

/-- The mark of an optional link, which no digit follows. -/
def optionalAt (cs : List Char) : Option (List Char) :=
  (mark "?." cs).filter fun r => !startsWith Char.isDigit r

def constants : List (String × Constant) :=
  [("true", .true), ("false", .false), ("null", .null), ("undefined", .undefined)]

/-- Readings of a word that is no keyword: a name, and before that its constant if it is one. A
constant may also be glued to an operator word that follows it. -/
def wordOutcomes (w r : List Char) : Outcomes Node :=
  match constants.find? fun c => c.1.toList == w with
  | some (_, value) => one (.constant value) r
  | none =>
    if isReserved w then []
    else
      (.leaf .name (token .name w), r) :: constants.filterMap fun c =>
        (after c.1 w).bind fun w' =>
          if w' == "in".toList || w' == "instanceof".toList then some (.constant c.2, w' ++ r)
          else none

def leafOutcomes (kind : LeafKind) (cls : TokenClass) (s : Scan) : Outcomes Node :=
  match s with
  | some (t, r) => one (.leaf kind (token cls t)) r
  | none => []

mutual

def expression : (fuel : Nat) → List Char → Outcomes Node
  | 0, _ => []
  | fuel + 1, cs =>
    match arrowHead fuel cs with
    | [] => ternary fuel cs
    | heads => heads.andThen fun params r => (expression fuel r).giving (.arrow params ·)

/-- The parameters of an arrow function, up to the arrow. -/
def arrowHead : (fuel : Nat) → List Char → Outcomes (List Node)
  | 0, _ => []
  | fuel + 1, cs =>
    match mark "(" cs with
    | some r => (itemsTo ")" (patternElement fuel) r).closedBy "=>"
    | none =>
      match plainName cs with
      | some (w, r) => (one [.bindingName (token .name w)] r).closedBy "=>"
      | none => []

def ternary : (fuel : Nat) → List Char → Outcomes Node
  | 0, _ => []
  | fuel + 1, cs =>
    (joined fuel 0 cs).andThen fun test r =>
      match mark "?" r with
      | none => one test r
      | some r =>
        ((expression fuel r).closedBy ":").andThen fun yes r =>
          (expression fuel r).giving (.ternary test yes ·)

/-- Operands joined by the operators of a level and of the tighter ones. -/
def joined : (fuel level : Nat) → List Char → Outcomes Node
  | 0, _, _ => []
  | fuel + 1, level, cs =>
    if level < jointLevels then
      (joined fuel (level + 1) cs).andThen fun lhs r => joinedTail fuel level lhs r
    else power fuel cs

def joinedTail : (fuel level : Nat) → Node → List Char → Outcomes Node
  | 0, _, _, _ => []
  | fuel + 1, level, lhs, cs =>
    match jointAt level cs with
    | none => one lhs cs
    | some (joint, r) =>
      (joined fuel (level + 1) r).andThen fun rhs r =>
        joinedTail fuel level (joint.build lhs rhs) r

/-- Powers group to the right, and no operator stands before the base. -/
def power : (fuel : Nat) → List Char → Outcomes Node
  | 0, _ => []
  | fuel + 1, cs =>
    match unaryAt cs with
    | some _ => unary fuel cs
    | none =>
      (update fuel cs).andThen fun base r =>
        match mark "**" r with
        | none => one base r
        | some r => (power fuel r).giving (.power base ·)

def unary : (fuel : Nat) → List Char → Outcomes Node
  | 0, _ => []
  | fuel + 1, cs =>
    match unaryAt cs with
    | some (op, r) => (unary fuel r).giving (.unary op ·)
    | none => update fuel cs

def update : (fuel : Nat) → List Char → Outcomes Node
  | 0, _ => []
  | fuel + 1, cs =>
    match updateAt cs with
    | some (op, r) => (unary fuel r).giving (.prefixUpdate op ·)
    | none =>
      (operand fuel cs).andThen fun x r =>
        match updateAt r with
        | some (op, r') => [(.postfixUpdate x op, r'), (x, r)]
        | none => one x r

/-- A primary expression with its links. No link follows a `new` without arguments. -/
def operand : (fuel : Nat) → List Char → Outcomes Node
  | 0, _ => []
  | fuel + 1, cs =>
    match keyword "new" (skipBlanks cs) with
    | some r =>
      (construction fuel r).andThen fun x r => if x.2 then links fuel x.1 r else one x.1 r
    | none => (primary fuel cs).andThen fun x r => links fuel x r

/-- What follows `new`, and whether the construction has its arguments. -/
def construction : (fuel : Nat) → List Char → Outcomes (Node × Bool)
  | 0, _ => []
  | fuel + 1, cs =>
    let callee :=
      match keyword "new" (skipBlanks cs) with
      | some r => construction fuel r
      | none => (primary fuel cs).giving (·, true)
    callee.andThen fun x r =>
      if x.2 then
        (memberLinks fuel x.1 r).andThen fun callee r =>
          match mark "(" r with
          | some r => (itemsTo ")" (element fuel) r).giving fun args => (.construct callee args, true)
          | none => one (.construct callee [], false) r
      else one (.construct x.1 [], false) r

/-- The links that may stand in the callee of a construction. -/
def memberLinks : (fuel : Nat) → Node → List Char → Outcomes Node
  | 0, _, _ => []
  | fuel + 1, x, cs =>
    match (mark "." cs).bind fun r => word (skipBlanks r) with
    | some (w, r) => memberLinks fuel (.member false x (token .propertyName w)) r
    | none =>
      match mark "[" cs with
      | some r =>
        ((expression fuel r).closedBy "]").andThen fun key r =>
          memberLinks fuel (.index false x key) r
      | none =>
        match template (skipBlanks cs) with
        | some (t, r) => memberLinks fuel (.tagged x (token .template t)) r
        | none => one x cs

def links : (fuel : Nat) → Node → List Char → Outcomes Node
  | 0, _, _ => []
  | fuel + 1, x, cs =>
    match (mark "." cs).bind fun r => word (skipBlanks r) with
    | some (w, r) => links fuel (.member false x (token .propertyName w)) r
    | none =>
      match mark "[" cs with
      | some r =>
        ((expression fuel r).closedBy "]").andThen fun key r => links fuel (.index false x key) r
      | none =>
        match mark "(" cs with
        | some r =>
          (itemsTo ")" (element fuel) r).andThen fun args r => links fuel (.call false x args) r
        | none =>
          match template (skipBlanks cs) with
          | some (t, r) => links fuel (.tagged x (token .template t)) r
          | none =>
            match optionalAt cs with
            | some r => optionalLink fuel x r
            | none => one x cs

/-- What follows the mark of an optional link. -/
def optionalLink : (fuel : Nat) → Node → List Char → Outcomes Node
  | 0, _, _ => []
  | fuel + 1, x, cs =>
    match mark "[" cs with
    | some r =>
      ((expression fuel r).closedBy "]").andThen fun key r => links fuel (.index true x key) r
    | none =>
      match mark "(" cs with
      | some r =>
        (itemsTo ")" (element fuel) r).andThen fun args r => links fuel (.call true x args) r
      | none =>
        match word (skipBlanks cs) with
        | some (w, r) => links fuel (.member true x (token .propertyName w)) r
        | none => []

/-- An argument or an item of an array. -/
def element : (fuel : Nat) → List Char → Outcomes Node
  | 0, _ => []
  | fuel + 1, cs =>
    match mark "..." cs with
    | some r => (expression fuel r).giving .spread
    | none => expression fuel cs

def objectMember : (fuel : Nat) → List Char → Outcomes Node
  | 0, _ => []
  | fuel + 1, cs =>
    match mark "..." cs with
    | some r => (expression fuel r).giving .spread
    | none =>
      match string (skipBlanks cs) with
      | some (t, r) =>
        match mark ":" r with
        | some r => (expression fuel r).giving (.property (token .string t) ·)
        | none => []
      | none =>
        match word (skipBlanks cs) with
        | some (w, r) =>
          match mark ":" r with
          | some r => (expression fuel r).giving (.property (token .propertyName w) ·)
          | none => if isReserved w then [] else one (.shorthand (token .name w)) r
        | none => []

def primary : (fuel : Nat) → List Char → Outcomes Node
  | 0, _ => []
  | fuel + 1, cs =>
    match skipBlanks cs with
    | [] => []
    | '(' :: r => (expression fuel r).closedBy ")"
    | '[' :: r => (itemsToSpare "]" (element fuel) r).giving .array
    | '{' :: r => (itemsToSpare "\x7d" (objectMember fuel) r).giving .object
    | '/' :: r => leafOutcomes .regex .regex (regex ('/' :: r))
    | '\x60' :: r => leafOutcomes .template .template (template ('\x60' :: r))
    | '\'' :: r => leafOutcomes .string .string (string ('\'' :: r))
    | '"' :: r => leafOutcomes .string .string (string ('"' :: r))
    | cs =>
      match word cs with
      | some (w, r) => if w == "function".toList then functionRest fuel r else wordOutcomes w r
      | none => leafOutcomes .number .number (number cs)

/-- A function expression after its keyword. -/
def functionRest : (fuel : Nat) → List Char → Outcomes Node
  | 0, _ => []
  | fuel + 1, cs =>
    match mark "(" cs with
    | none => []
    | some r =>
      (itemsTo ")" (patternElement fuel) r).andThen fun params r =>
        match (mark "\x7b" r).bind (mark "return") with
        | none => []
        | some r =>
          (expression fuel r).andThen fun body r =>
            match mark "\x7d" ((mark ";" r).getD r) with
            | some r => one (.function params body) r
            | none => []

def patternElement : (fuel : Nat) → List Char → Outcomes Node
  | 0, _ => []
  | fuel + 1, cs =>
    match mark "..." cs with
    | some r => (bindingTarget fuel r).giving .patternRest
    | none => (bindingTarget fuel cs).andThen fun x r => defaulted fuel x r

/-- A target with its default value, if it has one. -/
def defaulted : (fuel : Nat) → Node → List Char → Outcomes Node
  | 0, _, _ => []
  | fuel + 1, x, cs =>
    match mark "=" cs with
    | some r => (ternary fuel r).giving (.patternDefault x ·)
    | none => one x cs

def bindingTarget : (fuel : Nat) → List Char → Outcomes Node
  | 0, _ => []
  | fuel + 1, cs =>
    match mark "[" cs with
    | some r => (itemsTo "]" (patternElement fuel) r).giving .arrayPattern
    | none =>
      match mark "\x7b" cs with
      | some r => (itemsTo "\x7d" (objectPatternItem fuel) r).giving .objectPattern
      | none =>
        match plainName cs with
        | some (w, r) => one (.bindingName (token .name w)) r
        | none => []

def objectPatternItem : (fuel : Nat) → List Char → Outcomes Node
  | 0, _ => []
  | fuel + 1, cs =>
    match mark "..." cs with
    | some r =>
      match plainName r with
      | some (w, r) => one (.patternRest (.bindingName (token .name w))) r
      | none => []
    | none =>
      match word (skipBlanks cs) with
      | none => []
      | some (w, r) =>
        match mark ":" r with
        | some r => (patternElement fuel r).giving (.propertyPattern (token .propertyName w) ·)
        | none =>
          if isReserved w then [] else defaulted fuel (.bindingName (token .name w)) r

end

def depthPerChar : Nat := 32

def fuelFor (cs : List Char) : Nat := depthPerChar * (cs.length + 1)

/-- The first outcome that leaves nothing but blanks. -/
def whole? (os : Outcomes Node) : Option Node :=
  (os.find? fun o => (skipBlanks o.2).isEmpty).map (·.1)

def expression? (text : String) : Option Node :=
  let cs := text.toList
  whole? (expression (fuelFor cs) cs)

def pattern? (text : String) : Option Node :=
  let cs := text.toList
  whole? (patternElement (fuelFor cs) cs)

end Comprehend.Parser
