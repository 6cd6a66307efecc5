import Comprehend.Dialect
import Comprehend.Syntax.Layout

/-! Printing trees and loop chains. Parentheses follow from how tightly a node binds and from nothing
else, save a few places where the grammar asks for them: a nullish operator beside the other
logical ones, a number or a brace in front of a link, a call in the callee of `new`, an object as
the body of an arrow. Every node is followed by a checkpoint of the output limit. -/

namespace Comprehend

open Layout

def OperatorGroup.precedence : OperatorGroup → Nat
  | .bitOr => 5
  | .bitXor => 6
  | .bitAnd => 7
  | .equality => 8
  | .relational => 9
  | .shift => 10
  | .additive => 11
  | .multiplicative => 12

def LogicalOp.precedence : LogicalOp → Nat
  | .coalesce => 3
  | .or => 3
  | .and => 4

def LogicalOp.text : LogicalOp → String
  | .coalesce => "??"
  | .or => "||"
  | .and => "&&"

def Constant.text : Constant → String
  | .true => "true"
  | .false => "false"
  | .null => "null"
  | .undefined => "undefined"

/-- The name of a datum's kind. -/
def Datum.kind : Datum → String
  | .null => "NoneType"
  | .bool _ => "bool"
  | .int _ => "int"

/-- The name of a link's kind. -/
def Combinator.kind : Combinator → String
  | .filter => "Filter"
  | .map => "Map"
  | .flatMap => "FlatMap"

namespace Precedence

def assignment : Nat := 2
def conditional : Nat := 3
def power : Nat := 13
def unary : Nat := 14
def postfixUpdate : Nat := 15
def link : Nat := 17
def primary : Nat := 18

end Precedence

namespace Node

/-- How tightly a node binds. -/
def precedence : Node → Nat
  | .arrow .. | .ternary .. => Precedence.assignment
  | .logical op .. => op.precedence
  | .binary group .. => group.precedence
  | .power .. => Precedence.power
  | .unary .. | .prefixUpdate .. => Precedence.unary
  | .postfixUpdate .. => Precedence.postfixUpdate
  | .member .. | .index .. | .call .. | .tagged .. | .construct .. | .chain .. => Precedence.link
  | _ => Precedence.primary

/-- The nullish operator does not stand beside the other two without parentheses. -/
def mixesWith (op : LogicalOp) : Node → Bool
  | .logical .coalesce .. => op != .coalesce
  | .logical .. => op == .coalesce
  | _ => false

/-- A literal that no link may follow directly. -/
def needsParens : Node → Bool
  | .leaf .number _ | .object _ | .function .. => true
  | _ => false

/-- Whether a chain of plain members starts from a call or an optional link. -/
def startsFromCall : Node → Bool
  | .member optional target _ => optional || startsFromCall target
  | .index optional target _ => optional || startsFromCall target
  | .tagged tag _ => startsFromCall tag
  | .call .. => true
  | _ => false

def hasOptionalLink : Node → Bool
  | .member optional target _ => optional || hasOptionalLink target
  | .index optional target _ => optional || hasOptionalLink target
  | .call optional callee _ => optional || hasOptionalLink callee
  | .tagged tag _ => hasOptionalLink tag
  | _ => false

end Node

/-- A sign in front of another one is set off from it. -/
def signGap (op : Token) (operand : Node) : String :=
  let isSign (s : String) : Bool := s == "-" || s == "+"
  let follows : Bool :=
    match operand with
    | .prefixUpdate .. => true
    | .unary op _ => isSign op.text
    | _ => false
  if op.cls = .unaryKeyword || (isSign op.text && follows) then " " else ""

/-- How chains are printed. -/
structure ChainStyle where
  dialect : Dialect
  parenthesizeSources : Bool

namespace Layout

/-- A node where only what binds at least as tightly as `precedence` stands without parentheses. -/
def slot (precedence : Nat) (x : Node) (ps : List Piece) : List Piece :=
  (if x.precedence < precedence then parenthesized ps else ps) ++ [.checkpoint]

/-- A node in front of a link. -/
def receiver (x : Node) (ps : List Piece) : List Piece :=
  if x.needsParens then parenthesized (slot 0 x ps) else slot Precedence.link x ps

/-- The callee of a construction. -/
def constructed (x : Node) (ps : List Piece) : List Piece :=
  if x.startsFromCall || x.precedence < Precedence.link then parenthesized (slot 0 x ps)
  else slot 0 x ps

/-- The body of an arrow function. -/
def arrowBody (x : Node) (ps : List Piece) : List Piece :=
  if x.isObject then parenthesized (slot 0 x ps) else slot Precedence.assignment x ps

/-- A single plain parameter stands without parentheses. -/
def parameters (params : List Node) (ps : List Piece) : List Piece :=
  match params with
  | [.bindingName t] => [.text t.text, .checkpoint]
  | _ => parenthesized ps

/-- Braces around a list, set off from it unless it is empty. -/
def braced (items : List Node) (ps : List Piece) : List Piece :=
  if items.isEmpty then [.text "\x7b\x7d"] else .text "\x7b " :: ps ++ [.text " \x7d"]

/-- The iterable of a link. -/
def source (style : ChainStyle) (x : Node) (ps : List Piece) : List Piece :=
  if x.isChain then slot 0 x ps
  else if style.parenthesizeSources then parenthesized (slot 0 x ps)
  else if style.dialect.hasReceivers then
    (if x.hasOptionalLink then parenthesized (slot 0 x ps) else receiver x ps)
  else slot style.dialect.sourcePrecedence x ps

/-- The callback of a link, its parameter printed already or refused. -/
def callback (style : ChainStyle) (isPattern : Bool) (param : Except Fault String)
    (body : List Piece) : List Piece :=
  match param with
  | .error fault => [.refuse fault]
  | .ok p =>
    if isPattern && !style.dialect.supportsPatterns then
      [.refuse (.noDestructuring style.dialect.name p)]
    else
      match style.dialect with
      | .es5 =>
        .text ("function (" ++ p ++ ") \x7b return ") :: body ++ [.text "; \x7d"]
      | _ => .text ((if isPattern then "(" ++ p ++ ")" else p) ++ " => ") :: body

def methodCall (method : String) (source callback : List Piece) : List Piece :=
  source ++ .text ("." ++ method ++ "(") :: callback ++ [.text ")"]

/-- One link of a chain. -/
def link (style : ChainStyle) (op : Combinator) (source callback : List Piece) : List Piece :=
  match style.dialect, op with
  | .lodash, op =>
    .text ("_." ++ op.method ++ "(") :: source ++ .text ", " :: callback ++ [.text ")"]
  | .es5, .flatMap =>
    .text "[].concat.apply([], " :: methodCall "map" source callback ++ [.text ")"]
  | _, op => methodCall op.method source callback

def defaultLimit : Int := 50000

mutual

/-- The pieces of a node. Chains have some only in a style. -/
def pieces (style : Option ChainStyle) : Node → List Piece
  | .leaf _ t => [.text t.text]
  | .constant value => [.text value.text]
  | .array items => .text "[" :: listed style true items ++ [.text "]"]
  | .object members => braced members (listed style true members)
  | .spread x => .text "..." :: slot Precedence.assignment x (pieces style x)
  | .property key x => .text (key.text ++ ": ") :: slot Precedence.assignment x (pieces style x)
  | .shorthand name => [.text name.text]
  | .arrow ps body =>
    parameters ps (listed style true ps) ++ .text " => " :: arrowBody body (pieces style body)
  | .function ps body =>
    .text "function (" :: listed style true ps ++ .text ") \x7b return " ::
      slot Precedence.assignment body (pieces style body) ++ [.text "; \x7d"]
  | .ternary test yes no =>
    slot Precedence.conditional test (pieces style test) ++ .text " ? " ::
      slot Precedence.assignment yes (pieces style yes) ++ .text " : " ::
      slot Precedence.assignment no (pieces style no)
  | .logical op lhs rhs =>
    slot (if lhs.mixesWith op then Precedence.primary else op.precedence) lhs (pieces style lhs) ++
      .text (" " ++ op.text ++ " ") ::
      slot (if rhs.mixesWith op then Precedence.primary else op.precedence + 1) rhs
        (pieces style rhs)
  | .binary group op lhs rhs =>
    slot group.precedence lhs (pieces style lhs) ++ .text (" " ++ op ++ " ") ::
      slot (group.precedence + 1) rhs (pieces style rhs)
  | .power base exponent =>
    slot Precedence.postfixUpdate base (pieces style base) ++ .text " ** " ::
      slot Precedence.power exponent (pieces style exponent)
  | .unary op x =>
    .text (op.text ++ signGap op x) :: slot Precedence.unary x (pieces style x)
  | .prefixUpdate op x => .text op.text :: slot Precedence.unary x (pieces style x)
  | .postfixUpdate x op => slot Precedence.link x (pieces style x) ++ [.text op.text]
  | .member optional target name =>
    receiver target (pieces style target) ++
      [.text ((if optional then "?." else ".") ++ name.text)]
  | .index optional target key =>
    receiver target (pieces style target) ++ .text (if optional then "?.[" else "[") ::
      slot Precedence.assignment key (pieces style key) ++ [.text "]"]
  | .call optional callee args =>
    receiver callee (pieces style callee) ++ .text (if optional then "?.(" else "(") ::
      listed style true args ++ [.text ")"]
  | .construct callee args =>
    .text "new " :: constructed callee (pieces style callee) ++ .text "(" ::
      listed style true args ++ [.text ")"]
  | .tagged tag template => receiver tag (pieces style tag) ++ [.text template.text]
  | .params ps => parameters ps (listed style true ps)
  | .bindingName name => [.text name.text]
  | .arrayPattern items => .text "[" :: listed style true items ++ [.text "]"]
  | .objectPattern items => braced items (listed style true items)
  | .patternDefault target x =>
    slot 0 target (pieces style target) ++ .text " = " ::
      slot Precedence.assignment x (pieces style x)
  | .patternRest target => .text "..." :: slot 0 target (pieces style target)
  | .propertyPattern key target => .text (key.text ++ ": ") :: slot 0 target (pieces style target)
  | .token t => [.text t.text]
  | .datum value => [.refuse (.unsupported (.printedDatum value.kind))]
  | .other label _ => [.refuse (.unsupported (.printedNode label))]
  | .chain op x (.name p) body =>
    match style with
    | none => [.refuse (.unsupported (.printedDatum op.kind))]
    | some st =>
      link st op (source st x (pieces style x))
        (callback st false (.ok p) (arrowBody body (pieces style body)))
  | .chain op x (.pattern p) body =>
    match style with
    | none => [.refuse (.unsupported (.printedDatum op.kind))]
    | some st =>
      link st op (source st x (pieces style x))
        (callback st true (settle defaultLimit (slot 0 p (pieces none p)))
          (arrowBody body (pieces style body)))

/-- The pieces of a list with commas between. -/
def listed (style : Option ChainStyle) : (first : Bool) → List Node → List Piece
  | _, [] => []
  | first, x :: xs =>
    (if first then [] else [.text ", "]) ++ slot Precedence.assignment x (pieces style x) ++
      listed style false xs

end

end Layout

/-- Prints a tree, which has no chains in it. -/
def printTree (limit : Int) (x : Node) : Except Fault String :=
  settle limit (slot 0 x (pieces none x))

/-- Prints a chain, or a tree with chains in it. -/
def printChain (limit : Int) (style : ChainStyle) (x : Node) :
    Except Fault String :=
  settle limit (slot 0 x (pieces (some style) x))

end Comprehend
