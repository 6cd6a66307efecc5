/-! Syntax trees of the expression language. One type holds expressions, binding patterns, the
parts of both, and the loop chains that stand for comprehensions, so that a chain can stand wherever
an expression can. Tokens keep their class and their text as written. Trees assembled by hand may
also hold a bare token, a node of an unknown label, or a plain datum that is no node at all. -/

namespace Comprehend

inductive TokenClass
  | name
  | propertyName
  | number
  | string
  | template
  | regex
  | unaryOp
  | unaryKeyword
  | updateOp
  | other (label : String)
  deriving DecidableEq, Repr

structure Token where
  cls : TokenClass
  text : String
  deriving DecidableEq, Repr

/-- The binary operators by binding strength, loosest first. -/
inductive OperatorGroup
  | bitOr
  | bitXor
  | bitAnd
  | equality
  | relational
  | shift
  | additive
  | multiplicative
  deriving DecidableEq, Repr

/-- Expressions that are one token. -/
inductive LeafKind
  | number
  | string
  | template
  | regex
  | name
  deriving DecidableEq, Repr

inductive Constant
  | true
  | false
  | null
  | undefined
  deriving DecidableEq, Repr

inductive LogicalOp
  | coalesce
  | or
  | and
  deriving DecidableEq, Repr

/-- The links of a loop chain. -/
inductive Combinator
  | filter
  | map
  | flatMap
  deriving DecidableEq, Repr

/-- A plain datum in the place of a node. -/
inductive Datum
  | null
  | bool (b : Bool)
  | int (n : Int)
  deriving DecidableEq, Repr

mutual

inductive Node
  | leaf (kind : LeafKind) (token : Token)
  | constant (value : Constant)
  | array (items : List Node)
  | object (members : List Node)
  | spread (value : Node)
  | property (key : Token) (value : Node)
  | shorthand (name : Token)
  | arrow (params : List Node) (body : Node)
  | function (params : List Node) (body : Node)
  | ternary (test yes no : Node)
  | logical (op : LogicalOp) (lhs rhs : Node)
  | binary (group : OperatorGroup) (op : String) (lhs rhs : Node)
  | power (base exponent : Node)
  | unary (op : Token) (operand : Node)
  | prefixUpdate (op : Token) (operand : Node)
  | postfixUpdate (operand : Node) (op : Token)
  | member (optional : Bool) (target : Node) (name : Token)
  | index (optional : Bool) (target key : Node)
  | call (optional : Bool) (callee : Node) (args : List Node)
  | construct (callee : Node) (args : List Node)
  | tagged (tag : Node) (template : Token)
  | params (items : List Node)
  | bindingName (name : Token)
  | arrayPattern (items : List Node)
  | objectPattern (items : List Node)
  | patternDefault (target value : Node)
  | patternRest (target : Node)
  | propertyPattern (key : Token) (target : Node)
  | token (token : Token)
  | datum (value : Datum)
  | other (label : String) (children : List Node)
  | chain (op : Combinator) (source : Node) (param : Param) (body : Node)

/-- What the callback of a chain link binds: a plain name or a pattern. -/
inductive Param
  | name (text : String)
  | pattern (node : Node)

end

def Param.isPattern : Param → Bool
  | .name _ => false
  | .pattern _ => true

namespace Node

def isChain : Node → Bool
  | .chain .. => true
  | _ => false

/-- A link of a member chain, which an optional link below it may cut short. -/
def isLink : Node → Bool
  | .member .. => true
  | .index .. => true
  | .call .. => true
  | _ => false

def isObject : Node → Bool
  | .object _ => true
  | _ => false

end Node

end Comprehend
