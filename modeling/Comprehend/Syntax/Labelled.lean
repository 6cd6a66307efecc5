import Comprehend.Syntax.Node

/-! The labelled view of a tree: every node is a label over a list of children, and its tokens are
children too. A label over children of the right shape gives the node back; any other is kept as a
node of an unknown kind. -/

namespace Comprehend

def TokenClass.label : TokenClass → String
  | .name => "NAME"
  | .propertyName => "PROPERTY_NAME"
  | .number => "NUMBER"
  | .string => "STRING"
  | .template => "TEMPLATE"
  | .regex => "REGEX"
  | .unaryOp => "UNARY_OP"
  | .unaryKeyword => "UNARY_KEYWORD"
  | .updateOp => "UPDATE_OP"
  | .other label => label

def TokenClass.ofLabel (label : String) : TokenClass :=
  match [TokenClass.name, .propertyName, .number, .string, .template, .regex, .unaryOp,
      .unaryKeyword, .updateOp].find? (·.label == label) with
  | some c => c
  | none => .other label

theorem TokenClass.label_ofLabel (label : String) : (ofLabel label).label = label := by
  unfold ofLabel
  split
  · next c h => exact beq_iff_eq.1 (List.find?_some (p := fun c : TokenClass => c.label == label) h)
  · rfl

def OperatorGroup.label : OperatorGroup → String
  | .bitOr => "BITOR_OP"
  | .bitXor => "BITXOR_OP"
  | .bitAnd => "BITAND_OP"
  | .equality => "EQUALITY_OP"
  | .relational => "RELATIONAL_OP"
  | .shift => "SHIFT_OP"
  | .additive => "ADDITIVE_OP"
  | .multiplicative => "MULTIPLICATIVE_OP"

def OperatorGroup.all : List OperatorGroup :=
  [.bitOr, .bitXor, .bitAnd, .equality, .relational, .shift, .additive, .multiplicative]

def OperatorGroup.ofLabel? (label : String) : Option OperatorGroup :=
  OperatorGroup.all.find? (·.label == label)

theorem OperatorGroup.ofLabel?_label (g : OperatorGroup) : ofLabel? g.label = some g := by
  cases g <;> decide

def LeafKind.label : LeafKind → String
  | .number => "number"
  | .string => "string"
  | .template => "template"
  | .regex => "regex"
  | .name => "name"

def Constant.label : Constant → String
  | .true => "true_lit"
  | .false => "false_lit"
  | .null => "null_lit"
  | .undefined => "undefined_lit"

def LogicalOp.label : LogicalOp → String
  | .coalesce => "coalesce"
  | .or => "logical_or"
  | .and => "logical_and"

def Combinator.label : Combinator → String
  | .filter => "filter"
  | .map => "map"
  | .flatMap => "flatMap"

namespace Node

def label : Node → String
  | .leaf kind _ => kind.label
  | .constant value => value.label
  | .array _ => "array"
  | .object _ => "object"
  | .spread _ => "spread"
  | .property .. => "property"
  | .shorthand _ => "shorthand"
  | .arrow .. => "arrow"
  | .function .. => "function_expr"
  | .ternary .. => "ternary"
  | .logical op .. => op.label
  | .binary .. => "binary"
  | .power .. => "power"
  | .unary .. => "unary"
  | .prefixUpdate .. => "prefix_update"
  | .postfixUpdate .. => "postfix_update"
  | .member optional .. => if optional then "optional_member" else "member"
  | .index optional .. => if optional then "optional_index" else "index"
  | .call optional .. => if optional then "optional_call" else "call"
  | .construct .. => "new"
  | .tagged .. => "tagged_template"
  | .params _ => "params"
  | .bindingName _ => "binding_name"
  | .arrayPattern _ => "array_pattern"
  | .objectPattern _ => "object_pattern"
  | .patternDefault .. => "pattern_default"
  | .patternRest _ => "pattern_rest"
  | .propertyPattern .. => "property_pattern"
  | .token t => t.cls.label
  | .datum _ => ""
  | .other label _ => label
  | .chain op .. => op.label

def children : Node → List Node
  | .leaf _ t => [.token t]
  | .constant _ => []
  | .array items => items
  | .object members => members
  | .spread value => [value]
  | .property key value => [.token key, value]
  | .shorthand name => [.token name]
  | .arrow ps body => [.params ps, body]
  | .function ps body => [.params ps, body]
  | .ternary test yes no => [test, yes, no]
  | .logical _ lhs rhs => [lhs, rhs]
  | .binary group op lhs rhs => [lhs, .token ⟨.other group.label, op⟩, rhs]
  | .power base exponent => [base, exponent]
  | .unary op operand => [.token op, operand]
  | .prefixUpdate op operand => [.token op, operand]
  | .postfixUpdate operand op => [operand, .token op]
  | .member _ target name => [target, .token name]
  | .index _ target key => [target, key]
  | .call _ callee args => callee :: args
  | .construct callee args => callee :: args
  | .tagged tag template => [tag, .token template]
  | .params items => items
  | .bindingName name => [.token name]
  | .arrayPattern items => items
  | .objectPattern items => items
  | .patternDefault target value => [target, value]
  | .patternRest target => [target]
  | .propertyPattern key target => [.token key, target]
  | .token _ => []
  | .datum _ => []
  | .other _ children => children
  | .chain .. => []

/-- The node with a label and these children. -/
def ofLabel (label : String) (children : List Node) : Node :=
  match label, children with
  | "number", [.token t] => .leaf .number t
  | "string", [.token t] => .leaf .string t
  | "template", [.token t] => .leaf .template t
  | "regex", [.token t] => .leaf .regex t
  | "name", [.token t] => .leaf .name t
  | "true_lit", [] => .constant .true
  | "false_lit", [] => .constant .false
  | "null_lit", [] => .constant .null
  | "undefined_lit", [] => .constant .undefined
  | "array", items => .array items
  | "object", members => .object members
  | "spread", [value] => .spread value
  | "property", [.token key, value] => .property key value
  | "shorthand", [.token name] => .shorthand name
  | "arrow", [.params ps, body] => .arrow ps body
  | "function_expr", [.params ps, body] => .function ps body
  | "ternary", [test, yes, no] => .ternary test yes no
  | "coalesce", [lhs, rhs] => .logical .coalesce lhs rhs
  | "logical_or", [lhs, rhs] => .logical .or lhs rhs
  | "logical_and", [lhs, rhs] => .logical .and lhs rhs
  | "binary", [lhs, .token op, rhs] =>
    match OperatorGroup.ofLabel? op.cls.label with
    | some group => .binary group op.text lhs rhs
    | none => .other label children
  | "power", [base, exponent] => .power base exponent
  | "unary", [.token op, operand] => .unary op operand
  | "prefix_update", [.token op, operand] => .prefixUpdate op operand
  | "postfix_update", [operand, .token op] => .postfixUpdate operand op
  | "member", [target, .token name] => .member false target name
  | "optional_member", [target, .token name] => .member true target name
  | "index", [target, key] => .index false target key
  | "optional_index", [target, key] => .index true target key
  | "call", callee :: args => .call false callee args
  | "optional_call", callee :: args => .call true callee args
  | "new", callee :: args => .construct callee args
  | "tagged_template", [tag, .token template] => .tagged tag template
  | "params", items => .params items
  | "binding_name", [.token name] => .bindingName name
  | "array_pattern", items => .arrayPattern items
  | "object_pattern", items => .objectPattern items
  | "pattern_default", [target, value] => .patternDefault target value
  | "pattern_rest", [target] => .patternRest target
  | "property_pattern", [.token key, target] => .propertyPattern key target
  | label, children => .other label children

end Node

end Comprehend
