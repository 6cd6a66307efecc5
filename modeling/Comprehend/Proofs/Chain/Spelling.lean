import Comprehend.Proofs.Chain.Level

/-! # Spelled chains

A chain has a value only when its links are spelled as expressions. The method call that a link is
lowered to is one spelling, and each dialect has its own: the callback may be a function expression,
a library object may take the source for an argument, and where there is no flattening method the
arrays are concatenated by a call that goes through them. -/

namespace Comprehend

namespace Node

/-- A tree with the links of its chain spelled as expressions. -/
def spelled (spell : Combinator → Node → Param → Node → Node) : Node → Node
  | .chain op source param body =>
    spell op (spelled spell source) param (spelled spell body)
  | x => x

theorem spelled_eq_self {spell : Combinator → Node → Param → Node → Node} {x : Node}
    (h : x.isChain = false) : x.spelled spell = x := by
  cases x <;> simp_all [spelled, isChain]

theorem lower_eq_spelled (x : Node) : x.lower = x.spelled linkCall := by
  cases x with
  | chain op source param body =>
    rw [lower, spelled, lower_eq_spelled source, lower_eq_spelled body]
  | _ => rfl

/-- A link as a method call, with a class for the method's name and a kind of callback. -/
def methodCall (cls : TokenClass) (callback : List Node → Node → Node) (op : Combinator)
    (source : Node) (param : Param) (body : Node) : Node :=
  .call false (.member false source ⟨cls, op.method⟩) [callback [param.node] body]

theorem linkCall_eq_methodCall : linkCall = methodCall .name .arrow := rfl

end Node

/-- The expression that a callback is in a dialect. -/
def Dialect.callback : Dialect → List Node → Node → Node
  | .es5 => .function
  | _ => .arrow

/-- The expression that a link is in a dialect. -/
def Dialect.spell (d : Dialect) (op : Combinator) (source : Node) (param : Param) (body : Node) :
    Node :=
  match d, op with
  | .es2019, op => Node.methodCall .propertyName .arrow op source param body
  | .es5, .flatMap =>
    let concat : Node := .member false (.array []) ⟨.propertyName, "concat"⟩
    .call false (.member false concat ⟨.propertyName, "apply"⟩)
      [.array [], Node.methodCall .propertyName .function .map source param body]
  | .es5, op => Node.methodCall .propertyName .function op source param body
  | .lodash, op =>
    .call false (.member false (.leaf .name ⟨.name, "_"⟩) ⟨.propertyName, op.method⟩)
      [source, .arrow [param.node] body]

end Comprehend
