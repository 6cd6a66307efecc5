import Comprehend.Dialect

/-! Chains as plain expressions: a link becomes a method call on its source with an arrow function
for its callback. Sources and bodies that are no chains stay as they are. -/

namespace Comprehend

def Param.node : Param → Node
  | .name text => .bindingName ⟨.name, text⟩
  | .pattern p => p

namespace Node

/-- The method call that a link stands for. -/
def linkCall (op : Combinator) (source : Node) (param : Param) (body : Node) : Node :=
  .call false (.member false source ⟨.name, op.method⟩) [.arrow [param.node] body]

def lower : Node → Node
  | .chain op source param body => linkCall op (lower source) param (lower body)
  | x => x

theorem lower_eq_self {x : Node} (h : x.isChain = false) : x.lower = x := by
  cases x <;> simp_all [lower, isChain]

theorem isChain_lower (x : Node) : x.lower.isChain = false := by
  cases x <;> rfl

theorem lower_lower (x : Node) : x.lower.lower = x.lower := lower_eq_self (isChain_lower x)

end Node

end Comprehend
