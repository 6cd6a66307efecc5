import Comprehend.Chain.Variable
import Comprehend.Clause.Basic
import Comprehend.Syntax.Operand

/-! From clauses to a chain. Every clause is one level: the innermost maps, the outer ones flatten
what they map, and a condition filters the iterable of its level first. Operands are read in a fixed
order: the yield, then the clauses from the innermost out, each its iterable, its binding and its
condition. -/

namespace Comprehend.Chain

def defaultMaxClauses : Int := 8

def binding (reader : OperandReader) (clause : Clause) : Except Fault Param :=
  if clause.isDestructuring then (reader.pattern clause.pattern).map .pattern
  else (Variable.validate clause.pattern).map fun _ => .name clause.pattern

/-- One level around a body. -/
def level (reader : OperandReader) (clause : Clause) (op : Combinator) (body : Node) :
    Except Fault Node := do
  let source ← reader.expression clause.iterable
  let param ← binding reader clause
  match clause.condition with
  | none => return .chain op source param body
  | some condition =>
    let test ← reader.expression condition
    return .chain op (.chain .filter source param test) param body

/-- The levels of all clauses around the yield. -/
def fold (reader : OperandReader) (body : Node) : List Clause → Except Fault Node
  | [] => .ok body
  | [clause] => level reader clause .map body
  | clause :: rest => do level reader clause .flatMap (← fold reader body rest)

def build (reader : OperandReader) (maxClauses : Int) (yield : String) (clauses : List Clause) :
    Except Fault Node :=
  if clauses.isEmpty then .error .noClauses
  else if maxClauses < clauses.length then .error (.tooManyClauses clauses.length maxClauses)
  else do fold reader (← reader.expression yield) clauses

theorem build_nil (reader : OperandReader) (maxClauses : Int) (yield : String) :
    build reader maxClauses yield [] = .error .noClauses := rfl

end Comprehend.Chain
