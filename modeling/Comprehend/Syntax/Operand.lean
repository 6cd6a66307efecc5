import Comprehend.Fault
import Comprehend.Syntax.Parser

/-! Operand readers: how the text of a yield, an iterable, a condition or a pattern becomes a tree.
The script reader goes by the expression grammar; the verbatim one takes any text for a node of its
own and refuses none. -/

namespace Comprehend

structure OperandReader where
  expression : String → Except Fault Node
  pattern : String → Except Fault Node

/-- Reads an expression. -/
def parseExpression (text : String) : Except Fault Node :=
  if Text.isBlankText text then .error .blankExpression
  else
    match Parser.expression? text with
    | some x => .ok x
    | none => .error (.badExpression text)

/-- Reads a binding pattern, which is one formal parameter. -/
def parsePattern (text : String) : Except Fault Node :=
  if Text.isBlankText text then .error .blankPattern
  else
    match Parser.pattern? text with
    | some x => .ok x
    | none => .error (.badPattern text)

def OperandReader.script : OperandReader := ⟨parseExpression, parsePattern⟩

def OperandReader.verbatim : OperandReader :=
  { expression := fun text => .ok (.other "stub" [.token ⟨.other "TEXT", text⟩])
    pattern := fun text => .ok (.other "pattern" [.token ⟨.other "TEXT", text⟩]) }

end Comprehend
