import Comprehend.Fault
import Comprehend.Syntax.Lexeme

/-! Plain loop variables. A variable is a word that the language does not reserve; one line end may
follow it. -/

namespace Comprehend.Variable

def reservedWords : List String :=
  ["await", "break", "case", "catch", "class", "const", "continue", "debugger", "default", "delete",
    "do", "else", "enum", "export", "extends", "false", "finally", "for", "function", "if", "import",
    "in", "instanceof", "let", "new", "null", "return", "super", "switch", "this", "throw", "true",
    "try", "typeof", "undefined", "var", "void", "while", "with", "yield"]

/-- A word, or a word and a line end. -/
def isWordLine (cs : List Char) : Bool :=
  match Lexeme.word cs with
  | some (_, rest) => rest == [] || rest == ['\n']
  | none => false

def validate (name : String) : Except Fault Unit :=
  if name.isEmpty then .error .emptyVariable
  else if !isWordLine name.toList then .error (.badVariable name)
  else if reservedWords.contains name then .error (.reservedVariable name)
  else .ok ()

theorem validate_eq_ok_iff {name : String} :
    validate name = .ok () ↔
      name.isEmpty = false ∧ isWordLine name.toList = true ∧ name ∉ reservedWords := by
  unfold validate
  split
  · simp_all
  · split
    · simp_all
    · split <;> simp_all

end Comprehend.Variable
