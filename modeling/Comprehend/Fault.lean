import Comprehend.Text.Quoted
import Comprehend.Syntax.Labelled

/-! Why a comprehension, an expression or a tree is refused. A fault is a cause; its family says at
which stage it arose, its message is short and quotes nothing of the text, and its detail does. Where
the reason lies in a grammar the detail leaves it open. -/

namespace Comprehend

open Text

/-- What is wrong with a clause segment. -/
inductive ClauseFault
  | noGroup
  | noKeyword
  | emptyPattern
  | emptyIterable
  | trailing (rest : String)
  deriving DecidableEq, Repr

/-- What goes wrong when an expression is evaluated. -/
inductive EvaluationFault
  | unbound (name : String)
  | noProperties (key value : String)
  | notIterable (value : String)
  | notDestructurable (value : String)
  | notConstructor (value : String)
  | notFunction (value : String)
  | notSearchable (key value : String)
  | notClass
  deriving DecidableEq, Repr

/-- Expressions that the language has and the library does not print or evaluate. -/
inductive UnsupportedFault
  | printedDatum (kind : String)
  | printedNode (label : String)
  | evaluatedNode (label : String)
  | boundPattern (label : String)
  | deletion
  | scriptConstruction
  | taggedTemplate
  | substitution
  | regularExpression (source flags : String)
  deriving DecidableEq, Repr

inductive Fault
  | noLoop (raw : String)
  | emptyYield (raw : String)
  | unexpectedClose (close : String) (offset : Nat) (raw : String)
  | missingClose (close raw : String)
  | noTokens (raw : String)
  | clause (cause : ClauseFault) (segment : String)
  | unclosedGroup (opening : String)
  | noClauses
  | tooManyClauses (depth : Nat) (limit : Int)
  | blankExpression
  | badExpression (text : String)
  | blankPattern
  | badPattern (text : String)
  | emptyVariable
  | badVariable (name : String)
  | reservedVariable (name : String)
  | noDestructuring (dialect pattern : String)
  | outputTooLong (limit : Int)
  | unsupported (cause : UnsupportedFault)
  | evaluation (cause : EvaluationFault)
  deriving DecidableEq, Repr

namespace Fault

inductive Family
  | comprehension
  | clause
  | depth
  | expression
  | binding
  | dialect
  | output
  | unsupported
  | evaluation
  deriving DecidableEq, Repr

def family : Fault → Family
  | .noLoop _ | .emptyYield _ | .unexpectedClose .. | .missingClose .. | .noTokens _ =>
    .comprehension
  | .clause .. | .unclosedGroup _ => .clause
  | .noClauses | .tooManyClauses .. => .depth
  | .blankExpression | .badExpression _ | .blankPattern | .badPattern _ => .expression
  | .emptyVariable | .badVariable _ | .reservedVariable _ => .binding
  | .noDestructuring .. => .dialect
  | .outputTooLong _ => .output
  | .unsupported _ => .unsupported
  | .evaluation _ => .evaluation

/-- The number of clauses that a fault of depth complains about. -/
def depth : Fault → Nat
  | .tooManyClauses depth _ => depth
  | _ => 0

def message : Fault → String
  | .noLoop _ => "comprehension has no for clause"
  | .emptyYield _ => "comprehension has an empty yield expression"
  | .unexpectedClose .. | .missingClose .. => "comprehension has unbalanced brackets"
  | .noTokens _ => "comprehension text cannot be tokenized"
  | .clause .. | .unclosedGroup _ => "malformed comprehension clause"
  | .noClauses => "comprehension has no usable clauses"
  | .tooManyClauses .. => "comprehension nesting depth exceeded"
  | .blankExpression | .badExpression _ => "invalid expression"
  | .blankPattern | .badPattern _ => "invalid binding pattern"
  | .emptyVariable => "loop variable cannot be empty"
  | .badVariable _ => "invalid loop variable"
  | .reservedVariable _ => "loop variable is a reserved word"
  | .noDestructuring .. => "destructuring is not supported by this dialect"
  | .outputTooLong _ => "maximum output length exceeded"
  | .unsupported _ => "unsupported expression type"
  | .evaluation _ => "expression evaluation failed"

/-- Stands for a reason that a grammar gives. -/
def openReason : String := ": <detail>"

end Fault

def ClauseFault.detail (segment : String) (cause : ClauseFault) : String :=
  (match cause with
    | .noGroup => "clause must start with '('"
    | .noKeyword => "missing 'of' keyword"
    | .emptyPattern => "empty loop pattern"
    | .emptyIterable => "empty iterable expression"
    | .trailing rest => "unexpected text " ++ quoted rest ++ " after clause") ++
  ": " ++ quoted segment

def EvaluationFault.detail : EvaluationFault → String
  | .unbound name => name ++ " is not defined"
  | .noProperties key value => "cannot read property " ++ quoted key ++ " of " ++ value
  | .notIterable value => value ++ " is not iterable"
  | .notDestructurable value => "cannot destructure " ++ value
  | .notConstructor value => value ++ " is not a constructor"
  | .notFunction value => value ++ " is not a function"
  | .notSearchable key value => "cannot use 'in' to search for " ++ quoted key ++ " in " ++ value
  | .notClass => "right-hand side of 'instanceof' is not callable"

def UnsupportedFault.detail : UnsupportedFault → String
  | .printedDatum kind => "cannot print " ++ kind
  | .printedNode label => "cannot print node " ++ quoted label
  | .evaluatedNode label => "cannot evaluate node " ++ quoted label
  | .boundPattern label => "cannot bind pattern " ++ quoted label
  | .deletion => "delete is not supported"
  | .scriptConstruction => "constructing script functions is not supported"
  | .taggedTemplate => "tagged templates must be rewritten before evaluation"
  | .substitution => "template substitutions are not supported"
  | .regularExpression source flags =>
    "cannot translate regular expression /" ++ source ++ "/" ++ flags ++ Fault.openReason

def Fault.detail : Fault → String
  | .noLoop raw => "no top-level 'for' separator in " ++ quoted raw
  | .emptyYield raw => "nothing precedes the first 'for' in " ++ quoted raw
  | .unexpectedClose close offset raw =>
    "unexpected " ++ quoted close ++ " at offset " ++ toString offset ++ " in " ++ quoted raw
  | .missingClose close raw => "unclosed bracket, expected " ++ quoted close ++ " in " ++ quoted raw
  | .noTokens raw => "cannot tokenize " ++ quoted raw ++ openReason
  | .clause cause segment => cause.detail segment
  | .unclosedGroup opening => "unclosed " ++ quoted opening ++ " in clause"
  | .noClauses => "cannot generate a chain from zero clauses"
  | .tooManyClauses depth limit =>
    "depth " ++ toString depth ++ " exceeds limit " ++ toString limit
  | .blankExpression => "empty expression text"
  | .badExpression text => "cannot parse expression " ++ quoted text ++ openReason
  | .blankPattern => "empty pattern text"
  | .badPattern text => "cannot parse binding pattern " ++ quoted text ++ openReason
  | .emptyVariable => "empty loop variable provided"
  | .badVariable name => "loop variable '" ++ name ++ "' is not a valid identifier"
  | .reservedVariable name => "loop variable '" ++ name ++ "' is a reserved JavaScript word"
  | .noDestructuring dialect pattern => dialect ++ " cannot bind pattern " ++ pattern
  | .outputTooLong limit => "output length exceeds limit " ++ toString limit
  | .unsupported cause => cause.detail
  | .evaluation cause => cause.detail

end Comprehend
