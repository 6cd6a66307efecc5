/-! Comprehensions as parsed: the yield and one clause for each loop level, outermost first. All
parts are pieces of the notation text as written. Segments that were no clauses are kept aside. -/

namespace Comprehend

structure Clause where
  pattern : String
  iterable : String
  condition : Option String
  deriving DecidableEq, Repr

/-- A pattern with a bracket or a brace in it destructures; any other is a plain variable. -/
def Clause.isDestructuring (c : Clause) : Bool :=
  c.pattern.toList.contains '[' || c.pattern.toList.contains '{'

structure Comprehension where
  yield : String
  clauses : List Clause
  dropped : List String
  deriving DecidableEq, Repr

end Comprehend
