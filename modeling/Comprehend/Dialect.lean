import Comprehend.Syntax.Node

/-! Output dialects: how a link of a loop chain is spelled, how its callback binds, and what an
iterable has to look like in front of it. The newest dialect has arrow functions and methods for
every link; the oldest has neither arrows nor `flatMap`, which it spells by a flattening call; the
last goes through the functions of a library object. -/

namespace Comprehend

inductive Dialect
  | es2019
  | es5
  | lodash
  deriving DecidableEq, Repr

namespace Dialect

def all : List Dialect := [.es2019, .es5, .lodash]

def name : Dialect → String
  | .es2019 => "es2019"
  | .es5 => "es5"
  | .lodash => "lodash"

def ofName? (name : String) : Option Dialect := all.find? (·.name == name)

theorem ofName?_name (d : Dialect) : ofName? d.name = some d := by cases d <;> decide

theorem name_of_ofName? {s : String} {d : Dialect} (h : ofName? s = some d) : d.name = s :=
  beq_iff_eq.1 (List.find?_some (p := fun d : Dialect => d.name == s) h)

/-- What is said of a name that no dialect has, the name quoted already. -/
def unknownText (name : String) : String :=
  "unknown dialect: " ++ name ++ ". Available: " ++ ", ".intercalate (all.map Dialect.name)

/-- Whether an iterable is the receiver of a method call, and not an argument. -/
def hasReceivers : Dialect → Bool
  | .lodash => false
  | _ => true

/-- How tightly an iterable has to bind to be written without parentheses. -/
def sourcePrecedence (d : Dialect) : Nat := if d.hasReceivers then 17 else 2

def supportsPatterns : Dialect → Bool
  | .es5 => false
  | _ => true

end Dialect

/-- The method of a link. -/
def Combinator.method : Combinator → String
  | .filter => "filter"
  | .map => "map"
  | .flatMap => "flatMap"

end Comprehend
