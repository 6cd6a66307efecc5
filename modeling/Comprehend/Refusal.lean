/-! Why a conversion of plain data has no answer: the result would not fit the type that has to hold
it, or the operand is outside the conversion's domain. Conversions between numbers, numerals, code
points and indices all fail in one of these two ways, and the cause says nothing about the text. -/

namespace Comprehend

inductive Refusal
  | tooLarge
  | outOfDomain
  deriving DecidableEq, Repr

end Comprehend
