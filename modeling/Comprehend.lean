import Comprehend.Proofs.Chain.Equivalence
import Comprehend.Script.Eval
import Comprehend.Source.Expansion
import Comprehend.Proofs.Clause.Bracket
import Comprehend.Proofs.Clause.Lexing
import Comprehend.Proofs.Clause.Segment
import Comprehend.Proofs.Clause.Reading
import Comprehend.Proofs.Clause.Account
import Comprehend.Proofs.Clause.Canonical
import Comprehend.Proofs.Script.Resolution
import Comprehend.Proofs.Chain.Library
import Comprehend.Proofs.Chain.Capture
import Comprehend.Proofs.Source.Commute
import Comprehend.Proofs.Chain.Stage
import Comprehend.Proofs.Source.Found
import Comprehend.Proofs.Source.Splice
import Comprehend.Proofs.Source.Enclosed
import Comprehend.Proofs.Chain.Lowered
import Comprehend.Proofs.Clause.Walk
import Comprehend.Proofs.Clause.Passes
import Comprehend.Proofs.Clause.Operand
import Comprehend.Proofs.Clause.Embedded
import Comprehend.Proofs.Chain.Limit
import Comprehend.Proofs.Source.Twice
import Comprehend.Proofs.Script.ShortCircuit
import Comprehend.Proofs.Clause.Strict
import Comprehend.Proofs.Clause.Literal
import Comprehend.Proofs.Syntax.Parameter
import Comprehend.Proofs.Clause.Nesting
import Comprehend.Proofs.Chain.Reserved
import Comprehend.Proofs.Source.Seam
import Comprehend.Proofs.Chain.Body
import Comprehend.Proofs.Chain.Determined
import Comprehend.Proofs.Script.Place
import Comprehend.Proofs.Script.Unwinding
import Comprehend.Proofs.Source.Sweep
import Comprehend.Proofs.Syntax.Limit
import Comprehend.Proofs.Script.Integer
import Comprehend.Proofs.Script.Equality
import Comprehend.Proofs.Script.Primitive
import Comprehend.Proofs.Source.Substitution
import Comprehend.Proofs.Chain.Identifier
import Comprehend.Proofs.Script.ArrayKey
import Comprehend.Proofs.Syntax.Redundant
import Comprehend.Proofs.Number.Shortest
