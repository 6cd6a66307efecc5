/-! Character classes as tables: a class is a list of closed ranges of code points. -/

namespace Comprehend.Text

abbrev Ranges := List (Nat × Nat)

def Ranges.has (rs : Ranges) (c : Char) : Bool :=
  rs.any fun r => r.1 ≤ c.toNat && c.toNat ≤ r.2

end Comprehend.Text
