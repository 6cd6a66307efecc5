/-! Words of 32 bits. An integer has a bit at every place: above its digits the sign goes on without
end. A word is what the low 32 places hold, read without a sign or with the topmost place as one,
and operators on words are operations on integers of any size, cut down where a result could leave
the range. -/

namespace Comprehend.Word

/-- The digits of an integer below its sign; those of a negative one are turned over. -/
def digits : Int → Nat
  | .ofNat n => n
  | .negSucc n => n

/-- Joins two integers place by place, their signs too. -/
def bitwise (op : Bool → Bool → Bool) (a b : Int) : Int :=
  let sign := op (a < 0) (b < 0)
  let place (x y : Bool) : Bool := op (x != decide (a < 0)) (y != decide (b < 0)) != sign
  let ds := Nat.bitwise place (digits a) (digits b)
  if sign then .negSucc ds else .ofNat ds

def mask : Int := 0xFFFFFFFF

/-- The word of an integer without a sign. -/
def unsigned (n : Int) : Int := bitwise and n mask

/-- The word of an integer with a sign. -/
def signed (n : Int) : Int :=
  let w := unsigned n
  if 0x80000000 ≤ w then w - 0x100000000 else w

/-- A shift goes by the amount modulo the width. -/
def shiftAmount (n : Int) : Nat := (bitwise and (unsigned n) 31).toNat

def shiftLeft (a b : Int) : Int := signed (a <<< shiftAmount b)

def shiftRight (a b : Int) : Int := a >>> shiftAmount b

/-- A shift to the right that fills with zeros. -/
def shiftRightZero (a b : Int) : Int := unsigned a >>> shiftAmount b

end Comprehend.Word
