import Comprehend.Word
import Mathlib.Data.Int.Bitwise

/-! # Words are bit vectors

An operation on integers place by place is that operation on each of their bits (`testBit_bitwise`).
So cutting an integer down to 32 places gives its bit vector, read without a sign
(`unsigned_eq_toNat`) or with one (`signed_eq_toInt`), and an operator on the signed readings of two
bit vectors gives the reading of that operator on the bit vectors themselves, the shifts with the
second operand taken modulo 32. -/

namespace Comprehend.Word

/-! ## Bits of an integer -/

theorem testBit_eq (n : Int) (i : Nat) :
    n.testBit i = ((digits n).testBit i != decide (n < 0)) := by
  cases n with
  | ofNat n =>
    have : ¬((n : Int) < 0) := by omega
    simp [digits, Int.testBit, this]
  | negSucc n => simp [digits, Int.testBit, Int.negSucc_lt_zero]

theorem testBit_bitwise (op : Bool → Bool → Bool) (a b : Int) (i : Nat) :
    (bitwise op a b).testBit i = op (a.testBit i) (b.testBit i) := by
  have place := Nat.testBit_bitwise
    (f := fun x y => op (x != decide (a < 0)) (y != decide (b < 0)) != op (a < 0) (b < 0)) (by simp)
    (digits a) (digits b) i
  rw [testBit_eq a, testBit_eq b]
  cases h : op (decide (a < 0)) (decide (b < 0)) with
  | false =>
    simp only [h, Bool.bne_false] at place
    simp [bitwise, h, Int.testBit, place]
  | true =>
    simp only [h, Bool.bne_true] at place
    simp [bitwise, h, Int.testBit, place]

theorem digits_not (n : Int) : digits (~~~n) = digits n := by
  cases n <;> rfl

theorem testBit_not (n : Int) (i : Nat) : (~~~n).testBit i = !n.testBit i := by
  cases n with
  | ofNat n => rfl
  | negSucc n => exact (Bool.not_not _).symm

theorem getLsbD_ofInt (w : Nat) (n : Int) (i : Nat) :
    (BitVec.ofInt w n).getLsbD i = (decide (i < w) && n.testBit i) := by
  cases n with
  | ofNat n => simp [Int.testBit, BitVec.getLsbD_ofNat]
  | negSucc n =>
    rw [BitVec.ofInt_negSucc_eq_not_ofNat, BitVec.getLsbD_not, BitVec.getLsbD_ofNat]
    by_cases h : i < w <;> simp [Int.testBit, h]

/-- Joining integers and then cutting them down is cutting them down and joining the words. -/
theorem ofInt_bitwise {w : Nat} {op : Bool → Bool → Bool} {f : BitVec w → BitVec w → BitVec w}
    (hf : ∀ x y i, i < w → (f x y).getLsbD i = op (x.getLsbD i) (y.getLsbD i)) (a b : Int) :
    BitVec.ofInt w (bitwise op a b) = f (BitVec.ofInt w a) (BitVec.ofInt w b) := by
  refine BitVec.eq_of_getLsbD_eq fun i hi => ?_
  rw [hf _ _ i hi, getLsbD_ofInt, getLsbD_ofInt, getLsbD_ofInt, testBit_bitwise]
  simp [hi]

/-! ## Ranges -/

theorem digits_lt_iff (n : Int) (k : Nat) : digits n < 2 ^ k ↔ -2 ^ k ≤ n ∧ n < 2 ^ k := by
  have cast : ((2 ^ k : Nat) : Int) = 2 ^ k := by simp
  cases n with
  | ofNat n =>
    simp only [digits, Int.ofNat_eq_natCast]
    omega
  | negSucc n =>
    simp only [digits, Int.negSucc_eq]
    omega

theorem digits_bitwise_lt {a b : Int} {k : Nat} (ha : digits a < 2 ^ k) (hb : digits b < 2 ^ k)
    (op : Bool → Bool → Bool) : digits (bitwise op a b) < 2 ^ k := by
  have joined (f : Bool → Bool → Bool) := Nat.bitwise_lt_two_pow (f := f) ha hb
  unfold bitwise
  dsimp only
  split <;> exact joined _

/-- An integer in the range of words is the signed reading of its bit vector. -/
theorem eq_toInt_of_digits_lt {n : Int} (h : digits n < 2 ^ 31) :
    n = (BitVec.ofInt 32 n).toInt := by
  obtain ⟨lower, upper⟩ := (digits_lt_iff n 31).1 h
  rw [BitVec.toInt_ofInt_eq_self (by decide)] <;> simpa

theorem digits_toInt_lt (x : BitVec 32) : digits x.toInt < 2 ^ 31 :=
  (digits_lt_iff _ _).2 ⟨x.le_toInt, x.toInt_lt⟩

/-! ## Readings of a word -/

theorem nonneg_bitwise {op : Bool → Bool → Bool} {a b : Int}
    (h : op (decide (a < 0)) (decide (b < 0)) = false) : 0 ≤ bitwise op a b := by
  simp [bitwise, h]

theorem eq_natCast_of_testBit {n : Int} {m : Nat} (hn : 0 ≤ n)
    (h : ∀ i, n.testBit i = m.testBit i) : n = m := by
  obtain ⟨k, rfl⟩ := Int.eq_ofNat_of_zero_le hn
  exact congrArg Int.ofNat (Nat.eq_of_testBit_eq h)

theorem bitwise_and_natCast (m n : Nat) : bitwise and m n = (m &&& n : Nat) := by
  have hm : ¬((m : Int) < 0) := by omega
  refine eq_natCast_of_testBit (nonneg_bitwise (by simp [hm])) fun i => ?_
  rw [testBit_bitwise, Nat.testBit_and]
  rfl

theorem testBit_mask (i : Nat) : mask.testBit i = decide (i < 32) :=
  Nat.testBit_two_pow_sub_one 32 i

theorem unsigned_eq_toNat (n : Int) : unsigned n = (BitVec.ofInt 32 n).toNat := by
  refine eq_natCast_of_testBit (nonneg_bitwise (by simp [mask])) fun i => ?_
  rw [unsigned, testBit_bitwise, testBit_mask, BitVec.testBit_toNat, getLsbD_ofInt, Bool.and_comm]

theorem signed_eq_toInt (n : Int) : signed n = (BitVec.ofInt 32 n).toInt := by
  have bound := (BitVec.ofInt 32 n).isLt
  simp only [signed, unsigned_eq_toNat, BitVec.toInt_eq_toNat_cond]
  split <;> split <;> omega

theorem unsigned_toInt (x : BitVec 32) : unsigned x.toInt = x.toNat := by
  rw [unsigned_eq_toNat, BitVec.ofInt_toInt]

theorem shiftAmount_toInt (x : BitVec 32) : shiftAmount x.toInt = x.toNat % 32 := by
  have cut := bitwise_and_natCast x.toNat 31
  rw [Nat.and_two_pow_sub_one_eq_mod x.toNat 5] at cut
  rw [shiftAmount, unsigned_toInt]
  exact congrArg Int.toNat cut

/-! ## Operators -/

section

variable (x y : BitVec 32)

theorem bitwise_toInt {op : Bool → Bool → Bool} {f : BitVec 32 → BitVec 32 → BitVec 32}
    (hf : ∀ x y i, i < 32 → (f x y).getLsbD i = op (x.getLsbD i) (y.getLsbD i)) :
    bitwise op x.toInt y.toInt = (f x y).toInt := by
  have small := digits_bitwise_lt (digits_toInt_lt x) (digits_toInt_lt y) op
  rw [eq_toInt_of_digits_lt small, ofInt_bitwise hf, BitVec.ofInt_toInt, BitVec.ofInt_toInt]

theorem and_toInt : bitwise and x.toInt y.toInt = (x &&& y).toInt :=
  bitwise_toInt x y fun _ _ _ _ => BitVec.getLsbD_and

theorem or_toInt : bitwise or x.toInt y.toInt = (x ||| y).toInt :=
  bitwise_toInt x y fun _ _ _ _ => BitVec.getLsbD_or

theorem xor_toInt : bitwise xor x.toInt y.toInt = (x ^^^ y).toInt :=
  bitwise_toInt x y fun _ _ _ _ => BitVec.getLsbD_xor

theorem not_toInt : ~~~x.toInt = (~~~x).toInt := by
  have small : digits (~~~x.toInt) < 2 ^ 31 := by
    rw [digits_not]
    exact digits_toInt_lt x
  have turned : BitVec.ofInt 32 (~~~x.toInt) = ~~~x := by
    refine BitVec.eq_of_getLsbD_eq fun i hi => ?_
    have bit := getLsbD_ofInt 32 x.toInt i
    rw [BitVec.ofInt_toInt] at bit
    rw [getLsbD_ofInt, testBit_not, BitVec.getLsbD_not, bit]
    simp [hi]
  rw [eq_toInt_of_digits_lt small, turned]

theorem shiftLeft_toInt : shiftLeft x.toInt y.toInt = (x <<< (y.toNat % 32)).toInt := by
  have power (k : Nat) : BitVec.ofInt 32 (2 ^ k) = BitVec.twoPow 32 k := by
    have cast : (2 ^ k : Int) = (2 ^ k : Nat) := by simp
    rw [cast, BitVec.ofInt_natCast]
    exact BitVec.eq_of_toNat_eq (by rw [BitVec.toNat_ofNat, BitVec.toNat_twoPow])
  rw [shiftLeft, shiftAmount_toInt, signed_eq_toInt, Int.shiftLeft_eq, BitVec.ofInt_mul,
    BitVec.ofInt_toInt, power, BitVec.shiftLeft_eq_mul_twoPow]

theorem shiftRight_toInt : shiftRight x.toInt y.toInt = (x.sshiftRight (y.toNat % 32)).toInt := by
  rw [shiftRight, shiftAmount_toInt, BitVec.toInt_sshiftRight]

theorem shiftRightZero_toInt :
    shiftRightZero x.toInt y.toInt = (x >>> (y.toNat % 32)).toNat := by
  rw [shiftRightZero, shiftAmount_toInt, unsigned_toInt, BitVec.toNat_ushiftRight]
  rfl

end

end Comprehend.Word
