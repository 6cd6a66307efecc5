import Comprehend.Script.Eval
import Comprehend.Proofs.Number.Remainder
import Comprehend.Proofs.Number.Word

/-! # Operators on integers

What the operators that treat their operands as integers compute, said without the way they go: the
remainder through floating-point numbers, the bit operators and shifts through words. -/

namespace Comprehend

open Script

/-! ## Words of numbers -/

namespace Number

/-- The word of a number: its integer part modulo 2 ^ 32, and zero if it has none. -/
def word (n : Number) : BitVec 32 :=
  match n.toInteger with
  | .ok k => BitVec.ofInt 32 k
  | .error _ => 0

theorem toWord_eq {n : Number} {x : Float} (h : n.toFloat = .ok x) :
    n.toWord = .ok n.word.toInt := by
  cases n with
  | int n =>
    simp only [toWord, isNaN_int, isInfinite_int, h, word, toInteger, Word.signed_eq_toInt]
    rfl
  | float y =>
    cases hp : Decimal.parts y with
    | nan =>
      simp only [toWord, isNaN, parts, word, toInteger, hp]
      rfl
    | infinite s =>
      simp only [toWord, isInfinite, parts, word, toInteger, hp, Bool.or_true]
      rfl
    | finite s m e =>
      simp only [toWord, isNaN, isInfinite, parts, word, toInteger, hp, Word.signed_eq_toInt]
      rfl

end Number

namespace Script

/-- A value turns into a number that is not too large, and this is the word of it. -/
def Value.HasWord (v : Value) (x : BitVec 32) : Prop :=
  ∃ n u, v.toNumber = .ok n ∧ n.toFloat = .ok u ∧ n.word = x

theorem Value.HasWord.toWord {v : Value} {x : BitVec 32} (h : v.HasWord x) :
    v.toWord = .ok x.toInt := by
  obtain ⟨n, u, hn, hu, rfl⟩ := h
  rw [Value.toWord, hn]
  exact Number.toWord_eq hu

/-- The operators on bit vectors that those on words are, with the reading of their results. -/
def Operator.onWords : Operator → Option (BitVec 32 → BitVec 32 → Int)
  | .bitAnd => some fun x y => (x &&& y).toInt
  | .bitOr => some fun x y => (x ||| y).toInt
  | .bitXor => some fun x y => (x ^^^ y).toInt
  | .shiftLeft => some fun x y => (x <<< (y.toNat % 32)).toInt
  | .shiftRight => some fun x y => (x.sshiftRight (y.toNat % 32)).toInt
  | .shiftRightZero => some fun x y => (x >>> (y.toNat % 32)).toNat
  | _ => none

theorem Value.bitwise_eq {a b : Value} {x y : BitVec 32} (ha : a.HasWord x) (hb : b.HasWord y)
    (op : Int → Int → Int) : Value.bitwise op a b = .ok (.int (op x.toInt y.toInt)) := by
  rw [Value.bitwise, ha.toWord, hb.toWord]
  rfl

theorem Operator.apply_of_onWords {op : Operator} {f : BitVec 32 → BitVec 32 → Int}
    (hop : op.onWords = some f) {a b : Value} {x y : BitVec 32} (ha : a.HasWord x)
    (hb : b.HasWord y) : op.apply a b = .ok (.int (f x y)) := by
  cases op <;> cases hop
  all_goals simp only [Operator.apply, Value.bitwise_eq ha hb, Word.and_toInt, Word.or_toInt,
    Word.xor_toInt, Word.shiftLeft_toInt, Word.shiftRight_toInt, Word.shiftRightZero_toInt]
  all_goals rfl

theorem unaryValue_not {a : Value} {x : BitVec 32} (ha : a.HasWord x) :
    unaryValue "~" a = pure (.int (~~~x).toInt) := by
  rw [← Word.not_toInt]
  simp only [unaryValue, ha.toWord]
  rfl

theorem toInt_bounds (x : BitVec 32) : -2 ^ 31 ≤ x.toInt ∧ x.toInt < 2 ^ 31 :=
  ⟨x.le_toInt, x.toInt_lt⟩

/-- The result of an operator on words is a word again. -/
theorem Operator.onWords_bounds {op : Operator} {f : BitVec 32 → BitVec 32 → Int}
    (hop : op.onWords = some f) (x y : BitVec 32) :
    if op = .shiftRightZero then 0 ≤ f x y ∧ f x y < 2 ^ 32
    else -2 ^ 31 ≤ f x y ∧ f x y < 2 ^ 31 := by
  cases op <;> cases hop
  case shiftRightZero =>
    rw [if_pos rfl]
    exact ⟨Int.natCast_nonneg _, Int.ofNat_lt.2 (x >>> (y.toNat % 32)).isLt⟩
  all_goals exact toInt_bounds _

theorem Value.HasWord.int {n : Int} {x : BitVec 32} (h : (Value.int n).HasWord x) :
    x = BitVec.ofInt 32 n := by
  obtain ⟨_, u, ⟨⟩, hu, rfl⟩ := h
  rfl

theorem Value.hasWord_int {n : Int} (h : n.natAbs < 2 ^ 53) :
    (Value.int n).HasWord (BitVec.ofInt 32 n) := by
  obtain ⟨u, hu, -⟩ := (Number.FitsFloat.of_natAbs_lt h).roundsTo
  exact ⟨.int n, u, rfl, hu, rfl⟩

/-- Integers that are equal modulo 2 ^ 32 have the same word. -/
theorem Value.HasWord.congr {m n : Int} {x y : BitVec 32} (hm : (Value.int m).HasWord x)
    (hn : (Value.int n).HasWord y) (h : m % 2 ^ 32 = n % 2 ^ 32) : x = y := by
  rw [hm.int, hn.int]
  refine BitVec.eq_of_toNat_eq ?_
  rw [BitVec.toNat_ofInt, BitVec.toNat_ofInt]
  exact congrArg Int.toNat h

/-- The bit operators and shifts are operators on the 32-bit words of their operands, read with a
sign but for the shift that fills with zeros. -/
theorem Operator.apply_words {a b : Value} {x y : BitVec 32} (ha : a.HasWord x)
    (hb : b.HasWord y) :
    (∀ op f, Operator.onWords op = some f → op.apply a b = .ok (.int (f x y)) ∧
      if op = .shiftRightZero then 0 ≤ f x y ∧ f x y < 2 ^ 32
      else -2 ^ 31 ≤ f x y ∧ f x y < 2 ^ 31) ∧
    (unaryValue "~" a = pure (.int (~~~x).toInt) ∧
      -2 ^ 31 ≤ (~~~x).toInt ∧ (~~~x).toInt < 2 ^ 31) ∧
    (∀ m n u v, (Value.int m).HasWord u → (Value.int n).HasWord v → m % 2 ^ 32 = n % 2 ^ 32 →
      unaryValue "~" (.int m) = unaryValue "~" (.int n) ∧
      ∀ op f, Operator.onWords op = some f →
        op.apply (.int m) b = op.apply (.int n) b ∧ op.apply b (.int m) = op.apply b (.int n)) ∧
    ∃ n, Operator.bitOr.apply a (.int 0) = .ok (.int n) ∧
      Operator.bitOr.apply (.int n) (.int 0) = .ok (.int n) := by
  refine ⟨fun op f hop => ⟨apply_of_onWords hop ha hb, onWords_bounds hop x y⟩,
    ⟨unaryValue_not ha, toInt_bounds _⟩, ?_, x.toInt, ?_, ?_⟩
  · intro m n u v hm hn h
    cases hm.congr hn h
    refine ⟨by rw [unaryValue_not hm, unaryValue_not hn], fun op f hop => ⟨?_, ?_⟩⟩
    · rw [apply_of_onWords hop hm hb, apply_of_onWords hop hn hb]
    · rw [apply_of_onWords hop hb hm, apply_of_onWords hop hb hn]
  · rw [apply_of_onWords rfl ha (Value.hasWord_int (n := 0) (by decide))]
    simp
  · have small : x.toInt.natAbs < 2 ^ 53 := by
      have := toInt_bounds x
      omega
    rw [apply_of_onWords rfl (Value.hasWord_int small) (Value.hasWord_int (n := 0) (by decide))]
    simp

/-- A shift by 33 is one by one, and minus one has all its 32 bits set. -/
theorem Operator.apply_words_of_minus_one :
    Operator.shiftRightZero.apply (.int (-1)) (.int 33) = .ok (.int 2147483647) ∧
    Operator.shiftLeft.apply (.int (-1)) (.int 33) = .ok (.int (-2)) ∧
    unaryValue "~" (.int (-1)) = pure (.int 0) ∧
    unaryValue "~" (.int 4294967295) = unaryValue "~" (.int (-1)) := by
  have minus := Value.hasWord_int (n := -1) (by decide)
  have large := Value.hasWord_int (n := 4294967295) (by decide)
  have words := Operator.apply_words minus (Value.hasWord_int (n := 33) (by decide))
  exact ⟨(words.1 .shiftRightZero _ rfl).1, (words.1 .shiftLeft _ rfl).1, words.2.1.1,
    (words.2.2.1 _ _ _ _ large minus (by decide)).1⟩

/-! ## The remainder -/

theorem Operator.apply_rem_number (a b : Number) :
    Operator.rem.apply (.number a) (.number b) =
      ((a.rem b).map Value.number).mapError Stop.refusal := by
  have computed : Value.arithmetic Number.rem (.number a) (.number b) =
      (a.rem b).map Value.number := by
    change (do return Value.number (← a.rem b)) = _
    cases a.rem b <;> rfl
  simp only [Operator.apply, computed]
  cases a.rem b <;> rfl

/-- The remainder of two integers is the exact one of the integers `k` and `l` that floating-point
numbers round them to, and these are the integers themselves where the format holds them. -/
theorem Operator.apply_rem {x y : Int} {v : Value} (hy : y ≠ 0)
    (h : Operator.rem.apply (.int x) (.int y) = .ok v) :
    ∃ k l q r : Int, v = .int r ∧ Number.RoundsTo x k ∧ Number.RoundsTo y l ∧
      k = q * l + r ∧ r.natAbs < l.natAbs ∧ (r = 0 ∨ r.sign = x.sign) ∧
      (Number.FitsFloat x → k = x) ∧ (Number.FitsFloat y → l = y) := by
  rw [Value.int, Value.int, Operator.apply_rem_number] at h
  obtain ⟨n, hr, rfl⟩ : ∃ n, Number.rem (.int x) (.int y) = .ok n ∧ v = .number n := by
    cases hr : Number.rem (.int x) (.int y) <;> rw [hr] at h <;> cases h
    exact ⟨_, rfl, rfl⟩
  obtain ⟨k, l, hk, hl, rfl⟩ := Number.roundsTo_of_rem hy hr
  have hl0 : l ≠ 0 := fun hl0 => hy (Int.sign_eq_zero_iff_zero.1 (by rw [← hl.sign, hl0]; rfl))
  refine ⟨k, l, k.tdiv l, k.tmod l, rfl, hk, hl, (Int.tdiv_mul_add_tmod k l).symm, ?_, ?_,
    fun fits => hk.unique fits.roundsTo, fun fits => hl.unique fits.roundsTo⟩
  · rw [Int.natAbs_tmod]
    exact Nat.mod_lt _ (by omega)
  · rw [← hk.sign, ← Int.sign_eq_zero_iff_zero, Int.sign_tmod]
    split
    · exact .inl rfl
    · exact .inr rfl

/-- The dividend has far more than 53 digits, all but two of them zeros. -/
theorem Operator.apply_rem_of_large :
    Operator.rem.apply (.int (-3458764513820540928)) (.int 10) = .ok (.int (-8)) ∧
    ∃ q : Int, -3458764513820540928 = q * 10 + -8 := by
  have fits : Number.FitsFloat (-3458764513820540928) := ⟨3, 60, by decide, by decide, by decide⟩
  have ten : Number.FitsFloat 10 := .of_natAbs_lt (by decide)
  have value : Operator.rem.apply (.int (-3458764513820540928)) (.int 10) = .ok (.int (-8)) := by
    rw [Value.int, Value.int, Operator.apply_rem_number,
      Number.rem_int fits.roundsTo ten.roundsTo (by decide)]
    rfl
  obtain ⟨k, l, q, r, hr, -, -, equation, -, -, hk, hl⟩ := Operator.apply_rem (by decide) value
  cases hr
  rw [hk fits, hl ten] at equation
  exact ⟨value, q, equation⟩

end Script

end Comprehend
