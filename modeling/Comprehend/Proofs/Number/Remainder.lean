import Comprehend.Number
import Comprehend.Proofs.Number.Binary64

/-! # The remainder of two integers

Two integers are divided as the floating-point numbers next to them, and from there on nothing is
rounded: the remainder of two numbers of the format is one of the format
(`equalsWhole_remainder`). So `rem_int` gives the exact remainder of the two rounded integers, which
is that of the integers themselves when the format holds them. -/

namespace Comprehend

open Decimal

namespace Decimal

/-- A number is equal to a whole one. -/
def EqualsWhole (x : Float) (negative : Bool) (k : Nat) : Prop :=
  ∃ (m : Nat) (e : Int), parts x = .finite negative m e ∧ (m : ℚ) * 2 ^ e = k

theorem truncate_eq {m k : Nat} {e : Int} (h : (m : ℚ) * 2 ^ e = k) (negative : Bool) :
    truncate negative m e = signed negative k := by
  have whole : m * 2 ^ e.toNat = k * 2 ^ (-e).toNat := by
    rw [zpow_two_eq, mul_div_assoc', div_eq_iff (by positivity)] at h
    exact_mod_cast h
  have quotient : m * 2 ^ e.toNat / 2 ^ (-e).toNat = k := by
    rw [whole, Nat.mul_div_cancel _ (Nat.two_pow_pos _)]
  simp only [truncate, signed, quotient]

/-- Remainders keep their scale. -/
theorem mod_mul_zpow {m n a b : Nat} {g : Int} (hm : (m : ℚ) * 2 ^ g = a)
    (hn : (n : ℚ) * 2 ^ g = b) : ((m % n : Nat) : ℚ) * 2 ^ g = (a % b : Nat) := by
  rw [zpow_two_eq, mul_div_assoc', div_eq_iff (by positivity)] at *
  have hm : m * 2 ^ g.toNat = a * 2 ^ (-g).toNat := by exact_mod_cast hm
  have hn : n * 2 ^ g.toNat = b * 2 ^ (-g).toNat := by exact_mod_cast hn
  have := congrArg₂ (· % ·) hm hn
  simp only [Nat.mul_mod_mul_right] at this
  exact_mod_cast this

theorem mul_two_pow_zpow (m : Nat) {g e : Int} (h : g ≤ e) :
    ((m * 2 ^ (e - g).toNat : Nat) : ℚ) * 2 ^ g = m * 2 ^ e := by
  push_cast
  rw [mul_assoc, ← zpow_natCast, ← zpow_add₀ (by norm_num)]
  congr 2
  omega

/-- The remainder on dividing toward zero is exact. -/
theorem equalsWhole_remainder {x y : Float} {s t : Bool} {a b : Nat} (hx : EqualsWhole x s a)
    (hy : EqualsWhole y t b) (hb : b ≠ 0) : EqualsWhole (remainder x y) s (a % b) := by
  obtain ⟨m, e, px, ha⟩ := hx
  obtain ⟨n, f, py, hb'⟩ := hy
  have hn : n ≠ 0 := by
    rintro rfl
    exact hb (by simpa using hb'.symm)
  have placedx := placed_of_parts px
  have placedy := placed_of_parts py
  have small : m * 2 ^ (e - min e f).toNat % (n * 2 ^ (f - min e f).toNat) < 2 ^ 53 := by
    rcases le_total e f with h | h
    · rw [min_eq_left h, Int.sub_self, Int.toNat_zero, Nat.pow_zero, Nat.mul_one]
      exact (Nat.mod_le _ _).trans_lt placedx.lt
    · rw [min_eq_right h, Int.sub_self, Int.toNat_zero, Nat.pow_zero, Nat.mul_one]
      exact (Nat.mod_lt _ (Nat.pos_of_ne_zero hn)).trans placedy.lt
  have exact := mod_mul_zpow ((mul_two_pow_zpow m (min_le_left e f)).trans ha)
    ((mul_two_pow_zpow n (min_le_right e f)).trans hb')
  have rounded : remainder x y = ofScaled s
      (m * 2 ^ (e - min e f).toNat % (n * 2 ^ (f - min e f).toNat)) (min e f) := by
    simp only [remainder, px, py, if_neg hn]
  obtain ⟨k, g, finite, value⟩ := parts_ofScaled small (le_min placedx.least placedy.least)
    ((min_le_left e f).trans placedx.most) s
  exact ⟨k, g, by rw [rounded, finite], value.trans exact⟩

/-- A whole number next to a whole number: an integer is rounded only past its 53rd digit. -/
theorem equalsWhole_ofRatio_one (n : Nat) (negative : Bool) :
    parts (ofRatio negative n 1) = .infinite negative ∨
      ∃ k, EqualsWhole (ofRatio negative n 1) negative k ∧ (k = 0 ↔ n = 0) := by
  by_cases hn : n = 0
  · subst hn
    exact .inr ⟨0, ⟨0, -1074, parts_ofRatio_zero negative 1, by simp⟩, by simp⟩
  have full := (mantissaOf_bounds hn Nat.one_pos).1
  obtain ⟨m, e, value, -, ⟨-, -, infinite⟩ | ⟨-, finite⟩⟩ :=
    parts_ofRatio_eq hn Nat.one_pos negative
  · exact .inl infinite
  refine .inr ?_
  rcases Int.lt_or_le (exponentOf n 1) 0 with h | h
  · have whole : ((n : Nat) : ℚ) / (1 : Nat) =
        (n * 2 ^ (-exponentOf n 1).toNat : Nat) * 2 ^ exponentOf n 1 := by
      rw [zpow_two_eq, Int.toNat_of_nonpos h.le]
      push_cast
      field_simp
    rw [mantissaOf_eq Nat.one_pos whole, ← whole] at value
    exact ⟨n, ⟨m, e, finite, by simpa using value⟩, Iff.rfl⟩
  · refine ⟨mantissaOf n 1 * 2 ^ (exponentOf n 1).toNat, ⟨m, e, finite, ?_⟩, ?_⟩
    · rw [value, zpow_two_eq, Int.toNat_of_nonpos (by omega : -exponentOf n 1 ≤ 0)]
      push_cast
      ring
    · have : mantissaOf n 1 ≠ 0 := by omega
      simp [hn, this]

end Decimal

namespace Number

/-- The floating-point number next to an integer is the integer `k`. -/
def RoundsTo (n k : Int) : Prop := ∃ x, (int n).toFloat = .ok x ∧ (float x).toInteger = .ok k

/-- An integer has at most 53 binary digits, zeros at the end apart, and is in the range. -/
def FitsFloat (n : Int) : Prop := ∃ m k : Nat, m < 2 ^ 53 ∧ k ≤ 971 ∧ n.natAbs = m * 2 ^ k

theorem toInteger_of_equalsWhole {x : Float} {s : Bool} {k : Nat} (h : EqualsWhole x s k) :
    (float x).toInteger = .ok (signed s k) := by
  obtain ⟨m, e, finite, value⟩ := h
  simp only [toInteger, finite, truncate_eq value]

theorem toFloat_int {n : Int} {k : Nat} (h : EqualsWhole (ofRatio (n < 0) n.natAbs 1) (n < 0) k) :
    (int n).toFloat = .ok (ofRatio (n < 0) n.natAbs 1) := by
  obtain ⟨m, e, finite, -⟩ := h
  simp only [toFloat, finite]

theorem equalsWhole_of_toFloat {n : Int} {x : Float} (h : (int n).toFloat = .ok x) :
    ∃ k, EqualsWhole x (n < 0) k ∧ (k = 0 ↔ n = 0) := by
  rcases equalsWhole_ofRatio_one n.natAbs (n < 0) with infinite | ⟨k, whole, hk⟩
  · simp only [toFloat, infinite] at h
    cases h
  · rw [toFloat_int whole] at h
    cases h
    exact ⟨k, whole, by rw [hk, Int.natAbs_eq_zero]⟩

theorem RoundsTo.equalsWhole {n k : Int} (h : RoundsTo n k) :
    ∃ x a, (int n).toFloat = .ok x ∧ EqualsWhole x (n < 0) a ∧ k = signed (n < 0) a ∧
      (a = 0 ↔ n = 0) := by
  obtain ⟨x, hx, hk⟩ := h
  obtain ⟨a, whole, zero⟩ := equalsWhole_of_toFloat hx
  rw [toInteger_of_equalsWhole whole] at hk
  cases hk
  exact ⟨x, a, hx, whole, rfl, zero⟩

theorem exists_roundsTo {n : Int} {x : Float} (h : (int n).toFloat = .ok x) :
    ∃ k, RoundsTo n k := by
  obtain ⟨k, whole, -⟩ := equalsWhole_of_toFloat h
  exact ⟨_, x, h, toInteger_of_equalsWhole whole⟩

theorem RoundsTo.unique {n k l : Int} (hk : RoundsTo n k) (hl : RoundsTo n l) : k = l := by
  obtain ⟨x, hx, hk⟩ := hk
  obtain ⟨y, hy, hl⟩ := hl
  cases hx.symm.trans hy
  cases hk.symm.trans hl
  rfl

theorem signed_natAbs (n : Int) : signed (n < 0) n.natAbs = n := by
  simp only [signed, decide_eq_true_eq]
  split <;> omega

/-- An integer of the format is next to itself. -/
theorem FitsFloat.roundsTo {n : Int} (h : FitsFloat n) : RoundsTo n n := by
  obtain ⟨m, k, hm, hk, value⟩ := h
  have written : ((n.natAbs : Nat) : ℚ) / (1 : Nat) = m * 2 ^ (k : Int) := by
    rw [value]
    push_cast
    simp
  obtain ⟨m', e, finite, exact⟩ :=
    parts_ofRatio Nat.one_pos written hm (by omega) (by omega) (n < 0)
  have whole : EqualsWhole (ofRatio (n < 0) n.natAbs 1) (n < 0) n.natAbs :=
    ⟨m', e, finite, by rw [exact, ← written]; simp⟩
  exact ⟨_, toFloat_int whole, by rw [toInteger_of_equalsWhole whole, signed_natAbs]⟩

theorem FitsFloat.of_natAbs_lt {n : Int} (h : n.natAbs < 2 ^ 53) : FitsFloat n :=
  ⟨n.natAbs, 0, h, by omega, by simp⟩

theorem RoundsTo.sign {n k : Int} (h : RoundsTo n k) : k.sign = n.sign := by
  obtain ⟨-, a, -, -, rfl, zero⟩ := h.equalsWhole
  simp only [signed, decide_eq_true_eq]
  rcases lt_trichotomy n 0 with hn | rfl | hn
  · rw [if_pos hn, Int.sign_eq_neg_one_of_neg hn, Int.sign_eq_neg_one_of_neg (by omega)]
  · simp [zero.2 rfl]
  · rw [if_neg (by omega), Int.sign_eq_one_of_pos hn, Int.sign_eq_one_of_pos (by omega)]

theorem tmod_signed (s t : Bool) (a b : Nat) :
    (signed s a).tmod (signed t b) = signed s (a % b) := by
  cases s <;> cases t <;> simp [signed, Int.neg_tmod, Int.tmod_neg, Int.tmod_eq_emod_of_nonneg]

/-- The remainder of two integers is the exact one of the integers that they are rounded to. -/
theorem rem_int {x y k l : Int} (hx : RoundsTo x k) (hy : RoundsTo y l) (h : y ≠ 0) :
    rem (int x) (int y) = .ok (int (k.tmod l)) := by
  obtain ⟨u, a, hu, wholex, rfl, -⟩ := hx.equalsWhole
  obtain ⟨w, b, hw, wholey, rfl, zero⟩ := hy.equalsWhole
  have hb : b ≠ 0 := fun hb => h (zero.1 hb)
  have exact := toInteger_of_equalsWhole (equalsWhole_remainder wholex wholey hb)
  have nonzero : (int y).isZero = false := by simpa [isZero_int] using h
  rw [rem, nonzero, hu, hw]
  simp [exact, tmod_signed, pure, Except.pure, bind, Except.bind]

/-- Two integers have a remainder only if both are in the range of floating-point numbers. -/
theorem roundsTo_of_rem {x y : Int} {n : Number} (h : y ≠ 0) (hr : rem (int x) (int y) = .ok n) :
    ∃ k l, RoundsTo x k ∧ RoundsTo y l ∧ n = int (k.tmod l) := by
  have nonzero : (int y).isZero = false := by simpa [isZero_int] using h
  have inRange : ∃ u w, (int x).toFloat = .ok u ∧ (int y).toFloat = .ok w := by
    rw [rem, nonzero] at hr
    cases hx : (int x).toFloat with
    | error e => rw [hx] at hr; cases hr
    | ok u =>
      cases hy : (int y).toFloat with
      | error e => rw [hx, hy] at hr; cases hr
      | ok w => exact ⟨u, w, rfl, rfl⟩
  obtain ⟨u, w, hu, hw⟩ := inRange
  obtain ⟨k, hk⟩ := exists_roundsTo hu
  obtain ⟨l, hl⟩ := exists_roundsTo hw
  rw [rem_int hk hl h] at hr
  exact ⟨k, l, hk, hl, (Except.ok.inj hr).symm⟩

end Number

end Comprehend
