import Comprehend.Decimal.Numeral
import Comprehend.Proofs.Number.Interval

/-! # The fewest digits of a number

The search for the digits of a number tests whether a decimal lies in the interval of what is rounded
to it (`Interval.holdsDecimal_iff`). Seventeen digits always do, so the search ends with digits that
read back (`parts_ofScientific_shortest`). No decimal of fewer digits does (`digits_shortest_lt`), and
of those of as few none is nearer to the number (`shortest_nearest`). -/

namespace Comprehend.Decimal

variable {m num den : Nat} {e : Int}

/-! ## The interval that digits are searched in -/

theorem Interval.quarters_div (k : Nat) (e : Int) :
    ((k * 2 ^ (e - 2).toNat : Nat) : ℚ) / (2 ^ (2 - e).toNat : Nat) = k / 4 * 2 ^ e := by
  have hpower := zpow_two_eq (e - 2)
  rw [zpow_sub₀ (by norm_num), neg_sub] at hpower
  push_cast
  rw [mul_div_assoc, ← hpower]
  norm_num
  ring

theorem Interval.value_div (m : Nat) (e : Int) :
    ((Interval.of m e).value : ℚ) / (Interval.of m e).den = m * 2 ^ e := by
  refine (quarters_div (4 * m) e).trans ?_
  push_cast
  ring

theorem Interval.high_div (m : Nat) (e : Int) :
    ((Interval.of m e).high : ℚ) / (Interval.of m e).den = (m + 1 / 2) * 2 ^ e := by
  refine (quarters_div (4 * m + 2) e).trans ?_
  push_cast
  ring

theorem Interval.low_div (hm : m ≠ 0) (e : Int) :
    ((Interval.of m e).low : ℚ) / (Interval.of m e).den = (m - reach m e) * 2 ^ e := by
  refine (quarters_div _ e).trans ?_
  unfold reach
  split
  · next h =>
    rw [if_pos (show m = 2 ^ 52 ∧ -1074 < e from h), Nat.cast_sub (by omega)]
    push_cast
    ring
  · next h =>
    rw [if_neg (show ¬ (m = 2 ^ 52 ∧ -1074 < e) from h), Nat.cast_sub (by omega)]
    push_cast
    ring

theorem Interval.den_pos (m : Nat) (e : Int) : 0 < (Interval.of m e).den := Nat.two_pow_pos _

theorem Interval.holds_iff (hm : m ≠ 0) (hden : 0 < den) :
    (Interval.of m e).holds num den = true ↔ RoundsTo m e ((num : ℚ) / den) := by
  have hd : (0 : ℚ) < den := by exact_mod_cast hden
  have hi : (0 : ℚ) < (Interval.of m e).den := by exact_mod_cast den_pos m e
  have hlow : (m - reach m e) * 2 ^ e ≤ (num : ℚ) / den ↔
      (Interval.of m e).low * den ≤ num * (Interval.of m e).den := by
    rw [← low_div hm, div_le_div_iff₀ hi hd]
    norm_cast
  have hhigh : (num : ℚ) / den ≤ (m + 1 / 2) * 2 ^ e ↔
      num * (Interval.of m e).den ≤ (Interval.of m e).high * den := by
    rw [← high_div, div_le_div_iff₀ hd hi]
    norm_cast
  have hlow' : (num : ℚ) / den = (m - reach m e) * 2 ^ e ↔
      num * (Interval.of m e).den = (Interval.of m e).low * den := by
    rw [← low_div hm, div_eq_div_iff hd.ne' hi.ne']
    norm_cast
  have hhigh' : (num : ℚ) / den = (m + 1 / 2) * 2 ^ e ↔
      num * (Interval.of m e).den = (Interval.of m e).high * den := by
    rw [← high_div, div_eq_div_iff hd.ne' hi.ne']
    norm_cast
  have hclosed : (Interval.of m e).closed = (m % 2 == 0) := rfl
  have hrounds : RoundsTo m e ((num : ℚ) / den) ↔ (m - reach m e) * 2 ^ e ≤ (num : ℚ) / den ∧
      (num : ℚ) / den ≤ (m + 1 / 2) * 2 ^ e ∧ ((num : ℚ) / den = (m - reach m e) * 2 ^ e ∨
        (num : ℚ) / den = (m + 1 / 2) * 2 ^ e → m % 2 = 0) :=
    ⟨fun h => ⟨h.low, h.high, h.even⟩, fun h => ⟨h.1, h.2.1, h.2.2⟩⟩
  rw [hrounds, hlow, hhigh, hlow', hhigh', Interval.holds, hclosed]
  by_cases heven : m % 2 = 0
  · simp [heven]
  · have hopen : (m % 2 == 0) = false := beq_eq_false_iff_ne.2 heven
    simp only [hopen, Bool.false_eq_true, if_false, Bool.and_eq_true, decide_eq_true_eq]
    omega

/-! ## Decimals -/

/-- What a decimal is worth. -/
def Scientific.value (d : Scientific) : ℚ := d.digits * 10 ^ d.exponent

theorem zpow_ten_eq (e : Int) : (10 : ℚ) ^ e = 10 ^ e.toNat / 10 ^ (-e).toNat :=
  zpow_eq_div (by norm_num) e

/-- The logarithm of two to the base ten lies between `59 / 196` and `28 / 93`. -/
theorem ten_zpow_le_two_zpow {k l : Int} (h : 196 * k ≤ 59 * l) (h' : 93 * k ≤ 28 * l) :
    (10 : ℚ) ^ k ≤ 2 ^ l := by
  have hpow {b : ℚ} (n : Nat) (i : Int) : (b ^ n) ^ i = b ^ (n * i) := by
    rw [zpow_mul, zpow_natCast]
  have hroot (n : Nat) (hn : n ≠ 0) (hle : ((10 : ℚ) ^ n) ^ k ≤ (2 ^ n) ^ l) :
      (10 : ℚ) ^ k ≤ 2 ^ l := by
    rw [hpow, hpow, mul_comm, mul_comm _ l, zpow_mul, zpow_mul, zpow_natCast, zpow_natCast] at hle
    exact (pow_le_pow_iff_left₀ (by positivity) (by positivity) hn).1 hle
  rcases le_total 0 k with hk | hk
  · refine hroot 59 (by decide) ?_
    calc ((10 : ℚ) ^ 59) ^ k ≤ (2 ^ 196) ^ k := zpow_le_zpow_left₀ hk (by norm_num) (by norm_num)
      _ = 2 ^ (196 * k) := hpow 196 k
      _ ≤ 2 ^ (59 * l) := zpow_le_zpow_right₀ (by norm_num) h
      _ = (2 ^ 59) ^ l := (hpow 59 l).symm
  · refine hroot 28 (by decide) ?_
    calc ((10 : ℚ) ^ 28) ^ k = ((10 ^ 28) ^ (-k))⁻¹ := by rw [zpow_neg, inv_inv]
      _ ≤ ((2 ^ 93) ^ (-k))⁻¹ := inv_anti₀ (by positivity)
          (zpow_le_zpow_left₀ (by omega) (by norm_num) (by norm_num))
      _ = (2 ^ 93) ^ k := by rw [zpow_neg, inv_inv]
      _ = 2 ^ (93 * k) := hpow 93 k
      _ ≤ 2 ^ (28 * l) := zpow_le_zpow_right₀ (by norm_num) h'
      _ = (2 ^ 28) ^ l := (hpow 28 l).symm

theorem two_zpow_le_ten_zpow {k l : Int} (h : 59 * k ≤ 196 * l) (h' : 28 * k ≤ 93 * l) :
    (2 : ℚ) ^ k ≤ 10 ^ l := by
  have hle : (10 : ℚ) ^ (-l) ≤ 2 ^ (-k) := ten_zpow_le_two_zpow (by omega) (by omega)
  rwa [zpow_neg, zpow_neg, inv_le_inv₀ (by positivity) (by positivity)] at hle

theorem Scientific.fraction_div (d : Scientific) :
    (d.fraction.1 : ℚ) / d.fraction.2 = d.value := by
  rw [value, zpow_ten_eq, fraction]
  push_cast
  ring

theorem Interval.holdsDecimal_iff (hm : m ≠ 0) (d : Scientific) :
    (Interval.of m e).holdsDecimal d = true ↔ RoundsTo m e d.value := by
  have hden : 0 < d.fraction.2 := Nat.pow_pos (by omega)
  rw [holdsDecimal, holds_iff hm hden, Scientific.fraction_div]

theorem Scientific.value_eq_zero {d : Scientific} (h : d.digits = 0) : d.value = 0 := by
  rw [value, h, Nat.cast_zero, zero_mul]

theorem parts_infinity (negative : Bool) : parts (infinity negative) = .infinite negative := by
  cases negative <;> exact (parts_ofBits _).trans (by decide)

/-- A decimal that is read as a number lies in its interval. -/
theorem roundsTo_of_parts {negative : Bool} {d : Scientific} (h : Placed m e) (hm : m ≠ 0)
    (hd : parts (ofScientific negative d.digits d.exponent) = .finite negative m e) :
    RoundsTo m e d.value := by
  simp only [ofScientific] at hd
  split at hd
  · rw [parts_ofRatio_zero] at hd
    cases hd
    exact absurd rfl hm
  · next hdigits =>
    split at hd
    · rw [parts_infinity] at hd
      cases hd
    · split at hd
      · rw [parts_ofRatio_zero] at hd
        cases hd
        exact absurd rfl hm
      · have hnum : d.digits * 10 ^ d.exponent.toNat ≠ 0 :=
          Nat.mul_ne_zero hdigits (Nat.pow_pos (by omega)).ne'
        rw [← d.fraction_div]
        exact (parts_ofRatio_iff h hnum (Nat.pow_pos (by omega)) negative).1 hd

/-- Few digits in the interval of a number stand at no far exponent. -/
theorem exponent_of_roundsTo {d : Scientific} (h : Placed m e) (hm : m ≠ 0)
    (hdigits : d.digits ≤ 10 ^ 17) (hd : RoundsTo m e d.value) :
    d.digits ≠ 0 ∧ -420 < d.exponent ∧ d.exponent < 350 := by
  have hlow : (2 : ℚ) ^ (-1075 : Int) ≤ d.value := by
    refine le_trans (zpow_le_zpow_right₀ (by norm_num) ?_) (hd.pos hm)
    have := h.least
    omega
  have hhigh : d.value < 2 ^ (1024 : Int) := by
    refine (hd.lt_full h.lt).trans_le ?_
    rw [two_pow_mul_zpow]
    refine zpow_le_zpow_right₀ (by norm_num) ?_
    have := h.most
    omega
  have hne : d.digits ≠ 0 := fun hzero => by
    rw [Scientific.value_eq_zero hzero] at hlow
    exact absurd hlow (not_le.2 (by positivity))
  have hone : (1 : ℚ) ≤ d.digits := by exact_mod_cast Nat.one_le_iff_ne_zero.2 hne
  have hmost : (d.digits : ℚ) ≤ 10 ^ (17 : Int) := by exact_mod_cast hdigits
  have hten (k : Int) : (0 : ℚ) < 10 ^ k := by positivity
  refine ⟨hne, ?_, ?_⟩
  · have hle : (10 : ℚ) ^ (-400 : Int) ≤ 10 ^ (17 + d.exponent) := by
      calc (10 : ℚ) ^ (-400 : Int) ≤ 2 ^ (-1075 : Int) :=
            ten_zpow_le_two_zpow (by decide) (by decide)
        _ ≤ d.value := hlow
        _ ≤ 10 ^ (17 : Int) * 10 ^ d.exponent := by
          unfold Scientific.value
          gcongr
        _ = 10 ^ (17 + d.exponent) := (zpow_add₀ (by norm_num) _ _).symm
    have := (zpow_le_zpow_iff_right₀ (by norm_num)).1 hle
    omega
  · have hlt : (10 : ℚ) ^ d.exponent < 10 ^ (350 : Int) := by
      calc (10 : ℚ) ^ d.exponent ≤ d.value := le_mul_of_one_le_left (hten _).le hone
        _ < 2 ^ (1024 : Int) := hhigh
        _ ≤ 10 ^ (350 : Int) := two_zpow_le_ten_zpow (by decide) (by decide)
    exact (zpow_lt_zpow_iff_right₀ (by norm_num)).1 hlt

/-- Few digits that lie in the interval of a number are read as the number. -/
theorem parts_of_roundsTo {d : Scientific} (h : Placed m e) (hm : m ≠ 0)
    (hdigits : d.digits ≤ 10 ^ 17) (hd : RoundsTo m e d.value) (negative : Bool) :
    parts (ofScientific negative d.digits d.exponent) = .finite negative m e := by
  obtain ⟨hne, hlow, hhigh⟩ := exponent_of_roundsTo h hm hdigits hd
  have hlog : Nat.log2 d.digits < 57 := (Nat.log2_lt hne).2 (hdigits.trans_lt (by norm_num))
  have hnum : d.digits * 10 ^ d.exponent.toNat ≠ 0 :=
    Nat.mul_ne_zero hne (Nat.pow_pos (by omega)).ne'
  simp only [ofScientific]
  rw [if_neg hne, if_neg (by omega), if_neg (by omega)]
  refine (parts_ofRatio_iff h hnum (Nat.pow_pos (by omega)) negative).2 ?_
  exact d.fraction_div ▸ hd

/-! ## The power of ten that a number starts with -/

theorem ten_zpow_le_div_iff (num : Nat) (hden : 0 < den) (k : Int) :
    (10 : ℚ) ^ k ≤ num / den ↔ den * 10 ^ k.toNat ≤ num * 10 ^ (-k).toNat := by
  have positive : (0 : ℚ) < den := by exact_mod_cast hden
  rw [zpow_ten_eq, div_le_div_iff₀ (by positivity) positive, mul_comm (_ ^ _)]
  norm_cast

/-- The estimate of an exponent of ten from one of two. -/
def tenGuess (bits : Int) : Int := Int.fdiv (bits * 30103) 100000

theorem tenExponent_eq (num den : Nat) : tenExponent num den =
    let guess := tenGuess (Nat.log2 num - Nat.log2 den)
    if den * 10 ^ (guess + 1).toNat ≤ num * 10 ^ (-(guess + 1)).toNat then guess + 1
    else if den * 10 ^ guess.toNat ≤ num * 10 ^ (-guess).toNat then guess
    else if den * 10 ^ (guess - 1).toNat ≤ num * 10 ^ (-(guess - 1)).toNat then guess - 1
    else guess - 2 := by
  simp only [tenExponent, decide_eq_true_eq]
  rfl

theorem tenGuess_bounds {bits : Int} (hlow : -1100 ≤ bits) (hhigh : bits ≤ 1100) :
    (10 : ℚ) ^ (tenGuess bits - 2) ≤ 2 ^ (bits - 1) ∧
      (2 : ℚ) ^ (bits + 1) ≤ 10 ^ (tenGuess bits + 2) := by
  -- the estimate drifts off for large exponents, by less than one in the range of the format
  rw [tenGuess, Int.fdiv_eq_ediv_of_nonneg _ (by decide)]
  exact ⟨ten_zpow_le_two_zpow (by omega) (by omega), two_zpow_le_ten_zpow (by omega) (by omega)⟩

theorem tenExponent_spec (hnum : num ≠ 0) (hden : 0 < den)
    (hlow : -1100 ≤ (Nat.log2 num : Int) - Nat.log2 den)
    (hhigh : (Nat.log2 num : Int) - Nat.log2 den ≤ 1100) :
    (10 : ℚ) ^ tenExponent num den ≤ num / den ∧
      (num : ℚ) / den < 10 ^ (tenExponent num den + 1) := by
  obtain ⟨hbelow, habove⟩ := tenGuess_bounds hlow hhigh
  have hbelow := hbelow.trans (two_zpow_lt_div hnum hden).le
  have habove := (div_lt_two_zpow num hden).trans_le habove
  rw [tenExponent_eq]
  simp only [← ten_zpow_le_div_iff num hden]
  generalize tenGuess (Nat.log2 num - Nat.log2 den) = guess at *
  split
  · next h => exact ⟨h, by rwa [add_assoc]⟩
  · next hsucc =>
    split
    · next h => exact ⟨h, not_le.1 hsucc⟩
    · next hguess =>
      split
      · next h => exact ⟨h, by rw [sub_add_cancel]; exact not_le.1 hguess⟩
      · next hpred =>
        refine ⟨hbelow, ?_⟩
        rw [show guess - 2 + 1 = guess - 1 by omega]
        exact not_le.1 hpred

/-- The exponent of ten at which the search for the digits of a number starts. -/
theorem tenExponent_of (h : Placed m e) (hm : m ≠ 0) :
    let top := tenExponent (Interval.of m e).value (Interval.of m e).den
    (10 : ℚ) ^ top ≤ m * 2 ^ e ∧ (m : ℚ) * 2 ^ e < 10 ^ (top + 1) := by
  have hvalue : (Interval.of m e).value = 4 * m * 2 ^ (e - 2).toNat := rfl
  have hden : (Interval.of m e).den = 2 ^ (2 - e).toNat := rfl
  have hne : (Interval.of m e).value ≠ 0 := by
    rw [hvalue]
    exact Nat.mul_ne_zero (by omega) (Nat.two_pow_pos _).ne'
  have hlog : Nat.log2 (Interval.of m e).value < 55 + (e - 2).toNat := by
    refine (Nat.log2_lt hne).2 ?_
    rw [hvalue, Nat.pow_add]
    exact Nat.mul_lt_mul_of_pos_right (by have := h.lt; omega) (Nat.two_pow_pos _)
  have hleast := h.least
  have hmost := h.most
  have hspec := tenExponent_spec hne (Interval.den_pos m e)
    (by rw [hden, Nat.log2_two_pow]; omega) (by omega)
  rwa [Interval.value_div] at hspec

/-! ## The grids -/

/-- How often a power of ten goes into the value. -/
def Interval.floorAt (i : Interval) (k : Int) : Nat :=
  i.value * 10 ^ (-k).toNat / (i.den * 10 ^ k.toNat)

/-- The part of the power of ten that is left over. -/
def Interval.restAt (i : Interval) (k : Int) : ℚ :=
  (i.value * 10 ^ (-k).toNat % (i.den * 10 ^ k.toNat) : Nat) / (i.den * 10 ^ k.toNat : Nat)

theorem Interval.value_eq (m : Nat) (e k : Int) : (m : ℚ) * 2 ^ e =
    ((Interval.of m e).floorAt k + (Interval.of m e).restAt k) * 10 ^ k := by
  have hi : (0 : ℚ) < (Interval.of m e).den := by exact_mod_cast den_pos m e
  have hsplit : ((Interval.of m e).value : ℚ) * 10 ^ (-k).toNat =
      (Interval.of m e).den * 10 ^ k.toNat * (Interval.of m e).floorAt k +
        ((Interval.of m e).value * 10 ^ (-k).toNat %
          ((Interval.of m e).den * 10 ^ k.toNat) : Nat) := by
    exact_mod_cast (Nat.div_add_mod _ _).symm
  rw [restAt, ← value_div, zpow_ten_eq]
  push_cast
  field_simp
  linarith

section

variable {i : Interval} {k : Int} {d : Scientific} (hi : 0 < i.den)
include hi

theorem Interval.restAt_bounds : 0 ≤ i.restAt k ∧ i.restAt k < 1 := by
  have positive : 0 < i.den * 10 ^ k.toNat := Nat.mul_pos hi (Nat.pow_pos (by omega))
  have hden : (0 : ℚ) < (i.den * 10 ^ k.toNat : Nat) := by exact_mod_cast positive
  refine ⟨by unfold restAt; positivity, (div_lt_one hden).2 ?_⟩
  exact_mod_cast Nat.mod_lt _ positive

/-- The point of a grid that is taken is next to the value, and the nearer one if both may be. -/
theorem Interval.onGrid_eq_some (h : i.onGrid k = some d) :
    i.holdsDecimal d = true ∧
      (d = ⟨i.floorAt k, k⟩ ∧ (i.holdsDecimal ⟨i.floorAt k + 1, k⟩ = true → i.restAt k ≤ 1 / 2) ∨
        d = ⟨i.floorAt k + 1, k⟩ ∧
          (i.holdsDecimal ⟨i.floorAt k, k⟩ = true → 1 / 2 ≤ i.restAt k)) := by
  have positive : 0 < i.den * 10 ^ k.toNat := Nat.mul_pos hi (Nat.pow_pos (by omega))
  have hden : (0 : ℚ) < (i.den * 10 ^ k.toNat : Nat) := by exact_mod_cast positive
  simp only [onGrid] at h
  split at h
  · next hfloor hceiling =>
    cases h
    exact ⟨hfloor, .inl ⟨rfl, fun h => absurd (hceiling.symm.trans h) (by decide)⟩⟩
  · next hfloor hceiling =>
    cases h
    exact ⟨hceiling, .inr ⟨rfl, fun h => absurd (hfloor.symm.trans h) (by decide)⟩⟩
  · cases h
  · next hfloor hceiling =>
    split at h
    · next hnear =>
      cases h
      refine ⟨hfloor, .inl ⟨rfl, fun _ => ?_⟩⟩
      simp only [Bool.or_eq_true, decide_eq_true_eq, Bool.and_eq_true, beq_iff_eq] at hnear
      rw [restAt, div_le_iff₀ hden]
      have hle : 2 * (i.value * 10 ^ (-k).toNat % (i.den * 10 ^ k.toNat)) ≤
          i.den * 10 ^ k.toNat := by omega
      have hle : (2 : ℚ) * (i.value * 10 ^ (-k).toNat % (i.den * 10 ^ k.toNat) : Nat) ≤
          (i.den * 10 ^ k.toNat : Nat) := by exact_mod_cast hle
      linarith
    · next hfar =>
      cases h
      refine ⟨hceiling, .inr ⟨rfl, fun _ => ?_⟩⟩
      simp only [Bool.or_eq_true, decide_eq_true_eq, Bool.and_eq_true, beq_iff_eq] at hfar
      rw [restAt, le_div_iff₀ hden]
      have hle : i.den * 10 ^ k.toNat ≤
          2 * (i.value * 10 ^ (-k).toNat % (i.den * 10 ^ k.toNat)) := by omega
      have hle : ((i.den * 10 ^ k.toNat : Nat) : ℚ) ≤
          2 * (i.value * 10 ^ (-k).toNat % (i.den * 10 ^ k.toNat) : Nat) := by exact_mod_cast hle
      linarith

end

theorem Interval.onGrid_eq_none {i : Interval} {k : Int} (h : i.onGrid k = none) :
    ¬ i.holdsDecimal ⟨i.floorAt k, k⟩ = true ∧ ¬ i.holdsDecimal ⟨i.floorAt k + 1, k⟩ = true := by
  simp only [onGrid] at h
  split at h
  · cases h
  · cases h
  · next hfloor hceiling => exact ⟨Bool.not_eq_true _ ▸ hfloor, Bool.not_eq_true _ ▸ hceiling⟩
  · split at h <;> cases h

theorem Interval.floorAt_bounds (m : Nat) (e k : Int) :
    ((Interval.of m e).floorAt k : ℚ) * 10 ^ k ≤ m * 2 ^ e ∧
      (m : ℚ) * 2 ^ e < ((Interval.of m e).floorAt k + 1 : Nat) * 10 ^ k := by
  obtain ⟨hnonneg, hlt⟩ := restAt_bounds (k := k) (den_pos m e)
  have hten : (0 : ℚ) < 10 ^ k := by positivity
  rw [value_eq m e k]
  push_cast
  constructor
  · gcongr
    linarith
  · gcongr

/-- Any point of a grid in the interval has one next to the value on its side of it. -/
theorem Interval.floorAt_or_of_roundsTo {c : Nat} {k : Int} (hc : RoundsTo m e (c * 10 ^ k)) :
    (c : ℚ) * 10 ^ k ≤ (Interval.of m e).floorAt k * 10 ^ k ∧
        RoundsTo m e (⟨(Interval.of m e).floorAt k, k⟩ : Scientific).value ∨
      ((Interval.of m e).floorAt k + 1 : Nat) * 10 ^ k ≤ (c : ℚ) * 10 ^ k ∧
        RoundsTo m e (⟨(Interval.of m e).floorAt k + 1, k⟩ : Scientific).value := by
  obtain ⟨hle, hlt⟩ := floorAt_bounds m e k
  have hten : (0 : ℚ) < 10 ^ k := by positivity
  rcases Nat.lt_or_ge ((Interval.of m e).floorAt k) c with habove | hbelow
  · have hpoint : ((Interval.of m e).floorAt k + 1 : Nat) * (10 : ℚ) ^ k ≤ c * 10 ^ k := by
      gcongr
      exact habove
    exact .inr ⟨hpoint, hc.of_above hlt.le hpoint⟩
  · have hpoint : (c : ℚ) * 10 ^ k ≤ (Interval.of m e).floorAt k * 10 ^ k := by gcongr
    exact .inl ⟨hpoint, hc.of_below hpoint hle⟩

/-- A grid with a point in the interval has one next to the value. -/
theorem Interval.onGrid_isSome (hm : m ≠ 0) {c : Nat} {k : Int} (hc : RoundsTo m e (c * 10 ^ k)) :
    ((Interval.of m e).onGrid k).isSome = true := by
  rw [← Option.ne_none_iff_isSome]
  intro hnone
  obtain ⟨hfloor, hceiling⟩ := onGrid_eq_none hnone
  rw [holdsDecimal_iff hm] at hfloor hceiling
  rcases floorAt_or_of_roundsTo hc with ⟨-, hrounds⟩ | ⟨-, hrounds⟩
  · exact hfloor hrounds
  · exact hceiling hrounds

/-- The grid point that is taken is as near to the value as any that is in the interval. -/
theorem Interval.onGrid_nearest (hm : m ≠ 0) {c : Nat} {k : Int} {d : Scientific}
    (h : (Interval.of m e).onGrid k = some d) (hc : RoundsTo m e (c * 10 ^ k)) :
    |d.value - m * 2 ^ e| ≤ |(c : ℚ) * 10 ^ k - m * 2 ^ e| := by
  obtain ⟨hle, hlt⟩ := floorAt_bounds m e k
  have hten : (0 : ℚ) < 10 ^ k := by positivity
  have hvalue := value_eq m e k
  have hside := floorAt_or_of_roundsTo hc
  rw [← holdsDecimal_iff hm, ← holdsDecimal_iff hm] at hside
  obtain ⟨-, ⟨rfl, hnear⟩ | ⟨rfl, hnear⟩⟩ := onGrid_eq_some (den_pos m e) h
  · rw [Scientific.value, abs_of_nonpos (by linarith)]
    rcases hside with ⟨hbelow, -⟩ | ⟨habove, hholds⟩
    · rw [abs_of_nonpos (by linarith)]
      linarith
    · have hhalf := mul_le_mul_of_nonneg_right (hnear hholds) hten.le
      rw [abs_of_nonneg (by linarith)]
      push_cast at habove
      linarith
  · rw [Scientific.value, abs_of_nonneg (by linarith)]
    rcases hside with ⟨hbelow, hholds⟩ | ⟨habove, -⟩
    · have hhalf := mul_le_mul_of_nonneg_right (hnear hholds) hten.le
      rw [abs_of_nonpos (by linarith)]
      push_cast
      linarith
    · rw [abs_of_nonneg (by linarith)]
      linarith

/-- A grid of sixteen digits and one more has a point in the interval. -/
theorem Interval.onGrid_isSome_of_le (h : Placed m e) (hm : m ≠ 0) {k : Int}
    (hk : (10 : ℚ) ^ (k + 16) ≤ m * 2 ^ e) : ((Interval.of m e).onGrid k).isSome = true := by
  obtain ⟨hle, hlt⟩ := floorAt_bounds m e k
  have hp : (0 : ℚ) < 2 ^ e := by positivity
  have hten : (10 : ℚ) ^ (k + 16) = 10 ^ k * 10 ^ 16 := by
    rw [zpow_add₀ (by norm_num)]
    norm_num
  rw [hten] at hk
  push_cast at hlt
  by_cases hmin : m = 2 ^ 52 ∧ -1074 < e
  · -- the interval reaches less far down, but up as far as ever
    refine onGrid_isSome hm (c := (Interval.of m e).floorAt k + 1) (RoundsTo.of_lt ?_ ?_)
    · rw [show reach m e = 1 / 4 from if_pos hmin]
      push_cast
      linarith
    · obtain ⟨rfl, -⟩ := hmin
      push_cast at *
      linarith
  · have hreach : reach m e = 1 / 2 := if_neg hmin
    have hlarge : (m : ℚ) * 2 ^ e < 2 ^ 53 * 2 ^ e := by
      gcongr
      exact_mod_cast h.lt
    rcases le_total ((m : ℚ) * 2 ^ e - (Interval.of m e).floorAt k * 10 ^ k) (10 ^ k / 2) with
      hnear | hfar
    · refine onGrid_isSome hm (c := (Interval.of m e).floorAt k) (RoundsTo.of_lt ?_ ?_)
      · rw [hreach]
        linarith
      · linarith
    · refine onGrid_isSome hm (c := (Interval.of m e).floorAt k + 1) (RoundsTo.of_lt ?_ ?_)
      · rw [hreach]
        push_cast
        linarith
      · push_cast
        linarith

/-! ## The search -/

/-- The search ends on the first grid with a point in the interval, if there is one at all. -/
theorem Interval.search_spec (i : Interval) (top : Int) {more : Nat} {k : Int}
    (h : ∃ j < more, (i.onGrid (k - j)).isSome = true) :
    ∃ j < more, i.onGrid (k - j) = some (i.search top more k) ∧
      ∀ l < j, i.onGrid (k - l) = none := by
  induction more generalizing k with
  | zero =>
    obtain ⟨j, hj, -⟩ := h
    omega
  | succ more ih =>
    rw [search]
    cases hgrid : i.onGrid k with
    | some d =>
      exact ⟨0, Nat.succ_pos _, by simpa using hgrid, fun l hl => absurd hl (Nat.not_lt_zero l)⟩
    | none =>
      have hnext (j : Nat) : k - 1 - (j : Int) = k - (j + 1 : Nat) := by omega
      obtain ⟨j, hj, hsome⟩ := h
      obtain ⟨j, rfl⟩ : ∃ j', j = j' + 1 := by
        refine Nat.exists_eq_succ_of_ne_zero fun hzero => ?_
        subst hzero
        rw [Nat.cast_zero, sub_zero, hgrid] at hsome
        cases hsome
      obtain ⟨j, hj, heq, hnone⟩ := ih ⟨j, by omega, by rwa [hnext]⟩
      refine ⟨j + 1, by omega, by rw [← hnext]; exact heq, fun l hl => ?_⟩
      cases l with
      | zero => simpa using hgrid
      | succ l =>
        rw [← hnext]
        exact hnone l (by omega)

theorem stripZeros_value (fuel : Nat) (d : Scientific) : (stripZeros fuel d).value = d.value := by
  induction fuel generalizing d with
  | zero => rfl
  | succ fuel ih =>
    rw [stripZeros]
    split
    · next h =>
      rw [ih, Scientific.value, Scientific.value, zpow_add_one₀ (by norm_num)]
      have hdigits : (d.digits : ℚ) = (d.digits / 10 : Nat) * 10 := by
        exact_mod_cast (Nat.div_mul_cancel (Nat.dvd_of_mod_eq_zero h.2)).symm
      rw [hdigits]
      ring
    · rfl

theorem digits_stripZeros_le (fuel : Nat) (d : Scientific) :
    (stripZeros fuel d).digits ≤ d.digits := by
  induction fuel generalizing d with
  | zero => exact Nat.le_refl _
  | succ fuel ih =>
    rw [stripZeros]
    split
    · exact (ih _).trans (Nat.div_le_self _ _)
    · exact Nat.le_refl _

/-- Digits that are a one and zeros lose the zeros. -/
theorem digits_stripZeros_pow {fuel n : Nat} (h : n ≤ fuel) (k : Int) :
    (stripZeros fuel ⟨10 ^ n, k⟩).digits = 1 := by
  induction n generalizing fuel k with
  | zero =>
    cases fuel with
    | zero => rfl
    | succ fuel => rfl
  | succ n ih =>
    cases fuel with
    | zero => omega
    | succ fuel =>
      have hdiv : 10 ^ (n + 1) / 10 = 10 ^ n := by
        rw [Nat.pow_succ, Nat.mul_div_cancel _ (by omega)]
      have hmod : 10 ^ (n + 1) % 10 = 0 := by rw [Nat.pow_succ, Nat.mul_mod_left]
      rw [stripZeros, if_pos ⟨(Nat.pow_pos (by omega)).ne', hmod⟩, hdiv]
      exact ih (by omega) _

/-- What the search comes to, before the zeros are dropped. -/
theorem shortest_spec (h : Placed m e) (hm : m ≠ 0) :
    let top := tenExponent (Interval.of m e).value (Interval.of m e).den
    ∃ (j : Nat) (d : Scientific), shortest m e = stripZeros 17 d ∧ RoundsTo m e d.value ∧
      j < 17 ∧ d.digits ≤ 10 ^ (j + 1) ∧ (Interval.of m e).onGrid (top - j) = some d ∧
      ∀ l < j, (Interval.of m e).onGrid (top - l) = none := by
  obtain ⟨hlow, hhigh⟩ := tenExponent_of h hm
  rw [shortest]
  generalize tenExponent (Interval.of m e).value (Interval.of m e).den = top at *
  have hlast : ((Interval.of m e).onGrid (top - (16 : Nat))).isSome = true :=
    Interval.onGrid_isSome_of_le h hm (by rwa [Nat.cast_ofNat, sub_add_cancel])
  have hsome : ∃ j < 17, ((Interval.of m e).onGrid (top - (j : Nat))).isSome = true :=
    ⟨16, by omega, hlast⟩
  obtain ⟨j, hj, hgrid, hnone⟩ := (Interval.of m e).search_spec top hsome
  obtain ⟨hholds, hdigits⟩ := Interval.onGrid_eq_some (Interval.den_pos m e) hgrid
  refine ⟨j, _, rfl, (Interval.holdsDecimal_iff hm _).1 hholds, hj, ?_, hgrid, hnone⟩
  have hfloor : (Interval.of m e).floorAt (top - j) < 10 ^ (j + 1) := by
    have hle := (Interval.floorAt_bounds m e (top - j)).1.trans_lt hhigh
    rw [show top + 1 = (j + 1 : Nat) + (top - j) by omega, zpow_add₀ (by norm_num),
      zpow_natCast] at hle
    exact_mod_cast lt_of_mul_lt_mul_right hle (by positivity)
  rcases hdigits with ⟨heq, -⟩ | ⟨heq, -⟩ <;> rw [heq]
  · exact hfloor.le
  · exact hfloor

/-- The digits of a number are read back as the number. -/
theorem parts_ofScientific_shortest (h : Placed m e) (hm : m ≠ 0) (negative : Bool) :
    parts (ofScientific negative (shortest m e).digits (shortest m e).exponent) =
      .finite negative m e := by
  obtain ⟨j, d, heq, hrounds, hj, hdigits, -⟩ := shortest_spec h hm
  have hmost : 10 ^ (j + 1) ≤ 10 ^ 17 := Nat.pow_le_pow_right (by omega) (by omega)
  refine parts_of_roundsTo h hm ?_ ?_ negative
  · rw [heq]
    exact (digits_stripZeros_le _ _).trans (hdigits.trans hmost)
  · rwa [heq, stripZeros_value]

/-- Without its zeros a decimal keeps to the digits that it has room for. -/
theorem digits_stripZeros_lt {d : Scientific} {j fuel : Nat} (hj : j < fuel)
    (hd : d.digits ≤ 10 ^ (j + 1)) : (stripZeros fuel d).digits < 10 ^ (j + 1) := by
  rcases hd.lt_or_eq with hlt | hten
  · exact (digits_stripZeros_le _ _).trans_lt hlt
  · rw [show d = ⟨10 ^ (j + 1), d.exponent⟩ by rw [← hten], digits_stripZeros_pow hj]
    exact Nat.one_lt_pow (by omega) (by omega)

/-- For a decimal of few digits in the interval there is a point of their grid that is as near. -/
theorem exists_near_of_digits {top : Int} {d : Scientific} {n : Nat}
    (htop : (10 : ℚ) ^ top ≤ m * 2 ^ e) (hd : RoundsTo m e d.value) (hn : d.digits < 10 ^ (n + 1)) :
    ∃ c : Nat, RoundsTo m e (c * 10 ^ (top - n)) ∧
      |(c : ℚ) * 10 ^ (top - n) - m * 2 ^ e| ≤ |d.value - m * 2 ^ e| := by
  by_cases hcoarse : top - n ≤ d.exponent
  · have hvalue : d.value =
        (d.digits * 10 ^ (d.exponent - (top - n)).toNat : Nat) * 10 ^ (top - n) := by
      push_cast
      rw [mul_assoc, ← zpow_natCast, ← zpow_add₀ (by norm_num), Scientific.value]
      congr 2
      omega
    exact ⟨_, hvalue ▸ hd, by rw [← hvalue]⟩
  · -- the decimal is less than the power of ten that the number starts with
    have hpower : ((10 ^ n : Nat) : ℚ) * 10 ^ (top - n) = 10 ^ top := by
      push_cast
      rw [← zpow_natCast, ← zpow_add₀ (by norm_num)]
      congr 1
      omega
    have hless : d.value ≤ 10 ^ top := by
      calc d.value ≤ 10 ^ (n + 1) * 10 ^ d.exponent := by
            unfold Scientific.value
            gcongr
            exact_mod_cast hn.le
        _ = 10 ^ ((n + 1 : Nat) + d.exponent) := by
          rw [zpow_add₀ (by norm_num), zpow_natCast]
        _ ≤ 10 ^ top := by
          refine zpow_le_zpow_right₀ (by norm_num) ?_
          omega
    refine ⟨10 ^ n, ?_, ?_⟩ <;> rw [hpower]
    · exact hd.of_below hless htop
    · rw [abs_of_nonpos (by linarith), abs_of_nonpos (by linarith)]
      linarith

/-- No decimal of fewer digits is read as the number. -/
theorem digits_shortest_lt (h : Placed m e) (hm : m ≠ 0) {negative : Bool} {d : Scientific}
    {n : Nat} (hd : parts (ofScientific negative d.digits d.exponent) = .finite negative m e)
    (hn : d.digits < 10 ^ n) : (shortest m e).digits < 10 ^ n := by
  have hrounds := roundsTo_of_parts h hm hd
  obtain ⟨j, d', heq, -, hj, hdigits, -, hnone⟩ := shortest_spec h hm
  have hfew : j + 1 ≤ n := by
    by_contra! hlt
    cases n with
    | zero =>
      have hpos := hrounds.pos hm
      rw [Scientific.value_eq_zero (by omega)] at hpos
      exact absurd hpos (not_le.2 (by positivity))
    | succ n =>
      obtain ⟨c, hc, -⟩ := exists_near_of_digits (tenExponent_of h hm).1 hrounds hn
      have hsome := Interval.onGrid_isSome hm hc
      rw [hnone n (by omega)] at hsome
      cases hsome
  rw [heq]
  exact (digits_stripZeros_lt hj hdigits).trans_le (Nat.pow_le_pow_right (by omega) hfew)

/-- No decimal of as few digits that is read as the number is nearer to it. -/
theorem shortest_nearest (h : Placed m e) (hm : m ≠ 0) {negative : Bool} {d : Scientific}
    (hd : parts (ofScientific negative d.digits d.exponent) = .finite negative m e)
    (hn : ∀ n, (shortest m e).digits < 10 ^ n → d.digits < 10 ^ n) :
    |(shortest m e).value - m * 2 ^ e| ≤ |d.value - m * 2 ^ e| := by
  obtain ⟨j, d', heq, -, hj, hdigits, hgrid, -⟩ := shortest_spec h hm
  have hlt : (shortest m e).digits < 10 ^ (j + 1) := heq ▸ digits_stripZeros_lt hj hdigits
  obtain ⟨c, hc, hnear⟩ := exists_near_of_digits (tenExponent_of h hm).1
    (roundsTo_of_parts h hm hd) (hn _ hlt)
  rw [heq, stripZeros_value]
  exact (Interval.onGrid_nearest hm hgrid hc).trans hnear

example : shortest 7205759403792794 (-56) = ⟨1, -1⟩ := by decide +kernel
example : shortest 1 (-1074) = ⟨5, -324⟩ := by decide +kernel

end Comprehend.Decimal
