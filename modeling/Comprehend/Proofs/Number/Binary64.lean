import Comprehend.Decimal.Binary64
import Mathlib

/-! # Rounding to binary floating point

A quotient of two naturals is rounded by finding the exponent at which it has 53 digits
(`exponentOf_spec`), rounding what is before the point there, and writing sign, exponent and
mantissa into the fields of 64 bits. Reading the fields gives back what was written (`parts_ofBits`,
`partsOfBits_encoded`), so the result is worth the rounded mantissa at that exponent
(`parts_ofRatio_eq`). A value of the format is whole at its exponent and comes out unchanged
(`parts_ofRatio`). -/

namespace Comprehend.Decimal

/-! ## Bits -/

theorem partsOfBits_eq (bits : Nat) : partsOfBits bits =
    if bits / 2 ^ 52 % 2 ^ 11 = 2047 then
      (if bits % 2 ^ 52 = 0 then .infinite (2 ^ 63 ≤ bits) else .nan)
    else if bits / 2 ^ 52 % 2 ^ 11 = 0 then .finite (2 ^ 63 ≤ bits) (bits % 2 ^ 52) (-1074)
    else .finite (2 ^ 63 ≤ bits) (bits % 2 ^ 52 + 2 ^ 52) ((bits / 2 ^ 52 % 2 ^ 11 : Nat) - 1075) :=
  rfl

open Float.Model UnpackedFloat in
/-- The parts of a number are those of the bits it was made of. One that is not a number need not
keep its bits. -/
theorem parts_ofBits (bits : UInt64) : parts (Float.ofBits bits) = partsOfBits bits.toNat := by
  have packed := @pack_unpack .binary64 bits.toBitVec
  change partsOfBits (pack .binary64 (unpack .binary64 bits.toBitVec)).toNat = _
  rw [packed]
  split
  · next h =>
    simp only [isNaNBits, decide_eq_true_eq, unpackExponent_def, unpackMantissa_def] at h
    obtain ⟨exponent, fraction⟩ := h
    have exponent : bits.toNat / 2 ^ 52 % 2 ^ 11 = 2047 := by
      simpa [Nat.shiftRight_eq_div_pow] using congrArg BitVec.toNat exponent
    have fraction : ¬bits.toNat % 2 ^ 52 = 0 := fun h =>
      fraction (BitVec.eq_of_toNat_eq (by simpa using h))
    rw [partsOfBits_eq bits.toNat, if_pos exponent, if_neg fraction]
    decide +kernel
  · rfl

/-- A mantissa and an exponent of the format; only under the least exponent is it short. -/
structure Placed (m : Nat) (e : Int) : Prop where
  lt : m < 2 ^ 53
  full : 2 ^ 52 ≤ m ∨ e = -1074
  least : -1074 ≤ e
  most : e ≤ 971

/-- The bits of a sign, an exponent and a fraction. -/
def bitsOf (negative : Bool) (exponent fraction : Nat) : Nat :=
  (if negative then 2 ^ 63 else 0) + exponent * 2 ^ 52 + fraction

theorem bitsOf_lt (negative : Bool) {exponent fraction : Nat} (he : exponent ≤ 2047)
    (hf : fraction < 2 ^ 52) : bitsOf negative exponent fraction < 2 ^ 64 := by
  cases negative <;> simp only [bitsOf] <;> simp <;> omega

theorem partsOfBits_bitsOf (negative : Bool) {exponent fraction : Nat} (he : exponent ≤ 2047)
    (hf : fraction < 2 ^ 52) : partsOfBits (bitsOf negative exponent fraction) =
      if exponent = 2047 then (if fraction = 0 then .infinite negative else .nan)
      else if exponent = 0 then .finite negative fraction (-1074)
      else .finite negative (fraction + 2 ^ 52) (exponent - 1075) := by
  have fields : bitsOf negative exponent fraction / 2 ^ 52 % 2 ^ 11 = exponent ∧
      bitsOf negative exponent fraction % 2 ^ 52 = fraction ∧
      decide (2 ^ 63 ≤ bitsOf negative exponent fraction) = negative := by
    cases negative <;> simp [bitsOf] <;> omega
  obtain ⟨top, low, sign⟩ := fields
  rw [partsOfBits_eq, top, low, sign]

/-- The bits of a mantissa and an exponent, infinite past the most there are. -/
def encoded (negative : Bool) (m : Nat) (e : Int) : Nat :=
  let sign := if negative then 2 ^ 63 else 0
  if 971 < e then sign + 2047 * 2 ^ 52
  else if m < 2 ^ 52 then sign + m
  else sign + (e + 1075).toNat * 2 ^ 52 + (m - 2 ^ 52)

theorem encoded_eq (negative : Bool) (m : Nat) (e : Int) : encoded negative m e =
    if 971 < e then bitsOf negative 2047 0
    else if m < 2 ^ 52 then bitsOf negative 0 m
    else bitsOf negative (e + 1075).toNat (m - 2 ^ 52) := by
  simp only [encoded, bitsOf, Nat.add_zero, Nat.zero_mul]

theorem encoded_lt (negative : Bool) {m : Nat} {e : Int} (hm : m < 2 ^ 53) (he : -1074 ≤ e) :
    encoded negative m e < 2 ^ 64 := by
  rw [encoded_eq]
  split
  · exact bitsOf_lt _ (by omega) (by omega)
  · split <;> exact bitsOf_lt _ (by omega) (by omega)

theorem partsOfBits_encoded (negative : Bool) {m : Nat} {e : Int} (h : Placed m e) :
    partsOfBits (encoded negative m e) = .finite negative m e := by
  obtain ⟨hlt, hfull, hleast, hmost⟩ := h
  rw [encoded_eq, if_neg (by omega)]
  split
  · have he : e = -1074 := by omega
    rw [partsOfBits_bitsOf _ (by omega) (by omega), if_neg (by omega), if_pos rfl, he]
  · rw [partsOfBits_bitsOf _ (by omega) (by omega), if_neg (by omega), if_neg (by omega),
      Nat.sub_add_cancel (by omega)]
    congr
    omega

theorem partsOfBits_encoded_infinite (negative : Bool) (m : Nat) {e : Int} (h : 971 < e) :
    partsOfBits (encoded negative m e) = .infinite negative := by
  rw [encoded_eq, if_pos h, partsOfBits_bitsOf _ (by omega) (by omega), if_pos rfl, if_pos rfl]

theorem placed_of_parts {x : Float} {negative : Bool} {m : Nat} {e : Int}
    (h : parts x = .finite negative m e) : Placed m e := by
  rw [parts, partsOfBits_eq] at h
  split at h
  · split at h <;> cases h
  · split at h
    · cases h
      exact ⟨by omega, .inr rfl, by omega, by omega⟩
    · cases h
      exact ⟨by omega, .inl (by omega), by omega, by omega⟩

/-! ## The exponent of a quotient -/

theorem zpow_eq_div {b : ℚ} (hb : b ≠ 0) (e : Int) : b ^ e = b ^ e.toNat / b ^ (-e).toNat := by
  conv_lhs => rw [← Int.toNat_sub_toNat_neg e]
  rw [zpow_sub₀ hb, zpow_natCast, zpow_natCast]

theorem zpow_two_eq (e : Int) : (2 : ℚ) ^ e = 2 ^ e.toNat / 2 ^ (-e).toNat :=
  zpow_eq_div (by norm_num) e

/-- Scaling both sides of a quotient by the parts of a power of two divides it by the power. -/
theorem scaled_div (num den : Nat) (e : Int) :
    ((num * 2 ^ (-e).toNat : Nat) : ℚ) / (den * 2 ^ e.toNat : Nat) = num / den / 2 ^ e := by
  rw [zpow_two_eq]
  push_cast
  field_simp

theorem lt_scaled_iff (num : Nat) {den : Nat} (hden : 0 < den) (k : Nat) (e : Int) :
    num * 2 ^ (-e).toNat < k * den * 2 ^ e.toNat ↔ (num : ℚ) / den < k * 2 ^ e := by
  have positive : (0 : ℚ) < den * 2 ^ e.toNat := by positivity
  have power : (0 : ℚ) < 2 ^ e := by positivity
  have h := scaled_div num den e
  push_cast at h
  rw [← div_lt_iff₀ power, ← h, div_lt_iff₀ positive, ← mul_assoc]
  exact_mod_cast Iff.rfl

theorem div_lt_two_zpow (num : Nat) {den : Nat} (hden : 0 < den) :
    (num : ℚ) / den < 2 ^ ((Nat.log2 num : Int) - Nat.log2 den + 1) := by
  have hd : (0 : ℚ) < den := by exact_mod_cast hden
  have num_lt : (num : ℚ) < 2 ^ (Nat.log2 num + 1) := by exact_mod_cast Nat.lt_log2_self
  have le_den : (2 : ℚ) ^ Nat.log2 den ≤ den := by exact_mod_cast Nat.log2_self_le hden.ne'
  rw [div_lt_iff₀ hd]
  calc (num : ℚ) < 2 ^ (Nat.log2 num + 1) := num_lt
    _ = 2 ^ ((Nat.log2 num : Int) - Nat.log2 den + 1) * 2 ^ Nat.log2 den := by
      rw [← zpow_natCast, ← zpow_natCast, ← zpow_add₀ (by norm_num)]
      congr 1
      push_cast
      ring
    _ ≤ _ := by gcongr

theorem two_zpow_lt_div {num den : Nat} (hnum : num ≠ 0) (hden : 0 < den) :
    2 ^ ((Nat.log2 num : Int) - Nat.log2 den - 1) < (num : ℚ) / den := by
  have hd : (0 : ℚ) < den := by exact_mod_cast hden
  have le_num : (2 : ℚ) ^ Nat.log2 num ≤ num := by exact_mod_cast Nat.log2_self_le hnum
  have den_lt : (den : ℚ) < 2 ^ (Nat.log2 den + 1) := by exact_mod_cast Nat.lt_log2_self
  rw [lt_div_iff₀ hd]
  calc (2 : ℚ) ^ ((Nat.log2 num : Int) - Nat.log2 den - 1) * den
    _ < 2 ^ ((Nat.log2 num : Int) - Nat.log2 den - 1) * 2 ^ (Nat.log2 den + 1) := by gcongr
    _ = 2 ^ Nat.log2 num := by
      rw [← zpow_natCast, ← zpow_natCast, ← zpow_add₀ (by norm_num)]
      congr 1
      push_cast
      ring
    _ ≤ num := le_num

theorem two_pow_mul_zpow (k : Nat) (e : Int) : (2 : ℚ) ^ k * 2 ^ e = 2 ^ (k + e) := by
  rw [← zpow_natCast, ← zpow_add₀ (by norm_num)]

theorem exponentOf_eq (num den : Nat) : exponentOf num den =
    let e := (Nat.log2 num : Int) - Nat.log2 den - 52
    max (if num * 2 ^ (-e).toNat < 2 ^ 52 * den * 2 ^ e.toNat then e - 1 else e) (-1074) := by
  simp only [exponentOf, decide_eq_true_eq]
  rfl

/-- A quotient at its exponent is a full mantissa, or a short one at the least exponent. -/
theorem exponentOf_spec {num den : Nat} (hnum : num ≠ 0) (hden : 0 < den) :
    (num : ℚ) / den < 2 ^ 53 * 2 ^ exponentOf num den ∧
      (exponentOf num den = -1074 ∨ 2 ^ 52 * 2 ^ exponentOf num den ≤ (num : ℚ) / den) ∧
      -1074 ≤ exponentOf num den := by
  have upper := div_lt_two_zpow num hden
  have lower := two_zpow_lt_div hnum hden
  have short := lt_scaled_iff num hden (2 ^ 52) (Nat.log2 num - Nat.log2 den - 52)
  rw [Nat.cast_pow, Nat.cast_ofNat, two_pow_mul_zpow] at short
  -- The estimate is right or one too large, and the least exponent can only raise it.
  obtain ⟨e, he, below, above⟩ : ∃ e, exponentOf num den = max e (-1074) ∧
      (num : ℚ) / den < 2 ^ 53 * 2 ^ e ∧ 2 ^ 52 * 2 ^ e ≤ (num : ℚ) / den := by
    simp only [two_pow_mul_zpow]
    by_cases h : (num : ℚ) / den < 2 ^ (52 + ((Nat.log2 num : Int) - Nat.log2 den - 52))
    · refine ⟨Nat.log2 num - Nat.log2 den - 52 - 1, ?_, ?_, ?_⟩
      · rw [exponentOf_eq]
        exact congrArg (max · _) (if_pos (short.2 h))
      · exact h.trans_eq (by congr 1; omega)
      · exact le_trans (by apply le_of_eq; congr 1; omega) lower.le
    · refine ⟨Nat.log2 num - Nat.log2 den - 52, ?_, ?_, ?_⟩
      · rw [exponentOf_eq]
        exact congrArg (max · _) (if_neg fun hs => h (short.1 hs))
      · exact upper.trans_eq (by congr 1; omega)
      · exact not_lt.1 h
  rw [he]
  refine ⟨below.trans_le ?_, ?_, le_max_right _ _⟩
  · gcongr
    · norm_num
    · exact le_max_left _ _
  · rcases le_total e (-1074) with h | h
    · exact .inl (max_eq_right h)
    · exact .inr (by rwa [max_eq_left h])

/-! ## Rounding -/

theorem roundHalfEven_bounds (num den : Nat) :
    num / den ≤ roundHalfEven num den ∧ roundHalfEven num den ≤ num / den + 1 := by
  unfold roundHalfEven
  dsimp only
  split <;> omega

theorem roundHalfEven_mul (k : Nat) {den : Nat} (hden : 0 < den) :
    roundHalfEven (k * den) den = k := by
  have : ¬0 = den := by omega
  simp [roundHalfEven, Nat.ne_of_gt hden, this]

/-- The mantissa that a quotient is rounded to. -/
def mantissaOf (num den : Nat) : Nat :=
  roundHalfEven (num * 2 ^ (-exponentOf num den).toNat) (den * 2 ^ (exponentOf num den).toNat)

theorem mantissaOf_bounds {num den : Nat} (hnum : num ≠ 0) (hden : 0 < den) :
    (exponentOf num den = -1074 ∨ 2 ^ 52 ≤ mantissaOf num den) ∧ mantissaOf num den ≤ 2 ^ 53 := by
  obtain ⟨below, above, -⟩ := exponentOf_spec hnum hden
  have rounds := roundHalfEven_bounds (num * 2 ^ (-exponentOf num den).toNat)
    (den * 2 ^ (exponentOf num den).toNat)
  have positive : 0 < den * 2 ^ (exponentOf num den).toNat := Nat.mul_pos hden (Nat.two_pow_pos _)
  constructor
  · refine above.imp_right fun h => le_trans ?_ rounds.1
    rw [Nat.le_div_iff_mul_le positive, ← Nat.mul_assoc]
    refine Nat.le_of_not_lt fun hlt => ?_
    have hlt := (lt_scaled_iff _ hden (2 ^ 52) _).1 hlt
    push_cast at hlt
    exact absurd hlt (not_lt.2 h)
  · refine rounds.2.trans (Nat.succ_le_of_lt ?_)
    rw [Nat.div_lt_iff_lt_mul positive, ← Nat.mul_assoc]
    exact (lt_scaled_iff _ hden (2 ^ 53) _).2 (by push_cast; exact below)

theorem bitsOfRatio_eq {num den : Nat} (hnum : num ≠ 0) (negative : Bool) :
    bitsOfRatio negative num den =
      if mantissaOf num den = 2 ^ 53 then encoded negative (2 ^ 52) (exponentOf num den + 1)
      else encoded negative (mantissaOf num den) (exponentOf num den) := by
  have read : bitsOfRatio negative num den =
      let p := if mantissaOf num den = 2 ^ 53 then (2 ^ 52, exponentOf num den + 1)
        else (mantissaOf num den, exponentOf num den)
      encoded negative p.1 p.2 := by
    rw [bitsOfRatio, if_neg hnum]
    rfl
  rw [read]
  split <;> rfl

theorem parts_ofRatio_eq {num den : Nat} (hnum : num ≠ 0) (hden : 0 < den) (negative : Bool) :
    ∃ (m : Nat) (e : Int), (m : ℚ) * 2 ^ e = mantissaOf num den * 2 ^ exponentOf num den ∧
      exponentOf num den ≤ e ∧
      (2 ^ 52 ≤ m ∧ 971 < e ∧ parts (ofRatio negative num den) = .infinite negative ∨
        Placed m e ∧ parts (ofRatio negative num den) = .finite negative m e) := by
  obtain ⟨-, -, least⟩ := exponentOf_spec hnum hden
  obtain ⟨full, most⟩ := mantissaOf_bounds hnum hden
  -- What is left of the mantissa after a carry into a place too many.
  obtain ⟨m, e, value, he, short, hfull, bits⟩ : ∃ (m : Nat) (e : Int),
      (m : ℚ) * 2 ^ e = mantissaOf num den * 2 ^ exponentOf num den ∧ exponentOf num den ≤ e ∧
      m < 2 ^ 53 ∧ (2 ^ 52 ≤ m ∨ e = -1074) ∧
      bitsOfRatio negative num den = encoded negative m e := by
    rw [bitsOfRatio_eq hnum]
    split
    · next carry =>
      refine ⟨2 ^ 52, exponentOf num den + 1, ?_, by omega, by omega, .inl (le_refl _), rfl⟩
      rw [carry, zpow_add_one₀ (by norm_num)]
      push_cast
      ring
    · exact ⟨_, _, rfl, le_refl _, by omega, by omega, rfl⟩
  have read : parts (ofRatio negative num den) = partsOfBits (encoded negative m e) := by
    rw [ofRatio, parts_ofBits, bits, UInt64.toNat_ofNat', Nat.mod_eq_of_lt]
    exact encoded_lt negative short (by omega)
  refine ⟨m, e, value, he, ?_⟩
  rw [read]
  by_cases h : 971 < e
  · exact .inl ⟨by omega, h, partsOfBits_encoded_infinite negative m h⟩
  · exact .inr ⟨⟨short, hfull, by omega, by omega⟩,
      partsOfBits_encoded negative ⟨short, hfull, by omega, by omega⟩⟩

theorem mul_zpow_lt {r : Nat} {g e : Int} (hr : r < 2 ^ 53) (h : g < e) :
    (r : ℚ) * 2 ^ g < 2 ^ 52 * 2 ^ e := by
  have hr : (r : ℚ) < 2 ^ 53 := by exact_mod_cast hr
  calc (r : ℚ) * 2 ^ g
    _ < 2 ^ 53 * 2 ^ g := by gcongr
    _ = 2 ^ 52 * 2 ^ (g + 1) := by rw [zpow_add_one₀ (by norm_num)]; ring
    _ ≤ 2 ^ 52 * 2 ^ e := by gcongr; exacts [by norm_num, h]

/-- The exponent of a value of the format is no more than one that it is written with. -/
theorem exponentOf_le {num den r : Nat} {g : Int} (hnum : num ≠ 0) (hden : 0 < den)
    (value : (num : ℚ) / den = r * 2 ^ g) (hr : r < 2 ^ 53) (hg : -1074 ≤ g) :
    exponentOf num den ≤ g := by
  obtain ⟨-, least | above, -⟩ := exponentOf_spec hnum hden
  · omega
  · by_contra! h
    exact absurd above (not_le.2 (value ▸ mul_zpow_lt hr h))

/-- A quotient that is a whole number at its exponent is not rounded. -/
theorem mantissaOf_eq {num den k : Nat} (hden : 0 < den)
    (value : (num : ℚ) / den = k * 2 ^ exponentOf num den) : mantissaOf num den = k := by
  have positive : 0 < den * 2 ^ (exponentOf num den).toNat := Nat.mul_pos hden (Nat.two_pow_pos _)
  have scaled := scaled_div num den (exponentOf num den)
  rw [value, mul_div_cancel_right₀ _ (by positivity), div_eq_iff (by positivity)] at scaled
  rw [mantissaOf, ← roundHalfEven_mul k positive]
  congr 1
  exact_mod_cast scaled

theorem parts_ofRatio_zero (negative : Bool) (den : Nat) :
    parts (ofRatio negative 0 den) = .finite negative 0 (-1074) := by
  have bits : bitsOfRatio negative 0 den = encoded negative 0 (-1074) := by
    simp [bitsOfRatio, encoded, signPlace, fractionBits, exponentBits]
  rw [ofRatio, parts_ofBits, bits, UInt64.toNat_ofNat',
    Nat.mod_eq_of_lt (encoded_lt negative (by omega) (by omega))]
  exact partsOfBits_encoded negative ⟨by omega, .inr rfl, by omega, by omega⟩

/-- A value of the format is its own rounding. -/
theorem parts_ofRatio {num den r : Nat} {g : Int} (hden : 0 < den)
    (value : (num : ℚ) / den = r * 2 ^ g) (hr : r < 2 ^ 53) (hg : -1074 ≤ g) (hg' : g ≤ 971)
    (negative : Bool) :
    ∃ (m : Nat) (e : Int), parts (ofRatio negative num den) = .finite negative m e ∧
      (m : ℚ) * 2 ^ e = r * 2 ^ g := by
  by_cases hnum : num = 0
  · subst hnum
    refine ⟨0, -1074, parts_ofRatio_zero negative den, ?_⟩
    rw [← value]
    simp
  have le := exponentOf_le hnum hden value hr hg
  -- Written with its own exponent, the value has a whole mantissa.
  have whole : (r : ℚ) * 2 ^ g =
      (r * 2 ^ (g - exponentOf num den).toNat : Nat) * 2 ^ exponentOf num den := by
    push_cast
    rw [mul_assoc, ← zpow_natCast, ← zpow_add₀ (by norm_num)]
    congr 2
    omega
  obtain ⟨m, e, hm, -, ⟨full, large, -⟩ | ⟨-, finite⟩⟩ := parts_ofRatio_eq hnum hden negative
  · rw [mantissaOf_eq hden (value.trans whole), ← whole] at hm
    have full : (2 ^ 52 : ℚ) ≤ m := by exact_mod_cast full
    have above : g < e := by omega
    have less : (r : ℚ) * 2 ^ g < m * 2 ^ e := (mul_zpow_lt hr above).trans_le (by gcongr)
    exact absurd hm less.ne'
  · rw [mantissaOf_eq hden (value.trans whole), ← whole] at hm
    exact ⟨m, e, finite, hm⟩

theorem parts_ofScaled {r : Nat} {g : Int} (hr : r < 2 ^ 53) (hg : -1074 ≤ g) (hg' : g ≤ 971)
    (negative : Bool) :
    ∃ (m : Nat) (e : Int), parts (ofScaled negative r g) = .finite negative m e ∧
      (m : ℚ) * 2 ^ e = r * 2 ^ g := by
  have value : ((r * 2 ^ g.toNat : Nat) : ℚ) / (2 ^ (-g).toNat : Nat) = r * 2 ^ g := by
    rw [zpow_two_eq]
    push_cast
    ring
  exact parts_ofRatio (Nat.two_pow_pos _) value hr hg hg' negative

end Comprehend.Decimal
