import Comprehend.Proofs.Number.Binary64

/-! # What is rounded to a number

Rounding takes a quotient to the nearest mantissa at its exponent (`mantissaOf_eq_iff`), so the
quotients that come to one number fill an interval around it. The interval reaches half a unit of
the last place to both sides, but half as far below a number with the least full mantissa, and its
ends belong to it if the mantissa is even (`parts_ofRatio_iff`). -/

namespace Comprehend.Decimal

variable {m num den : Nat} {e : Int}

/-! ## Rounding to the nearest -/

/-- The natural number nearest to a rational one, of two the even one. -/
structure Nearest (k : Nat) (y : ℚ) : Prop where
  below : (k : ℚ) - 1 / 2 ≤ y
  above : y ≤ k + 1 / 2
  even : y = k - 1 / 2 ∨ y = k + 1 / 2 → k % 2 = 0

theorem Nearest.le {k l : Nat} {y : ℚ} (h : Nearest k y) (h' : Nearest l y) : l ≤ k := by
  by_contra! hlt
  have hsucc : (k : ℚ) + 1 ≤ l := by exact_mod_cast hlt
  have hk : y = k + 1 / 2 := by linarith [h.above, h'.below]
  have hl : y = l - 1 / 2 := by linarith [h.above, h'.below]
  have heq : (l : ℚ) = k + 1 := by linarith
  have heq : l = k + 1 := by exact_mod_cast heq
  have := h.even (.inr hk)
  have := h'.even (.inl hl)
  omega

theorem nearest_roundHalfEven (num : Nat) {den : Nat} (hden : 0 < den) :
    Nearest (roundHalfEven num den) ((num : ℚ) / den) := by
  have positive : (0 : ℚ) < den := by exact_mod_cast hden
  have hnum : (num : ℚ) = den * (num / den : Nat) + (num % den : Nat) := by
    exact_mod_cast (Nat.div_add_mod num den).symm
  have hquotient : (num : ℚ) / den = (num / den : Nat) + (num % den : Nat) / den := by
    rw [hnum]
    field_simp
  have hlt : ((num % den : Nat) : ℚ) / den < 1 := by
    rw [div_lt_one positive]
    exact_mod_cast Nat.mod_lt num hden
  have hnonneg : (0 : ℚ) ≤ (num % den : Nat) / den := by positivity
  have hless : 2 * (num % den) ≤ den ↔ ((num % den : Nat) : ℚ) / den ≤ 1 / 2 := by
    rw [div_le_iff₀ positive, ← Nat.cast_le (α := ℚ)]
    push_cast
    constructor <;> intro h <;> linarith
  have hhalf : 2 * (num % den) = den ↔ ((num % den : Nat) : ℚ) / den = 1 / 2 := by
    rw [div_eq_iff positive.ne', ← Nat.cast_inj (R := ℚ)]
    push_cast
    constructor <;> intro h <;> linarith
  rw [hquotient, roundHalfEven]
  generalize ((num % den : Nat) : ℚ) / den = t at *
  simp only [Bool.or_eq_true, decide_eq_true_eq, Bool.and_eq_true, beq_iff_eq]
  split
  · next h =>
    have ht : 1 / 2 ≤ t := by
      rcases h with h | ⟨h, -⟩
      · exact le_of_lt (not_le.1 fun hle => absurd (hless.2 hle) (by omega))
      · exact (hhalf.1 h).ge
    refine ⟨by push_cast; linarith, by push_cast; linarith, fun heq => ?_⟩
    push_cast at heq
    have := hhalf.2 (by rcases heq with heq | heq <;> linarith)
    omega
  · next h =>
    have ht : t ≤ 1 / 2 := hless.1 (by omega)
    refine ⟨by linarith, by linarith, fun heq => ?_⟩
    have := hhalf.2 (by rcases heq with heq | heq <;> linarith)
    omega

theorem mantissaOf_eq_iff {k : Nat} (hden : 0 < den) :
    mantissaOf num den = k ↔ Nearest k ((num : ℚ) / den / 2 ^ exponentOf num den) := by
  have positive : 0 < den * 2 ^ (exponentOf num den).toNat := Nat.mul_pos hden (Nat.two_pow_pos _)
  have h := nearest_roundHalfEven (num * 2 ^ (-exponentOf num den).toNat) positive
  rw [scaled_div] at h
  exact ⟨fun heq => heq ▸ h, fun hk => le_antisymm (hk.le h) (h.le hk)⟩

theorem eq_of_carry {k : Nat} (hm : 2 ^ 52 ≤ m) (hk : k ≠ 0) (hle : m * 2 ^ k ≤ 2 ^ 53) :
    k = 1 ∧ m = 2 ^ 52 := by
  obtain ⟨l, rfl⟩ := Nat.exists_eq_succ_of_ne_zero hk
  rw [Nat.pow_succ, ← Nat.mul_assoc] at hle
  have hmul : m * 1 ≤ m * 2 ^ l := Nat.mul_le_mul_left m Nat.one_le_two_pow
  have hl : l = 0 := by
    by_contra hne
    have hlarge : m * 2 ^ 1 ≤ m * 2 ^ l :=
      Nat.mul_le_mul_left m (Nat.pow_le_pow_right (by omega) (by omega))
    omega
  exact ⟨by omega, by omega⟩

/-- Rounding gives a mantissa and an exponent at once, or carries into a place too many. -/
theorem parts_ofRatio_eq_iff (h : Placed m e) (hnum : num ≠ 0) (hden : 0 < den) (negative : Bool) :
    parts (ofRatio negative num den) = .finite negative m e ↔
      exponentOf num den = e ∧ mantissaOf num den = m ∨
        exponentOf num den + 1 = e ∧ mantissaOf num den = 2 ^ 53 ∧ m = 2 ^ 52 := by
  obtain ⟨-, -, least⟩ := exponentOf_spec hnum hden
  constructor
  · intro hparts
    obtain ⟨m', e', value, hle, ⟨-, -, hinfinite⟩ | ⟨-, hfinite⟩⟩ :=
      parts_ofRatio_eq hnum hden negative
    · rw [hparts] at hinfinite
      cases hinfinite
    · rw [hparts] at hfinite
      cases hfinite
      rcases hle.eq_or_lt with heq | hlt
      · rw [heq] at value
        have value := mul_right_cancel₀ (zpow_ne_zero e (by norm_num)) value
        exact .inl ⟨heq, by exact_mod_cast value.symm⟩
      · have hfull : 2 ^ 52 ≤ m := by
          have := h.full
          omega
        have hmost := (mantissaOf_bounds hnum hden).2
        have hpower : (2 : ℚ) ^ e =
            2 ^ (e - exponentOf num den).toNat * 2 ^ exponentOf num den := by
          rw [two_pow_mul_zpow]
          congr 1
          omega
        rw [hpower, ← mul_assoc] at value
        have value := mul_right_cancel₀ (zpow_ne_zero _ (by norm_num)) value
        have value : m * 2 ^ (e - exponentOf num den).toNat = mantissaOf num den := by
          exact_mod_cast value
        obtain ⟨hk, hm⟩ := eq_of_carry hfull (by omega) (value.trans_le hmost)
        rw [hk, hm] at value
        exact .inr ⟨by omega, value.symm, hm⟩
  · intro heq
    have bits : bitsOfRatio negative num den = encoded negative m e := by
      rw [bitsOfRatio_eq hnum]
      rcases heq with ⟨rfl, rfl⟩ | ⟨rfl, hcarry, rfl⟩
      · exact if_neg h.lt.ne
      · exact if_pos hcarry
    rw [ofRatio, parts_ofBits, bits, UInt64.toNat_ofNat',
      Nat.mod_eq_of_lt (encoded_lt negative h.lt h.least), partsOfBits_encoded negative h]

/-! ## The interval of a number -/

/-- How far below a number lie the rational numbers that are rounded to it, in units of its last
place. The number below one with the least full mantissa is half as far away. -/
def reach (m : Nat) (e : Int) : ℚ := if m = 2 ^ 52 ∧ -1074 < e then 1 / 4 else 1 / 2

/-- A rational number that is rounded to a mantissa and an exponent. -/
structure RoundsTo (m : Nat) (e : Int) (x : ℚ) : Prop where
  low : (m - reach m e) * 2 ^ e ≤ x
  high : x ≤ (m + 1 / 2) * 2 ^ e
  even : x = (m - reach m e) * 2 ^ e ∨ x = (m + 1 / 2) * 2 ^ e → m % 2 = 0

theorem reach_le (m : Nat) (e : Int) : reach m e ≤ 1 / 2 := by
  unfold reach
  split <;> norm_num

theorem reach_pos (m : Nat) (e : Int) : 0 < reach m e := by
  unfold reach
  split <;> norm_num

namespace RoundsTo

variable {x y : ℚ}

theorem of_lt (hlow : (m - reach m e) * 2 ^ e < x) (hhigh : x < (m + 1 / 2) * 2 ^ e) :
    RoundsTo m e x :=
  ⟨hlow.le, hhigh.le, fun h => h.elim (fun h => absurd h hlow.ne') fun h => absurd h hhigh.ne⟩

/-- What is nearer to a number on the same side is rounded to it too. -/
theorem of_below (h : RoundsTo m e x) (hxy : x ≤ y) (hy : y ≤ m * 2 ^ e) : RoundsTo m e y := by
  have hp : (0 : ℚ) < 2 ^ e := by positivity
  refine ⟨h.low.trans hxy, by linarith, fun heq => ?_⟩
  rcases heq with heq | heq
  · exact h.even (.inl (le_antisymm (hxy.trans heq.le) h.low))
  · linarith

theorem of_above (h : RoundsTo m e x) (hy : m * 2 ^ e ≤ y) (hyx : y ≤ x) : RoundsTo m e y := by
  have hreach : 0 < reach m e * 2 ^ e := mul_pos (reach_pos m e) (by positivity)
  refine ⟨by linarith, hyx.trans h.high, fun heq => ?_⟩
  rcases heq with heq | heq
  · linarith
  · exact h.even (.inr (le_antisymm h.high (heq.ge.trans hyx)))

theorem pos (h : RoundsTo m e x) (hm : m ≠ 0) : 2 ^ (e - 1) ≤ x := by
  have hone : (1 : ℚ) ≤ m := by exact_mod_cast Nat.one_le_iff_ne_zero.2 hm
  have hp : (0 : ℚ) < 2 ^ e := by positivity
  refine le_trans ?_ h.low
  rw [zpow_sub_one₀ (by norm_num)]
  nlinarith [reach_le m e]

end RoundsTo

theorem nearest_div_iff {k : Nat} {x : ℚ} (e : Int) : Nearest k (x / 2 ^ e) ↔
    (k - 1 / 2) * 2 ^ e ≤ x ∧ x ≤ (k + 1 / 2) * 2 ^ e ∧
      (x = (k - 1 / 2) * 2 ^ e ∨ x = (k + 1 / 2) * 2 ^ e → k % 2 = 0) := by
  have hp : (0 : ℚ) < 2 ^ e := by positivity
  constructor
  · rintro ⟨below, above, even⟩
    rw [div_eq_iff hp.ne', div_eq_iff hp.ne'] at even
    exact ⟨(le_div_iff₀ hp).1 below, (div_le_iff₀ hp).1 above, even⟩
  · rintro ⟨below, above, even⟩
    refine ⟨(le_div_iff₀ hp).2 below, (div_le_iff₀ hp).2 above, ?_⟩
    rwa [div_eq_iff hp.ne', div_eq_iff hp.ne']

theorem lt_of_two_pow_mul_zpow_lt {j k : Nat} {e f : Int}
    (h : (2 : ℚ) ^ j * 2 ^ e < 2 ^ k * 2 ^ f) : j + e < k + f := by
  rw [two_pow_mul_zpow, two_pow_mul_zpow] at h
  exact (zpow_lt_zpow_iff_right₀ (by norm_num)).1 h

/-- The exponent at which a positive number has a full mantissa, or the least one there is. -/
structure HasExponent (x : ℚ) (f : Int) : Prop where
  below : x < 2 ^ 53 * 2 ^ f
  above : f = -1074 ∨ 2 ^ 52 * 2 ^ f ≤ x
  least : -1074 ≤ f

theorem hasExponent_div (hnum : num ≠ 0) (hden : 0 < den) :
    HasExponent ((num : ℚ) / den) (exponentOf num den) := by
  obtain ⟨below, above, least⟩ := exponentOf_spec hnum hden
  exact ⟨below, above, least⟩

namespace RoundsTo

variable {x : ℚ} {f : Int}

theorem of_nearest (hf : HasExponent x f) (h : Nearest m (x / 2 ^ f)) : RoundsTo m f x := by
  have hp : (0 : ℚ) < 2 ^ f := by positivity
  obtain ⟨hlow, hhigh, heven⟩ := (nearest_div_iff f).1 h
  by_cases hmin : m = 2 ^ 52 ∧ -1074 < f
  · obtain ⟨rfl, hlarge⟩ := hmin
    have hfull := hf.above.resolve_left (by omega)
    refine ⟨?_, hhigh, fun _ => by norm_num⟩
    rw [reach, if_pos ⟨rfl, hlarge⟩]
    push_cast
    linarith
  · have hreach : reach m f = 1 / 2 := if_neg hmin
    exact ⟨hreach ▸ hlow, hhigh, hreach ▸ heven⟩

/-- A mantissa of a place too many is the least full one at the next exponent. -/
theorem of_carry (hf : HasExponent x f) (h : Nearest (2 ^ 53) (x / 2 ^ f)) :
    RoundsTo (2 ^ 52) (f + 1) x := by
  obtain ⟨hlow, -, -⟩ := (nearest_div_iff f).1 h
  have hp : (0 : ℚ) < 2 ^ f := by positivity
  have hbelow := hf.below
  have hleast := hf.least
  have hreach : reach (2 ^ 52) (f + 1) = 1 / 4 := if_pos ⟨rfl, by omega⟩
  have hdouble : (2 : ℚ) ^ (f + 1) = 2 ^ f * 2 := zpow_add_one₀ (by norm_num) f
  push_cast at hlow
  refine ⟨?_, ?_, fun _ => by norm_num⟩
  · rw [hreach, hdouble]
    push_cast
    linarith
  · rw [hdouble]
    push_cast
    linarith

theorem nearest (h : RoundsTo m e x) : Nearest m (x / 2 ^ e) := by
  refine (nearest_div_iff e).2 ⟨?_, h.high, fun heq => ?_⟩
  · refine le_trans ?_ h.low
    gcongr
    exact reach_le m e
  · by_cases hmin : m = 2 ^ 52 ∧ -1074 < e
    · rw [hmin.1]
      norm_num
    · have heven := h.even
      rw [show reach m e = 1 / 2 from if_neg hmin] at heven
      exact heven heq

theorem lt_full (h : RoundsTo m e x) (hm : m < 2 ^ 53) : x < 2 ^ 53 * 2 ^ e := by
  have hp : (0 : ℚ) < 2 ^ e := by positivity
  have hlt : (m : ℚ) + 1 ≤ 2 ^ 53 := by exact_mod_cast hm
  refine h.high.trans_lt ?_
  gcongr
  linarith

theorem exponent_le (h : RoundsTo m e x) (hm : Placed m e) (hf : HasExponent x f) : f ≤ e := by
  rcases hf.above with hleast | habove
  · have := hm.least
    omega
  · have := lt_of_two_pow_mul_zpow_lt (habove.trans_lt (h.lt_full hm.lt))
    omega

/-- Only below a number with the least full mantissa is the exponent another one. -/
theorem carry (h : RoundsTo m e x) (hm : Placed m e) (hf : HasExponent x f) (hne : f ≠ e) :
    f + 1 = e ∧ Nearest (2 ^ 53) (x / 2 ^ f) ∧ m = 2 ^ 52 := by
  have hp : (0 : ℚ) < 2 ^ e := by positivity
  have hle := h.exponent_le hm hf
  have hleast := hf.least
  have hshort : x < 2 ^ 52 * 2 ^ e := by
    by_contra! hfull
    have := lt_of_two_pow_mul_zpow_lt (hfull.trans_lt hf.below)
    omega
  have hfull : 2 ^ 52 ≤ m := hm.full.resolve_right (by omega)
  have hlow := h.low
  have hmin : m = 2 ^ 52 := by
    by_contra hne
    rw [show reach m e = 1 / 2 from if_neg fun h => hne h.1] at hlow
    have hsucc : (2 : ℚ) ^ 52 + 1 ≤ m := by exact_mod_cast (by omega : 2 ^ 52 + 1 ≤ m)
    refine absurd (lt_of_le_of_lt hlow hshort) (not_lt.2 ?_)
    gcongr
    linarith
  subst hmin
  rw [show reach (2 ^ 52) e = 1 / 4 from if_pos ⟨rfl, by omega⟩] at hlow
  push_cast at hlow
  have hfe : f + 1 = e := by
    have hhalf : (2 : ℚ) ^ 51 * 2 ^ e < x := by linarith
    have := lt_of_two_pow_mul_zpow_lt (hhalf.trans hf.below)
    omega
  subst hfe
  have hdouble : (2 : ℚ) ^ (f + 1) = 2 ^ f * 2 := zpow_add_one₀ (by norm_num) f
  have hbelow := hf.below
  rw [hdouble] at hlow hp
  refine ⟨rfl, (nearest_div_iff f).2 ⟨?_, ?_, fun _ => by norm_num⟩, rfl⟩
  · push_cast
    linarith
  · push_cast
    linarith

end RoundsTo

/-- A quotient is rounded to a number exactly when it lies in its interval. -/
theorem parts_ofRatio_iff (h : Placed m e) (hnum : num ≠ 0) (hden : 0 < den) (negative : Bool) :
    parts (ofRatio negative num den) = .finite negative m e ↔ RoundsTo m e ((num : ℚ) / den) := by
  have hf := hasExponent_div hnum hden
  rw [parts_ofRatio_eq_iff h hnum hden, mantissaOf_eq_iff hden, mantissaOf_eq_iff hden]
  constructor
  · rintro (⟨rfl, hnear⟩ | ⟨rfl, hnear, rfl⟩)
    · exact .of_nearest hf hnear
    · exact .of_carry hf hnear
  · intro hx
    by_cases hfe : exponentOf num den = e
    · exact .inl ⟨hfe, hfe ▸ hx.nearest⟩
    · exact .inr (hx.carry h hf hfe)

end Comprehend.Decimal
