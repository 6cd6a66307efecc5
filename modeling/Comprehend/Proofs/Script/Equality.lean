import Comprehend.Proofs.Number.Remainder
import Comprehend.Proofs.Script.Conversion

/-! # The two equalities

Strict equality is symmetric and transitive, loose equality is symmetric and agrees with it within a
category. The loose one tells its operands' kinds apart from the left and converts one at a time.
That order does not show: of two operands that both turn into texts one is a function, and the text
of a function is never refused. -/

namespace Comprehend

open Decimal Script

/-! ## Numbers -/

namespace Number

/-- What a number is worth exactly: nothing if it is none, an infinity or a fraction. -/
def worth : Parts → Option (Bool ⊕ ℚ)
  | .nan => none
  | .infinite s => some (.inl s)
  | .finite s m e => some (.inr (signed s m * 2 ^ e))

theorem signedScale_mul_zpow (s : Bool) (m : Nat) {g e : Int} (h : g ≤ e) :
    (signedScale s m (e - g) : ℚ) * 2 ^ g = signed s m * 2 ^ e := by
  have scaled := mul_two_pow_zpow m h
  cases s
  · exact_mod_cast scaled
  · simpa [signedScale, signed] using congrArg (- ·) scaled

theorem order_eq_iff (p q : Parts) :
    order p q = some .eq ↔ ∃ w, worth p = some w ∧ worth q = some w := by
  cases p with
  | nan => simp [order, worth]
  | infinite s =>
    cases q with
    | nan => simp [order, worth]
    | infinite t => cases s <;> cases t <;> simp [order, worth, signed, compare, compareOfLessAndEq]
    | finite t n f => cases s <;> simp [order, worth]
  | finite s m e =>
    cases q with
    | nan => simp [order, worth]
    | infinite t => cases t <;> simp [order, worth]
    | finite t n f =>
      have power : (2 : ℚ) ^ min e f ≠ 0 := by positivity
      have left := signedScale_mul_zpow s m (min_le_left e f)
      have right := signedScale_mul_zpow t n (min_le_right e f)
      simp only [order, worth, Option.some.injEq, exists_eq_left', Sum.inr.injEq, ← left, ← right,
        mul_left_inj' power, Int.cast_inj, compare_eq_iff_eq]
      exact eq_comm

theorem equals_iff {a b : Number} :
    a.equals b = true ↔ ∃ w, worth a.parts = some w ∧ worth b.parts = some w := by
  rw [equals, beq_iff_eq, compare?, order_eq_iff]

theorem equals_comm (a b : Number) : a.equals b = b.equals a := by
  rw [Bool.eq_iff_iff, equals_iff, equals_iff]
  simp only [and_comm]

theorem equals_trans {a b c : Number} (hab : a.equals b = true) (hbc : b.equals c = true) :
    a.equals c = true := by
  obtain ⟨w, ha, hb⟩ := equals_iff.1 hab
  obtain ⟨x, hb', hc⟩ := equals_iff.1 hbc
  cases hb.symm.trans hb'
  exact equals_iff.2 ⟨w, ha, hc⟩

end Number

namespace Script.Value

/-! ## Strict equality -/

theorem strictEquals_comm (a b : Value) : a.strictEquals b = b.strictEquals a := by
  have same := isSame_comm a b
  cases a <;> cases b <;> first | exact same | skip
  case undefined.undefined => rfl
  case null.null => rfl
  case bool.bool x y => exact Bool.beq_comm
  case number.number x y => exact Number.equals_comm x y
  case string.string s t => exact Bool.beq_comm

theorem category_eq_of_strictEquals {a b : Value} (h : a.strictEquals b = true) :
    a.category = b.category := by
  cases a <;> cases b <;> first | rfl | cases h

theorem isSame_trans {a b c : Value} (hab : a.isSame b = true) (hbc : b.isSame c = true) :
    a.isSame c = true := by
  cases a <;> cases b <;> try cases hab
  all_goals cases c <;> try cases hbc
  all_goals
    simp only [isSame, beq_iff_eq] at hab hbc ⊢
    exact hab.trans hbc

theorem strictEquals_trans {a b c : Value} (hab : a.strictEquals b = true)
    (hbc : b.strictEquals c = true) : a.strictEquals c = true := by
  have same := @isSame_trans a b c
  cases a <;> cases b <;> try cases hab
  all_goals cases c <;> try cases hbc
  all_goals try exact same hab hbc
  case undefined.undefined.refl.undefined.refl => rfl
  case null.null.refl.null.refl => rfl
  case bool.bool.bool => exact beq_iff_eq.2 ((beq_iff_eq.1 hab).trans (beq_iff_eq.1 hbc))
  case number.number.number => exact Number.equals_trans hab hbc
  case string.string.string => exact beq_iff_eq.2 ((beq_iff_eq.1 hab).trans (beq_iff_eq.1 hbc))

/-! ## Loose equality -/

theorem text_of_function {v : Value} (h : v.category = .function) : v.text = .ok functionText := by
  cases v
  case closure | method | host => simp only [text]
  all_goals cases h

theorem toNumber_of_not_isObjectLike {v : Value} (h : ¬v.isObjectLike = true) :
    ∃ n, v.toNumber = .ok n := by
  cases v <;> first | exact ⟨_, rfl⟩ | exact absurd rfl h

theorem looseEquals_of_category {a b : Value} (h : a.category = b.category) :
    a.looseEquals b = .ok (a.strictEquals b) := by
  rw [looseEquals.eq_def, if_pos h]

theorem looseEquals_of_isNullish {a b : Value} (h : a.isNullish = true) :
    a.looseEquals b = .ok b.isNullish := by
  by_cases hc : a.category = b.category
  · rw [looseEquals_of_category hc]
    cases a <;> cases h <;> cases b <;> first | rfl | cases hc
  · rw [looseEquals.eq_def, if_neg hc, h]
    rfl

theorem ne_bool_of_isObjectLike {v : Value} (h : v.isObjectLike = true) (x : Bool) :
    v = .bool x → False := by
  rintro rfl
  cases h

theorem isNullish_of_isObjectLike {v : Value} (h : v.isObjectLike = true) :
    v.isNullish = false := by
  cases v <;> first | rfl | cases h

theorem looseEquals_string_left (s : String) {b : Value} (h : b.isObjectLike = true) :
    (Value.string s).looseEquals b = do return s == (← b.text) := by
  have across : ¬(Value.string s).category = b.category := fun hc => by
    rw [isObjectLike, ← hc] at h
    cases h
  have nullish : ¬((Value.string s).isNullish || b.isNullish) = true := by
    rw [isNullish_of_isObjectLike h]
    exact Bool.false_ne_true
  rw [Alike.looseEquals_of_not_bool (fun _ => Value.noConfusion) (ne_bool_of_isObjectLike h) across
    nullish, if_neg (show ¬(Value.string s).isObjectLike = true from Bool.false_ne_true), if_pos h]
  cases b.text with
  | error e => rfl
  | ok t => exact looseEquals_of_category rfl

/-- Two operands that both turn into texts, in the order they do. -/
theorem looseEquals_of_isObjectLike {a b : Value} (ha : a.isObjectLike = true)
    (hb : b.isObjectLike = true) (hc : ¬a.category = b.category) :
    a.looseEquals b = do return (← a.text) == (← b.text) := by
  rw [Alike.looseEquals_of_not_bool (ne_bool_of_isObjectLike ha) (ne_bool_of_isObjectLike hb) hc
    (by simp [isNullish_of_isObjectLike ha, isNullish_of_isObjectLike hb]), if_pos ha]
  cases a.text with
  | error e => rfl
  | ok s => exact looseEquals_string_left s hb

/-- At most one of two texts can be refused here, so it does not matter which is asked for first. -/
theorem looseEquals_comm_of_isObjectLike {a b : Value} (ha : a.isObjectLike = true)
    (hb : b.isObjectLike = true) (hc : ¬a.category = b.category) :
    a.looseEquals b = b.looseEquals a := by
  have beq (s t : String) : (s == t) = (t == s) := Bool.beq_comm
  rw [looseEquals_of_isObjectLike ha hb hc, looseEquals_of_isObjectLike hb ha (Ne.symm hc)]
  have function : a.category = .function ∨ b.category = .function := by
    simp only [isObjectLike, Bool.or_eq_true, beq_iff_eq] at ha hb
    rcases ha with ha | ha
    · exact .inr (hb.resolve_left fun hb => hc (ha.trans hb.symm))
    · exact .inl ha
  rcases function with h | h
  · rw [text_of_function h]
    cases b.text with
    | error e => rfl
    | ok t => exact congrArg Except.ok (beq functionText t)
  · rw [text_of_function h]
    cases a.text with
    | error e => rfl
    | ok s => exact congrArg Except.ok (beq s functionText)

theorem looseEquals_comm (a b : Value) : a.looseEquals b = b.looseEquals a := by
  have swap {a b : Value} (h : ¬(a.isNullish || b.isNullish) = true) :
      ¬(b.isNullish || a.isNullish) = true := by rwa [Bool.or_comm]
  -- The recursion is that of the left side. The right side converts the other operand first, so the
  -- two sides reach the same pair of operands except where both are objects.
  induction a, b using looseEquals.induct with
  | case1 a b hc =>
    rw [looseEquals_of_category hc, looseEquals_of_category hc.symm, strictEquals_comm]
  | case2 a b hc hn =>
    rw [looseEquals.eq_def, looseEquals.eq_def b, if_neg hc, if_neg (Ne.symm hc), if_pos hn,
      if_pos (by rwa [Bool.or_comm]), Bool.and_comm]
  | case3 x b hc hn ih =>
    have not_bool (y : Bool) : b = .bool y → False := by
      rintro rfl
      exact hc rfl
    rw [looseEquals.eq_1, if_neg hc, if_neg hn, looseEquals.eq_2 b x not_bool,
      if_neg (Ne.symm hc), if_neg (swap hn)]
    exact ih
  | case4 a y hna hc hn ih =>
    rw [looseEquals.eq_2 a y hna, if_neg hc, if_neg hn, looseEquals.eq_1, if_neg (Ne.symm hc),
      if_neg (swap hn)]
    exact ih
  | case5 a b hna hnb hoa s hs hc hn ih =>
    by_cases hob : b.isObjectLike = true
    · exact looseEquals_comm_of_isObjectLike hoa hob hc
    · rw [Alike.looseEquals_of_not_bool hna hnb hc hn, if_pos hoa, hs,
        Alike.looseEquals_of_not_bool hnb hna (Ne.symm hc) (swap hn), if_neg hob, if_pos hoa, hs]
      exact ih
  | case6 a b hna hnb hoa e he hc hn =>
    by_cases hob : b.isObjectLike = true
    · exact looseEquals_comm_of_isObjectLike hoa hob hc
    · rw [Alike.looseEquals_of_not_bool hna hnb hc hn, if_pos hoa, he,
        Alike.looseEquals_of_not_bool hnb hna (Ne.symm hc) (swap hn), if_neg hob, if_pos hoa, he]
  | case7 a b hna hnb hoa hob s hs hc hn ih =>
    rw [Alike.looseEquals_of_not_bool hna hnb hc hn, if_neg hoa, if_pos hob, hs,
      Alike.looseEquals_of_not_bool hnb hna (Ne.symm hc) (swap hn), if_pos hob, hs]
    exact ih
  | case8 a b hna hnb hoa hob e he hc hn =>
    rw [Alike.looseEquals_of_not_bool hna hnb hc hn, if_neg hoa, if_pos hob, he,
      Alike.looseEquals_of_not_bool hnb hna (Ne.symm hc) (swap hn), if_pos hob, he]
  | case9 a b hna hnb hoa hob hc hn =>
    obtain ⟨m, hm⟩ := toNumber_of_not_isObjectLike hoa
    obtain ⟨n, hn'⟩ := toNumber_of_not_isObjectLike hob
    rw [Alike.looseEquals_of_not_bool hna hnb hc hn, if_neg hoa, if_neg hob, hm, hn',
      Alike.looseEquals_of_not_bool hnb hna (Ne.symm hc) (swap hn), if_neg hob, if_neg hoa, hm, hn']
    exact congrArg Except.ok (Number.equals_comm m n)

/-- Loose equality is refused only where the text of an operand is. -/
theorem text_of_looseEquals_error {a b : Value} {e : Refusal} (h : a.looseEquals b = .error e) :
    a.text = .error e ∨ b.text = .error e := by
  have int (x : Bool) : ¬(Value.int (if x then 1 else 0)).text = .error e := by
    have short : (if x then 1 else 0 : Int).natAbs < 10 ^ digitLimit :=
      calc (if x then 1 else 0 : Int).natAbs ≤ 1 := by cases x <;> decide
        _ < 10 ^ digitLimit := Nat.one_lt_pow (by decide) (by decide)
    rw [Value.int, text, Number.text, integerText, if_pos short]
    intro he
    cases he
  induction a, b using looseEquals.induct with
  | case1 a b hc =>
    rw [looseEquals_of_category hc] at h
    cases h
  | case2 a b hc hn =>
    rw [looseEquals.eq_def, if_neg hc, if_pos hn] at h
    cases h
  | case3 x b hc hn ih =>
    rw [looseEquals.eq_1, if_neg hc, if_neg hn] at h
    exact .inr ((ih h).resolve_left (int x))
  | case4 a y hna hc hn ih =>
    rw [looseEquals.eq_2 a y hna, if_neg hc, if_neg hn] at h
    exact .inl ((ih h).resolve_right (int y))
  | case5 a b hna hnb hoa s hs hc hn ih =>
    rw [Alike.looseEquals_of_not_bool hna hnb hc hn, if_pos hoa, hs] at h
    exact .inr ((ih h).resolve_left (by simp))
  | case6 a b hna hnb hoa e' he hc hn =>
    rw [Alike.looseEquals_of_not_bool hna hnb hc hn, if_pos hoa, he] at h
    exact .inl (he.trans (congrArg _ (Except.error.inj h)))
  | case7 a b hna hnb hoa hob s hs hc hn ih =>
    rw [Alike.looseEquals_of_not_bool hna hnb hc hn, if_neg hoa, if_pos hob, hs] at h
    exact .inl ((ih h).resolve_right (by simp))
  | case8 a b hna hnb hoa hob e' he hc hn =>
    rw [Alike.looseEquals_of_not_bool hna hnb hc hn, if_neg hoa, if_pos hob, he] at h
    exact .inr (he.trans (congrArg _ (Except.error.inj h)))
  | case9 a b hna hnb hoa hob hc hn =>
    obtain ⟨m, hm⟩ := toNumber_of_not_isObjectLike hoa
    obtain ⟨n, hn'⟩ := toNumber_of_not_isObjectLike hob
    rw [Alike.looseEquals_of_not_bool hna hnb hc hn, if_neg hoa, if_neg hob, hm, hn'] at h
    cases h

/-- The laws of the two equalities. Only a text that is refused leaves loose equality without an
answer, and it is then refused in either order. -/
theorem equality_laws (a b c : Value) :
    ((∃ r, a.looseEquals b = .ok r ∧ b.looseEquals a = .ok r) ∨
      ∃ e, a.looseEquals b = .error e ∧ b.looseEquals a = .error e ∧
        (a.text = .error e ∨ b.text = .error e)) ∧
    (a.category = b.category → a.looseEquals b = .ok (a.strictEquals b)) ∧
    (a.strictEquals b = true → a.looseEquals b = .ok true) ∧
    (a.isNullish = true → a.looseEquals b = .ok b.isNullish) ∧
    a.strictEquals b = b.strictEquals a ∧
    (a.strictEquals b = true → b.strictEquals c = true → a.strictEquals c = true) := by
  refine ⟨?_, looseEquals_of_category, fun h => ?_, looseEquals_of_isNullish,
    strictEquals_comm a b, strictEquals_trans⟩
  · cases h : a.looseEquals b with
    | ok r => exact .inl ⟨r, rfl, by rw [looseEquals_comm, h]⟩
    | error e =>
      exact .inr ⟨e, rfl, by rw [looseEquals_comm, h], text_of_looseEquals_error h⟩
  · rw [looseEquals_of_category (category_eq_of_strictEquals h), h]

end Script.Value

end Comprehend
