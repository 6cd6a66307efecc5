import Comprehend.Proofs.Script.Pairing

/-! # Conversions do not see identities

Whatever a conversion makes of a value, it makes the same of one alike. Only sameness looks at
identities at all, and there a pairing that fits the memories is one-to-one. So an operator gives
the same result on operands alike, and its result is plain data. -/

namespace Comprehend.Script

variable {view : View}

/-- A value without an identity. -/
inductive Value.IsPlain : Value → Prop
  | undefined : IsPlain .undefined
  | null : IsPlain .null
  | bool (b : Bool) : IsPlain (.bool b)
  | number (n : Number) : IsPlain (.number n)
  | string (s : String) : IsPlain (.string s)

theorem Value.IsPlain.alike {v : Value} (h : v.IsPlain) (p : Pairing view) : Alike p v v := by
  cases h with
  | undefined => exact .undefined
  | null => exact .null
  | bool b => exact .bool b
  | number n => exact .number n
  | string s => exact .string s

theorem AlikeFields.getField? {p : Pairing view} {fs fs' : List (String × Value)}
    (h : AlikeFields p fs fs') (key : String) :
    Option.Rel (Alike p) (Script.getField? fs key) (Script.getField? fs' key) := by
  induction h with
  | nil => exact .none
  | @cons f f' fs fs' hf _ ih =>
    simp only [Script.getField?, List.find?_cons, ← hf.1]
    by_cases hk : f.1 == key
    · simpa only [hk, Option.map_some] using .some hf.2
    · simpa only [hk, Script.getField?] using ih

namespace Alike

variable {p : Pairing view} {m m' : Memory} {v v' a a' b b' : Value}

theorem category_eq (h : Alike p v v') : v'.category = v.category := by
  cases h <;> rfl

theorem isNullish_eq (h : Alike p v v') : v'.isNullish = v.isNullish := by
  cases h <;> rfl

theorem isTruthy_eq (h : Alike p v v') : v'.isTruthy = v.isTruthy := by
  cases h <;> rfl

theorem joinsText_eq (h : Alike p v v') : v'.joinsText = v.joinsText := by
  cases h <;> rfl

theorem isCallable_eq (h : Alike p v v') : v'.isCallable = v.isCallable := by
  rw [Value.isCallable, Value.isCallable, h.category_eq]

theorem isObjectLike_eq (h : Alike p v v') : v'.isObjectLike = v.isObjectLike := by
  rw [Value.isObjectLike, Value.isObjectLike, h.category_eq]

theorem typeName_eq (h : Alike p v v') : v'.typeName = v.typeName := by
  rw [Value.typeName, Value.typeName, h.category_eq]

/-! ## Text and numbers -/

/-- The text of an item: nothing for the two empty values. -/
theorem itemTexts_cons (h : Alike p v v') (ht : v'.text = v.text) {vs vs' : List Value}
    (hs : Value.itemTexts vs' = Value.itemTexts vs) :
    Value.itemTexts (v' :: vs') = Value.itemTexts (v :: vs) := by
  cases h <;> simp only [Value.itemTexts, hs] <;> simp only [ht]

theorem text_eq (h : Alike p v v') : v'.text = v.text := by
  induction h with
  | @array t t' vs vs' _ hl hs ih =>
    have key : List.Forall₂ (fun v v' => Alike p v v' ∧ v'.text = v.text) vs vs' :=
      forall₂_of_getElem? hl fun i v v' hv hv' => ⟨hs i v v' hv hv', ih i v v' hv hv'⟩
    have items : Value.itemTexts vs' = Value.itemTexts vs := by
      clear hl hs ih
      induction key with
      | nil => rfl
      | cons hv _ ih => exact itemTexts_cons hv.1 hv.2 ih
    simp only [Value.text, items]
  | _ => simp only [Value.text]

theorem itemTexts_eq {vs vs' : List Value} (h : AlikeAll p vs vs') :
    Value.itemTexts vs' = Value.itemTexts vs := by
  induction h with
  | nil => rfl
  | cons hv _ ih => exact itemTexts_cons hv hv.text_eq ih

theorem toNumber_eq (h : Alike p v v') : v'.toNumber = v.toNumber := by
  have ht := h.text_eq
  cases h <;> simp only [Value.toNumber, ht]

theorem toWord_eq (h : Alike p v v') : v'.toWord = v.toWord := by
  rw [Value.toWord, Value.toWord, h.toNumber_eq]

theorem index?_eq (h : Alike p v v') : v'.index? = v.index? := by
  cases h <;> rfl

/-! ## Sameness -/

theorem isSame_eq (hm : p.Holds m m') (ha : Alike p a a') (hb : Alike p b b') :
    a'.isSame b' = a.isSame b := by
  have key {t t' u u' : Tag} (ht : p.tags t t') (hu : p.tags u u') : (t' == u') = (t == u) := by
    rw [Bool.eq_iff_iff, beq_iff_eq, beq_iff_eq, hm.tag_iff ht hu]
  cases ha <;> cases hb <;> first | rfl | exact key ‹_› ‹_›

theorem strictEquals_eq (hm : p.Holds m m') (ha : Alike p a a') (hb : Alike p b b') :
    a'.strictEquals b' = a.strictEquals b := by
  have hs := isSame_eq hm ha hb
  cases ha <;> cases hb <;> first | rfl | exact hs

/-- Loose equality across kinds of two values that are no truth values. -/
theorem looseEquals_of_not_bool (ha : ∀ x, a = .bool x → False) (hb : ∀ x, b = .bool x → False)
    (hc : ¬a.category = b.category) (hn : ¬(a.isNullish || b.isNullish) = true) :
    a.looseEquals b =
      if a.isObjectLike then
        match a.text with
        | .ok s => (Value.string s).looseEquals b
        | .error e => .error e
      else if b.isObjectLike then
        match b.text with
        | .ok s => a.looseEquals (.string s)
        | .error e => .error e
      else do return (← a.toNumber).equals (← b.toNumber) := by
  refine (Value.looseEquals.eq_3 a b ha hb).trans ?_
  exact (if_neg hc).trans (if_neg hn)

theorem looseEquals_eq (hm : p.Holds m m') (ha : Alike p a a') (hb : Alike p b b') :
    a'.looseEquals b' = a.looseEquals b := by
  have not_bool {v v' : Value} (h : Alike p v v') (hv : ∀ x, v = .bool x → False) (x : Bool) :
      v' = .bool x → False := by
    rintro rfl
    cases h
    exact hv x rfl
  have int (x : Bool) := (Value.IsPlain.number (.int (if x then 1 else 0))).alike p
  have general {a a' b b' : Value} (ha : Alike p a a') (hb : Alike p b b')
      (hna : ∀ x, a = .bool x → False) (hnb : ∀ x, b = .bool x → False)
      (hc : ¬a.category = b.category) (hn : ¬(a.isNullish || b.isNullish) = true) :=
    looseEquals_of_not_bool (not_bool ha hna) (not_bool hb hnb)
      (by rwa [ha.category_eq, hb.category_eq]) (by rwa [ha.isNullish_eq, hb.isNullish_eq])
  induction a, b using Value.looseEquals.induct generalizing a' b' with
  | case1 a b hc =>
    rw [Value.looseEquals.eq_def a', Value.looseEquals.eq_def a, ha.category_eq, hb.category_eq,
      if_pos hc, if_pos hc, strictEquals_eq hm ha hb]
  | case2 a b hc hn =>
    rw [Value.looseEquals.eq_def a', Value.looseEquals.eq_def a, ha.category_eq, hb.category_eq,
      ha.isNullish_eq, hb.isNullish_eq, if_neg hc, if_neg hc, if_pos hn, if_pos hn]
  | case3 x b hc hn ih =>
    cases ha
    rw [Value.looseEquals.eq_1 b', Value.looseEquals.eq_1 b, hb.category_eq, hb.isNullish_eq,
      if_neg hc, if_neg hc, if_neg hn, if_neg hn]
    exact ih (int x) hb
  | case4 a y hna hc hn ih =>
    cases hb
    rw [Value.looseEquals.eq_2 a' _ (not_bool ha hna), Value.looseEquals.eq_2 a _ hna,
      ha.category_eq, ha.isNullish_eq, if_neg hc, if_neg hc, if_neg hn, if_neg hn]
    exact ih ha (int y)
  | case5 a b hna hnb hobj s hs hc hn ih =>
    rw [general ha hb hna hnb hc hn, looseEquals_of_not_bool hna hnb hc hn, ha.isObjectLike_eq,
      if_pos hobj, if_pos hobj, ha.text_eq, hs]
    exact ih (.string s) hb
  | case6 a b hna hnb hobj e hs hc hn =>
    rw [general ha hb hna hnb hc hn, looseEquals_of_not_bool hna hnb hc hn, ha.isObjectLike_eq,
      if_pos hobj, if_pos hobj, ha.text_eq, hs]
  | case7 a b hna hnb hoa hob s hs hc hn ih =>
    rw [general ha hb hna hnb hc hn, looseEquals_of_not_bool hna hnb hc hn, ha.isObjectLike_eq,
      hb.isObjectLike_eq, if_neg hoa, if_neg hoa, if_pos hob, if_pos hob, hb.text_eq, hs]
    exact ih ha (.string s)
  | case8 a b hna hnb hoa hob e hs hc hn =>
    rw [general ha hb hna hnb hc hn, looseEquals_of_not_bool hna hnb hc hn, ha.isObjectLike_eq,
      hb.isObjectLike_eq, if_neg hoa, if_neg hoa, if_pos hob, if_pos hob, hb.text_eq, hs]
  | case9 a b hna hnb hoa hob hc hn =>
    rw [general ha hb hna hnb hc hn, looseEquals_of_not_bool hna hnb hc hn, ha.isObjectLike_eq,
      hb.isObjectLike_eq, if_neg hoa, if_neg hoa, if_neg hob, if_neg hob, ha.toNumber_eq,
      hb.toNumber_eq]

/-! ## Operators -/

theorem compare?_eq (ha : Alike p a a') (hb : Alike p b b') : a'.compare? b' = a.compare? b := by
  have na := ha.toNumber_eq
  have nb := hb.toNumber_eq
  cases ha <;> cases hb <;> first | rfl | simp only [Value.compare?, na, nb]

theorem add_eq (ha : Alike p a a') (hb : Alike p b b') : a'.add b' = a.add b := by
  simp only [Value.add, ha.joinsText_eq, hb.joinsText_eq, ha.text_eq, hb.text_eq, ha.toNumber_eq,
    hb.toNumber_eq]

theorem has_eq (ha : Alike p a a') (hb : Alike p b b') : a'.has b' = a.has b := by
  have hi := ha.index?_eq
  have ht := ha.text_eq
  have htb := hb.text_eq
  cases hb with
  | array _ hl _ => simp only [Value.has, hi, ht, hl]
  | @object t t' fs fs' h hk hs =>
    have some (key : String) : (getField? fs' key).isSome = (getField? fs key).isSome := by
      have hf := (Alike.object h hk hs).fields.getField? key
      generalize getField? fs key = x, getField? fs' key = y at hf
      cases hf <;> rfl
    simp only [Value.has, ht, some]
  | _ => simp only [Value.has, ht, htb]

theorem isInstance_eq (ha : Alike p a a') (hb : Alike p b b') :
    a'.isInstance b' = a.isInstance b := by
  cases hb with
  | host f => cases ha <;> rfl
  | _ => rfl

theorem operator_eq (hm : p.Holds m m') (ha : Alike p a a') (hb : Alike p b b') (op : Operator) :
    op.apply a' b' = op.apply a b := by
  cases op <;> simp only [Operator.apply, Value.arithmetic, Value.bitwise, strictEquals_eq hm ha hb,
    looseEquals_eq hm ha hb, compare?_eq ha hb, add_eq ha hb, has_eq ha hb, isInstance_eq ha hb,
    ha.toNumber_eq, hb.toNumber_eq, ha.toWord_eq, hb.toWord_eq]

end Alike

/-! ## Results of operators are plain -/

/-- What a computation gives, if anything, is plain. -/
def GivesPlain (e : Except ε Value) : Prop := ∀ v, e = .ok v → v.IsPlain

theorem GivesPlain.pure {v : Value} (h : v.IsPlain) : GivesPlain (Pure.pure v : Except ε Value) := by
  rintro _ ⟨⟩
  exact h

theorem GivesPlain.bind {e : Except ε α} {f : α → Except ε Value} (h : ∀ x, GivesPlain (f x)) :
    GivesPlain (e >>= f) := by
  intro v hv
  cases e with
  | error _ => cases hv
  | ok x => exact h x v hv

theorem GivesPlain.lift {e : Except Refusal Value} (h : GivesPlain e) :
    GivesPlain (liftM e : Except Stop Value) := by
  intro v hv
  cases e with
  | error _ => cases hv
  | ok x => cases hv; exact h _ rfl

theorem Value.add_plain (a b : Value) : GivesPlain (a.add b) := by
  unfold Value.add
  split
  · exact .bind fun _ => .bind fun _ => .pure (.string _)
  · exact .bind fun _ => .bind fun _ => .bind fun _ => .pure (.number _)

theorem Value.arithmetic_plain (op : Number → Number → Except Refusal Number) (a b : Value) :
    GivesPlain (Value.arithmetic op a b) :=
  .bind fun _ => .bind fun _ => .bind fun _ => .pure (.number _)

theorem Value.bitwise_plain (op : Int → Int → Int) (a b : Value) :
    GivesPlain (Value.bitwise op a b) :=
  .bind fun _ => .bind fun _ => .pure (.number _)

theorem Operator.apply_plain (op : Operator) (a b : Value) : GivesPlain (op.apply a b) := by
  cases op with
  | strictEqual => exact .pure (.bool _)
  | looseEqual => exact .bind fun _ => .pure (.bool _)
  | compare => exact .bind fun _ => .pure (.bool _)
  | isIn => exact .bind fun _ => .pure (.bool _)
  | instanceOf => exact .bind fun _ => .pure (.bool _)
  | add => exact .lift (Value.add_plain a b)
  | sub => exact .lift (Value.arithmetic_plain _ a b)
  | mul => exact .lift (Value.arithmetic_plain _ a b)
  | div => exact .lift (Value.arithmetic_plain _ a b)
  | rem => exact .lift (Value.arithmetic_plain _ a b)
  | bitAnd => exact .lift (Value.bitwise_plain _ a b)
  | bitOr => exact .lift (Value.bitwise_plain _ a b)
  | bitXor => exact .lift (Value.bitwise_plain _ a b)
  | shiftLeft => exact .lift (Value.bitwise_plain _ a b)
  | shiftRight => exact .lift (Value.bitwise_plain _ a b)
  | shiftRightZero => exact .lift (Value.bitwise_plain _ a b)

end Comprehend.Script
