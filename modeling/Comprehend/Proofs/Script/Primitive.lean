import Comprehend.Proofs.Number.Numeral
import Comprehend.Script.Operator

/-! # Objects as operands of sums and orders

A sum turns arrays and objects into texts before it looks for a text among its operands, and other
objects only after it has found one. An order takes every object for the number that its text
denotes, which is none unless the object is an array; two texts it compares as they are. So an
object may stand for its text in a sum if an operand joins texts, and in an order if the other
operand is no text. -/

namespace Comprehend

open Decimal Script

/-! ## Sums of numbers -/

namespace Number

theorem toFloat_error {n : Number} {e : Refusal} (h : n.toFloat = .error e) : e = .tooLarge := by
  cases n with
  | int n =>
    simp only [toFloat] at h
    split at h <;> cases h
    rfl
  | float x => cases h

theorem add_ok_or_tooLarge (m n : Number) :
    (∃ k, m.add n = .ok k) ∨ m.add n = .error .tooLarge := by
  have rounded : (∃ k, (do return float ((← m.toFloat) + (← n.toFloat))) = .ok k) ∨
      (do return float ((← m.toFloat) + (← n.toFloat))) = .error .tooLarge := by
    cases hm : m.toFloat with
    | error e => exact .inr (congrArg _ (toFloat_error hm))
    | ok x =>
      cases hn : n.toFloat with
      | error e => exact .inr (congrArg _ (toFloat_error hn))
      | ok y => exact .inl ⟨_, rfl⟩
  cases m with
  | int m =>
    cases n with
    | int n => exact .inl ⟨_, rfl⟩
    | float y => exact rounded
  | float x => exact rounded

end Number

/-! ## Numbers of objects -/

namespace Script.Value

/-- An object is the number that its text denotes. For all but arrays that is none, since their
texts have a character that is in no numeral. -/
theorem toNumber_of_isObjectLike {v : Value} {s : String} (h : v.isObjectLike = true)
    (hs : v.text = .ok s) : v.toNumber = .ok (.ofText s) := by
  have foreign {c : Char} (hc : c ∈ s.toList) (space : Text.isSpace c = false)
      (hn : ¬IsNumeral c) : (Except.ok .nan : Except Refusal Number) = .ok (.ofText s) := by
    rw [Number.ofText_of_not_isNumeral hc space hn]
  cases v with
  | array =>
    rw [toNumber, hs]
    rfl
  | object | closure | method | host | box =>
    rw [text] at hs
    cases hs
    exact foreign (c := 'o') (by decide) (by decide) (by decide)
  | regexp tag r =>
    rw [text] at hs
    cases hs
    exact foreign (c := '/') (by simp) (by decide) (by decide)
  | complex tag re im =>
    rw [text] at hs
    cases hs
    refine foreign (c := 'j') ?_ (by decide) (by decide)
    simp only [complexText]
    split <;> simp
  | _ => cases h

/-! ## Orders -/

theorem compare?_of_ne_string {a b : Value} (h : a.category ≠ .string ∨ b.category ≠ .string) :
    a.compare? b = do return (← a.toNumber).compare? (← b.toNumber) := by
  cases a with
  | string s =>
    cases b with
    | string t => exact absurd h (by simp [category])
    | _ => rfl
  | _ => rfl

theorem ne_string_of_isObjectLike {v : Value} (h : v.isObjectLike = true) :
    v.category ≠ .string := fun hc => by
  rw [isObjectLike, hc] at h
  cases h

section

variable {a : Value} {s : String} (h : a.isObjectLike = true) (hs : a.text = .ok s) (b : Value)

include h hs

theorem compare?_number_left : a.compare? b = (Value.number (.ofText s)).compare? b := by
  rw [compare?_of_ne_string (.inl (ne_string_of_isObjectLike h)),
    compare?_of_ne_string (.inl (by simp [category])), toNumber_of_isObjectLike h hs]
  rfl

theorem compare?_number_right : b.compare? a = b.compare? (.number (.ofText s)) := by
  rw [compare?_of_ne_string (.inr (ne_string_of_isObjectLike h)),
    compare?_of_ne_string (.inr (by simp [category])), toNumber_of_isObjectLike h hs]
  rfl

theorem compare?_text_left (hb : b.category ≠ .string) :
    a.compare? b = (Value.string s).compare? b := by
  rw [compare?_number_left h hs, compare?_of_ne_string (.inr hb), compare?_of_ne_string (.inr hb)]
  rfl

theorem compare?_text_right (hb : b.category ≠ .string) :
    b.compare? a = b.compare? (.string s) := by
  rw [compare?_number_right h hs, compare?_of_ne_string (.inl hb), compare?_of_ne_string (.inl hb)]
  rfl

end

/-! ## Sums -/

theorem toNumber_of_not_joinsText {v : Value} (h : v.joinsText = false) :
    ∃ n, v.toNumber = .ok n := by
  cases v with
  | array => cases h
  | _ => exact ⟨_, rfl⟩

/-- A text that is no array's is refused only for its length. -/
theorem text_error_of_not_joinsText {v : Value} {e : Refusal} (h : v.joinsText = false)
    (he : v.text = .error e) : e = .outOfDomain := by
  have integer (n : Int) (h : integerText n = .error e) : e = .outOfDomain := by
    rw [integerText] at h
    split at h <;> cases h
    rfl
  cases v with
  | array => cases h
  | number n =>
    rw [text] at he
    cases n with
    | int n => exact integer n he
    | float x =>
      rw [Number.text] at he
      split at he
      · cases he
      · cases he
      · dsimp only at he
        split at he
        · exact integer _ he
        · cases he
  | _ =>
    rw [text] at he
    cases he

/-- A sum that joins no texts is a number if it is anything. -/
theorem add_of_not_joinsText {a b : Value} (ha : a.joinsText = false) (hb : b.joinsText = false) :
    (∃ n, a.add b = .ok (.number n)) ∨ a.add b = .error .tooLarge := by
  obtain ⟨m, hm⟩ := toNumber_of_not_joinsText ha
  obtain ⟨n, hn⟩ := toNumber_of_not_joinsText hb
  rw [add, ha, hb, hm, hn]
  change (∃ k, (do return Value.number (← m.add n)) = .ok (.number k)) ∨
    (do return Value.number (← m.add n)) = .error .tooLarge
  rcases Number.add_ok_or_tooLarge m n with ⟨k, hk⟩ | hk <;> rw [hk]
  · exact .inl ⟨k, rfl⟩
  · exact .inr rfl

theorem add_of_joinsText {a b : Value} (h : (a.joinsText || b.joinsText) = true) :
    a.add b = do return .string ((← a.text) ++ (← b.text)) := if_pos h

/-- A sum of a text and an operand that joins none is a text if it is anything. -/
theorem add_text_of_not_joinsText {v : Value} (h : v.joinsText = false) (s : String) :
    ((∃ t, (Value.string s).add v = .ok (.string t)) ∨
      (Value.string s).add v = .error .outOfDomain) ∧
    ((∃ t, v.add (.string s) = .ok (.string t)) ∨ v.add (.string s) = .error .outOfDomain) := by
  rw [add_of_joinsText rfl, add_of_joinsText (Bool.or_true _), text_string]
  cases ht : v.text with
  | error e =>
    cases text_error_of_not_joinsText h ht
    exact ⟨.inr rfl, .inr rfl⟩
  | ok t => exact ⟨.inl ⟨_, rfl⟩, .inl ⟨_, rfl⟩⟩

theorem add_ne_of_not_joinsText {a b : Value} (ha : a.joinsText = false) (hb : b.joinsText = false)
    {r : Except Refusal Value} (hr : (∃ t, r = .ok (.string t)) ∨ r = .error .outOfDomain) :
    a.add b ≠ r := by
  rintro rfl
  rcases add_of_not_joinsText ha hb with ⟨n, hn⟩ | hn <;> rcases hr with ⟨t, ht⟩ | ht <;>
    cases hn.symm.trans ht

section

variable {a : Value} {s : String} (hs : a.text = .ok s) (b : Value)

include hs

theorem add_text_left_iff :
    a.add b = (Value.string s).add b ↔ a.joinsText = true ∨ b.joinsText = true := by
  constructor
  · intro same
    by_contra none
    rw [not_or, Bool.not_eq_true, Bool.not_eq_true] at none
    exact add_ne_of_not_joinsText none.1 none.2 (add_text_of_not_joinsText none.2 s).1 same
  · intro joins
    rw [add_of_joinsText (Bool.or_eq_true_iff.2 joins), add_of_joinsText rfl, hs, text_string]

theorem add_text_right_iff :
    b.add a = b.add (.string s) ↔ a.joinsText = true ∨ b.joinsText = true := by
  constructor
  · intro same
    by_contra none
    rw [not_or, Bool.not_eq_true, Bool.not_eq_true] at none
    exact add_ne_of_not_joinsText none.2 none.1 (add_text_of_not_joinsText none.2 s).2 same
  · intro joins
    rw [add_of_joinsText (Bool.or_eq_true_iff.2 joins.symm), add_of_joinsText (Bool.or_true _), hs,
      text_string]

end

end Value

/-! ## Operators -/

theorem Operator.apply_add_congr {a b c d : Value} :
    Operator.add.apply a b = Operator.add.apply c d ↔ a.add b = c.add d := by
  have lifted (a b : Value) : Operator.add.apply a b = (a.add b).mapError .refusal := by
    change (do return ← (liftM (a.add b) : Except Stop Value)) = _
    cases a.add b <;> rfl
  rw [lifted, lifted]
  constructor
  · intro same
    cases h : a.add b <;> cases h' : c.add d <;> rw [h, h'] at same <;> cases same <;> rfl
  · exact congrArg _

/-- An object may stand for its text in a sum exactly if an operand of the sum is an array, an
object or a text. An order takes it for the number that its text denotes, so there it may stand
for its text if the other operand is no text. -/
theorem Operator.apply_text {a : Value} {s : String} (h : a.isObjectLike = true)
    (hs : a.text = .ok s) (b : Value) :
    (Operator.add.apply a b = Operator.add.apply (.string s) b ↔
      a.joinsText = true ∨ b.joinsText = true) ∧
    (Operator.add.apply b a = Operator.add.apply b (.string s) ↔
      a.joinsText = true ∨ b.joinsText = true) ∧
    ∀ r, Operator.apply (.compare r) a b = Operator.apply (.compare r) (.number (.ofText s)) b ∧
      Operator.apply (.compare r) b a = Operator.apply (.compare r) b (.number (.ofText s)) ∧
      (b.category ≠ .string →
        Operator.apply (.compare r) a b = Operator.apply (.compare r) (.string s) b ∧
        Operator.apply (.compare r) b a = Operator.apply (.compare r) b (.string s)) := by
  refine ⟨apply_add_congr.trans (Value.add_text_left_iff hs b),
    apply_add_congr.trans (Value.add_text_right_iff hs b), fun r => ⟨?_, ?_, fun hb => ⟨?_, ?_⟩⟩⟩
  · simp only [Operator.apply, Value.compare?_number_left h hs b]
  · simp only [Operator.apply, Value.compare?_number_right h hs b]
  · simp only [Operator.apply, Value.compare?_text_left h hs b hb]
  · simp only [Operator.apply, Value.compare?_text_right h hs b hb]

/-- The text of a function is not joined to that of a number, and that of an array is. -/
theorem Operator.apply_text_of_host :
    Operator.add.apply (.host .pair) (.int 1) ≠ Operator.add.apply (.string functionText) (.int 1) ∧
    Operator.add.apply (.array 0 []) (.int 1) = Operator.add.apply (.string "") (.int 1) := by
  have host := apply_text (a := .host .pair) (s := functionText) rfl (by simp only [Value.text])
    (.int 1)
  have array := apply_text (a := .array 0 []) (s := "") rfl (by rw [Value.text]; rfl) (.int 1)
  exact ⟨fun same => (host.1.1 same).elim Bool.noConfusion Bool.noConfusion, array.1.2 (.inl rfl)⟩

end Script

end Comprehend
