import Comprehend.Number
import Mathlib.Data.List.TakeWhile

/-! # The characters of numerals

A text that denotes a number is made of digits, signs, points, low lines, exponent marks and the
letters of the two names, white space around them apart. So a text with any other character in it
denotes no number. -/

namespace Comprehend

open Text

namespace Decimal

def numeralMarks : List Char := ['_', '+', '-', '.', 'x', 'X']

/-- The letters of `infinity` and `nan`. -/
def nameLetters : List Char := ['i', 'n', 'f', 't', 'y', 'a']

/-- A character that some numeral has. -/
def IsNumeral (c : Char) : Prop :=
  (hexValue? c).isSome = true ∨ c ∈ numeralMarks ∨ c.toLower ∈ nameLetters

instance (c : Char) : Decidable (IsNumeral c) := inferInstanceAs (Decidable (_ ∨ _ ∨ _))

theorem isNumeral_of_decimalValue? {c : Char} {n : Nat} (h : decimalValue? c = some n) :
    IsNumeral c := by
  refine .inl ?_
  simp only [hexValue?]
  split
  · rfl
  · split
    · rfl
    · rw [h]
      rfl

theorem isNumeral_of_isDigit {c : Char} (h : c.isDigit = true) : IsNumeral c := by
  have ascii : c.toNat < 128 := by
    simp only [Char.isDigit, Bool.and_eq_true, decide_eq_true_eq, UInt32.le_iff_toNat_le] at h
    exact Nat.lt_of_le_of_lt h.2 (by decide)
  exact isNumeral_of_decimalValue? (by rw [decimalValue?_of_ascii ascii, if_pos h])

theorem isNumeral_of_plainDigit {c : Char} (h : IsNumeral (plainDigit c)) : IsNumeral c := by
  cases hd : decimalValue? c with
  | some n => exact isNumeral_of_decimalValue? hd
  | none => rwa [plainDigit, hd] at h

theorem isNumeral_splitSign {c : Char} {cs : List Char} (hc : c ∈ cs)
    (h : c ∈ (splitSign cs).2 → IsNumeral c) : IsNumeral c := by
  unfold splitSign at h
  split at h
  · rcases List.mem_cons.1 hc with rfl | hc
    · decide
    · exact h hc
  · rcases List.mem_cons.1 hc with rfl | hc
    · decide
    · exact h hc
  · exact h hc

/-! ## Integers -/

theorem mem_of_digitRun {value? : Char → Option Nat} {after : Bool} {cs : List Char}
    {ds : List Nat} (h : digitRun value? after cs = some ds) {c : Char} (hc : c ∈ cs) :
    c = '_' ∨ ∃ n, value? c = some n := by
  induction cs generalizing after ds with
  | nil => cases hc
  | cons d cs ih =>
    rw [digitRun] at h
    split at h
    · next low =>
      split at h
      · rcases List.mem_cons.1 hc with rfl | hc
        · exact .inl low
        · exact ih h hc
      · cases h
    · split at h
      · next n value =>
        obtain ⟨_, run, -⟩ := Option.map_eq_some_iff.1 h
        rcases List.mem_cons.1 hc with rfl | hc
        · exact .inr ⟨n, value⟩
        · exact ih run hc
      · cases h

theorem isNumeral_of_readDecimal {cs : List Char} {n : Int} (h : readDecimal cs = .ok n) {c : Char}
    (hc : c ∈ cs) : IsNumeral c := by
  refine isNumeral_splitSign hc fun hc => ?_
  simp only [readDecimal] at h
  split at h
  · next vs run =>
    rcases mem_of_digitRun run hc with rfl | ⟨n, value⟩
    · decide
    · exact isNumeral_of_decimalValue? value
  · cases h

theorem isNumeral_of_hasHexMark {cs : List Char} (h : hasHexMark cs = true) {c : Char}
    (hc : c ∈ cs) : IsNumeral c ∨ c ∈ cs.drop 2 := by
  unfold hasHexMark at h
  split at h
  · next x rest =>
    simp only [Bool.or_eq_true, beq_iff_eq] at h
    rcases List.mem_cons.1 hc with rfl | hc
    · exact .inl (by decide)
    · rcases List.mem_cons.1 hc with rfl | hc
      · exact .inl (by rcases h with rfl | rfl <;> decide)
      · exact .inr hc
  · cases h

theorem isNumeral_of_readHexadecimal {cs : List Char} {n : Int} (h : readHexadecimal cs = .ok n)
    {c : Char} (hc : c ∈ cs) : IsNumeral c := by
  simp only [readHexadecimal] at h
  split at h
  · next vs mark run =>
    rcases isNumeral_of_hasHexMark mark hc with numeral | hc
    · exact numeral
    · have body : c = '_' ∨ ∃ n, hexValue? c = some n := by
        split at run
        · next ds drop =>
          rw [drop] at hc
          rcases List.mem_cons.1 hc with rfl | hc
          · exact .inl rfl
          · exact mem_of_digitRun run hc
        · exact mem_of_digitRun run hc
      rcases body with rfl | ⟨n, value⟩
      · decide
      · exact .inl (by rw [value]; rfl)
  · cases h

/-! ## Floating-point numbers -/

theorem mem_of_dropSeparators {after : Bool} {cs ds : List Char}
    (h : dropSeparators after cs = some ds) {c : Char} (hc : c ∈ cs) : c = '_' ∨ c ∈ ds := by
  induction after, cs using dropSeparators.induct generalizing ds with
  | case1 => cases hc
  | case2 after d cs digit ih =>
    rw [dropSeparators, if_pos digit] at h
    obtain ⟨es, rest, rfl⟩ := Option.map_eq_some_iff.1 h
    rcases List.mem_cons.1 hc with rfl | hc
    · exact .inl rfl
    · rcases List.mem_cons.1 hc with rfl | hc
      · exact .inr List.mem_cons_self
      · exact (ih rest hc).imp_right (List.mem_cons_of_mem _)
  | case3 after d cs digit =>
    rw [dropSeparators, if_neg digit] at h
    cases h
  | case4 => cases h
  | case5 after d cs _ _ ih =>
    rw [dropSeparators] at h
    · obtain ⟨es, rest, rfl⟩ := Option.map_eq_some_iff.1 h
      rcases List.mem_cons.1 hc with rfl | hc
      · exact .inr List.mem_cons_self
      · exact (ih rest hc).imp_right (List.mem_cons_of_mem _)
    all_goals assumption

theorem isNumeral_of_readExponent {cs : List Char} {e : Int} (h : readExponent cs = some e)
    {c : Char} (hc : c ∈ cs) : IsNumeral c := by
  cases cs with
  | nil => cases hc
  | cons d cs =>
    simp only [readExponent] at h
    split at h
    · next read =>
      simp only [Bool.and_eq_true, Bool.or_eq_true, beq_iff_eq, List.all_eq_true] at read
      obtain ⟨⟨mark, -⟩, digits⟩ := read
      rcases List.mem_cons.1 hc with rfl | hc
      · rcases mark with rfl | rfl <;> decide
      · exact isNumeral_splitSign hc fun hc => isNumeral_of_isDigit (digits c hc)
    · cases h

/-- A character is a digit or stands after the digits. -/
theorem mem_dropWhile_isDigit {cs : List Char} {c : Char} (hc : c ∈ cs) :
    IsNumeral c ∨ c ∈ cs.dropWhile Char.isDigit := by
  rw [← List.takeWhile_append_dropWhile (p := Char.isDigit) (l := cs), List.mem_append] at hc
  exact hc.imp_left fun hc => isNumeral_of_isDigit (List.mem_takeWhile_imp hc)

theorem drop_length_takeWhile (p : Char → Bool) (cs : List Char) :
    cs.drop (cs.takeWhile p).length = cs.dropWhile p := by
  calc cs.drop (cs.takeWhile p).length
    _ = (cs.takeWhile p ++ cs.dropWhile p).drop (cs.takeWhile p).length := by
      rw [List.takeWhile_append_dropWhile]
    _ = cs.dropWhile p := List.drop_left

theorem isNumeral_of_readMagnitude {negative : Bool} {cs : List Char} {x : Float}
    (h : readMagnitude negative cs = some x) {c : Char} (hc : c ∈ cs) : IsNumeral c := by
  rcases mem_dropWhile_isDigit hc with numeral | hc
  · exact numeral
  simp only [readMagnitude, drop_length_takeWhile] at h
  split at h
  · next ds point =>
    rw [point] at hc
    rcases List.mem_cons.1 hc with rfl | hc
    · decide
    · split at h
      · cases h
      · obtain ⟨e, exponent, -⟩ := Option.map_eq_some_iff.1 h
        exact (mem_dropWhile_isDigit hc).elim id (isNumeral_of_readExponent exponent)
  · split at h
    · cases h
    · obtain ⟨e, exponent, -⟩ := Option.map_eq_some_iff.1 h
      exact isNumeral_of_readExponent exponent hc

theorem isNumeral_of_name {name : String} (letters : ∀ d ∈ name.toList, d ∈ nameLetters)
    {cs : List Char} (h : String.ofList (cs.map Char.toLower) = name) {c : Char} (hc : c ∈ cs) :
    IsNumeral c := by
  refine .inr (.inr (letters _ ?_))
  rw [← h, String.toList_ofList]
  exact List.mem_map_of_mem hc

theorem isNumeral_of_readFloat {cs : List Char} {x : Float} (h : readFloat cs = some x) {c : Char}
    (hc : c ∈ cs) : IsNumeral c := by
  simp only [readFloat, Option.bind_eq_bind, Option.bind_eq_some_iff] at h
  obtain ⟨plain, separated, h⟩ := h
  refine isNumeral_of_plainDigit ?_
  rcases mem_of_dropSeparators separated (List.mem_map_of_mem hc) with low | hc
  · rw [low]
    decide
  refine isNumeral_splitSign hc fun hc => ?_
  split at h
  · next infinite =>
    rw [Bool.or_eq_true, beq_iff_eq, beq_iff_eq] at infinite
    rcases infinite with name | name <;> exact isNumeral_of_name (by simp [nameLetters]) name hc
  · split at h
    · next name => exact isNumeral_of_name (by simp [nameLetters]) (beq_iff_eq.1 name) hc
    · exact isNumeral_of_readMagnitude h hc

end Decimal

/-! ## Texts -/

theorem mem_dropWhile {α : Type} {p : α → Bool} {c : α} (h : p c = false) {cs : List α}
    (hc : c ∈ cs) : c ∈ cs.dropWhile p := by
  rw [← List.takeWhile_append_dropWhile (p := p) (l := cs), List.mem_append] at hc
  refine hc.resolve_left fun hc => ?_
  rw [List.mem_takeWhile_imp hc] at h
  cases h

theorem mem_trim {c : Char} (h : isSpace c = false) {cs : List Char} (hc : c ∈ cs) :
    c ∈ trim cs := by
  rw [trim, trimRight, trimLeft, List.mem_reverse]
  exact mem_dropWhile h (List.mem_reverse.2 (mem_dropWhile h hc))

/-- A text with a character that no numeral has denotes no number. -/
theorem Number.ofText_of_not_isNumeral {s : String} {c : Char} (hc : c ∈ s.toList)
    (space : isSpace c = false) (h : ¬Decimal.IsNumeral c) : ofText s = .nan := by
  have hc := mem_trim space hc
  have full : ¬(trim s.toList).isEmpty = true := by
    rw [List.isEmpty_iff]
    exact List.ne_nil_of_mem hc
  have integer (n : Int) : ¬(if Decimal.hasHexMark (trim s.toList) then
      Decimal.readHexadecimal (trim s.toList)
      else Decimal.readDecimal (trim s.toList)) = .ok n := by
    split
    · exact fun read => h (Decimal.isNumeral_of_readHexadecimal read hc)
    · exact fun read => h (Decimal.isNumeral_of_readDecimal read hc)
  have float : Decimal.readFloat (trim s.toList) = none :=
    Option.eq_none_iff_forall_ne_some.2 fun x read => h (Decimal.isNumeral_of_readFloat read hc)
  simp only [ofText, if_neg full]
  split
  · next n read => exact absurd read (integer n)
  · rw [float]
    rfl

end Comprehend
