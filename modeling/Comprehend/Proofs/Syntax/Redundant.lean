import Comprehend.Proofs.Syntax.Parameter
import Mathlib.Data.List.Flatten

/-! # Parentheses around a whole text

A text that is an expression is one in parentheses too, and has all its readings there, in the same
order. No arrow function starts with those parentheses, for a text that closes the parameters of one
is not read to its end. Other readings may come before where a part of the text closes the parenthesis
in front, and then the text can be cut in two ways. -/

namespace Comprehend

open Comprehend.Text Comprehend.Lexeme

/-- A text in parentheses. -/
def inParens (text : String) : String := "(" ++ text ++ ")"

namespace Parser

/-- A text that can be read as two trees. -/
def Ambiguous (text : String) : Prop := ∃ x ∈ readings text, ∃ y ∈ readings text, x ≠ y

section

variable {text : String} {t : Node} {cs : List Char} {fuel : Nat}

theorem toList_inParens (text : String) : (inParens text).toList = '(' :: (text.toList ++ [')']) := by
  simp [inParens, String.toList_append]

theorem isBlankText_inParens (text : String) : isBlankText (inParens text) = false := by
  rw [isBlankText, toList_inParens]
  rfl

theorem fuelFor_inParens (cs : List Char) : fuelFor ('(' :: (cs ++ [')'])) = fuelFor cs + 46 + 18 := by
  simp only [fuelFor, depthPerChar, List.length_cons, List.length_append, List.length_nil]
  omega

theorem closing_paren : Closing [')'] := ⟨[], rfl, by simp⟩

/-! ## No arrow function -/

/-- In front of a text that can be read to its end no parenthesis opens the parameters of an arrow
function. -/
theorem arrowHead_inParens {o : Node × List Char} {fuel' : Nat} (ho : o ∈ expression fuel' cs)
    (hblank : skipBlanks o.2 = []) (fuel : Nat) : arrowHead fuel ('(' :: (cs ++ [')'])) = [] := by
  refine List.eq_nil_iff_forall_not_mem.2 fun p hp => ?_
  cases fuel with
  | zero => cases hp
  | succ fuel =>
    obtain ⟨u, hu, harrow⟩ := mem_closedBy.1
      (show p ∈ (itemsTo ")" (patternElement fuel) (cs ++ [')'])).closedBy "=>" from hp)
    obtain ⟨q, hq, hclose⟩ := itemsTo_passes hu
    have hne : u ≠ [] := by
      rintro rfl
      cases harrow
    rcases halts_of_closed closing_paren hq hclose with ⟨b, hb, hahead, hnil⟩ | ⟨v, -, hahead⟩
    · refine hahead.skipBlanks_ne_nil (.inl hb) (fun hb => hne ?_) o ho hblank
      exact (List.cons.inj (hnil hb)).2
    · exact hahead.skipBlanks_ne_nil (.inr ⟨v, rfl⟩) (List.cons_ne_nil _ _) o ho hblank

/-! ## The readings in parentheses -/

/-- Outcomes that leave nothing. -/
def leavingNothing (xs : List Node) : Outcomes Node := xs.map fun x => (x, [])

theorem ended_map (os : Outcomes Node) :
    (os.ended.map fun o => (o.1, [])) = leavingNothing (os.upTo isBlankRest) := by
  rw [leavingNothing, Outcomes.upTo, List.map_map]
  rfl

theorem snd_leavingNothing (xs : List Node) : ∀ o ∈ leavingNothing xs, o.2 = [] := by
  intro o ho
  obtain ⟨x, -, rfl⟩ := List.mem_map.1 ho
  rfl

theorem upTo_leavingNothing (xs : List Node) : (leavingNothing xs).upTo isBlankRest = xs := by
  induction xs with
  | nil => rfl
  | cons x xs ih =>
    have hrest : isBlankRest [] = true := rfl
    rw [leavingNothing, List.map_cons, upTo_cons, hrest, if_pos rfl]
    exact congrArg _ ih

/-- Outcomes that leave nothing are kept where nothing goes on. -/
theorem sublist_andThen {xs : List Node} {os : Outcomes Node} {f : Node → List Char → Outcomes Node}
    (h : List.Sublist (leavingNothing xs) os) (hf : EndsOnly f) :
    List.Sublist (leavingNothing xs) (os.andThen f) := by
  have hkept := h.flatMap fun o => f o.1 o.2
  rwa [← Outcomes.andThen, andThen_of_ended (snd_leavingNothing xs) hf] at hkept

/-- The readings of a whole text are among what is closed by the parenthesis behind it. -/
theorem sublist_closedBy (os : Outcomes Node) :
    List.Sublist (leavingNothing (os.upTo isBlankRest))
      (Outcomes.closedBy ")" (os.map (behind [')']))) := by
  induction os with
  | nil => exact .slnil
  | cons o os ih =>
    rw [List.map_cons, closedBy_cons, behind, mark_paren closing_paren, upTo_cons, isBlankRest]
    by_cases hblank : skipBlanks o.2 = []
    · rw [if_pos hblank, hblank, List.isEmpty_nil, if_pos rfl]
      exact ih.cons_cons (o.1, [])
    · rw [if_neg (by simpa using hblank)]
      exact ih.trans (List.sublist_append_right _ _)

/-- What stands in parentheses around a text is an operand. -/
def enclosedOperand (text : String) : Outcomes Node :=
  operand (fuelFor text.toList + 46 + 2) ('(' :: (text.toList ++ [')']))

theorem enclosedOperand_eq (text : String) : enclosedOperand text =
    ((expression (fuelFor text.toList + 46) (text.toList ++ [')'])).closedBy ")").andThen
      (links (fuelFor text.toList + 46 + 1)) := rfl

theorem endsOnly_links (fuel : Nat) : EndsOnly (links (fuel + 1)) := fun _ => rfl

theorem sublist_enclosedOperand (text : String) :
    List.Sublist (leavingNothing (readings text)) (enclosedOperand text) := by
  have hagree := (readersAgree closing_paren (fuelFor text.toList + 46) (fuelFor text.toList)).expression
    (n := text.toList.length + 1) (by
      rw [Nat.min_eq_right (Nat.le_add_right _ 46), fuelFor, depthPerChar]
      omega)
  have hclosed := sublist_closedBy (expression (fuelFor text.toList) text.toList)
  rw [← hagree.leaving _ (Nat.lt_succ_self _)] at hclosed
  rw [enclosedOperand_eq]
  exact sublist_andThen (hclosed.trans (List.filter_sublist.flatMap _)) (endsOnly_links _)

/-- In parentheses a text that can be read to its end is read as an operand and what follows one. -/
theorem readings_inParens (h : readings text ≠ []) :
    ∃ f, EndsOnly f ∧ readings (inParens text) =
      ((enclosedOperand text).andThen f).upTo isBlankRest := by
  obtain ⟨y, hy⟩ := List.exists_mem_of_ne_nil _ h
  obtain ⟨r, hr, hblank⟩ := mem_upTo.1 hy
  have hhead := arrowHead_inParens hr (List.isEmpty_iff.1 hblank)
  have hoperand : ∃ f, EndsOnly f ∧
      expression (fuelFor text.toList + 46 + 18) ('(' :: (text.toList ++ [')'])) =
        (enclosedOperand text).andThen f := exists_andThen_operand rfl rfl (hhead _)
  obtain ⟨f, hf, hexpression⟩ := hoperand
  exact ⟨f, hf, by rw [readings, toList_inParens, fuelFor_inParens, hexpression]⟩

/-- A text has its readings in parentheses too, in the same order. -/
theorem readings_sublist (text : String) :
    List.Sublist (readings text) (readings (inParens text)) := by
  by_cases h : readings text = []
  · rw [h]
    exact List.nil_sublist _
  · obtain ⟨f, hf, hreadings⟩ := readings_inParens h
    have hkept := sublist_andThen (sublist_enclosedOperand text) hf
    rw [hreadings]
    exact (upTo_leavingNothing (readings text)) ▸ (hkept.filter _).map _

/-- They are all that it has there if it closes no parenthesis of its own. -/
theorem readings_of_unclosed (h : readings text ≠ []) (hopen : Unclosed text.toList) :
    readings (inParens text) = readings text := by
  obtain ⟨f, hf, hreadings⟩ := readings_inParens h
  have hclosed := expression_closedBy closing_paren hopen (Nat.le_add_right _ 46)
  have hoperand : enclosedOperand text = leavingNothing (readings text) := by
    rw [enclosedOperand_eq, hclosed, ended_map]
    exact andThen_of_ended (snd_leavingNothing _) (endsOnly_links _)
  rw [hreadings, hoperand, andThen_of_ended (snd_leavingNothing _) hf, upTo_leavingNothing]

theorem not_ambiguous_of_length (h : (readings text).length ≤ 1) : ¬ Ambiguous text := by
  rintro ⟨x, hx, y, hy, hne⟩
  obtain ⟨z, hz⟩ := List.length_eq_one_iff.1 (Nat.le_antisymm h (List.length_pos_of_mem hx))
  rw [hz] at hx hy
  exact hne ((List.mem_singleton.1 hx).trans (List.mem_singleton.1 hy).symm)

/-- Only a text that can be cut in two ways has two trees in parentheses. -/
theorem Ambiguous.not_oneWay (h : Ambiguous (inParens text)) : ¬ OneWay text.toList := by
  intro hway
  refine not_ambiguous_of_length (length_readings ?_) h
  rw [toList_inParens]
  exact hway.enclosed (by decide)

end

end Parser

open Comprehend.Parser

/-- A text that is an expression is one in parentheses, where it has all its readings in the same
order. Its tree is that of the text, unless there are two in parentheses, and for that signs or words
of the text have to be cut in two ways. Where no part of the text closes the parenthesis in front, the
tree is the same however the text can be cut. -/
theorem parseExpression_inParens {text : String} {t : Node} (h : parseExpression text = .ok t) :
    List.Sublist (readings text) (readings (inParens text)) ∧
    (∃ x, parseExpression (inParens text) = .ok x) ∧
    (¬ Ambiguous (inParens text) → parseExpression (inParens text) = .ok t) ∧
    (Ambiguous (inParens text) → ¬ OneWay text.toList) ∧
    (Unclosed text.toList → readings (inParens text) = readings text ∧
      parseExpression (inParens text) = .ok t) := by
  have hhead : (readings text).head? = some t := by
    rw [readings, head?_upTo]
    exact expression?_of_parse h
  have hmem : t ∈ readings (inParens text) :=
    (readings_sublist text).mem (List.mem_of_head? hhead)
  have hwhole {x : Node} : parseExpression (inParens text) = .ok x ↔
      (readings (inParens text)).head? = some x := parseExpression_eq_ok (isBlankText_inParens text)
  obtain ⟨x, xs, hxs⟩ := List.exists_cons_of_ne_nil (List.ne_nil_of_mem hmem)
  have hfirst : (readings (inParens text)).head? = some x := by rw [hxs, List.head?_cons]
  refine ⟨readings_sublist text, ⟨x, hwhole.2 hfirst⟩, fun hclear => hwhole.2 ?_,
    Ambiguous.not_oneWay, fun hopen => ?_⟩
  · have hsame : x = t := by
      by_contra hne
      exact hclear ⟨x, hxs ▸ List.mem_cons_self, t, hmem, hne⟩
    rw [hfirst, hsame]
  · have hsame := readings_of_unclosed (List.ne_nil_of_mem (List.mem_of_head? hhead)) hopen
    exact ⟨hsame, hwhole.2 (hsame ▸ hhead)⟩

/-- An update in front of an operator that is no sign and no slash can be read in one way only. -/
theorem parseExpression_inParens_update :
    ∃ t, parseExpression "(x++) * [y => y]" = .ok t ∧ ¬ Ambiguous (inParens "(x++) * [y => y]") ∧
      parseExpression (inParens "(x++) * [y => y]") = .ok t := by
  have hread : (parseExpression "(x++) * [y => y]").isOk = true := by decide +kernel
  have hclear : ¬ Ambiguous (inParens "(x++) * [y => y]") :=
    not_ambiguous_of_length (by decide +kernel)
  cases h : parseExpression "(x++) * [y => y]" with
  | error fault =>
    rw [h] at hread
    cases hread
  | ok t => exact ⟨t, rfl, hclear, (parseExpression_inParens h).2.2.1 hclear⟩

-- the two signs are an update in front of a division in the one reading, and two operators in front
-- of a regular expression in the other, which is the only one that the text has by itself
example : (readings "a++ / x) * [1](2 /i").length = 1 ∧
    (readings (inParens "a++ / x) * [1](2 /i")).length = 2 := by decide +kernel

end Comprehend
