import Comprehend.Proofs.Syntax.Primary

/-! # Texts of bracketed expressions -/

namespace Comprehend.Parser

open Comprehend.Text Comprehend.Lexeme

def parens (u : List Char) : List Char := '(' :: (u ++ [')'])

/-- Read as the parameters of an arrow function, a text in parentheses ends where it is read to end
as an expression, and no arrow comes next. -/
theorem arrowHead_parens {level : Nat} {u : List Char} (h : Opens level u) {fuel : Nat}
    {rest : List Char} (ha : mark "=>" rest = none) : arrowHead fuel (parens u ++ rest) = [] := by
  cases fuel with
  | zero => rfl
  | succ fuel =>
    have hm : mark "(" (parens u ++ rest) = some (u ++ ')' :: rest) := by
      simp [parens, mark, skipBlanks, after, isBlank, List.isPrefixOf?]
    rw [arrowHead, hm]
    refine List.eq_nil_iff_forall_not_mem.2 fun o ho => ?_
    obtain ⟨r, hmem, hr⟩ := mem_closedBy.1 ho
    have hclosed : closes (')' :: rest) = true := rfl
    have hend : r = rest := itemsTo_cover (show ")" ∈ _ by simp) .nil
      (fun cs => (skipsBlanks fuel cs).patternElement)
      (show ∀ v ∈ [u], _ by simpa using h.coversElement fuel) (by simpa using h.item) hclosed rfl rfl _
      hmem
    rw [hend, ha] at hr
    cases hr

theorem Reads.parens {level : Nat} {u : List Char} {x : Node} (h : Reads level u x) :
    Reads 20 (parens u) x := by
  have ho : Opens 20 (Parser.parens u) := .of_char rfl rfl (fun rest => rfl) (fun _ => by decide)
    (fun _ => by decide)
    (fun fuel rest _ o ho => by
      rw [List.cons_append, bindingTarget_of_ne rfl rfl (by decide) (by decide)] at ho
      cases ho)
    fun fuel rest _ ha => arrowHead_parens h.toOpens ha
  refine .of_primary ho fun fuel rest hr hf => ?_
  simp only [Parser.parens, List.length_cons, List.length_append, List.length_nil] at hf
  obtain ⟨fuel, rfl⟩ : ∃ f, fuel = f + 1 := ⟨fuel - 1, by omega⟩
  have hprimary : primary (fuel + 1) (Parser.parens u ++ rest) =
      (Parser.expression fuel (u ++ ')' :: rest)).closedBy ")" := by
    rw [Parser.parens, List.cons_append, List.append_assoc]
    rfl
  rw [hprimary]
  exact (h.expression (.of_closes rfl) (by omega)).closedBy rfl

section

variable {us : List (List Char)} {xs : List Node}

theorem readsParts {part pattern : Nat → List Char → Outcomes Node}
    (h : List.Forall₂ (ReadsOver part pattern) us xs) : List.Forall₂ (ReadsPart part) us xs :=
  h.imp fun _ _ hu => hu.toReadsPart

theorem coversParts {part pattern : Nat → List Char → Outcomes Node}
    (h : List.Forall₂ (ReadsOver part pattern) us xs) (fuel : Nat) :
    ∀ u ∈ us, CoversItem (pattern fuel) u := by
  induction h with
  | nil => exact fun u hu => absurd hu (List.not_mem_nil)
  | cons hu _ ih => exact List.forall_mem_cons.2 ⟨hu.cover fuel, ih⟩

theorem reads_array (h : List.Forall₂ (ReadsOver element patternElement) us xs) :
    Reads 20 (bracketed us) (.array xs) := by
  have hparts := readsParts h
  have ho : Opens 20 (bracketed us) := by
    refine .of_char rfl rfl (fun rest => rfl) (fun _ => by decide) (fun _ => by decide)
      (fun fuel rest _ o ho => ?_)
      fun fuel rest _ _ => arrowHead_of_ne rfl rfl (by decide) _ _
    cases fuel with
    | zero => cases ho
    | succ fuel =>
      change o ∈ bindingTarget (fuel + 1) (bracketed us ++ rest) at ho
      rw [bindingTarget_bracketed] at ho
      obtain ⟨ys, hy, -⟩ := mem_giving.1 ho
      have hclosed : closes (']' :: rest) = true := rfl
      exact .inl (itemsTo_cover (show "]" ∈ _ by simp) .nil
        (fun cs => (skipsBlanks fuel cs).patternElement) (coversParts h fuel) (opensItems hparts)
        hclosed rfl rfl _ hy)
  refine .of_primary ho fun fuel rest hr hf => ?_
  simp only [bracketed, List.length_cons, List.length_append, List.length_nil] at hf
  obtain ⟨fuel, rfl⟩ : ∃ f, fuel = f + 1 := ⟨fuel - 1, by omega⟩
  have hprimary : primary (fuel + 1) (bracketed us ++ rest) =
      (itemsToSpare "]" (element fuel) (commas us ++ ']' :: rest)).giving .array := by
    rw [bracketed, List.cons_append, List.append_assoc]
    rfl
  rw [hprimary]
  exact (Leads.partsToSpare (show "]" ∈ _ by simp) .nil
    (fun fuel cs => (skipsBlanks fuel cs).element) hparts (by omega) rfl rfl rfl).giving _

theorem reads_object (h : List.Forall₂ (ReadsOver objectMember objectPatternItem) us xs) :
    Reads 20 (braces us) (.object xs) := by
  have hparts := readsParts h
  have hg := gap_braceGap us
  have ho : Opens 20 (braces us) := by
    refine .of_char rfl rfl (fun rest => rfl) (fun _ => by decide) (fun _ => by decide)
      (fun fuel rest _ o ho => ?_)
      fun fuel rest _ _ => arrowHead_of_ne rfl rfl (by decide) _ _
    cases fuel with
    | zero => cases ho
    | succ fuel =>
      change o ∈ bindingTarget (fuel + 1) (braces us ++ rest) at ho
      rw [bindingTarget_braces] at ho
      obtain ⟨ys, hy, -⟩ := mem_giving.1 ho
      exact .inl (itemsTo_cover (show "\x7d" ∈ _ by simp) hg
        (fun cs => (skipsBlanks fuel cs).objectPatternItem) (coversParts h fuel)
        (opensItems hparts) (hg.closes _) (hg.mark _ _) (hg.mark _ _) _ hy)
  refine .of_primary ho fun fuel rest hr hf => ?_
  simp only [braces, List.length_cons, List.length_append, List.length_nil] at hf
  obtain ⟨fuel, rfl⟩ : ∃ f, fuel = f + 1 := ⟨fuel - 1, by omega⟩
  have hprimary : primary (fuel + 1) (braces us ++ rest) =
      (itemsToSpare "\x7d" (objectMember fuel)
        (braceGap us ++ (commas us ++ (braceGap us ++ '\x7d' :: rest)))).giving .object := by
    simp only [braces, List.cons_append, List.append_assoc]
    rfl
  rw [hprimary]
  exact (Leads.partsToSpare (by simp) hg (fun fuel cs => (skipsBlanks fuel cs).objectMember) hparts
    (by omega) (hg.closes _) (hg.mark _ _) (hg.mark _ _)).giving _

end

/-! ## Functions -/

/-- What stands after the keyword of a function that returns an expression. -/
def functionTail (us : List (List Char)) (body : List Char) : List Char :=
  ' ' :: '(' :: (commas us ++ ')' :: ' ' :: '\x7b' :: ' ' ::
    ("return".toList ++ ' ' :: (body ++ [';', ' ', '\x7d'])))

theorem reads_function {us : List (List Char)} {ps : List Node} {level : Nat} {u : List Char} {x : Node}
    (h : List.Forall₂ (ReadsPart patternElement) us ps) (hx : Reads level u x) :
    Reads 20 ("function".toList ++ functionTail us u) (.function ps x) := by
  have hword : word "function".toList = some ("function".toList, []) := rfl
  have ho : Opens 20 ("function".toList ++ functionTail us u) :=
    .of_word hword (fun rest _ => rfl) (.inl rfl) (fun _ => by decide) fun _ => by decide
  refine .of_primary ho fun fuel rest hr hf => ?_
  have hlen : ("function".toList ++ functionTail us u).length =
      (commas us).length + u.length + 24 := by
    simp only [functionTail, List.length_append, List.length_cons, List.length_nil,
      String.reduceToList]
    omega
  rw [hlen] at hf
  obtain ⟨fuel, rfl⟩ : ∃ f, fuel = f + 2 := ⟨fuel - 2, by omega⟩
  have hfree : Free (functionTail us u ++ rest) := rfl
  rw [List.append_assoc, primary_of_word (word_append hword hfree), if_pos (beq_self_eq_true _)]
  have htail : functionTail us u ++ rest = ' ' :: '(' :: (commas us ++ ')' :: ' ' :: '\x7b' :: ' ' ::
      ("return".toList ++ ' ' :: (u ++ ';' :: ' ' :: '\x7d' :: rest))) := by
    simp only [functionTail, List.cons_append, List.append_assoc, List.nil_append]
  rw [htail]
  generalize hbody : ("return".toList ++ ' ' :: (u ++ ';' :: ' ' :: '\x7d' :: rest)) = body
  have hopen : mark "(" (' ' :: '(' :: (commas us ++ ')' :: ' ' :: '\x7b' :: ' ' :: body)) =
      some (commas us ++ ')' :: ' ' :: '\x7b' :: ' ' :: body) := rfl
  have hreturn : (mark "\x7b" (' ' :: '\x7b' :: ' ' :: body)).bind (mark "return") =
      some (' ' :: (u ++ ';' :: ' ' :: '\x7d' :: rest)) := by
    rw [← hbody]
    rfl
  rw [functionRest, hopen]
  have hclosed : closes (')' :: ' ' :: '\x7b' :: ' ' :: body) = true := rfl
  have hparams : Leads (itemsTo ")" (patternElement fuel)
      (commas us ++ ')' :: ' ' :: '\x7b' :: ' ' :: body)) ps (' ' :: '\x7b' :: ' ' :: body) :=
    Leads.partsTo (by simp) .nil (fun fuel cs => (skipsBlanks fuel cs).patternElement) h (by omega)
      hclosed rfl rfl
  refine hparams.andThen ?_
  have hstop : Ends 0 (';' :: ' ' :: '\x7d' :: rest) := .of_stops (.inr ⟨';', _, rfl, rfl⟩)
  simp only [hreturn]
  exact (hx.expression_space hstop (by omega)).andThen (.one _ _)

end Comprehend.Parser
