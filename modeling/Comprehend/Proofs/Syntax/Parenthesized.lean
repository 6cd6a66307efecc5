import Comprehend.Proofs.Syntax.Readers

/-! # Parentheses leave no trace

An expression in parentheses is read as the expression itself. Where no reading of a text stops in
front of a closing parenthesis of its own, the text in parentheses is read as the text is, and a
property of it is a link on its tree. Whatever chain of links the text ends with goes on with that
link, as if the parentheses had not been written. -/

namespace Comprehend

open Comprehend.Text Comprehend.Lexeme

namespace Parser

/-- No opening parenthesis in front of a text is closed in it: no reading of the text stops in front
of a closing one, and no head of an arrow function is made of the parenthesis and a part of it. -/
structure Unclosed (cs : List Char) : Prop where
  expression : ∀ o ∈ expression (fuelFor cs) cs, mark ")" o.2 = none
  head : arrowHead (fuelFor ('(' :: cs)) ('(' :: cs) = []

theorem mem_of_mark_paren {cs r : List Char} (h : mark ")" cs = some r) : ')' ∈ cs := by
  have hskip : skipBlanks cs <:+ cs := List.dropWhile_suffix _
  have hparen : skipBlanks cs = ')' :: r := append_of_after h
  exact hskip.mem (hparen ▸ List.mem_cons_self)

/-- A text without a closing parenthesis closes none. -/
theorem Unclosed.of_not_mem {cs : List Char} (h : ')' ∉ cs) : Unclosed cs := by
  have hmark {r : List Char} (hr : r <:+ cs) : mark ")" r = none := by
    cases hopen : mark ")" r with
    | none => rfl
    | some u => exact absurd (hr.mem (mem_of_mark_paren hopen)) h
  refine ⟨fun o ho => ?_, ?_⟩
  · exact hmark (((readersLeave cs _).expression cs (.refl cs)).leaves o ho)
  · have hopen : mark "(" ('(' :: cs) = some cs := rfl
    obtain ⟨fuel, hfuel⟩ : ∃ fuel, fuelFor ('(' :: cs) = fuel + 1 := ⟨_, rfl⟩
    rw [hfuel, arrowHead, hopen]
    refine List.eq_nil_iff_forall_not_mem.2 fun o ho => ?_
    obtain ⟨r, hlist, -⟩ := mem_closedBy.1 ho
    unfold itemsTo at hlist
    rw [hmark List.suffix_rfl] at hlist
    obtain ⟨u, hitems, hclose⟩ := mem_closedBy.1 hlist
    have hdraws := Outcomes.Draws.items (readersLeave cs fuel).patternElement (cs.length + 1)
      (.refl cs)
    rw [hmark (hdraws _ hitems).1.suffix] at hclose
    cases hclose

-- parentheses of its own are no hindrance
example : Unclosed "(a || b)(x)".toList := ⟨by decide +kernel, rfl⟩

-- behind an operand, two signs and a slash may start an operator or a regular expression, and what
-- stands in the one reading of a text closes the parenthesis in the other
example : ¬ Unclosed "a++ / x) * [1](2 /i".toList := fun h =>
  absurd h.expression (by decide +kernel)

section

variable {cs w : List Char} {fuel : Nat}

theorem closedBy_cons (s : String) (o : α × List Char) (os : Outcomes α) :
    Outcomes.closedBy s (o :: os) =
      (match mark s o.2 with | some r => one o.1 r | none => []) ++ os.closedBy s := rfl

theorem closedBy_leaving {z : List Char} {s : String} {os : Outcomes α}
    (h : ∀ o ∈ os, o.2.length < z.length → mark s o.2 = none) :
    os.closedBy s = (os.leaving z).closedBy s := by
  induction os with
  | nil => rfl
  | cons o os ih =>
    obtain ⟨ho, hos⟩ := List.forall_mem_cons.1 h
    rw [leaving_cons]
    split
    · rw [closedBy_cons, closedBy_cons, ih hos]
    · next hshort =>
      rw [closedBy_cons, ho (not_le.1 hshort), List.nil_append, ih hos]

/-- The outcomes that leave nothing but blanks. -/
def Outcomes.ended (os : Outcomes α) : Outcomes α := os.filter fun o => (skipBlanks o.2).isEmpty

theorem closedBy_behind (hz : Closing (')' :: w)) {os : Outcomes α}
    (h : ∀ o ∈ os, mark ")" o.2 = none) :
    Outcomes.closedBy ")" (os.map (behind (')' :: w))) = os.ended.map fun o => (o.1, w) := by
  induction os with
  | nil => rfl
  | cons o os ih =>
    obtain ⟨ho, hos⟩ := List.forall_mem_cons.1 h
    rw [List.map_cons, closedBy_cons, ih hos, behind, mark_paren hz, ho, Outcomes.ended,
      Outcomes.ended, List.filter_cons]
    by_cases hblank : skipBlanks o.2 = []
    · simp [hblank, one]
    · simp [hblank]

/-- In front of the closing parenthesis stands the whole of an unclosed text. -/
theorem expression_closedBy (hz : Closing (')' :: w)) (hcs : Unclosed cs)
    (hfuel : fuelFor cs ≤ fuel) :
    (expression fuel (cs ++ ')' :: w)).closedBy ")" =
      (expression (fuelFor cs) cs).ended.map fun o => (o.1, w) := by
  have hagree := (readersAgree hz fuel (fuelFor cs)).expression (n := cs.length + 1) (by
    rw [Nat.min_eq_right hfuel, fuelFor, depthPerChar]
    omega)
  have hbehind : ∀ o ∈ expression fuel (cs ++ ')' :: w), o.2.length < (')' :: w).length →
      mark ")" o.2 = none := by
    intro o ho hshort
    have hsuffix : o.2 <:+ w :=
      List.suffix_of_suffix_length_le (hagree.leaves _ o ho)
        ((List.suffix_cons ')' w).trans (List.suffix_append cs _)) (Nat.le_of_lt_succ hshort)
    cases hclose : mark ")" o.2 with
    | none => rfl
    | some r =>
      obtain ⟨w', hw', hpart⟩ := hz
      cases hw'
      exact absurd List.mem_cons_self (hpart _ (hsuffix.mem (mem_of_mark_paren hclose)))
  rw [closedBy_leaving hbehind, hagree.leaving cs (by omega)]
  exact closedBy_behind hz hcs.expression

/-! ## From an operand to an expression -/

/-- Nothing goes on where nothing is left. -/
theorem andThen_of_ended {os : Outcomes α} {f : α → List Char → Outcomes α}
    (hos : ∀ o ∈ os, o.2 = []) (hf : ∀ x, f x [] = one x []) : os.andThen f = os := by
  induction os with
  | nil => rfl
  | cons o os ih =>
    obtain ⟨ho, hrest⟩ := List.forall_mem_cons.1 hos
    obtain ⟨x, r⟩ := o
    obtain rfl : r = [] := ho
    rw [Outcomes.andThen, List.flatMap_cons, hf]
    exact congrArg _ (ih hrest)

theorem jointAt_nil (level : Nat) : jointAt level [] = none := by
  match level with
  | 0 | 1 | 2 | 3 | 4 | 5 | 6 | 7 | 8 | 9 | 10 => rfl
  | level + 11 => rfl

/-- What an operand is followed by does nothing where nothing is left. -/
def EndsOnly (f : Node → List Char → Outcomes Node) : Prop := ∀ x, f x [] = one x []

/-- An expression is an operand and what follows it, where no operator and no arrow function starts.
-/
theorem exists_andThen_operand {u : List Char} (hunary : unaryAt u = none)
    (hsigned : updateAt u = none) (hhead : arrowHead (fuel + 17) u = []) :
    ∃ f, EndsOnly f ∧ expression (fuel + 18) u = (operand (fuel + 2) u).andThen f := by
  have hnext {os : Outcomes Node} (h : ∃ f, EndsOnly f ∧ os = (operand (fuel + 2) u).andThen f)
      {g : Node → List Char → Outcomes Node} (hg : EndsOnly g) :
      ∃ f, EndsOnly f ∧ os.andThen g = (operand (fuel + 2) u).andThen f := by
    obtain ⟨f, hf, rfl⟩ := h
    refine ⟨fun x r => (f x r).andThen g, fun x => ?_, Agree.andThen_andThen ..⟩
    change (f x []).andThen g = one x []
    rw [hf x, andThen_one, hg x]
  have hupdate : ∃ f, EndsOnly f ∧ update (fuel + 3) u = (operand (fuel + 2) u).andThen f := by
    rw [update, hsigned]
    refine ⟨_, ?_, rfl⟩
    exact fun _ => rfl
  have hpower : ∃ f, EndsOnly f ∧ power (fuel + 4) u = (operand (fuel + 2) u).andThen f := by
    rw [power, hunary]
    exact hnext hupdate fun _ => rfl
  have hjoined (d : Nat) : ∀ level, level + d = 11 →
      ∃ f, EndsOnly f ∧ joined (fuel + d + 5) level u = (operand (fuel + 2) u).andThen f := by
    induction d with
    | zero =>
      rintro level rfl
      exact hpower
    | succ d ih =>
      intro level hlevel
      rw [← Nat.add_assoc, joined, if_pos (show level < jointLevels by rw [jointLevels]; omega)]
      refine hnext (ih (level + 1) (by omega)) fun x => ?_
      rw [joinedTail, jointAt_nil]
  rw [expression, hhead]
  simp only [ternary]
  exact hnext (hjoined 11 0 rfl) fun _ => rfl

/-- An operand that leaves nothing is an expression. -/
theorem expression_of_operand {u : List Char} (hunary : unaryAt u = none)
    (hsigned : updateAt u = none) (hhead : arrowHead (fuel + 17) u = [])
    (hended : ∀ o ∈ operand (fuel + 2) u, o.2 = []) :
    expression (fuel + 18) u = operand (fuel + 2) u := by
  obtain ⟨f, hf, hexpression⟩ := exists_andThen_operand hunary hsigned hhead
  rw [hexpression, andThen_of_ended hended hf]

/-- A property of an unclosed text in parentheses has the readings of the text for its target. -/
theorem operand_member {n : List Char} (hn : word n = some (n, []))
    (hz : Closing (')' :: '.' :: n)) (hcs : Unclosed cs) (hfuel : fuelFor cs ≤ fuel) :
    operand (fuel + 2) ('(' :: (cs ++ ')' :: '.' :: n)) =
      (expression (fuelFor cs) cs).ended.map fun o =>
        (.member false o.1 (token .propertyName n), []) := by
  have hlinks (x : Node) : links (fuel + 1) x ('.' :: n) =
      one (.member false x (token .propertyName n)) [] := by
    obtain ⟨k, rfl⟩ : ∃ k, fuel = k + 1 := ⟨fuel - 1, by
      rw [fuelFor, depthPerChar] at hfuel
      omega⟩
    have hdot : ((mark "." ('.' :: n)).bind fun r => word (skipBlanks r)) = some (n, []) := by
      rw [show mark "." ('.' :: n) = some n from rfl, Option.bind_some, skipBlanks_of_word hn, hn]
    rw [links, hdot]
    rfl
  have hprimary : primary (fuel + 1) ('(' :: (cs ++ ')' :: '.' :: n)) =
      (expression fuel (cs ++ ')' :: '.' :: n)).closedBy ")" := rfl
  have hnew : keyword "new" (skipBlanks ('(' :: (cs ++ ')' :: '.' :: n))) = none := rfl
  rw [operand, hnew]
  simp only
  rw [hprimary, expression_closedBy hz hcs hfuel, Outcomes.andThen, List.flatMap_map]
  simp only [hlinks]
  exact List.map_eq_flatMap.symm

theorem whole?_ended (os : Outcomes Node) (f : Node → Node) :
    whole? (os.ended.map fun o => (f o.1, [])) = (whole? os).map f := by
  induction os with
  | nil => rfl
  | cons o os ih =>
    by_cases hblank : (skipBlanks o.2).isEmpty = true
    · have hempty : (skipBlanks []).isEmpty = true := rfl
      simp [whole?, Outcomes.ended, hblank, hempty]
    · rw [whole?, Outcomes.ended] at ih
      simpa [whole?, Outcomes.ended, hblank] using ih

/-- A property is made of a point and a name. -/
theorem isNamePart_of_mem_member {n : List Char} (hn : word n = some (n, [])) {c : Char}
    (hc : c ∈ '.' :: n) : c = '.' ∨ isNamePart c = true := by
  obtain ⟨d, t, rfl, hd, ht⟩ := word_eq_some hn
  rcases List.mem_cons.1 hc with rfl | hc
  · exact .inl rfl
  rcases List.mem_cons.1 hc with rfl | hc
  · exact .inr (isNamePart_of_isNameStart hd)
  · exact .inr (ht c hc)

theorem closing_member {n : List Char} (hn : word n = some (n, [])) :
    Closing (')' :: '.' :: n) := by
  refine ⟨_, rfl, fun c hc => ?_⟩
  rcases isNamePart_of_mem_member hn hc with rfl | hpart
  · decide
  · intro hmem
    fin_cases hmem <;> cases hpart

/-- The head of an arrow function does not end behind a text, where no arrow stands. -/
theorem arrowHead_behind {z r : List Char} {fuel fuel' : Nat} (harrow : '>' ∉ z)
    (h : Outcomes.leaving z (arrowHead fuel (r ++ z)) = (arrowHead fuel' r).map (behind z)) :
    arrowHead fuel (r ++ z) = (arrowHead fuel' r).map (behind z) := by
  have hall : ∀ o ∈ arrowHead fuel (r ++ z), z.length ≤ o.2.length := by
    intro o ho
    by_contra hlt
    have hmark : '>' :: o.2 <:+ r ++ z := (List.suffix_cons _ _).trans (suffix_of_arrowHead ho)
    have hsuffix : '>' :: o.2 <:+ z :=
      List.suffix_of_suffix_length_le hmark (List.suffix_append r z)
        (by rw [List.length_cons]; omega)
    exact harrow (hsuffix.mem List.mem_cons_self)
  rw [← h]
  exact (List.filter_eq_self.2 fun o ho => by simpa using hall o ho).symm

theorem expression?_of_parse {text : String} {x : Node} (h : parseExpression text = .ok x) :
    expression? text = some x := by
  unfold parseExpression at h
  split at h
  · cases h
  · split at h
    · next hx =>
      cases h
      exact hx
    · cases h

/-- A property of an unclosed text in parentheses is a link on the tree of the text. -/
theorem parseExpression_member {text name : String} {x : Node}
    (htext : parseExpression text = .ok x) (hname : word name.toList = some (name.toList, []))
    (hopen : Unclosed text.toList) :
    parseExpression ("(" ++ text ++ ")." ++ name) =
      .ok (.member false x ⟨.propertyName, name⟩) := by
  have hz := closing_member hname
  have hchars : ("(" ++ text ++ ")." ++ name).toList =
      '(' :: (text.toList ++ ')' :: '.' :: name.toList) := by
    simp [String.toList_append]
  obtain ⟨fuel, hfuel⟩ : ∃ fuel,
      fuelFor ('(' :: (text.toList ++ ')' :: '.' :: name.toList)) = fuel + 18 := ⟨_, rfl⟩
  have hbound : fuelFor ('(' :: text.toList) ≤ fuel := by
    simp only [fuelFor, depthPerChar, List.length_cons, List.length_append] at hfuel ⊢
    omega
  have hhead : arrowHead (fuel + 17) ('(' :: (text.toList ++ ')' :: '.' :: name.toList)) = [] := by
    have hagree := (readersAgree hz (fuel + 17) (fuelFor ('(' :: text.toList))).arrowHead
      (n := text.toList.length + 2) (by
        rw [fuelFor, depthPerChar, List.length_cons] at hbound ⊢
        omega)
    have harrow : '>' ∉ ')' :: '.' :: name.toList := fun hmem => by
      rcases List.mem_cons.1 hmem with h | hmem
      · cases h
      · rcases isNamePart_of_mem_member hname hmem with h | h <;> cases h
    have hbehind := arrowHead_behind harrow
      (hagree.leaving ('(' :: text.toList) (by rw [List.length_cons]; omega))
    rw [hopen.head] at hbehind
    exact hbehind
  have htextBound : fuelFor text.toList ≤ fuel := by
    rw [fuelFor, depthPerChar] at hbound ⊢
    rw [List.length_cons] at hbound
    omega
  have hoperand := operand_member hname hz hopen htextBound
  have hexpression := expression_of_operand rfl rfl hhead fun o ho => by
    rw [hoperand] at ho
    obtain ⟨p, -, rfl⟩ := List.mem_map.1 ho
    rfl
  have hwhole : expression? ("(" ++ text ++ ")." ++ name) =
      some (.member false x (token .propertyName name.toList)) := by
    have hx := expression?_of_parse htext
    rw [expression?] at hx
    rw [expression?, hchars, hfuel, hexpression, hoperand, whole?_ended _ fun y =>
      .member false y (token .propertyName name.toList), hx, Option.map_some]
  have hblank : Text.isBlankText ("(" ++ text ++ ")." ++ name) = false := by
    rw [Text.isBlankText, hchars]
    rfl
  rw [parseExpression, hblank, if_neg Bool.false_ne_true, hwhole, token, String.ofList_toList]

end

end Parser

end Comprehend
