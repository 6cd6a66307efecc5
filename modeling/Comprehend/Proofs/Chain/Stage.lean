import Comprehend.Proofs.Chain.Printed
import Comprehend.Proofs.Source.Expanded

/-! # The stage of a fault

A comprehension is read, then its chain is built, then the chain is printed. The family of a fault
says at which of these stages it arose: a text that is no notation, or in a strict reading a segment
that is no clause; a number of clauses, an operand or a variable; a dialect or a limit. -/

namespace Comprehend

open Comprehend.Layout Comprehend.ClauseToken

variable {fault : Fault}

theorem eq_error_of_map {ε α β : Type} {f : α → β} {a : Except ε α} {e : ε}
    (h : a.map f = .error e) : a = .error e := by
  cases a with
  | error _ =>
    cases h
    rfl
  | ok _ => cases h

theorem bind_eq_error {ε α β : Type} {a : Except ε α} {f : α → Except ε β} {e : ε}
    (h : a >>= f = .error e) : a = .error e ∨ ∃ x, a = .ok x ∧ f x = .error e := by
  cases a with
  | error _ =>
    cases h
    exact .inl rfl
  | ok x => exact .inr ⟨x, rfl, h⟩

/-! ## Reading -/

theorem ClauseToken.family_of_segments {raw : String} {stack : List (List Char)} {offset : Nat}
    {ts : List ClauseToken} (h : segments raw stack offset ts = .error fault) :
    fault.family = .comprehension := by
  fun_induction segments raw stack offset ts with
  | case1 => cases h
  | case2 | case4 | case6 =>
    cases h
    rfl
  | case3 =>
    rename_i ih
    exact ih (eq_error_of_map h)
  | case5 =>
    rename_i ih
    exact ih (eq_error_of_map h)
  | case7 =>
    rename_i ih
    exact ih (eq_error_of_map h)
  | case8 =>
    rename_i ih
    exact ih (eq_error_of_map h)

theorem ClauseToken.family_of_conditionOf {rest : List ClauseToken}
    (h : conditionOf rest = .error fault) : fault.family = .clause := by
  unfold conditionOf at h
  split at h
  · split at h
    · split at h <;> cases h
      rfl
    · cases h
  · cases h

theorem Clause.family_of_ofSegment {strict : Bool} {segment : List ClauseToken}
    (h : (Clause.ofSegment strict segment).result = .error fault) : fault.family = .clause := by
  unfold Clause.ofSegment at h
  split at h
  · cases h
    rfl
  split at h
  · cases h
    rfl
  split at h
  · cases h
    rfl
  split at h
  · cases h
    rfl
  · cases h
    rfl
  · cases h
    rfl
  · rw [Noted.result_bind] at h
    rcases bind_eq_error h with h | ⟨p, -, h⟩
    · exact family_of_conditionOf h
    · dsimp only at h
      split at h
      · cases h
      · split at h
        · cases h
          rfl
        · cases h

theorem Comprehension.family_of_addSegments {strict : Bool} {c : Comprehension}
    {segments : List (List ClauseToken)}
    (h : (addSegments strict c segments).result = .error fault) : fault.family = .clause := by
  induction segments generalizing c with
  | nil => cases h
  | cons s segments ih =>
    rw [addSegments, Noted.result_bind] at h
    rcases bind_eq_error h with h | ⟨d, -, h⟩
    · simp only [addSegment] at h
      split at h
      · cases h
      · next hs =>
        split at h
        · cases h
          exact Clause.family_of_ofSegment hs
        · cases h
    · exact ih h

theorem Comprehension.family_of_parse {strict : Bool} {raw : String}
    (h : (Comprehension.parse strict raw).result = .error fault) :
    fault.family = .comprehension ∨ fault.family = .clause := by
  unfold Comprehension.parse at h
  split at h
  · cases h
    exact .inl rfl
  · rw [Noted.result_bind] at h
    rcases bind_eq_error h with h | ⟨ss, -, h⟩
    · exact .inl (family_of_segments h)
    · split at h
      · cases h
        exact .inl rfl
      · cases h
        exact .inl rfl
      · cases h
        exact .inl rfl
      · exact .inr (family_of_addSegments h)

/-! ## Building -/

/-- What a reader refuses is an operand, and it says no more than that. -/
structure OperandReader.RefusesOperands (reader : OperandReader) : Prop where
  expression : ∀ {text fault}, reader.expression text = .error fault → fault.family = .expression
  pattern : ∀ {text fault}, reader.pattern text = .error fault → fault.family = .expression

theorem OperandReader.refusesOperands_script : OperandReader.script.RefusesOperands where
  expression := by
    intro text fault h
    change parseExpression text = _ at h
    unfold parseExpression at h
    split at h
    · cases h
      rfl
    · split at h <;> cases h
      rfl
  pattern := by
    intro text fault h
    change parsePattern text = _ at h
    unfold parsePattern at h
    split at h
    · cases h
      rfl
    · split at h <;> cases h
      rfl

namespace Chain

variable {reader : OperandReader}

theorem family_of_binding (hr : reader.RefusesOperands) {clause : Clause}
    (h : binding reader clause = .error fault) :
    fault.family = .expression ∨ fault.family = .binding := by
  unfold binding at h
  split at h
  · exact .inl (hr.pattern (eq_error_of_map h))
  · have h := eq_error_of_map h
    unfold Variable.validate at h
    split_ifs at h <;> cases h <;> exact .inr rfl

theorem family_of_level (hr : reader.RefusesOperands) {clause : Clause} {op : Combinator}
    {body : Node} (h : level reader clause op body = .error fault) :
    fault.family = .expression ∨ fault.family = .binding := by
  rcases bind_eq_error h with h | ⟨source, -, h⟩
  · exact .inl (hr.expression h)
  rcases bind_eq_error h with h | ⟨param, -, h⟩
  · exact family_of_binding hr h
  split at h
  · cases h
  · rcases bind_eq_error h with h | ⟨test, -, h⟩
    · exact .inl (hr.expression h)
    · cases h

theorem family_of_fold (hr : reader.RefusesOperands) {yield : Node} {clauses : List Clause}
    (h : fold reader yield clauses = .error fault) :
    fault.family = .expression ∨ fault.family = .binding := by
  induction clauses with
  | nil => cases h
  | cons c cs ih =>
    cases cs with
    | nil => exact family_of_level hr h
    | cons d ds =>
      rcases bind_eq_error h with h | ⟨inner, -, h⟩
      · exact ih h
      · exact family_of_level hr h

/-- A chain is not built for want of clauses, for too many of them, or for what one of them says. -/
theorem build_error (hr : reader.RefusesOperands) {maxClauses : Int} {text : String}
    {clauses : List Clause} (h : build reader maxClauses text clauses = .error fault) :
    clauses = [] ∧ fault = .noClauses ∨
      clauses ≠ [] ∧ (fault = .tooManyClauses clauses.length maxClauses ∨
        fault.family = .expression ∨ fault.family = .binding) := by
  unfold build at h
  split_ifs at h with hempty hmany
  · cases h
    exact .inl ⟨List.isEmpty_iff.1 hempty, rfl⟩
  · cases h
    exact .inr ⟨mt List.isEmpty_iff.2 hempty, .inl rfl⟩
  · refine .inr ⟨mt List.isEmpty_iff.2 hempty, .inr ?_⟩
    rcases bind_eq_error h with h | ⟨yield, -, h⟩
    · exact .inl (hr.expression h)
    · exact family_of_fold hr h

end Chain

/-! ## Printing -/

/-- The families of the faults that printing ends in. -/
def Fault.IsOfPrinting (fault : Fault) : Prop :=
  fault.family = .dialect ∨ fault.family = .output ∨ fault.family = .unsupported

namespace Layout

theorem isOfPrinting_settle {limit : Int} {ps : List Piece} (h : settle limit ps = .error fault)
    (hps : ∀ fault, .refuse fault ∈ ps → fault.IsOfPrinting) : fault.IsOfPrinting := by
  rcases settleFrom_error h with rfl | hmem
  · exact .inr (.inl rfl)
  · exact hps fault hmem

theorem refuse_mem_braced {items : List Node} {ps : List Piece}
    (h : .refuse fault ∈ braced items ps) : .refuse fault ∈ ps := by
  unfold braced at h
  split at h <;> simp_all

theorem refuse_mem_parameters {params : List Node} {ps : List Piece}
    (h : .refuse fault ∈ parameters params ps) : .refuse fault ∈ ps := by
  unfold parameters at h
  split at h <;> simp_all

mutual

/-- What is refused in a tree is refused by the printer. -/
theorem isOfPrinting_pieces {style : Option ChainStyle} {fault : Fault} (x : Node)
    (h : .refuse fault ∈ pieces style x) :
    fault.IsOfPrinting := by
  cases x with
  | array xs | arrayPattern xs =>
    simp only [pieces, List.mem_cons, List.mem_append, reduceCtorEq, List.not_mem_nil, or_false,
      false_or] at h
    exact isOfPrinting_listed xs h
  | object xs | objectPattern xs =>
    exact isOfPrinting_listed xs (refuse_mem_braced (by simpa [pieces] using h))
  | params xs => exact isOfPrinting_listed xs (refuse_mem_parameters (by simpa [pieces] using h))
  | spread x | patternRest x | unary op x | prefixUpdate op x | postfixUpdate x op | property key x
  | propertyPattern key x | member optional x name | tagged x template =>
    exact isOfPrinting_pieces x (by simpa [pieces] using h)
  | ternary x y z =>
    have h : .refuse fault ∈ pieces style x ∨ .refuse fault ∈ pieces style y ∨
        .refuse fault ∈ pieces style z := by simpa [pieces] using h
    rcases h with h | h | h
    · exact isOfPrinting_pieces x h
    · exact isOfPrinting_pieces y h
    · exact isOfPrinting_pieces z h
  | logical op x y | binary group op x y | power x y | index optional x y | patternDefault x y =>
    have h : .refuse fault ∈ pieces style x ∨ .refuse fault ∈ pieces style y := by
      simpa [pieces] using h
    rcases h with h | h
    · exact isOfPrinting_pieces x h
    · exact isOfPrinting_pieces y h
  | arrow ps x =>
    have h : .refuse fault ∈ parameters ps (listed style true ps) ∨
        .refuse fault ∈ pieces style x := by simpa [pieces] using h
    rcases h with h | h
    · exact isOfPrinting_listed ps (refuse_mem_parameters h)
    · exact isOfPrinting_pieces x h
  | function ps x =>
    have h : .refuse fault ∈ listed style true ps ∨ .refuse fault ∈ pieces style x := by
      simpa [pieces] using h
    rcases h with h | h
    · exact isOfPrinting_listed ps h
    · exact isOfPrinting_pieces x h
  | call optional x xs | construct x xs =>
    have h : .refuse fault ∈ pieces style x ∨ .refuse fault ∈ listed style true xs := by
      simpa [pieces] using h
    rcases h with h | h
    · exact isOfPrinting_pieces x h
    · exact isOfPrinting_listed xs h
  | datum value | other label children =>
    simp only [pieces, List.mem_singleton, Piece.refuse.injEq] at h
    exact h ▸ .inr (.inr rfl)
  | chain op x param body =>
    cases style with
    | none =>
      have h : fault = .unsupported (.printedDatum op.kind) := by
        cases param <;> simpa [pieces] using h
      exact h ▸ .inr (.inr rfl)
    | some st =>
      rw [pieces_chain, refuse_mem_link, refuse_mem_source] at h
      rcases h with h | h
      · exact isOfPrinting_pieces x h
      rcases refuse_mem_callback h with hparam | hdialect | h
      · cases param with
        | name text => cases hparam
        | pattern p =>
          exact isOfPrinting_settle hparam fun fault h => isOfPrinting_pieces p (by simpa using h)
      · exact .inl hdialect
      · exact isOfPrinting_pieces body (refuse_mem_arrowBody.1 h)
  | _ => simp [pieces] at h

theorem isOfPrinting_listed {style : Option ChainStyle} {fault : Fault} (xs : List Node) {first : Bool}
    (h : .refuse fault ∈ listed style first xs) : fault.IsOfPrinting := by
  cases xs with
  | nil => simp [listed] at h
  | cons x xs =>
    have h : .refuse fault ∈ pieces style x ∨ .refuse fault ∈ listed style false xs := by
      cases first <;> simpa [listed] using h
    rcases h with h | h
    · exact isOfPrinting_pieces x h
    · exact isOfPrinting_listed xs h

end

end Layout

theorem isOfPrinting_printChain {limit : Int} {style : ChainStyle} {x : Node}
    (h : printChain limit style x = .error fault) : fault.IsOfPrinting :=
  isOfPrinting_settle h fun _ h => isOfPrinting_pieces x (by simpa using h)

end Comprehend
