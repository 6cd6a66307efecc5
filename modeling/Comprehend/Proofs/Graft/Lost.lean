import Comprehend.Proofs.Syntax.Formed
import Comprehend.Proofs.Syntax.Printed

/-! # What no reading comes of

A word that is no operator, a blank of another script or an open template behind an operand goes on
with nothing, and neither does an arrow behind an expression or a pattern. A reader that has come to
such a place leaves it standing there. What has been read so far stays part of what is read. -/

namespace Comprehend.Parser

open Comprehend.Text Comprehend.Lexeme

/-! ## What goes on with nothing -/

/-- A character that starts a word but no operator, or that is white space but no blank. -/
def strays (c : Char) : Bool := isNamePart c && c != 'i' || isSpace c

/-- A word that is no operator comes next, or white space. -/
def Stray (r : List Char) : Prop := startsWith strays (skipBlanks r) = true

/-- Such a word comes next or a template. -/
def Dull (r : List Char) : Prop := startsWith (fun c => strays c || c == '\x60') (skipBlanks r) = true

/-- The same, or an arrow. -/
def Stalled (r : List Char) : Prop := Dull r ∨ ∃ u, mark "=>" r = some u

section

variable {r u : List Char} {c : Char} {x : Node}

theorem Stray.exists_cons (h : Stray r) : ∃ c u, skipBlanks r = c :: u ∧ strays c = true := by
  unfold Stray at h
  cases hr : skipBlanks r with
  | nil =>
    rw [hr] at h
    cases h
  | cons c u => exact ⟨c, u, rfl, by rwa [hr] at h⟩

theorem Dull.exists_cons (h : Dull r) :
    ∃ c u, skipBlanks r = c :: u ∧ (strays c = true ∨ c = '\x60') := by
  unfold Dull at h
  cases hr : skipBlanks r with
  | nil =>
    rw [hr] at h
    cases h
  | cons c u =>
    rw [hr] at h
    exact ⟨c, u, rfl, by simpa [startsWith] using h⟩

theorem Stray.dull (h : Stray r) : Dull r := by
  obtain ⟨c, u, hr, hc⟩ := h.exists_cons
  unfold Dull
  rw [hr, startsWith, hc]
  rfl

theorem Dull.stalled (h : Dull r) : Stalled r := .inl h

theorem dull_of_template (h : skipBlanks r = '\x60' :: u) : Dull r := by
  unfold Dull
  rw [h]
  rfl

/-- Not even the end of the text comes next. -/
theorem Stalled.ne_nil (h : Stalled r) : skipBlanks r ≠ [] := by
  rcases h with h | ⟨u, h⟩
  · obtain ⟨c, u, hr, -⟩ := h.exists_cons
    rw [hr]
    exact List.cons_ne_nil c u
  · have hr : skipBlanks r = '=' :: '>' :: u := append_of_after h
    rw [hr]
    exact List.cons_ne_nil _ _

theorem after_eq_none_of_ne {s : String} {a : Char} {as : List Char} (hs : s.toList = a :: as)
    (ha : strays a = false ∧ a ≠ '\x60') (hc : strays c = true ∨ c = '\x60') (u : List Char) :
    after s (c :: u) = none := by
  refine after_of_ne hs ?_ u
  intro hne
  subst hne
  rcases hc with hc | hc
  · rw [ha.1] at hc
    cases hc
  · exact ha.2 hc

theorem Dull.after_eq_none (h : Dull r) {s : String} {a : Char} {as : List Char}
    (hs : s.toList = a :: as) (ha : strays a = false ∧ a ≠ '\x60') : after s (skipBlanks r) = none := by
  obtain ⟨c, u, hr, hc⟩ := h.exists_cons
  rw [hr]
  exact after_eq_none_of_ne hs ha hc u

theorem Dull.mark_eq_none (h : Dull r) {s : String} {a : Char} {as : List Char}
    (hs : s.toList = a :: as) (ha : strays a = false ∧ a ≠ '\x60') : mark s r = none :=
  h.after_eq_none hs ha

/-- The spellings that start with neither a letter nor a quote. -/
def isSymbol (s : String) : Bool :=
  match s.toList with
  | [] => false
  | a :: _ => !strays a && a != '\x60'

theorem exists_of_isSymbol {s : String} (hs : isSymbol s = true) :
    ∃ a as, s.toList = a :: as ∧ strays a = false ∧ a ≠ '\x60' := by
  unfold isSymbol at hs
  cases hl : s.toList with
  | nil =>
    rw [hl] at hs
    cases hs
  | cons a as =>
    rw [hl] at hs
    exact ⟨a, as, rfl, by simpa using hs⟩

theorem Dull.anyOf_eq_none (h : Dull r) {spellings : List String}
    (hs : spellings.all isSymbol = true) : anyOf spellings (skipBlanks r) = none := by
  refine List.findSome?_eq_none_iff.2 fun s hmem => ?_
  obtain ⟨a, as, hl, ha⟩ := exists_of_isSymbol (List.all_eq_true.1 hs s hmem)
  rw [h.after_eq_none hl ha, Option.map_none]

theorem Dull.updateAt_eq_none (h : Dull r) : updateAt r = none := by
  rw [updateAt, h.anyOf_eq_none (by decide), Option.map_none]

theorem Dull.jointAt_eq_none (h : Dull r) (level : Nat) : jointAt level r = none := by
  have hlogical {op : LogicalOp} {s : String} (hs : isSymbol s = true) :
      logicalAt op s (skipBlanks r) = none := by
    obtain ⟨a, as, hl, ha⟩ := exists_of_isSymbol hs
    rw [logicalAt, h.after_eq_none hl ha, Option.map_none]
  have hsymbols {spellings : List String} (hs : spellings.all isSymbol = true) :
      anyOf spellings (skipBlanks r) = none := h.anyOf_eq_none hs
  have hwords : (["instanceof", "in"].findSome? fun s =>
      (keyword s (skipBlanks r)).map (s, ·)) = none := by
    have hkey {s : String} {as : List Char} (hs : s.toList = 'i' :: as) :
        keyword s (skipBlanks r) = none := by
      rw [keyword, h.after_eq_none hs (by decide), Option.filter_none]
    simp only [List.findSome?_cons, List.findSome?_nil, hkey (s := "instanceof") rfl,
      hkey (s := "in") rfl, Option.map_none]
  have hfiltered {spellings : List String} {p : String × List Char → Bool}
      (hs : spellings.all isSymbol = true) :
      (anyOf spellings (skipBlanks r)).filter p = none := by
    rw [hsymbols hs, Option.filter_none]
  have hbinary (group : OperatorGroup) : binaryAt group (skipBlanks r) = none := by
    refine Option.map_eq_none_iff.2 ?_
    cases group with
    | relational => exact Option.or_eq_none_iff.2 ⟨hwords, hsymbols (by decide)⟩
    | bitOr => exact hfiltered (by decide)
    | bitAnd => exact hfiltered (by decide)
    | bitXor => exact hsymbols (by decide)
    | equality => exact hsymbols (by decide)
    | shift => exact hsymbols (by decide)
    | additive => exact hsymbols (by decide)
    | multiplicative => exact hsymbols (by decide)
  unfold jointAt
  split
  · exact hlogical (by decide)
  · exact hlogical (by decide)
  · exact hlogical (by decide)
  · exact hbinary _
  · exact hbinary _
  · exact hbinary _
  · exact hbinary _
  · exact hbinary _
  · exact hbinary _
  · exact hbinary _
  · exact hbinary _
  · rfl

/-- No link goes on with a stray word. -/
theorem Stray.unlinked (h : Stray r) : Unlinked r := by
  have hmark {s : String} {a : Char} {as : List Char} (hs : s.toList = a :: as)
      (ha : strays a = false ∧ a ≠ '\x60') : mark s r = none := h.dull.mark_eq_none hs ha
  refine ⟨hmark rfl (by decide), hmark rfl (by decide), hmark rfl (by decide), ?_, ?_⟩
  · obtain ⟨c, u, hr, hc⟩ := h.exists_cons
    rw [hr]
    unfold template
    split
    · next heq =>
      cases heq
      cases hc
    · rfl
  · rw [optionalAt, hmark rfl (by decide), Option.filter_none]

/-- No comma, bracket or default comes next. -/
theorem Stalled.stuck (h : Stalled r) : Stuck r := by
  rcases h with h | ⟨u, h⟩
  · exact .of_mark (h.mark_eq_none rfl (by decide)) (h.mark_eq_none rfl (by decide))
      (h.mark_eq_none rfl (by decide)) (h.mark_eq_none rfl (by decide))
      (h.mark_eq_none rfl (by decide))
  · have hr : skipBlanks r = '=' :: '>' :: u := append_of_after h
    exact .of_equal hr (.inr rfl)

theorem Stalled.mark_eq_none (h : Stalled r) {s : String} {a : Char} {as : List Char}
    (hs : s.toList = a :: as) (ha : strays a = false ∧ a ≠ '\x60' ∧ a ≠ '=') : mark s r = none := by
  rcases h with h | ⟨u, h⟩
  · exact h.mark_eq_none hs ⟨ha.1, ha.2.1⟩
  · have hr : skipBlanks r = '=' :: '>' :: u := append_of_after h
    rw [mark, hr, after_of_ne hs ha.2.2]

end

/-! ## What has been read stays -/

open Node (Within)

theorem all_andThen {os : Outcomes α} {f : α → List Char → Outcomes β} {P : β → Prop}
    (h : ∀ x r, (f x r).All P) : (os.andThen f).All P := by
  intro o ho
  obtain ⟨x, r, -, ho⟩ := mem_andThen.1 ho
  exact h x r o ho

theorem all_giving {os : Outcomes α} {f : α → β} {P : β → Prop} (h : ∀ x, P (f x)) :
    (os.giving f).All P := by
  intro o ho
  obtain ⟨x, -, hx⟩ := mem_giving.1 ho
  exact hx ▸ h x

theorem within_memberLinks {x y : Node} (h : Within x y) (fuel : Nat) (r : List Char) :
    (memberLinks fuel y r).All (Within x) := by
  induction fuel generalizing y r with
  | zero => exact .nil
  | succ fuel ih =>
    rw [memberLinks]
    split
    · exact ih (h.child (by simp [Node.children])) _
    · split
      · exact all_andThen fun key => ih (h.child (by simp [Node.children]))
      · split
        · exact ih (h.child (by simp [Node.children])) _
        · exact .one _ h

theorem within_links {x : Node} (fuel : Nat) :
    (∀ y r, Within x y → (links fuel y r).All (Within x)) ∧
      ∀ y r, Within x y → (optionalLink fuel y r).All (Within x) := by
  induction fuel with
  | zero => exact ⟨fun _ _ _ => .nil, fun _ _ _ => .nil⟩
  | succ fuel ih =>
    obtain ⟨ih, iho⟩ := ih
    constructor
    · intro y r h
      rw [links]
      split
      · exact ih _ _ (h.child (by simp [Node.children]))
      · split
        · exact all_andThen fun key _ => ih _ _ (h.child (by simp [Node.children]))
        · split
          · exact all_andThen fun args _ => ih _ _ (h.child (by simp [Node.children]))
          · split
            · exact ih _ _ (h.child (by simp [Node.children]))
            · split
              · exact iho _ _ h
              · exact .one _ h
    · intro y r h
      rw [optionalLink]
      split
      · exact all_andThen fun key _ => ih _ _ (h.child (by simp [Node.children]))
      · split
        · exact all_andThen fun args _ => ih _ _ (h.child (by simp [Node.children]))
        · split
          · exact ih _ _ (h.child (by simp [Node.children]))
          · exact .nil

theorem within_build {x y : Node} (h : Within x y) (joint : Joint) (z : Node) :
    Within x (joint.build y z) := by
  cases joint <;> exact h.child (by simp [Joint.build, Node.children])

theorem within_joinedTail {x y : Node} (h : Within x y) (fuel level : Nat) (r : List Char) :
    (joinedTail fuel level y r).All (Within x) := by
  induction fuel generalizing y r with
  | zero => exact .nil
  | succ fuel ih =>
    rw [joinedTail]
    split
    · exact .one _ h
    · next joint u _ => exact all_andThen fun rhs => ih (within_build h joint rhs)

theorem within_defaulted {x y : Node} (h : Within x y) (fuel : Nat) (r : List Char) :
    (defaulted fuel y r).All (Within x) := by
  cases fuel with
  | zero => exact .nil
  | succ fuel =>
    rw [defaulted]
    split
    · exact all_giving fun value => h.child (by simp [Node.children])
    · exact .one _ h

end Comprehend.Parser
