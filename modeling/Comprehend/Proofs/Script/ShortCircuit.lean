import Comprehend.Proofs.Script.Evaluation
import Comprehend.Proofs.Syntax.Parenthesized

/-! # Short circuits and parentheses

A missing base of an optional link ends the chain of links around it, and parentheses do not end a
chain. A property of a text in parentheses is therefore the property of its value unless the chain
that the text ends with is cut short; then the property is never read. -/

namespace Comprehend.Script

open Comprehend.Parser Comprehend.Lexeme

section

variable [Host]

/-- The value of a chain of links in an environment, none where the chain has been cut short. -/
def evaluateChain (depth : Nat) (environment : Frame) (x : Node) : Run (Option Value) := do
  let frame ← Run.newFrame environment
  link (eval depth [frame]) (apply depth) x

/-- Reads a property of the value of a text. -/
def readProperty (depth : Nat) (environment : Frame) (text name : String) : Run Value := do
  let v ← evaluateText depth environment text
  v.property (.string name)

/-- The depth that a tree on its own has, where one more link around it has the next depth. A link
goes on with the same chain. -/
def ownDepth (depth : Nat) (x : Node) : Nat := if x.isLink then depth + 1 else depth

variable {depth : Nat} {environment : Frame} {x : Node} {m n : Memory}

theorem evaluateTree_ownDepth :
    evaluateTree (ownDepth depth x) environment x =
      (do return (← evaluateChain depth environment x).getD .undefined) := by
  by_cases hx : x.isLink = true
  · simp only [evaluateTree, evaluateChain, ownDepth, hx, if_true, eval_of_isLink hx, bind_assoc]
  · have hx : x.isLink = false := by simpa using hx
    simp only [evaluateTree, evaluateChain, ownDepth, hx, Bool.false_eq_true, if_false,
      link_of_not_isLink hx, bind_assoc, pure_bind, Option.getD_some, bind_pure]

theorem evaluateTree_member (name : String) :
    evaluateTree (depth + 1) environment (.member false x ⟨.propertyName, name⟩) =
      (do
        match ← evaluateChain depth environment x with
        | none => return .undefined
        | some v => v.property (.string name)) := by
  have hlink (scope : Scope) : eval (depth + 1) scope (.member false x ⟨.propertyName, name⟩) =
      (do return (← link (eval depth scope) (apply depth)
        (.member false x ⟨.propertyName, name⟩)).getD .undefined) := rfl
  simp only [evaluateTree, evaluateChain, hlink, link, bind_assoc]
  refine bind_congr fun frame => bind_congr fun base => ?_
  cases base with
  | none => simp [linkFrom]
  | some v => simp [linkFrom]

/-- A property of a text in parentheses is the property of its value, and fails as that does, unless
the chain that the text ends with is cut short. Then the access is undefined, where the value of the
text is undefined and has no properties. -/
theorem evaluateText_parenthesized {text name : String} (htext : parseExpression text = .ok x)
    (hname : word name.toList = some (name.toList, [])) (hopen : Unclosed text.toList) :
    ((∀ n, evaluateChain depth environment x m ≠ .ok (none, n)) →
      evaluateText (depth + 1) environment ("(" ++ text ++ ")." ++ name) m =
        readProperty (ownDepth depth x) environment text name m) ∧
    ∀ n, evaluateChain depth environment x m = .ok (none, n) →
      evaluateText (depth + 1) environment ("(" ++ text ++ ")." ++ name) m = .ok (.undefined, n) ∧
      readProperty (ownDepth depth x) environment text name m =
        .error (.evaluation (.noProperties name "undefined")) := by
  have haccess := evaluateText_eq (parseExpression_member htext hname hopen) (depth + 1) environment
  rw [evaluateTree_member] at haccess
  have hread : readProperty (ownDepth depth x) environment text name = (do
      let base ← evaluateChain depth environment x
      (base.getD .undefined).property (.string name)) := by
    rw [readProperty, evaluateText_eq htext, evaluateTree_ownDepth, bind_assoc]
    simp only [pure_bind]
  rw [haccess, hread]
  constructor
  · intro hwhole
    cases hchain : evaluateChain depth environment x m with
    | error s => rw [Run.bind_of_error hchain, Run.bind_of_error hchain]
    | ok r =>
      obtain ⟨base, n⟩ := r
      rw [Run.bind_of_ok hchain, Run.bind_of_ok hchain]
      cases base with
      | none => exact absurd hchain (hwhole n)
      | some v => rfl
  · intro n hchain
    rw [Run.bind_of_ok hchain, Run.bind_of_ok hchain]
    exact ⟨rfl, rfl⟩

end

/-- A property of nothing, read in the environment where the base of an optional link is null. -/
theorem evaluateText_parenthesized_swallowed :
    evaluateText 4 [("a", .null)] ("(" ++ "a?.b" ++ ")." ++ "c") Memory.initial =
        .ok (.undefined, ⟨#[[("a", .null)]], 1, []⟩) ∧
      readProperty 4 [("a", .null)] "a?.b" "c" Memory.initial =
        .error (.evaluation (.noProperties "c" "undefined")) := by
  have hopen : Unclosed "a?.b".toList := .of_not_mem (by decide)
  have htext : parseExpression "a?.b" =
      .ok (.member true (.leaf .name ⟨.name, "a"⟩) ⟨.propertyName, "b"⟩) := rfl
  have hchain : evaluateChain 3 [("a", .null)]
      (.member true (.leaf .name ⟨.name, "a"⟩) ⟨.propertyName, "b"⟩) Memory.initial =
        .ok (none, ⟨#[[("a", .null)]], 1, []⟩) := rfl
  exact (evaluateText_parenthesized htext (by decide) hopen).2 _ hchain

end Comprehend.Script
