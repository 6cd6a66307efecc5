import Comprehend.Proofs.Syntax.Replace
import Comprehend.Syntax.Parser

/-! # Templates put in, counted

A tree in which some templates are replaced is the tree with all of them replaced once as many are
replaced as there are. `Put` says this of a tree and of what has come of it, as far as it is known
how many templates were replaced on the way. -/

namespace Comprehend

open Comprehend.Parser

namespace Node

/-- Whether a template behind its tag is one that is replaced. -/
def isReplaced (r : Token → Option Node) (tag : Node) (template : Token) : Bool :=
  match tag with
  | .leaf .name t => t.text == listTag && (r template).isSome
  | _ => false

mutual

/-- How many templates of a tree are replaced. -/
def replacements (r : Token → Option Node) : Node → Nat
  | .array items => allReplacements r items
  | .object members => allReplacements r members
  | .spread x => replacements r x
  | .property _ x => replacements r x
  | .arrow ps body => allReplacements r ps + replacements r body
  | .function ps body => allReplacements r ps + replacements r body
  | .ternary test yes no => replacements r test + replacements r yes + replacements r no
  | .logical _ lhs rhs => replacements r lhs + replacements r rhs
  | .binary _ _ lhs rhs => replacements r lhs + replacements r rhs
  | .power base exponent => replacements r base + replacements r exponent
  | .unary _ x => replacements r x
  | .prefixUpdate _ x => replacements r x
  | .postfixUpdate x _ => replacements r x
  | .member _ target _ => replacements r target
  | .index _ target key => replacements r target + replacements r key
  | .call _ callee args => replacements r callee + allReplacements r args
  | .construct callee args => replacements r callee + allReplacements r args
  | .tagged tag template => replacements r tag + if isReplaced r tag template then 1 else 0
  | .params ps => allReplacements r ps
  | .arrayPattern items => allReplacements r items
  | .objectPattern items => allReplacements r items
  | .patternDefault target x => replacements r target + replacements r x
  | .patternRest target => replacements r target
  | .propertyPattern _ target => replacements r target
  | .other _ children => allReplacements r children
  | _ => 0

def allReplacements (r : Token → Option Node) : List Node → Nat
  | [] => 0
  | x :: xs => replacements r x + allReplacements r xs

end

/-- A template is replaced where its tag is the bare one and there is something to put in. -/
theorem replacedTemplate_of_isReplaced {r : Token → Option Node} (hr : Fits r) {tag : Node}
    {template : Token} (h : isReplaced r tag template = false) :
    replacedTemplate r (tag.replaced r) template = .tagged (tag.replaced r) template := by
  unfold replacedTemplate
  split
  · next t heq =>
    obtain rfl := leaf_of_replaced hr heq
    split_ifs with ht
    · have hnone : r template = none := by simpa [isReplaced, ht] using h
      rw [hnone]
      rfl
    · rfl
  · rfl

end Node

/-! ## What is known to be put in -/

/-- Of what can be put into `x` at least `m` pieces are, and if these are all then `y` is what comes
of it. -/
structure Put (count : α → Nat) (f : α → α) (m : Nat) (x y : α) : Prop where
  le : m ≤ count x
  eq : count x ≤ m → y = f x

namespace Put

variable {α β γ : Type} {count : α → Nat} {count' : β → Nat} {count'' : γ → Nat} {f : α → α}
  {g : β → β} {h : γ → γ} {m n : Nat} {x y : α} {x' y' : β}

theorem refl (hf : f x = x) : Put count f 0 x x :=
  ⟨Nat.zero_le _, fun _ => hf.symm⟩

/-- What is put into a part is put into the whole. -/
theorem within (hx : Put count f m x y) (C : α → β) (hc : count' (C x) = count x)
    (hf : g (C x) = C (f x)) : Put count' g m (C x) (C y) := by
  refine ⟨hc ▸ hx.le, fun hall => ?_⟩
  rw [hf, hx.eq (hc ▸ hall)]

theorem within₂ (hx : Put count f m x y) (hx' : Put count' g n x' y') (C : α → β → γ)
    (hc : count'' (C x x') = count x + count' x') (hf : h (C x x') = C (f x) (g x')) :
    Put count'' h (m + n) (C x x') (C y y') := by
  have hle := hx.le
  have hle' := hx'.le
  refine ⟨by omega, fun hall => ?_⟩
  rw [hf, hx.eq (by omega), hx'.eq (by omega)]

theorem within₃ {δ : Type} {k : Nat} {z z' : γ} {count₃ : δ → Nat} {e : δ → δ}
    (hx : Put count f m x y) (hx' : Put count' g n x' y') (hz : Put count'' h k z z')
    (C : α → β → γ → δ) (hc : count₃ (C x x' z) = count x + count' x' + count'' z)
    (hf : e (C x x' z) = C (f x) (g x') (h z)) :
    Put count₃ e (m + (n + k)) (C x x' z) (C y y' z') := by
  have hle := hx.le
  have hle' := hx'.le
  have hle'' := hz.le
  refine ⟨by omega, fun hall => ?_⟩
  rw [hf, hx.eq (by omega), hx'.eq (by omega), hz.eq (by omega)]

end Put

/-- The templates of a tree that are replaced. -/
abbrev PutNode (r : Token → Option Node) : Nat → Node → Node → Prop :=
  Put (Node.replacements r) (Node.replaced r)

/-- The same of the trees of a list. -/
abbrev PutNodes (r : Token → Option Node) : Nat → List Node → List Node → Prop :=
  Put (Node.allReplacements r) (Node.allReplaced r)

section

variable {r : Token → Option Node} {m n : Nat} {x y z : Node}

theorem PutNodes.nil : PutNodes r 0 [] [] := .refl rfl

theorem PutNodes.cons {xs ys : List Node} (hx : PutNode r m x y) (hxs : PutNodes r n xs ys) :
    PutNodes r (m + n) (x :: xs) (y :: ys) := hx.within₂ hxs List.cons rfl rfl

/-- A template behind a tag that is put in already, as far as it is not put in itself. -/
theorem PutNode.tagged (hr : Node.Fits r) (h : PutNode r m x y) (template : Token) :
    PutNode r m (.tagged x template) (.tagged y template) := by
  have hcount : (Node.tagged x template).replacements r =
      x.replacements r + if x.isReplaced r template then 1 else 0 := rfl
  have hle := h.le
  refine ⟨by omega, fun hall => ?_⟩
  cases hx : x.isReplaced r template with
  | false =>
    rw [hx] at hcount
    have hreplaced : (Node.tagged x template).replaced r =
        Node.replacedTemplate r (x.replaced r) template := rfl
    rw [hreplaced, Node.replacedTemplate_of_isReplaced hr hx, h.eq (by simp at hcount; omega)]
  | true =>
    rw [hx, if_pos rfl] at hcount
    omega

/-- What is put in for a list-tagged template. -/
theorem PutNode.put {template : Token} (h : r template = some y) :
    PutNode r 1 (.tagged .listName template) y := by
  have hcount : (Node.tagged .listName template).replacements r = 1 := by
    simp [Node.replacements, Node.isReplaced, Node.listName, h]
  refine ⟨hcount.ge, fun _ => ?_⟩
  change y = Node.replacedTemplate r .listName template
  rw [Node.replacedTemplate_listName, h]
  rfl

theorem PutNode.build (hx : PutNode r m x y) {x' y' : Node} (hx' : PutNode r n x' y') (joint : Joint) :
    PutNode r (m + n) (joint.build x x') (joint.build y y') := by
  cases joint with
  | logical op => exact hx.within₂ hx' (Node.logical op) rfl rfl
  | binary group op => exact hx.within₂ hx' (Node.binary group op) rfl rfl

end

end Comprehend
