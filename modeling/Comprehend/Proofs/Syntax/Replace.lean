import Comprehend.Proofs.Syntax.Printed
import Comprehend.Source.Surface

/-! # Trees with templates replaced

Expanding a tree replaces what is tagged with the list tag and leaves the rest as it was. What a
template is replaced by is a function of its token here: it can be the chain, the lowered chain or
the chain as it is read back, and the trees that come out are alike but for that. The printer tells
trees apart by little more than how tightly they bind, so they are laid out alike too. -/

namespace Comprehend

open Comprehend.Layout

namespace Node

/-- The tag of a comprehension. -/
def listName : Node := .leaf .name ⟨.name, listTag⟩

/-- A template and its tag, replaced if the tag is the list tag. -/
def replacedTemplate (r : Token → Option Node) (tag : Node) (template : Token) : Node :=
  match tag with
  | .leaf .name t => if t.text = listTag then (r template).getD (.tagged tag template)
      else .tagged tag template
  | _ => .tagged tag template

theorem replacedTemplate_listName (r : Token → Option Node) (template : Token) :
    replacedTemplate r listName template = (r template).getD (.tagged listName template) := rfl

theorem replacedTemplate_of_ne (r : Token → Option Node) {tag : Node}
    (h : ¬ ∃ t, tag = .leaf .name t) (template : Token) :
    replacedTemplate r tag template = .tagged tag template := by
  unfold replacedTemplate
  split
  · exact absurd ⟨_, rfl⟩ h
  · rfl

mutual

/-- A tree with its list-tagged templates replaced, inner ones first. -/
def replaced (r : Token → Option Node) : Node → Node
  | .array items => .array (allReplaced r items)
  | .object members => .object (allReplaced r members)
  | .spread x => .spread (replaced r x)
  | .property key x => .property key (replaced r x)
  | .arrow ps body => .arrow (allReplaced r ps) (replaced r body)
  | .function ps body => .function (allReplaced r ps) (replaced r body)
  | .ternary test yes no => .ternary (replaced r test) (replaced r yes) (replaced r no)
  | .logical op lhs rhs => .logical op (replaced r lhs) (replaced r rhs)
  | .binary group op lhs rhs => .binary group op (replaced r lhs) (replaced r rhs)
  | .power base exponent => .power (replaced r base) (replaced r exponent)
  | .unary op x => .unary op (replaced r x)
  | .prefixUpdate op x => .prefixUpdate op (replaced r x)
  | .postfixUpdate x op => .postfixUpdate (replaced r x) op
  | .member optional target name => .member optional (replaced r target) name
  | .index optional target key => .index optional (replaced r target) (replaced r key)
  | .call optional callee args => .call optional (replaced r callee) (allReplaced r args)
  | .construct callee args => .construct (replaced r callee) (allReplaced r args)
  | .tagged tag template => replacedTemplate r (replaced r tag) template
  | .params ps => .params (allReplaced r ps)
  | .arrayPattern items => .arrayPattern (allReplaced r items)
  | .objectPattern items => .objectPattern (allReplaced r items)
  | .patternDefault target x => .patternDefault (replaced r target) (replaced r x)
  | .patternRest target => .patternRest (replaced r target)
  | .propertyPattern key target => .propertyPattern key (replaced r target)
  | .other label children => .other label (allReplaced r children)
  | x => x

def allReplaced (r : Token → Option Node) : List Node → List Node
  | [] => []
  | x :: xs => replaced r x :: allReplaced r xs

end

theorem allReplaced_eq_map (r : Token → Option Node) (xs : List Node) :
    allReplaced r xs = xs.map (replaced r) := by
  induction xs with
  | nil => rfl
  | cons x xs ih => rw [allReplaced, ih, List.map_cons]

mutual

theorem replaced_none (x : Node) : x.replaced (fun _ => none) = x := by
  cases x with
  | array xs | object xs | params xs | arrayPattern xs | objectPattern xs | other label xs =>
    rw [replaced, allReplaced_none xs]
  | spread x | patternRest x | unary op x | prefixUpdate op x | postfixUpdate x op | property key x
  | propertyPattern key x | member optional x name =>
    rw [replaced, replaced_none x]
  | logical op x y | binary group op x y | power x y | index optional x y | patternDefault x y =>
    rw [replaced, replaced_none x, replaced_none y]
  | arrow xs x | function xs x | call optional x xs | construct x xs =>
    rw [replaced, allReplaced_none xs, replaced_none x]
  | ternary x y z => rw [replaced, replaced_none x, replaced_none y, replaced_none z]
  | tagged x template =>
    rw [replaced, replaced_none x]
    unfold replacedTemplate
    split
    · exact ite_self _
    · rfl
  | _ => rfl

theorem allReplaced_none (xs : List Node) : allReplaced (fun _ => none) xs = xs := by
  cases xs with
  | nil => rfl
  | cons x xs => rw [allReplaced, replaced_none x, allReplaced_none xs]

end

/-! ## Trees that are laid out alike -/

/-- Two trees between which the printer sees no difference. -/
structure Alike (x y : Node) : Prop where
  precedence : x.precedence = y.precedence
  needsParens : x.needsParens = y.needsParens
  isObject : x.isObject = y.isObject
  mixesWith (op : LogicalOp) : x.mixesWith op = y.mixesWith op
  signGap (op : Token) : signGap op x = signGap op y

namespace Alike

variable {x y z : Node}

theorem refl (x : Node) : x.Alike x := ⟨rfl, rfl, rfl, fun _ => rfl, fun _ => rfl⟩

theorem symm (h : x.Alike y) : y.Alike x :=
  ⟨h.precedence.symm, h.needsParens.symm, h.isObject.symm, fun op => (h.mixesWith op).symm,
    fun op => (h.signGap op).symm⟩

theorem trans (h : x.Alike y) (h' : y.Alike z) : x.Alike z :=
  ⟨h.precedence.trans h'.precedence, h.needsParens.trans h'.needsParens,
    h.isObject.trans h'.isObject, fun op => (h.mixesWith op).trans (h'.mixesWith op),
    fun op => (h.signGap op).trans (h'.signGap op)⟩

theorem slot (h : x.Alike y) (p : Nat) (ps : List Piece) : slot p x ps = slot p y ps := by
  rw [Layout.slot, Layout.slot, h.precedence]

theorem receiver (h : x.Alike y) (ps : List Piece) : receiver x ps = receiver y ps := by
  rw [Layout.receiver, Layout.receiver, h.needsParens, h.slot, h.slot]

theorem constructed (h : x.Alike y) (hc : x.startsFromCall = y.startsFromCall) (ps : List Piece) :
    constructed x ps = constructed y ps := by
  rw [Layout.constructed, Layout.constructed, hc, h.precedence, h.slot]

end Alike

/-- What a template may be replaced by. -/
def Fits (r : Token → Option Node) : Prop :=
  ∀ template g, r template = some g → (Node.tagged listName template).Alike g

theorem fits_none : Fits fun _ => none := fun _ _ h => nomatch h

theorem replacedTemplate_alike {r : Token → Option Node} (hr : Fits r) (tag : Node) (template : Token) :
    (Node.tagged tag template).Alike (replacedTemplate r tag template) := by
  have htagged : (Node.tagged tag template).Alike (.tagged listName template) :=
    ⟨rfl, rfl, rfl, fun _ => rfl, fun _ => rfl⟩
  unfold replacedTemplate
  split
  · split_ifs
    · cases hg : r template with
      | none => exact .refl _
      | some g => exact htagged.trans (hr template g hg)
    · exact .refl _
  · exact .refl _

/-- A tree with templates replaced is laid out as the tree. -/
theorem alike_replaced {r : Token → Option Node} (hr : Fits r) (x : Node) : x.Alike (x.replaced r) := by
  cases x with
  | tagged tag template =>
    have htag : (Node.tagged tag template).Alike (.tagged (tag.replaced r) template) :=
      ⟨rfl, rfl, rfl, fun _ => rfl, fun _ => rfl⟩
    exact htag.trans (replacedTemplate_alike hr _ _)
  | logical op => cases op <;> exact ⟨rfl, rfl, rfl, fun _ => rfl, fun _ => rfl⟩
  | leaf kind => cases kind <;> exact ⟨rfl, rfl, rfl, fun _ => rfl, fun _ => rfl⟩
  | _ => exact ⟨rfl, rfl, rfl, fun _ => rfl, fun _ => rfl⟩

theorem Alike.replaced {r s : Token → Option Node} (hr : Fits r) (hs : Fits s) (x : Node) :
    (x.replaced r).Alike (x.replaced s) :=
  (alike_replaced hr x).symm.trans (alike_replaced hs x)

/-- A leaf is what replacing leaves of that leaf only. -/
theorem leaf_of_replaced {r : Token → Option Node} (hr : Fits r) {x : Node} {kind : LeafKind}
    {t : Token} (h : x.replaced r = .leaf kind t) : x = .leaf kind t := by
  have hp := (alike_replaced hr x).precedence
  rw [h] at hp
  cases x with
  | leaf => exact h
  | tagged tag template => cases hp
  | _ => cases h

theorem bindingName_of_replaced {r : Token → Option Node} (hr : Fits r) {x : Node} {name : Token}
    (h : x.replaced r = .bindingName name) : x = .bindingName name := by
  have hp := (alike_replaced hr x).precedence
  rw [h] at hp
  cases x with
  | bindingName => exact h
  | tagged tag template => cases hp
  | _ => cases h

/-- Parameters that need parentheses still do. -/
theorem map_replaced_ne {r : Token → Option Node} (hr : Fits r) {ps : List Node}
    (hn : ∀ name, ps ≠ [.bindingName name]) (name : Token) :
    ps.map (replaced r) ≠ [.bindingName name] := by
  intro hps
  obtain ⟨p, rfl⟩ : ∃ p, ps = [p] :=
    List.length_eq_one_iff.1 (by simpa using congrArg List.length hps)
  have hp : p.replaced r = .bindingName name := by simpa using hps
  exact hn name (congrArg (fun p => [p]) (bindingName_of_replaced hr hp))

/-- Callees start from a call alike after two replacements if what is put in does. -/
theorem startsFromCall_replaced {r s : Token → Option Node} (hr : Fits r) (hs : Fits s)
    (h : ∀ template, ((r template).getD (.tagged listName template)).startsFromCall =
      ((s template).getD (.tagged listName template)).startsFromCall) (x : Node) :
    (x.replaced r).startsFromCall = (x.replaced s).startsFromCall := by
  cases x with
  | member optional x name | index optional x name =>
    simp only [replaced, startsFromCall, startsFromCall_replaced hr hs h x]
  | tagged tag template =>
    have htag := startsFromCall_replaced hr hs h tag
    by_cases hname : ∃ name, tag = .leaf .name name
    · obtain ⟨name, rfl⟩ := hname
      have hboth := h template
      simp only [replaced, replacedTemplate]
      split_ifs
      · revert hboth
        cases r template <;> cases s template <;> exact id
      · rfl
    · have hkept {q : Token → Option Node} (hq : Fits q) :
          replacedTemplate q (tag.replaced q) template = .tagged (tag.replaced q) template :=
        replacedTemplate_of_ne q (fun h => hname (h.imp fun _ ht => leaf_of_replaced hq ht))
          template
      rw [replaced, replaced, hkept hr, hkept hs]
      exact htag
  | _ => rfl

theorem one_le_level_replaced {r : Token → Option Node} (hr : Fits r) {x : Node} (h : 1 ≤ x.level) :
    1 ≤ (x.replaced r).level := by
  refine one_le_level fun ps body hx => ?_
  have hp := (alike_replaced hr x).precedence
  rw [hx] at hp
  cases x with
  | arrow ps body => cases h
  | tagged tag template => cases hp
  | _ => cases hx

end Node

/-- Only what stands behind the bare tag is replaced. -/
theorem Parser.Formed.replaced_tagged {r : Token → Option Node} (hr : Node.Fits r) {x : Node}
    (h : Parser.Formed .expression x) (hne : x ≠ .listName) (template : Token) :
    (Node.tagged x template).replaced r = .tagged (x.replaced r) template := by
  rw [Node.replaced]
  unfold Node.replacedTemplate
  split
  · next name heq =>
    obtain rfl := Node.leaf_of_replaced hr heq
    cases h with
    | name h => exact if_neg fun htag => hne (congrArg (fun s => Node.leaf .name ⟨.name, s⟩) htag)
  · rfl

end Comprehend
