import Comprehend.Proofs.Chain.Guarded
import Comprehend.Proofs.Source.Splice

/-! # Expanding a tree twice

A template that expansion leaves as it is is left as it is again, and the chain that is put in the
place of another one has no template in it. So there is nothing left to do for a second pass. -/

namespace Comprehend

open Comprehend.Text Comprehend.Lexeme Comprehend.Parser

namespace Expansion

variable {settings : ExpansionSettings}

theorem built_eq (o : Occurrence) : o.built settings =
    (Comprehension.generate settings.toSettings o.raw).map (·.2) := by
  rw [Occurrence.built, Comprehension.generate]
  cases (Comprehension.parse settings.strict o.raw).result with
  | error fault => rfl
  | ok c =>
    change c.chain settings.toSettings = (c.chain settings.toSettings >>= fun g => .ok (c, g)).map _
    cases c.chain settings.toSettings <;> rfl

/-- A text stays without a chain for a fault that is tolerated or skipped. -/
theorem chain?_eq_none (hr : settings.reader.RefusesOperands) {place raw : String} :
    (chain? settings place raw).result = .ok none ↔
      ∃ fault, Comprehension.generate settings.toSettings raw = .error fault ∧
        (fault.IsTolerated ∨ settings.skipFaults = true) := by
  let o : Occurrence := ⟨.taggedTemplate, 0, 0, raw⟩
  rw [result_chain? place o.place, show raw = o.raw from rfl, chain?_eq hr o, built_eq]
  cases Comprehension.generate settings.toSettings o.raw with
  | ok found => simp [Except.map]
  | error fault =>
    simp only [Except.map, Except.error.injEq, exists_eq_left']
    split_ifs with hfault <;> simp [hfault]

/-- A template that expansion leaves as it is: it has a live substitution, or its text stays without
a chain. -/
def Stays (settings : ExpansionSettings) (template : Token) : Prop :=
  hasSubstitution (literalBody template.text) = true ∨
    ∃ fault, Comprehension.generate settings.toSettings (literalBody template.text) = .error fault ∧
      (fault.IsTolerated ∨ settings.skipFaults = true)

/-- A tree whose list-tagged templates all stay. -/
def Settled (settings : ExpansionSettings) (x : Node) : Prop :=
  ∀ name template, Node.Within (.tagged (.leaf .name name) template) x → name.text = listTag →
    Stays settings template

theorem Settled.child {x y : Node} (h : Settled settings x) (hy : y ∈ x.children) :
    Settled settings y := fun name template hw => h name template (.child hw hy)

theorem tagged_of_stays (hr : settings.reader.RefusesOperands) {tag : Node} {template : Token}
    (h : ∀ name, tag = .leaf .name name → name.text = listTag → Stays settings template) :
    (tagged settings tag template).result = .ok (.tagged tag template) := by
  unfold tagged
  split
  · next name =>
    dsimp only
    split_ifs with hkept
    · rfl
    · simp only [ne_eq, Bool.or_eq_true, decide_eq_true_eq, not_or, not_not] at hkept
      rcases h name rfl hkept.1 with hsub | hfault
      · exact absurd hsub hkept.2
      · simp only [Noted.result_bind, (chain?_eq_none hr).2 hfault]
        rfl
  · rfl

mutual

/-- There is nothing to expand in a settled tree. -/
theorem tree_of_settled (hr : settings.reader.RefusesOperands) (x : Node)
    (h : Settled settings x) : (tree settings x).result = .ok x := by
  cases x with
  | array xs | object xs | params xs | arrayPattern xs | objectPattern xs | other label xs =>
    have hxs := trees_of_settled hr xs fun y hy => h.child hy
    simp only [tree, Noted.result_bind, hxs]
    rfl
  | spread y | patternRest y | unary op y | prefixUpdate op y | postfixUpdate y op | property key y
  | propertyPattern key y | member optional y name =>
    have hy := tree_of_settled hr y (h.child (by simp [Node.children]))
    simp only [tree, Noted.result_bind, hy]
    rfl
  | logical op y z | binary group op y z | power y z | index optional y z | patternDefault y z =>
    have hy := tree_of_settled hr y (h.child (by simp [Node.children]))
    have hz := tree_of_settled hr z (h.child (by simp [Node.children]))
    simp only [tree, Noted.result_bind, hy, hz]
    rfl
  | arrow xs y | function xs y =>
    have hparams : Settled settings (.params xs) := h.child (by simp [Node.children])
    have hxs := trees_of_settled hr xs fun z hz => hparams.child hz
    have hy := tree_of_settled hr y (h.child (by simp [Node.children]))
    simp only [tree, Noted.result_bind, hxs, hy]
    rfl
  | call optional y xs | construct y xs =>
    have hy := tree_of_settled hr y (h.child (by simp [Node.children]))
    have hxs := trees_of_settled hr xs fun z hz => h.child (by simp [Node.children, hz])
    simp only [tree, Noted.result_bind, hy, hxs]
    rfl
  | ternary y z w =>
    have hy := tree_of_settled hr y (h.child (by simp [Node.children]))
    have hz := tree_of_settled hr z (h.child (by simp [Node.children]))
    have hw := tree_of_settled hr w (h.child (by simp [Node.children]))
    simp only [tree, Noted.result_bind, hy, hz, hw]
    rfl
  | tagged tag template =>
    have htag := tree_of_settled hr tag (h.child (by simp [Node.children]))
    simp only [tree, Noted.result_bind, htag]
    refine tagged_of_stays hr fun name heq hname => h name template ?_ hname
    rw [heq]
    exact .self _
  | _ => rfl

theorem trees_of_settled (hr : settings.reader.RefusesOperands) (xs : List Node)
    (h : ∀ x ∈ xs, Settled settings x) : (trees settings xs).result = .ok xs := by
  cases xs with
  | nil => rfl
  | cons x xs =>
    obtain ⟨hx, hxs⟩ := List.forall_mem_cons.1 h
    simp only [trees, Noted.result_bind, tree_of_settled hr x hx, trees_of_settled hr xs hxs]
    rfl

end

/-! ## What expansion leaves -/

/-- The chain of a template has no template in it, once it is lowered. -/
theorem untagged_of_chainOf (hr : settings.reader = .script) {t : List Char} {g : Node}
    (ht : template t = some (t, [])) (hg : chainOf settings (token .template t) = some g) :
    g.lower.Untagged := by
  obtain ⟨v, rfl, hv⟩ := guarded_of_template ht
  obtain ⟨c, hgenerate⟩ := chain?_ok (chain?_of_chainOf hg)
  have hraw : (literalBody (token .template ('\x60' :: (v ++ ['\x60']))).text).toList = v := by
    simp [literalBody, token]
  refine (Chain.generated_of_generate hr hgenerate).untagged_lower ?_
  exact Chain.guarded_of_generate hr hgenerate (by rwa [hraw])

theorem Settled.of_untagged {x : Node} (h : x.Untagged) : Settled settings x :=
  fun _ _ hw => absurd hw (h _ _)

theorem Settled.of_children {x : Node} (hx : ∀ tag template, x ≠ .tagged tag template)
    (h : ∀ y ∈ x.children, Settled settings y) : Settled settings x := by
  intro name template hw hname
  cases hw with
  | self => exact absurd rfl (hx _ _)
  | child hw hy => exact h _ hy name template hw hname

theorem settled_token (t : Token) : Settled settings (.token t) :=
  .of_children (by simp) (by simp [Node.children])

theorem Settled.tagged {tag : Node} {template : Token} (htag : Settled settings tag)
    (h : ∀ name, tag = .leaf .name name → name.text = listTag → Stays settings template) :
    Settled settings (.tagged tag template) := by
  intro name template' hw hname
  cases hw with
  | self => exact h name rfl hname
  | child hw hy =>
    rcases List.mem_pair.1 hy with rfl | rfl
    · exact htag name template' hw hname
    · exact settled_token template name template' hw hname

/-- A tree whose templates have chains without templates, once lowered. -/
def Flat (settings : ExpansionSettings) (x : Node) : Prop :=
  ∀ tag template g, Node.Within (.tagged tag template) x → chainOf settings template = some g →
    g.lower.Untagged

theorem Flat.child {x y : Node} (h : Flat settings x) (hy : y ∈ x.children) : Flat settings y :=
  fun tag template g hw => h tag template g (.child hw hy)

theorem settled_of_tagged (hr : settings.reader.RefusesOperands) {tag y : Node} {template : Token}
    (htag : Settled settings tag)
    (hflat : ∀ g, chainOf settings template = some g → g.lower.Untagged)
    (h : (tagged settings tag template).result = .ok y) : Settled settings y := by
  unfold tagged at h
  split at h
  · next name =>
    dsimp only at h
    split_ifs at h with hkept
    · cases h
      refine htag.tagged fun name' heq hname => .inl ?_
      cases heq
      simpa [hname] using hkept
    · simp only [ne_eq, Bool.or_eq_true, decide_eq_true_eq, not_or, not_not] at hkept
      obtain ⟨chain, hchain, h⟩ := bind_eq_ok h
      cases chain with
      | none =>
        cases h
        exact htag.tagged fun _ _ _ => .inr ((chain?_eq_none hr).1 hchain)
      | some g =>
        cases h
        refine .of_untagged (hflat g ?_)
        rw [chainOf, if_neg hkept.2, hchain]
  · next hname =>
    cases h
    exact htag.tagged fun name heq => absurd heq (hname name)

mutual

/-- Every template of an expanded tree stays. -/
theorem settled_of_tree (hr : settings.reader.RefusesOperands) (x : Node) {y : Node}
    (hx : Flat settings x) (h : (tree settings x).result = .ok y) : Settled settings y := by
  cases x with
  | array xs | object xs | params xs | arrayPattern xs | objectPattern xs | other label xs =>
    obtain ⟨ys, hys, h⟩ := bind_eq_ok h
    cases h
    exact .of_children (by simp) (settled_of_trees hr xs (fun z hz => hx.child hz) hys)
  | spread x | patternRest x | unary op x | prefixUpdate op x | postfixUpdate x op | property key x
  | propertyPattern key x | member optional x name =>
    obtain ⟨y, hy, h⟩ := bind_eq_ok h
    cases h
    have hsettled := settled_of_tree hr x (hx.child (by simp [Node.children])) hy
    exact .of_children (by simp) (by simp [Node.children, hsettled, settled_token])
  | logical op x z | binary group op x z | power x z | index optional x z | patternDefault x z =>
    obtain ⟨y, hy, h⟩ := bind_eq_ok h
    obtain ⟨w, hw, h⟩ := bind_eq_ok h
    cases h
    have hfirst := settled_of_tree hr x (hx.child (by simp [Node.children])) hy
    have hsecond := settled_of_tree hr z (hx.child (by simp [Node.children])) hw
    exact .of_children (by simp) (by simp [Node.children, hfirst, hsecond, settled_token])
  | arrow xs z | function xs z =>
    obtain ⟨ys, hys, h⟩ := bind_eq_ok h
    obtain ⟨w, hw, h⟩ := bind_eq_ok h
    cases h
    have hparams : Flat settings (.params xs) := hx.child (by simp [Node.children])
    have hfirst : Settled settings (.params ys) :=
      .of_children (by simp) (settled_of_trees hr xs (fun z hz => hparams.child hz) hys)
    have hsecond := settled_of_tree hr z (hx.child (by simp [Node.children])) hw
    exact .of_children (by simp) (by simp [Node.children, hfirst, hsecond])
  | call optional x xs | construct x xs =>
    obtain ⟨y, hy, h⟩ := bind_eq_ok h
    obtain ⟨ys, hys, h⟩ := bind_eq_ok h
    cases h
    have hfirst := settled_of_tree hr x (hx.child (by simp [Node.children])) hy
    have hrest := settled_of_trees hr xs (fun z hz => hx.child (by simp [Node.children, hz])) hys
    exact .of_children (by simp) (List.forall_mem_cons.2 ⟨hfirst, hrest⟩)
  | ternary x z w =>
    obtain ⟨x', hx', h⟩ := bind_eq_ok h
    obtain ⟨z', hz', h⟩ := bind_eq_ok h
    obtain ⟨w', hw', h⟩ := bind_eq_ok h
    cases h
    have hfirst := settled_of_tree hr x (hx.child (by simp [Node.children])) hx'
    have hsecond := settled_of_tree hr z (hx.child (by simp [Node.children])) hz'
    have hthird := settled_of_tree hr w (hx.child (by simp [Node.children])) hw'
    exact .of_children (by simp) (by simp [Node.children, hfirst, hsecond, hthird])
  | tagged tag template =>
    obtain ⟨tag', htag, h⟩ := bind_eq_ok h
    have hsettled := settled_of_tree hr tag (hx.child (by simp [Node.children])) htag
    exact settled_of_tagged hr hsettled (fun g => hx tag template g (.self _)) h
  | leaf | constant | shorthand | bindingName | token | datum | chain =>
    cases h
    exact .of_children (by simp) (by simp [Node.children, settled_token])

theorem settled_of_trees (hr : settings.reader.RefusesOperands) (xs : List Node) {ys : List Node}
    (hxs : ∀ x ∈ xs, Flat settings x) (h : (trees settings xs).result = .ok ys) :
    ∀ y ∈ ys, Settled settings y := by
  cases xs with
  | nil =>
    cases h
    exact nofun
  | cons x xs =>
    obtain ⟨y, hy, h⟩ := bind_eq_ok h
    obtain ⟨zs, hzs, h⟩ := bind_eq_ok h
    cases h
    obtain ⟨hx, hxs⟩ := List.forall_mem_cons.1 hxs
    exact List.forall_mem_cons.2 ⟨settled_of_tree hr x hx hy, settled_of_trees hr xs hxs hzs⟩

end

theorem flat_of_parseExpression (hr : settings.reader = .script) {source : String} {t : Node}
    (h : parseExpression source = .ok t) : Flat settings t := by
  intro tag template g hw hg
  obtain ⟨u, rfl, hu⟩ := (formed_of_parseExpression h).template_of_within hw
  exact untagged_of_chainOf hr hu hg

/-- Expanding a tree is idempotent. A second pass finds nothing to do: a list-tagged template that is
left has a live substitution, or its text is malformed, has no clause or fails where faults are to be
skipped, and no lowered chain has a tagged template in it. -/
theorem tree_tree (hr : settings.reader = .script) {source : String} {t t₁ : Node}
    (hparse : parseExpression source = .ok t) (h : (tree settings t).result = .ok t₁) :
    (tree settings t₁).result = .ok t₁ ∧
      (∀ name template, Node.Within (.tagged (.leaf .name name) template) t₁ →
        name.text = listTag → Stays settings template) ∧
      ∀ tag template g, Node.Within (.tagged tag template) t →
        chainOf settings template = some g → g.lower.Untagged := by
  have hrefuses : settings.reader.RefusesOperands := hr ▸ OperandReader.refusesOperands_script
  have hflat := flat_of_parseExpression hr hparse
  have hsettled := settled_of_tree hrefuses t hflat h
  exact ⟨tree_of_settled hrefuses t₁ hsettled, hsettled, hflat⟩

end Expansion

/-- A list that is written as a tagged template, beside one with a live substitution. -/
def listBesideLive : String := "[list`x for (x of xs)`, list`${y}`]"

theorem tree_tree_listBesideLive : ∃ t t₁ : Node, parseExpression listBesideLive = .ok t ∧
    (Expansion.tree ⟨Settings.standard, Surface.all, false⟩ t).result = .ok t₁ ∧
      printTree Layout.defaultLimit t₁ = .ok "[xs.map(x => x), list`${y}`]" ∧
      (Expansion.tree ⟨Settings.standard, Surface.all, false⟩ t₁).result = .ok t₁ := by
  have hrun : (parseExpression listBesideLive >>= fun t =>
      (Expansion.tree ⟨Settings.standard, Surface.all, false⟩ t).result >>=
        printTree Layout.defaultLimit) = .ok "[xs.map(x => x), list`${y}`]" := by
    decide +kernel
  obtain ⟨t, hparse, hrun⟩ := Chain.bind_eq_ok hrun
  obtain ⟨t₁, htree, hprint⟩ := Chain.bind_eq_ok hrun
  exact ⟨t, t₁, hparse, htree, hprint, (Expansion.tree_tree rfl hparse htree).1⟩

end Comprehend
