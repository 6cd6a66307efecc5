import Comprehend.Proofs.Chain.Printed
import Comprehend.Proofs.Source.Scan
import Comprehend.Proofs.Syntax.Replace

/-! # What a template stands for

A tagged template has one chain, in a tree as in a text. A tree gets the lowered chain and a text the
printed one; where there is no chain, or where its text is malformed, both keep the template. -/

namespace Comprehend

open Comprehend.Text Comprehend.Lexeme Comprehend.Parser Comprehend.Layout

/-! ## Faults of the printer -/

namespace Layout

theorem settleFrom_error {limit : Int} {written : String} {size : Nat} {ps : List Piece}
    {fault : Fault} (h : settleFrom limit written size ps = .error fault) :
    fault = .outputTooLong limit ∨ .refuse fault ∈ ps := by
  induction ps generalizing written size with
  | nil => cases h
  | cons p ps ih =>
    cases p with
    | text s => exact (ih h).imp_right (List.mem_cons_of_mem _)
    | checkpoint =>
      rw [settleFrom] at h
      split at h
      · cases h
        exact .inl rfl
      · exact (ih h).imp_right (List.mem_cons_of_mem _)
    | refuse fault' =>
      cases h
      exact .inr List.mem_cons_self

theorem refuse_mem_callback {style : ChainStyle} {isPattern : Bool} {param : Except Fault String}
    {ps : List Piece} {fault : Fault}
    (h : .refuse fault ∈ callback style isPattern param ps) :
    param = .error fault ∨ fault.family = .dialect ∨ .refuse fault ∈ ps := by
  unfold callback at h
  split at h
  · simp only [List.mem_singleton, Piece.refuse.injEq] at h
    exact .inl (h ▸ rfl)
  · split at h
    · simp only [List.mem_singleton, Piece.refuse.injEq] at h
      exact .inr (.inl (h ▸ rfl))
    · split at h <;> exact .inr (.inr (by simpa using h))

end Layout

namespace Expansion

variable {settings : ExpansionSettings}

/-- The chain that a template stands for, if it does for one. -/
def chainOf (settings : ExpansionSettings) (template : Token) : Option Node :=
  if hasSubstitution (literalBody template.text) then none
  else
    match (chain? settings treePlace (literalBody template.text)).result with
    | .ok chain => chain
    | .error _ => none

/-- What a template is lowered to. -/
def lowered (settings : ExpansionSettings) (template : Token) : Option Node :=
  (chainOf settings template).map Node.lower

theorem bind_eq_ok {α β : Type} {a : Noted α} {f : α → Noted β} {y : β}
    (h : (a >>= f).result = .ok y) : ∃ x, a.result = .ok x ∧ (f x).result = .ok y := by
  rw [Noted.result_bind] at h
  exact Chain.bind_eq_ok h

/-- A chain that is found is generated from the text. -/
theorem chain?_ok {place raw : String} {g : Node}
    (h : (chain? settings place raw).result = .ok (some g)) :
    ∃ c, Comprehension.generate settings.toSettings raw = .ok (c, g) := by
  obtain ⟨chain, hchain, h⟩ := bind_eq_ok h
  obtain rfl : chain = some (some g) := by
    rcases chain with _ | _ | chain <;> cases h
    rfl
  unfold passingOver at hchain
  split at hchain
  · next found hfound =>
    cases hchain
    obtain ⟨c, hc, hfound⟩ := bind_eq_ok hfound
    split at hfound
    · cases hfound
    · obtain ⟨g', hg, hfound⟩ := bind_eq_ok hfound
      cases hfound
      exact ⟨c, Comprehension.generate_eq_ok.2 ⟨hc, hg⟩⟩
  · split_ifs at hchain <;> cases hchain

theorem chain?_of_chainOf {template : Token} {g : Node} (h : chainOf settings template = some g) :
    (chain? settings treePlace (literalBody template.text)).result = .ok (some g) := by
  unfold chainOf at h
  split_ifs at h
  split at h
  · next hchain => rw [hchain, h]
  · cases h

theorem isChain_of_generate {settings : Settings} {raw : String} {c : Comprehension} {g : Node}
    (h : Comprehension.generate settings raw = .ok (c, g)) : g.isChain = true := by
  obtain ⟨yield, l, ls, -, -, rfl⟩ := Comprehension.generate_ok h
  cases ls <;> rfl

theorem isChain_of_chainOf {template : Token} {g : Node} (h : chainOf settings template = some g) :
    g.isChain = true := by
  obtain ⟨c, hg⟩ := chain?_ok (chain?_of_chainOf h)
  exact isChain_of_generate hg

theorem generated_of_chainOf (hr : settings.reader = .script) {template : Token} {g : Node}
    (h : chainOf settings template = some g) : Chain.Generated g := by
  obtain ⟨c, hg⟩ := chain?_ok (chain?_of_chainOf h)
  exact Chain.generated_of_generate hr hg

/-- The chain of a template spelled with method calls. -/
def spelledChain (settings : ExpansionSettings) (cls : TokenClass) (template : Token) : Option Node :=
  (chainOf settings template).map (·.spelled (Node.methodCall cls .arrow))

theorem lowered_eq_spelledChain : lowered settings = spelledChain settings .name := by
  funext template
  rw [lowered, spelledChain]
  congr 1
  funext g
  exact Node.lower_eq_spelled g

theorem fits_spelledChain (cls : TokenClass) : Node.Fits (spelledChain settings cls) := by
  intro template y h
  obtain ⟨g, hg, rfl⟩ := Option.map_eq_some_iff.1 h
  have hchain := isChain_of_chainOf hg
  cases g <;> cases hchain
  exact ⟨rfl, rfl, rfl, fun _ => rfl, fun _ => rfl⟩

theorem tagged_ok {tag y : Node} {template : Token}
    (h : (tagged settings tag template).result = .ok y) :
    y = Node.replacedTemplate (lowered settings) tag template := by
  unfold tagged at h
  split at h
  · next t =>
    change y = if t.text = listTag then _ else _
    by_cases ht : t.text = listTag
    · rw [if_pos ht]
      by_cases hs : hasSubstitution (literalBody template.text) = true
      · rw [if_pos (by simp [hs])] at h
        cases h
        simp [lowered, chainOf, hs]
      · rw [if_neg (by simp [ht, hs])] at h
        obtain ⟨chain, hchain, h⟩ := bind_eq_ok h
        cases chain <;> cases h <;> simp [lowered, chainOf, hs, hchain]
    · rw [if_pos (by simp [ht])] at h
      cases h
      rw [if_neg ht]
  · next hne =>
    cases h
    exact (Node.replacedTemplate_of_ne _ (fun h => h.elim hne) template).symm

mutual

/-- An expanded tree has its list-tagged templates replaced by lowered chains. -/
theorem tree_ok (x : Node) {y : Node} (h : (tree settings x).result = .ok y) :
    y = x.replaced (lowered settings) := by
  cases x with
  | array xs | object xs | params xs | arrayPattern xs | objectPattern xs | other label xs =>
    obtain ⟨_, hxs, h⟩ := bind_eq_ok h
    cases h
    rw [Node.replaced, trees_ok xs hxs]
  | spread x | patternRest x | unary op x | prefixUpdate op x | postfixUpdate x op | property key x
  | propertyPattern key x | member optional x name =>
    obtain ⟨_, hx, h⟩ := bind_eq_ok h
    cases h
    rw [Node.replaced, tree_ok x hx]
  | logical op x z | binary group op x z | power x z | index optional x z | patternDefault x z =>
    obtain ⟨_, hx, h⟩ := bind_eq_ok h
    obtain ⟨_, hz, h⟩ := bind_eq_ok h
    cases h
    rw [Node.replaced, tree_ok x hx, tree_ok z hz]
  | arrow xs z | function xs z =>
    obtain ⟨_, hxs, h⟩ := bind_eq_ok h
    obtain ⟨_, hz, h⟩ := bind_eq_ok h
    cases h
    rw [Node.replaced, trees_ok xs hxs, tree_ok z hz]
  | call optional x xs | construct x xs =>
    obtain ⟨_, hx, h⟩ := bind_eq_ok h
    obtain ⟨_, hxs, h⟩ := bind_eq_ok h
    cases h
    rw [Node.replaced, tree_ok x hx, trees_ok xs hxs]
  | ternary x z w =>
    obtain ⟨_, hx, h⟩ := bind_eq_ok h
    obtain ⟨_, hz, h⟩ := bind_eq_ok h
    obtain ⟨_, hw, h⟩ := bind_eq_ok h
    cases h
    rw [Node.replaced, tree_ok x hx, tree_ok z hz, tree_ok w hw]
  | tagged x template =>
    obtain ⟨tag, hx, h⟩ := bind_eq_ok h
    rw [Node.replaced, ← tree_ok x hx, tagged_ok h]
  | _ =>
    cases h
    rfl

theorem trees_ok (xs : List Node) {ys : List Node} (h : (trees settings xs).result = .ok ys) :
    ys = Node.allReplaced (lowered settings) xs := by
  cases xs with
  | nil =>
    cases h
    rfl
  | cons x xs =>
    obtain ⟨_, hx, h⟩ := bind_eq_ok h
    obtain ⟨_, hxs, h⟩ := bind_eq_ok h
    cases h
    rw [Node.allReplaced, tree_ok x hx, trees_ok xs hxs]

end

end Expansion

end Comprehend
