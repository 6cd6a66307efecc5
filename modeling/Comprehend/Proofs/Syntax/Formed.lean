import Comprehend.Proofs.Syntax.Operators
import Comprehend.Syntax.Operand

/-! # Trees that are read from text

What the readers give is a tree that the grammar has: every token is one of its class, every
operator one of its group, and parts stand only in the lists they belong to. -/

namespace Comprehend.Parser

open Comprehend.Text Comprehend.Lexeme

/-- What a tree is in its grammar. -/
inductive Phrase
  | expression
  | element
  | member
  | pattern
  | target
  | item

/-- A tree of the grammar. -/
inductive Formed : Phrase → Node → Prop
  | name {w : List Char} (h : IsName w) : Formed .expression (.leaf .name (token .name w))
  | number {t : List Char} (h : number t = some (t, [])) :
    Formed .expression (.leaf .number (token .number t))
  | string {t : List Char} (h : string t = some (t, [])) :
    Formed .expression (.leaf .string (token .string t))
  | template {t : List Char} (h : template t = some (t, [])) :
    Formed .expression (.leaf .template (token .template t))
  | regex {t : List Char} (h : regex t = some (t, [])) :
    Formed .expression (.leaf .regex (token .regex t))
  | constant (value : Constant) : Formed .expression (.constant value)
  | array {xs : List Node} (h : ∀ x ∈ xs, Formed .element x) : Formed .expression (.array xs)
  | object {xs : List Node} (h : ∀ x ∈ xs, Formed .member x) : Formed .expression (.object xs)
  | arrow {ps : List Node} {x : Node} (hp : ∀ p ∈ ps, Formed .pattern p)
    (hx : Formed .expression x) : Formed .expression (.arrow ps x)
  | function {ps : List Node} {x : Node} (hp : ∀ p ∈ ps, Formed .pattern p)
    (hx : Formed .expression x) : Formed .expression (.function ps x)
  | ternary {x y z : Node} (hx : Formed .expression x) (hy : Formed .expression y)
    (hz : Formed .expression z) : Formed .expression (.ternary x y z)
  | logical (op : LogicalOp) {x y : Node} (hx : Formed .expression x) (hy : Formed .expression y) :
    Formed .expression (.logical op x y)
  | binary {group : OperatorGroup} {op : String} {x y : Node} (hop : op ∈ spellings group)
    (hx : Formed .expression x) (hy : Formed .expression y) :
    Formed .expression (.binary group op x y)
  | power {x y : Node} (hx : Formed .expression x) (hy : Formed .expression y) :
    Formed .expression (.power x y)
  | sign {c : Char} {x : Node} (hc : c ∈ ['-', '+', '!', '~']) (hx : Formed .expression x) :
    Formed .expression (.unary (token .unaryOp [c]) x)
  | signWord {op : String} {x : Node} (hop : op ∈ ["typeof", "void", "delete"])
    (hx : Formed .expression x) : Formed .expression (.unary ⟨.unaryKeyword, op⟩ x)
  | prefixUpdate {op : String} {x : Node} (hop : op = "++" ∨ op = "--")
    (hx : Formed .expression x) : Formed .expression (.prefixUpdate ⟨.updateOp, op⟩ x)
  | postfixUpdate {op : String} {x : Node} (hop : op = "++" ∨ op = "--")
    (hx : Formed .expression x) : Formed .expression (.postfixUpdate x ⟨.updateOp, op⟩)
  | link (optional : Bool) {x : Node} {w : List Char} (hx : Formed .expression x)
    (hw : word w = some (w, [])) :
    Formed .expression (.member optional x (token .propertyName w))
  | index (optional : Bool) {x y : Node} (hx : Formed .expression x) (hy : Formed .expression y) :
    Formed .expression (.index optional x y)
  | call (optional : Bool) {x : Node} {xs : List Node} (hx : Formed .expression x)
    (h : ∀ x ∈ xs, Formed .element x) : Formed .expression (.call optional x xs)
  | construct {x : Node} {xs : List Node} (hx : Formed .expression x)
    (h : ∀ x ∈ xs, Formed .element x) : Formed .expression (.construct x xs)
  | tagged {x : Node} {t : List Char} (hx : Formed .expression x)
    (ht : Lexeme.template t = some (t, [])) : Formed .expression (.tagged x (token .template t))
  | element {x : Node} (hx : Formed .expression x) : Formed .element x
  | spreadElement {x : Node} (hx : Formed .expression x) : Formed .element (.spread x)
  | spreadMember {x : Node} (hx : Formed .expression x) : Formed .member (.spread x)
  | property {cls : TokenClass} {k : List Char} {x : Node} (hk : IsKey cls k)
    (hx : Formed .expression x) : Formed .member (.property (token cls k) x)
  | shorthand {w : List Char} (h : IsName w) : Formed .member (.shorthand (token .name w))
  | pattern {p : Node} (hp : Formed .target p) : Formed .pattern p
  | default {p x : Node} (hp : Formed .target p) (hx : Formed .expression x) :
    Formed .pattern (.patternDefault p x)
  | rest {p : Node} (hp : Formed .target p) : Formed .pattern (.patternRest p)
  | bindingName {w : List Char} (h : IsName w) : Formed .target (.bindingName (token .name w))
  | arrayPattern {ps : List Node} (h : ∀ p ∈ ps, Formed .pattern p) :
    Formed .target (.arrayPattern ps)
  | objectPattern {ps : List Node} (h : ∀ p ∈ ps, Formed .item p) :
    Formed .target (.objectPattern ps)
  | propertyItem {w : List Char} {p : Node} (hw : word w = some (w, [])) (hp : Formed .pattern p) :
    Formed .item (.propertyPattern (token .propertyName w) p)
  | nameItem {w : List Char} (h : IsName w) : Formed .item (.bindingName (token .name w))
  | defaultItem {w : List Char} {x : Node} (h : IsName w) (hx : Formed .expression x) :
    Formed .item (.patternDefault (.bindingName (token .name w)) x)
  | restItem {w : List Char} (h : IsName w) :
    Formed .item (.patternRest (.bindingName (token .name w)))

/-! ## What all outcomes are -/

/-- A property of every outcome. -/
def Outcomes.All (os : Outcomes α) (P : α → Prop) : Prop := ∀ o ∈ os, P o.1

namespace Outcomes.All

variable {os : Outcomes α} {P : α → Prop} {Q : β → Prop}

theorem nil : Outcomes.All ([] : Outcomes α) P := fun _ h => absurd h List.not_mem_nil

theorem one {x : α} (r : List Char) (h : P x) : (Parser.one x r).All P := fun o ho => by
  obtain rfl := List.mem_singleton.1 ho
  exact h

theorem giving {f : α → β} (h : os.All P) (hf : ∀ x, P x → Q (f x)) : (os.giving f).All Q := by
  intro o ho
  obtain ⟨x, hx, hfx⟩ := mem_giving.1 ho
  exact hfx ▸ hf x (h _ hx)

theorem andThen {f : α → List Char → Outcomes β} (h : os.All P) (hf : ∀ x r, P x → (f x r).All Q) :
    (os.andThen f).All Q := by
  intro o ho
  obtain ⟨x, r, hx, hr⟩ := mem_andThen.1 ho
  exact hf x r (h _ hx) o hr

theorem closedBy (spelling : String) (h : os.All P) : (os.closedBy spelling).All P := by
  intro o ho
  obtain ⟨r, hr, -⟩ := mem_closedBy.1 ho
  exact h (o.1, r) hr

variable {item : List Char → Outcomes α}

theorem items (h : ∀ cs, (item cs).All P) (more : Nat) (cs : List Char) :
    (items item more cs).All fun xs => ∀ x ∈ xs, P x := by
  induction more generalizing cs with
  | zero => exact .nil
  | succ more ih =>
    refine (h cs).andThen fun x r hx => ?_
    have hone : ∀ y ∈ [x], P y := by simpa using hx
    split
    · exact .one r hone
    · split
      · exact .one r hone
      · exact (ih _).giving fun xs hxs => List.forall_mem_cons.2 ⟨hx, hxs⟩

theorem itemsTo (close : String) (h : ∀ cs, (item cs).All P) (cs : List Char) :
    (itemsTo close item cs).All fun xs => ∀ x ∈ xs, P x := by
  rw [Parser.itemsTo]
  split
  · exact .one _ (by simp)
  · exact (items h _ cs).closedBy close

theorem itemsToSpare (close : String) (h : ∀ cs, (item cs).All P) (cs : List Char) :
    (itemsToSpare close item cs).All fun xs => ∀ x ∈ xs, P x := by
  rw [Parser.itemsToSpare]
  split
  · exact .one _ (by simp)
  · split
    · exact .one _ (by simp)
    · refine (items h _ cs).andThen fun xs r hxs => ?_
      split
      · exact .one _ hxs
      · exact .nil

end Outcomes.All

/-! ## Tokens and operators -/

theorem mem_of_anyOf {spellings : List String} {cs r : List Char} {s : String}
    (h : anyOf spellings cs = some (s, r)) : s ∈ spellings := by
  obtain ⟨t, ht, hs⟩ := List.exists_of_findSome?_eq_some h
  obtain ⟨u, -, hu⟩ := Option.map_eq_some_iff.1 hs
  cases hu
  exact ht

theorem binaryAt_eq_some {group : OperatorGroup} {cs r : List Char} {joint : Joint}
    (h : binaryAt group cs = some (joint, r)) :
    ∃ op ∈ spellings group, joint = .binary group op := by
  obtain ⟨⟨op, r'⟩, hop, h⟩ := Option.map_eq_some_iff.1 h
  cases h
  refine ⟨op, ?_, rfl⟩
  cases group with
  | bitOr => exact mem_of_anyOf (Option.filter_eq_some_iff.1 hop).1
  | bitAnd => exact mem_of_anyOf (Option.filter_eq_some_iff.1 hop).1
  | relational =>
    rcases Option.or_eq_some_iff.1 hop with hop | ⟨-, hop⟩
    · obtain ⟨t, ht, hs⟩ := List.exists_of_findSome?_eq_some hop
      obtain ⟨u, -, hu⟩ := Option.map_eq_some_iff.1 hs
      cases hu
      simp only [List.mem_cons, List.not_mem_nil, or_false] at ht
      rcases ht with rfl | rfl <;> decide
    · have := mem_of_anyOf hop
      simp only [List.mem_cons, List.not_mem_nil, or_false] at this
      rcases this with rfl | rfl | rfl | rfl <;> decide
  | _ => exact mem_of_anyOf hop

theorem formed_of_jointAt {level : Nat} {cs r : List Char} {joint : Joint}
    (h : jointAt level cs = some (joint, r)) {x y : Node} (hx : Formed .expression x)
    (hy : Formed .expression y) : Formed .expression (joint.build x y) := by
  have hlogical {op : LogicalOp} {s : String} {cs : List Char}
      (h : logicalAt op s cs = some (joint, r)) : Formed .expression (joint.build x y) := by
    obtain ⟨u, -, hu⟩ := Option.map_eq_some_iff.1 h
    cases hu
    exact .logical op hx hy
  have hbinary {group : OperatorGroup} {cs : List Char} (h : binaryAt group cs = some (joint, r)) :
      Formed .expression (joint.build x y) := by
    obtain ⟨op, hop, rfl⟩ := binaryAt_eq_some h
    exact .binary hop hx hy
  unfold jointAt at h
  split at h
  · exact hlogical h
  · exact hlogical h
  · exact hlogical h
  · exact hbinary h
  · exact hbinary h
  · exact hbinary h
  · exact hbinary h
  · exact hbinary h
  · exact hbinary h
  · exact hbinary h
  · exact hbinary h
  · cases h

theorem formed_of_unaryAt {cs r : List Char} {op : Token} (h : unaryAt cs = some (op, r)) {x : Node}
    (hx : Formed .expression x) : Formed .expression (.unary op x) := by
  unfold unaryAt at h
  split at h
  · split at h
    · cases h
    · cases h
      exact .sign (c := '-') (by decide) hx
  · split at h
    · cases h
    · cases h
      exact .sign (c := '+') (by decide) hx
  · cases h
    exact .sign (c := '!') (by decide) hx
  · cases h
    exact .sign (c := '~') (by decide) hx
  · obtain ⟨s, hs, h⟩ := List.exists_of_findSome?_eq_some h
    obtain ⟨u, -, hu⟩ := Option.map_eq_some_iff.1 h
    cases hu
    exact .signWord hs hx

theorem updateAt_eq_some {cs r : List Char} {op : Token} (h : updateAt cs = some (op, r)) :
    ∃ s, (s = "++" ∨ s = "--") ∧ op = ⟨.updateOp, s⟩ := by
  obtain ⟨⟨s, u⟩, hs, h⟩ := Option.map_eq_some_iff.1 h
  cases h
  have := mem_of_anyOf hs
  simp only [List.mem_cons, List.not_mem_nil, or_false] at this
  exact ⟨s, this, rfl⟩

theorem isName_of_plainName {cs w r : List Char} (h : plainName cs = some (w, r)) : IsName w := by
  obtain ⟨hw, hres⟩ := plainName_eq_some h
  exact ⟨word_self hw, hres⟩

theorem formed_of_wordOutcomes {cs w r : List Char} (h : word cs = some (w, r)) :
    (wordOutcomes w r).All (Formed .expression) := by
  unfold wordOutcomes
  split
  · exact .one _ (.constant _)
  · split
    · exact .nil
    · next hres =>
      intro o ho
      rcases List.mem_cons.1 ho with rfl | ho
      · exact .name ⟨word_self h, by simpa using hres⟩
      · obtain ⟨c, -, hc⟩ := List.mem_filterMap.1 ho
        obtain ⟨w', -, hw'⟩ := Option.bind_eq_some_iff.1 hc
        split at hw'
        · cases hw'
          exact .constant _
        · cases hw'

theorem string_self {cs t r : List Char} (h : string cs = some (t, r)) : string t = some (t, []) := by
  simpa using string_append h []

theorem template_self {cs t r : List Char} (h : template cs = some (t, r)) :
    template t = some (t, []) := by
  simpa using template_append h []

theorem regex_self {cs t r : List Char} (h : regex cs = some (t, r)) : regex t = some (t, []) := by
  simpa using regex_append h free_nil

theorem number_self {cs t r : List Char} (h : number cs = some (t, r)) : number t = some (t, []) := by
  have hself : number (t ++ []) = some (t, []) := number_append h rfl nofun
  rwa [List.append_nil] at hself

theorem Outcomes.All.leaf {kind : LeafKind} {cls : TokenClass} {scan : Scan} {P : Node → Prop}
    (h : ∀ t r, scan = some (t, r) → P (.leaf kind (token cls t))) :
    (leafOutcomes kind cls scan).All P := by
  unfold leafOutcomes
  split
  · exact .one _ (h _ _ rfl)
  · exact .nil

/-! ## The readers -/

/-- What the readers give from some fuel. -/
structure GivesFormed (fuel : Nat) : Prop where
  expression : ∀ cs, (expression fuel cs).All (Formed .expression)
  arrowHead : ∀ cs, (arrowHead fuel cs).All fun ps => ∀ p ∈ ps, Formed .pattern p
  ternary : ∀ cs, (ternary fuel cs).All (Formed .expression)
  joined : ∀ level cs, (joined fuel level cs).All (Formed .expression)
  joinedTail : ∀ level x cs, Formed .expression x →
    (joinedTail fuel level x cs).All (Formed .expression)
  power : ∀ cs, (power fuel cs).All (Formed .expression)
  unary : ∀ cs, (unary fuel cs).All (Formed .expression)
  update : ∀ cs, (update fuel cs).All (Formed .expression)
  operand : ∀ cs, (operand fuel cs).All (Formed .expression)
  construction : ∀ cs, (construction fuel cs).All fun x => Formed .expression x.1
  memberLinks : ∀ x cs, Formed .expression x → (memberLinks fuel x cs).All (Formed .expression)
  links : ∀ x cs, Formed .expression x → (links fuel x cs).All (Formed .expression)
  optionalLink : ∀ x cs, Formed .expression x → (optionalLink fuel x cs).All (Formed .expression)
  element : ∀ cs, (element fuel cs).All (Formed .element)
  objectMember : ∀ cs, (objectMember fuel cs).All (Formed .member)
  primary : ∀ cs, (primary fuel cs).All (Formed .expression)
  functionRest : ∀ cs, (functionRest fuel cs).All (Formed .expression)
  patternElement : ∀ cs, (patternElement fuel cs).All (Formed .pattern)
  bindingTarget : ∀ cs, (bindingTarget fuel cs).All (Formed .target)
  objectPatternItem : ∀ cs, (objectPatternItem fuel cs).All (Formed .item)
  defaulted : ∀ phrase x cs, Formed phrase x →
    (∀ v, Formed .expression v → Formed phrase (.patternDefault x v)) →
      (defaulted fuel x cs).All (Formed phrase)

namespace GivesFormed

variable {fuel : Nat} (ih : GivesFormed fuel)
include ih

/-- The arguments of a call. -/
theorem arguments (cs : List Char) :
    (itemsTo ")" (Parser.element fuel) cs).All fun xs => ∀ x ∈ xs, Formed .element x :=
  .itemsTo ")" ih.element cs

theorem expression_succ (cs : List Char) :
    (Parser.expression (fuel + 1) cs).All (Formed .expression) := by
  rw [Parser.expression]
  split
  · exact ih.ternary cs
  · exact (ih.arrowHead cs).andThen fun ps r hps =>
      (ih.expression r).giving fun x hx => .arrow hps hx

theorem arrowHead_succ (cs : List Char) :
    (Parser.arrowHead (fuel + 1) cs).All fun ps => ∀ p ∈ ps, Formed .pattern p := by
  rw [Parser.arrowHead]
  split
  · exact (Outcomes.All.itemsTo ")" ih.patternElement _).closedBy "=>"
  · split
    · next w r hw =>
      refine Outcomes.All.closedBy "=>" (.one r ?_)
      simpa using Formed.pattern (.bindingName (isName_of_plainName hw))
    · exact .nil

theorem ternary_succ (cs : List Char) :
    (Parser.ternary (fuel + 1) cs).All (Formed .expression) := by
  rw [Parser.ternary]
  refine (ih.joined 0 cs).andThen fun x r hx => ?_
  split
  · exact .one r hx
  · exact ((ih.expression _).closedBy ":").andThen fun y r hy =>
      (ih.expression r).giving fun z hz => .ternary hx hy hz

theorem joined_succ (level : Nat) (cs : List Char) :
    (Parser.joined (fuel + 1) level cs).All (Formed .expression) := by
  rw [Parser.joined]
  split
  · exact (ih.joined _ cs).andThen fun x r hx => ih.joinedTail level x r hx
  · exact ih.power cs

theorem joinedTail_succ (level : Nat) {x : Node} (cs : List Char) (hx : Formed .expression x) :
    (Parser.joinedTail (fuel + 1) level x cs).All (Formed .expression) := by
  rw [Parser.joinedTail]
  split
  · exact .one cs hx
  · next joint r hj =>
    exact (ih.joined _ r).andThen fun y r hy =>
      ih.joinedTail level _ r (formed_of_jointAt hj hx hy)

theorem power_succ (cs : List Char) :
    (Parser.power (fuel + 1) cs).All (Formed .expression) := by
  rw [Parser.power]
  split
  · exact ih.unary cs
  · refine (ih.update cs).andThen fun x r hx => ?_
    split
    · exact .one r hx
    · exact (ih.power _).giving fun y hy => .power hx hy

theorem unary_succ (cs : List Char) :
    (Parser.unary (fuel + 1) cs).All (Formed .expression) := by
  rw [Parser.unary]
  split
  · next op r hop => exact (ih.unary r).giving fun x hx => formed_of_unaryAt hop hx
  · exact ih.update cs

theorem update_succ (cs : List Char) :
    (Parser.update (fuel + 1) cs).All (Formed .expression) := by
  rw [Parser.update]
  split
  · next op r hop =>
    obtain ⟨s, hs, rfl⟩ := updateAt_eq_some hop
    exact (ih.unary r).giving fun x hx => .prefixUpdate hs hx
  · refine (ih.operand cs).andThen fun x r hx => ?_
    split
    · next op r' hop =>
      obtain ⟨s, hs, rfl⟩ := updateAt_eq_some hop
      intro o ho
      simp only [List.mem_cons, List.not_mem_nil, or_false] at ho
      rcases ho with rfl | rfl
      · exact .postfixUpdate hs hx
      · exact hx
    · exact .one r hx

theorem operand_succ (cs : List Char) :
    (Parser.operand (fuel + 1) cs).All (Formed .expression) := by
  rw [Parser.operand]
  split
  · refine (ih.construction _).andThen fun x r hx => ?_
    split
    · exact ih.links x.1 r hx
    · exact .one r hx
  · exact (ih.primary cs).andThen fun x r hx => ih.links x r hx

theorem construction_succ (cs : List Char) :
    (Parser.construction (fuel + 1) cs).All fun x => Formed .expression x.1 := by
  rw [Parser.construction_succ]
  have hheads : (heads fuel cs).All fun x => Formed .expression x.1 := by
    rw [heads]
    split
    · exact ih.construction _
    · exact (ih.primary cs).giving fun x hx => hx
  refine hheads.andThen fun x r hx => ?_
  split
  · refine (ih.memberLinks x.1 r hx).andThen fun callee r hcallee => ?_
    split
    · exact (ih.arguments _).giving fun xs hxs => .construct hcallee hxs
    · exact .one r (.construct hcallee (by simp))
  · exact .one r (.construct hx (by simp))

theorem memberLinks_succ {x : Node} (cs : List Char) (hx : Formed .expression x) :
    (Parser.memberLinks (fuel + 1) x cs).All (Formed .expression) := by
  rw [Parser.memberLinks]
  split
  · next w r hw =>
    obtain ⟨u, -, hw⟩ := Option.bind_eq_some_iff.1 hw
    exact ih.memberLinks _ r (.link false hx (word_self hw))
  · split
    · exact ((ih.expression _).closedBy "]").andThen fun y r hy =>
        ih.memberLinks _ r (.index false hx hy)
    · split
      · next t r ht => exact ih.memberLinks _ r (.tagged hx (template_self ht))
      · exact .one cs hx

theorem links_succ {x : Node} (cs : List Char) (hx : Formed .expression x) :
    (Parser.links (fuel + 1) x cs).All (Formed .expression) := by
  rw [Parser.links]
  split
  · next w r hw =>
    obtain ⟨u, -, hw⟩ := Option.bind_eq_some_iff.1 hw
    exact ih.links _ r (.link false hx (word_self hw))
  · split
    · exact ((ih.expression _).closedBy "]").andThen fun y r hy =>
        ih.links _ r (.index false hx hy)
    · split
      · exact (ih.arguments _).andThen fun xs r hxs => ih.links _ r (.call false hx hxs)
      · split
        · next t r ht => exact ih.links _ r (.tagged hx (template_self ht))
        · split
          · exact ih.optionalLink x _ hx
          · exact .one cs hx

theorem optionalLink_succ {x : Node} (cs : List Char) (hx : Formed .expression x) :
    (Parser.optionalLink (fuel + 1) x cs).All (Formed .expression) := by
  rw [Parser.optionalLink]
  split
  · exact ((ih.expression _).closedBy "]").andThen fun y r hy => ih.links _ r (.index true hx hy)
  · split
    · exact (ih.arguments _).andThen fun xs r hxs => ih.links _ r (.call true hx hxs)
    · split
      · next w r hw => exact ih.links _ r (.link true hx (word_self hw))
      · exact .nil

theorem element_succ (cs : List Char) :
    (Parser.element (fuel + 1) cs).All (Formed .element) := by
  rw [Parser.element]
  split
  · exact (ih.expression _).giving fun x hx => .spreadElement hx
  · exact fun o ho => .element (ih.expression cs o ho)

theorem objectMember_succ (cs : List Char) :
    (Parser.objectMember (fuel + 1) cs).All (Formed .member) := by
  rw [Parser.objectMember]
  split
  · exact (ih.expression _).giving fun x hx => .spreadMember hx
  · split
    · next t r ht =>
      split
      · exact (ih.expression _).giving fun x hx => .property (.string (string_self ht)) hx
      · exact .nil
    · split
      · next w r hw =>
        split
        · exact (ih.expression _).giving fun x hx => .property (.word (word_self hw)) hx
        · split
          · exact .nil
          · next hres => exact .one r (.shorthand ⟨word_self hw, by simpa using hres⟩)
      · exact .nil

theorem primary_succ (cs : List Char) :
    (Parser.primary (fuel + 1) cs).All (Formed .expression) := by
  rw [Parser.primary]
  split
  · exact .nil
  · exact (ih.expression _).closedBy ")"
  · exact (Outcomes.All.itemsToSpare "]" ih.element _).giving fun xs hxs => .array hxs
  · exact (Outcomes.All.itemsToSpare "\x7d" ih.objectMember _).giving fun xs hxs => .object hxs
  · exact .leaf fun t r ht => .regex (regex_self ht)
  · exact .leaf fun t r ht => .template (template_self ht)
  · exact .leaf fun t r ht => .string (string_self ht)
  · exact .leaf fun t r ht => .string (string_self ht)
  · split
    · next w r hw =>
      split
      · exact ih.functionRest r
      · exact formed_of_wordOutcomes hw
    · exact .leaf fun t r ht => .number (number_self ht)

theorem functionRest_succ (cs : List Char) :
    (Parser.functionRest (fuel + 1) cs).All (Formed .expression) := by
  rw [Parser.functionRest]
  split
  · exact .nil
  · refine (Outcomes.All.itemsTo ")" ih.patternElement _).andThen fun ps r hps => ?_
    split
    · exact .nil
    · refine (ih.expression _).andThen fun x r hx => ?_
      split
      · exact .one _ (.function hps hx)
      · exact .nil

theorem patternElement_succ (cs : List Char) :
    (Parser.patternElement (fuel + 1) cs).All (Formed .pattern) := by
  rw [Parser.patternElement]
  split
  · exact (ih.bindingTarget _).giving fun p hp => .rest hp
  · exact (ih.bindingTarget cs).andThen fun p r hp =>
      ih.defaulted .pattern p r (.pattern hp) fun v hv => .default hp hv

theorem bindingTarget_succ (cs : List Char) :
    (Parser.bindingTarget (fuel + 1) cs).All (Formed .target) := by
  rw [Parser.bindingTarget]
  split
  · exact (Outcomes.All.itemsTo "]" ih.patternElement _).giving fun ps hps => .arrayPattern hps
  · split
    · exact (Outcomes.All.itemsTo "\x7d" ih.objectPatternItem _).giving fun ps hps =>
        .objectPattern hps
    · split
      · next w r hw => exact .one r (.bindingName (isName_of_plainName hw))
      · exact .nil

theorem objectPatternItem_succ (cs : List Char) :
    (Parser.objectPatternItem (fuel + 1) cs).All (Formed .item) := by
  rw [Parser.objectPatternItem]
  split
  · split
    · next w r hw => exact .one r (.restItem (isName_of_plainName hw))
    · exact .nil
  · split
    · exact .nil
    · next w r hw =>
      split
      · exact (ih.patternElement _).giving fun p hp => .propertyItem (word_self hw) hp
      · split
        · exact .nil
        · next hres =>
          have hname : IsName w := ⟨word_self hw, by simpa using hres⟩
          exact ih.defaulted .item _ r (.nameItem hname) fun v hv => .defaultItem hname hv

theorem defaulted_succ {phrase : Phrase} {x : Node} (cs : List Char) (hx : Formed phrase x)
    (hv : ∀ v, Formed .expression v → Formed phrase (.patternDefault x v)) :
    (Parser.defaulted (fuel + 1) x cs).All (Formed phrase) := by
  rw [Parser.defaulted]
  split
  · exact (ih.ternary _).giving fun v hv' => hv v hv'
  · exact .one cs hx

end GivesFormed

theorem givesFormed (fuel : Nat) : GivesFormed fuel := by
  induction fuel with
  | zero => constructor <;> intros <;> exact .nil
  | succ fuel ih =>
    exact
      { expression := ih.expression_succ
        arrowHead := ih.arrowHead_succ
        ternary := ih.ternary_succ
        joined := ih.joined_succ
        joinedTail := fun level _ => ih.joinedTail_succ level
        power := ih.power_succ
        unary := ih.unary_succ
        update := ih.update_succ
        operand := ih.operand_succ
        construction := ih.construction_succ
        memberLinks := fun _ => ih.memberLinks_succ
        links := fun _ => ih.links_succ
        optionalLink := fun _ => ih.optionalLink_succ
        element := ih.element_succ
        objectMember := ih.objectMember_succ
        primary := ih.primary_succ
        functionRest := ih.functionRest_succ
        patternElement := ih.patternElement_succ
        bindingTarget := ih.bindingTarget_succ
        objectPatternItem := ih.objectPatternItem_succ
        defaulted := fun _ _ => ih.defaulted_succ }

theorem Outcomes.All.whole {os : Outcomes Node} {P : Node → Prop} {x : Node} (h : os.All P)
    (hx : whole? os = some x) : P x := by
  obtain ⟨o, ho, rfl⟩ := Option.map_eq_some_iff.1 hx
  exact h o (List.mem_of_find?_eq_some ho)

theorem formed_of_parseExpression {text : String} {x : Node} (h : parseExpression text = .ok x) :
    Formed .expression x := by
  unfold parseExpression at h
  split at h
  · cases h
  · split at h
    · next hx =>
      cases h
      exact ((givesFormed _).expression _).whole hx
    · cases h

theorem formed_of_parsePattern {text : String} {x : Node} (h : parsePattern text = .ok x) :
    Formed .pattern x := by
  unfold parsePattern at h
  split at h
  · cases h
  · split at h
    · next hx =>
      cases h
      exact ((givesFormed _).patternElement _).whole hx
    · cases h

end Comprehend.Parser
