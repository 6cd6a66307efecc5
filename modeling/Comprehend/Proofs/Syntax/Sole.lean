import Comprehend.Proofs.Syntax.Readers

/-! # Texts that are read in one way

A reader gives more than one outcome in two places: two equal signs behind an operand are an update
or two operators, and a constant may be glued to the operator word behind it. In a text that has
neither, every reader gives one outcome at most. -/

namespace Comprehend.Parser

open Comprehend.Text Comprehend.Lexeme

/-- What can be cut in two ways: two plus or minus signs, and a constant in front of an operator
word. Both of these words start alike. -/
def twoWays : List String := ["++", "--", "truein", "falsein", "nullin", "undefinedin"]

/-- Nothing in a text can be cut in two ways. -/
def OneWay (cs : List Char) : Prop := ∀ s ∈ twoWays, ¬ s.toList <:+: cs

instance (cs : List Char) : Decidable (OneWay cs) :=
  inferInstanceAs (Decidable (∀ s ∈ twoWays, ¬ s.toList <:+: cs))

/-- One outcome at most, which leaves a rest of a text. -/
def Outcomes.Sole (os : Outcomes α) (cs : List Char) : Prop :=
  os.length ≤ 1 ∧ os.Stay (· <:+ cs)

section

variable {cs r u : List Char}

theorem suffix_of_mark {s : String} (hr : r <:+ cs) (h : mark s r = some u) : u <:+ cs := by
  have hskip : s.toList ++ u <:+ r := append_of_after h ▸ List.dropWhile_suffix _
  exact ((List.suffix_append s.toList u).trans hskip).trans hr

theorem suffix_of_keyword {s : String} (hr : r <:+ cs) (h : keyword s (skipBlanks r) = some u) :
    u <:+ cs := suffix_of_mark hr (Option.filter_eq_some_iff.1 h).1

theorem suffix_of_spare {s : String} (hr : r <:+ cs) : (mark s r).getD r <:+ cs := by
  cases h : mark s r with
  | none => exact hr
  | some u => exact suffix_of_mark hr h

theorem suffix_of_word {w : List Char} (hr : r <:+ cs) (h : word (skipBlanks r) = some (w, u)) :
    u <:+ cs := (takes_word h).cut.suffix.trans hr

namespace Outcomes.Sole

variable {os : Outcomes α}

theorem nil : Outcomes.Sole ([] : Outcomes α) cs := ⟨Nat.zero_le 1, .nil⟩

theorem one (x : α) (hr : r <:+ cs) : (Parser.one x r).Sole cs :=
  ⟨Nat.le_refl 1, .one x hr⟩

theorem giving (h : os.Sole cs) (f : α → β) : (os.giving f).Sole cs :=
  ⟨(List.length_map _).trans_le h.1, h.2.giving f⟩

theorem andThen {f : α → List Char → Outcomes β} (h : os.Sole cs)
    (hf : ∀ x r, r <:+ cs → (f x r).Sole cs) : (os.andThen f).Sole cs := by
  obtain ⟨hlength, hleaves⟩ := h
  match os with
  | [] => exact .nil
  | [(x, r)] =>
    change (Outcomes.andThen (Parser.one x r) f).Sole cs
    rw [andThen_one]
    exact hf x r (hleaves (x, r) List.mem_cons_self)
  | _ :: _ :: _ => simp at hlength

theorem closedBy (h : os.Sole cs) (s : String) : (os.closedBy s).Sole cs :=
  h.andThen fun x r hr => by
    split
    · next u hu => exact .one x (suffix_of_mark hr hu)
    · exact .nil

theorem leaf {kind : LeafKind} {cls : TokenClass} {scan : Scan}
    (h : ∀ t u, scan = some (t, u) → u <:+ cs) : (leafOutcomes kind cls scan).Sole cs := by
  unfold leafOutcomes
  split
  · exact .one _ (h _ _ rfl)
  · exact .nil

variable {item : List Char → Outcomes α} (hitem : ∀ r, r <:+ cs → (item r).Sole cs)
include hitem

theorem items (more : Nat) (hr : r <:+ cs) : (items item more r).Sole cs := by
  induction more generalizing r with
  | zero => exact .nil
  | succ more ih =>
    refine (hitem r hr).andThen fun x u hu => ?_
    split
    · exact .one _ hu
    · next v hcomma =>
      split
      · exact .one _ hu
      · exact (ih (suffix_of_mark hu hcomma)).giving _

theorem itemsTo (close : String) (hr : r <:+ cs) :
    (itemsTo close item r).Sole cs := by
  rw [Parser.itemsTo]
  split
  · next u hclose => exact .one _ (suffix_of_mark hr hclose)
  · exact (items hitem _ hr).closedBy close

theorem itemsToSpare (close : String) (hr : r <:+ cs) :
    (itemsToSpare close item r).Sole cs := by
  rw [Parser.itemsToSpare]
  split
  · next u hclose => exact .one _ (suffix_of_mark hr hclose)
  · split
    · next u hspare =>
      obtain ⟨v, hcomma, hclose⟩ := Option.bind_eq_some_iff.1 hspare
      exact .one _ (suffix_of_mark (suffix_of_mark hr hcomma) hclose)
    · refine (items hitem _ hr).andThen fun xs u hu => ?_
      split
      · next v hclose =>
        exact .one _ (suffix_of_mark (suffix_of_spare hu) hclose)
      · exact .nil

end Outcomes.Sole

/-! ## Where there is no second way -/

variable (hcs : OneWay cs)
include hcs

/-- What starts behind a part of the text. -/
theorem OneWay.not_prefix {s : String} (hs : s ∈ twoWays) (hr : r <:+ cs) :
    ¬ s.toList <+: skipBlanks r := fun h =>
  hcs s hs (h.isInfix.trans ((List.dropWhile_suffix _).trans hr).isInfix)

theorem OneWay.updateAt_eq_none (hr : r <:+ cs) : updateAt r = none := by
  refine Option.map_eq_none_iff.2 (List.findSome?_eq_none_iff.2 fun s hs => ?_)
  have hsigns : ∀ s ∈ ["++", "--"], s ∈ twoWays := by decide
  cases hafter : after s (skipBlanks r) with
  | none => rfl
  | some u =>
    exact absurd (append_of_after hafter ▸ List.prefix_append s.toList u)
      (hcs.not_prefix (hsigns s hs) hr)

theorem OneWay.wordOutcomes {w : List Char} (hr : r <:+ cs)
    (h : word (skipBlanks r) = some (w, u)) : (wordOutcomes w u).Sole cs := by
  have hu := suffix_of_word hr h
  unfold Parser.wordOutcomes
  split
  · exact .one _ hu
  · split
    · exact .nil
    · have hglued : ∀ c ∈ constants, (after c.1 w).bind (fun w' =>
          if w' == "in".toList || w' == "instanceof".toList then
            some (Node.constant c.2, w' ++ u)
          else none) = none := by
        intro c hc
        cases hafter : after c.1 w with
        | none => rfl
        | some w' =>
          rw [Option.bind_some]
          refine if_neg fun hw' => ?_
          have hstart : ∀ c ∈ constants, ∀ w' ∈ ["in".toList, "instanceof".toList],
              ∃ s ∈ twoWays, s.toList <+: c.1.toList ++ w' := by decide
          obtain ⟨s, hs, hstarts⟩ := hstart c hc w' (by simpa using hw')
          refine hcs.not_prefix hs hr (hstarts.trans ?_)
          rw [← append_of_after hafter, ← append_of_word h]
          exact List.prefix_append w u
      rw [List.filterMap_eq_nil_iff.2 hglued]
      exact .one _ hu

end

/-! ## The readers -/

/-- The readers give one outcome at most. -/
structure ReadersSole (cs : List Char) (fuel : Nat) : Prop where
  expression : ∀ r, r <:+ cs → (expression fuel r).Sole cs
  arrowHead : ∀ r, r <:+ cs → (arrowHead fuel r).Sole cs
  ternary : ∀ r, r <:+ cs → (ternary fuel r).Sole cs
  joined : ∀ level r, r <:+ cs → (joined fuel level r).Sole cs
  joinedTail : ∀ level x r, r <:+ cs → (joinedTail fuel level x r).Sole cs
  power : ∀ r, r <:+ cs → (power fuel r).Sole cs
  unary : ∀ r, r <:+ cs → (unary fuel r).Sole cs
  update : ∀ r, r <:+ cs → (update fuel r).Sole cs
  operand : ∀ r, r <:+ cs → (operand fuel r).Sole cs
  construction : ∀ r, r <:+ cs → (construction fuel r).Sole cs
  memberLinks : ∀ x r, r <:+ cs → (memberLinks fuel x r).Sole cs
  links : ∀ x r, r <:+ cs → (links fuel x r).Sole cs
  optionalLink : ∀ x r, r <:+ cs → (optionalLink fuel x r).Sole cs
  element : ∀ r, r <:+ cs → (element fuel r).Sole cs
  objectMember : ∀ r, r <:+ cs → (objectMember fuel r).Sole cs
  primary : ∀ r, r <:+ cs → (primary fuel r).Sole cs
  functionRest : ∀ r, r <:+ cs → (functionRest fuel r).Sole cs
  patternElement : ∀ r, r <:+ cs → (patternElement fuel r).Sole cs
  defaulted : ∀ x r, r <:+ cs → (defaulted fuel x r).Sole cs
  bindingTarget : ∀ r, r <:+ cs → (bindingTarget fuel r).Sole cs
  objectPatternItem : ∀ r, r <:+ cs → (objectPatternItem fuel r).Sole cs

namespace ReadersSole

variable {cs r : List Char} {fuel : Nat} (ih : ReadersSole cs fuel)
include ih

theorem expression_succ (hr : r <:+ cs) : (Parser.expression (fuel + 1) r).Sole cs := by
  rw [Parser.expression]
  split
  · exact ih.ternary r hr
  · exact (ih.arrowHead r hr).andThen fun params u hu => (ih.expression u hu).giving _

theorem arrowHead_succ (hr : r <:+ cs) : (Parser.arrowHead (fuel + 1) r).Sole cs := by
  rw [Parser.arrowHead]
  split
  · next u hopen =>
    exact (Outcomes.Sole.itemsTo ih.patternElement _ (suffix_of_mark hr hopen)).closedBy _
  · split
    · next w u hw =>
      exact Outcomes.Sole.closedBy (.one _ ((takes_plainName hw).cut.suffix.trans hr)) _
    · exact .nil

theorem ternary_succ (hr : r <:+ cs) : (Parser.ternary (fuel + 1) r).Sole cs := by
  rw [Parser.ternary]
  refine (ih.joined 0 r hr).andThen fun test u hu => ?_
  split
  · exact .one test hu
  · next v hquestion =>
    exact ((ih.expression v (suffix_of_mark hu hquestion)).closedBy _).andThen fun yes w hw =>
      (ih.expression w hw).giving _

theorem joined_succ (level : Nat) (hr : r <:+ cs) :
    (Parser.joined (fuel + 1) level r).Sole cs := by
  rw [Parser.joined]
  split
  · exact (ih.joined (level + 1) r hr).andThen fun lhs => ih.joinedTail level lhs
  · exact ih.power r hr

theorem joinedTail_succ (level : Nat) (x : Node) (hr : r <:+ cs) :
    (Parser.joinedTail (fuel + 1) level x r).Sole cs := by
  rw [Parser.joinedTail]
  split
  · exact .one x hr
  · next joint u hj =>
    have hu : u <:+ cs :=
      (takes_jointAt (readersLeave r 0).inherited (.refl r) hj).1.suffix.trans hr
    exact (ih.joined (level + 1) u hu).andThen fun rhs => ih.joinedTail level (joint.build x rhs)

theorem power_succ (hr : r <:+ cs) : (Parser.power (fuel + 1) r).Sole cs := by
  rw [Parser.power]
  split
  · exact ih.unary r hr
  · refine (ih.update r hr).andThen fun base u hu => ?_
    split
    · exact .one base hu
    · next v hstars => exact (ih.power v (suffix_of_mark hu hstars)).giving _

theorem unary_succ (hr : r <:+ cs) : (Parser.unary (fuel + 1) r).Sole cs := by
  rw [Parser.unary]
  split
  · next op u hop => exact (ih.unary u ((takes_unaryAt hop).cut.suffix.trans hr)).giving _
  · exact ih.update r hr

theorem update_succ (hcs : OneWay cs) (hr : r <:+ cs) : (Parser.update (fuel + 1) r).Sole cs := by
  rw [Parser.update, hcs.updateAt_eq_none hr]
  refine (ih.operand r hr).andThen fun x u hu => ?_
  rw [hcs.updateAt_eq_none hu]
  exact .one x hu

/-! ### Operands and links -/

theorem operand_succ (hr : r <:+ cs) : (Parser.operand (fuel + 1) r).Sole cs := by
  rw [Parser.operand]
  split
  · next u hnew =>
    refine (ih.construction u (suffix_of_keyword hr hnew)).andThen fun x v hv => ?_
    split
    · exact ih.links x.1 v hv
    · exact .one x.1 hv
  · exact (ih.primary r hr).andThen fun x => ih.links x

/-- The arguments of a call or a construction. -/
theorem arguments {u : List Char} (hr : r <:+ cs) (hopen : mark "(" r = some u) :
    (itemsTo ")" (Parser.element fuel) u).Sole cs :=
  .itemsTo ih.element _ (suffix_of_mark hr hopen)

/-- The key of a link in brackets. -/
theorem key {u : List Char} (hr : r <:+ cs) (hopen : mark "[" r = some u) :
    ((Parser.expression fuel u).closedBy "]").Sole cs :=
  (ih.expression u (suffix_of_mark hr hopen)).closedBy _

theorem construction_succ (hr : r <:+ cs) : (Parser.construction (fuel + 1) r).Sole cs := by
  rw [Parser.construction]
  refine Outcomes.Sole.andThen ?_ fun x u hu => ?_
  · split
    · next u hnew => exact ih.construction u (suffix_of_keyword hr hnew)
    · exact (ih.primary r hr).giving _
  · split
    · refine (ih.memberLinks x.1 u hu).andThen fun callee v hv => ?_
      split
      · next w hopen => exact (ih.arguments hv hopen).giving _
      · exact .one _ hv
    · exact .one _ hu

omit ih in
theorem suffix_of_member {w u : List Char} (hr : r <:+ cs)
    (h : ((mark "." r).bind fun v => word (skipBlanks v)) = some (w, u)) : u <:+ cs := by
  obtain ⟨v, hdot, hw⟩ := Option.bind_eq_some_iff.1 h
  exact suffix_of_word (suffix_of_mark hr hdot) hw

theorem memberLinks_succ (x : Node) (hr : r <:+ cs) :
    (Parser.memberLinks (fuel + 1) x r).Sole cs := by
  rw [Parser.memberLinks]
  split
  · next w u hw => exact ih.memberLinks _ u (suffix_of_member hr hw)
  · split
    · next u hopen => exact (ih.key hr hopen).andThen fun key => ih.memberLinks _
    · split
      · next t u ht => exact ih.memberLinks _ u ((takes_template ht).cut.suffix.trans hr)
      · exact .one x hr

theorem links_succ (x : Node) (hr : r <:+ cs) : (Parser.links (fuel + 1) x r).Sole cs := by
  rw [Parser.links]
  split
  · next w u hw => exact ih.links _ u (suffix_of_member hr hw)
  · split
    · next u hopen => exact (ih.key hr hopen).andThen fun key => ih.links _
    · split
      · next u hopen => exact (ih.arguments hr hopen).andThen fun args => ih.links _
      · split
        · next t u ht => exact ih.links _ u ((takes_template ht).cut.suffix.trans hr)
        · split
          · next u hoptional =>
            exact ih.optionalLink x u ((cut_optionalAt hoptional).suffix.trans hr)
          · exact .one x hr

theorem optionalLink_succ (x : Node) (hr : r <:+ cs) :
    (Parser.optionalLink (fuel + 1) x r).Sole cs := by
  rw [Parser.optionalLink]
  split
  · next u hopen => exact (ih.key hr hopen).andThen fun key => ih.links _
  · split
    · next u hopen => exact (ih.arguments hr hopen).andThen fun args => ih.links _
    · split
      · next w u hw => exact ih.links _ u (suffix_of_word hr hw)
      · exact .nil

/-! ### Primary expressions -/

theorem element_succ (hr : r <:+ cs) : (Parser.element (fuel + 1) r).Sole cs := by
  rw [Parser.element]
  split
  · next u hdots => exact (ih.expression u (suffix_of_mark hr hdots)).giving _
  · exact ih.expression r hr

theorem objectMember_succ (hr : r <:+ cs) : (Parser.objectMember (fuel + 1) r).Sole cs := by
  have hvalue {u v : List Char} (hu : u <:+ cs) (hcolon : mark ":" u = some v) (f : Node → Node) :
      ((Parser.expression fuel v).giving f).Sole cs :=
    (ih.expression v (suffix_of_mark hu hcolon)).giving f
  rw [Parser.objectMember]
  split
  · next u hdots => exact (ih.expression u (suffix_of_mark hr hdots)).giving _
  · split
    · next t u ht =>
      split
      · next v hcolon => exact hvalue ((takes_string ht).cut.suffix.trans hr) hcolon _
      · exact .nil
    · split
      · next w u hw =>
        have hu : u <:+ cs := suffix_of_word hr hw
        split
        · next v hcolon => exact hvalue hu hcolon _
        · split
          · exact .nil
          · exact .one _ hu
      · exact .nil

theorem primary_succ (hcs : OneWay cs) (hr : r <:+ cs) :
    (Parser.primary (fuel + 1) r).Sole cs := by
  have hskip : skipBlanks r <:+ cs := (List.dropWhile_suffix _).trans hr
  have hbehind {c : Char} {u : List Char} (hu : skipBlanks r = c :: u) : u <:+ cs :=
    (List.suffix_cons c u).trans (hu ▸ hskip)
  rw [Parser.primary]
  split
  · exact .nil
  · next u hu => exact (ih.expression u (hbehind hu)).closedBy _
  · next u hu => exact (Outcomes.Sole.itemsToSpare ih.element _ (hbehind hu)).giving _
  · next u hu =>
    exact (Outcomes.Sole.itemsToSpare ih.objectMember _ (hbehind hu)).giving _
  · next u hu => exact .leaf fun t v h => (takes_regex (hu ▸ h)).cut.suffix.trans hr
  · next u hu => exact .leaf fun t v h => (takes_template (hu ▸ h)).cut.suffix.trans hr
  · next u hu => exact .leaf fun t v h => (takes_string (hu ▸ h)).cut.suffix.trans hr
  · next u hu => exact .leaf fun t v h => (takes_string (hu ▸ h)).cut.suffix.trans hr
  · split
    · next w u hw =>
      split
      · exact ih.functionRest u (suffix_of_word hr hw)
      · exact hcs.wordOutcomes hr hw
    · exact .leaf fun t v h => (takes_number h).cut.suffix.trans hr

theorem functionRest_succ (hr : r <:+ cs) : (Parser.functionRest (fuel + 1) r).Sole cs := by
  rw [Parser.functionRest]
  split
  · exact .nil
  · next u hopen =>
    refine (Outcomes.Sole.itemsTo ih.patternElement _ (suffix_of_mark hr hopen)).andThen
      fun params v hv => ?_
    split
    · exact .nil
    · next w hw =>
      obtain ⟨v', hbrace, hreturn⟩ := Option.bind_eq_some_iff.1 hw
      have hw : w <:+ cs := suffix_of_mark (suffix_of_mark hv hbrace) hreturn
      refine (ih.expression w hw).andThen fun body t ht => ?_
      split
      · next t' hend =>
        exact .one _ (suffix_of_mark (suffix_of_spare ht) hend)
      · exact .nil

/-! ### Patterns -/

theorem patternElement_succ (hr : r <:+ cs) : (Parser.patternElement (fuel + 1) r).Sole cs := by
  rw [Parser.patternElement]
  split
  · next u hdots => exact (ih.bindingTarget u (suffix_of_mark hr hdots)).giving _
  · exact (ih.bindingTarget r hr).andThen fun x => ih.defaulted x

theorem defaulted_succ (x : Node) (hr : r <:+ cs) : (Parser.defaulted (fuel + 1) x r).Sole cs := by
  rw [Parser.defaulted]
  split
  · next u hequal => exact (ih.ternary u (suffix_of_mark hr hequal)).giving _
  · exact .one x hr

theorem bindingTarget_succ (hr : r <:+ cs) : (Parser.bindingTarget (fuel + 1) r).Sole cs := by
  rw [Parser.bindingTarget]
  split
  · next u hopen =>
    exact (Outcomes.Sole.itemsTo ih.patternElement _ (suffix_of_mark hr hopen)).giving _
  · split
    · next u hopen =>
      exact (Outcomes.Sole.itemsTo ih.objectPatternItem _ (suffix_of_mark hr hopen)).giving _
    · split
      · next w u hw => exact .one _ ((takes_plainName hw).cut.suffix.trans hr)
      · exact .nil

theorem objectPatternItem_succ (hr : r <:+ cs) :
    (Parser.objectPatternItem (fuel + 1) r).Sole cs := by
  rw [Parser.objectPatternItem]
  split
  · next u hdots =>
    have hu : u <:+ cs := suffix_of_mark hr hdots
    split
    · next w v hw => exact .one _ ((takes_plainName hw).cut.suffix.trans hu)
    · exact .nil
  · split
    · exact .nil
    · next w u hw =>
      have hu : u <:+ cs := suffix_of_word hr hw
      split
      · next v hcolon => exact (ih.patternElement v (suffix_of_mark hu hcolon)).giving _
      · split
        · exact .nil
        · exact ih.defaulted _ u hu

end ReadersSole

theorem readersSole {cs : List Char} (hcs : OneWay cs) (fuel : Nat) : ReadersSole cs fuel := by
  induction fuel with
  | zero => constructor <;> intros <;> exact .nil
  | succ fuel ih =>
    exact
      { expression := fun _ => ih.expression_succ
        arrowHead := fun _ => ih.arrowHead_succ
        ternary := fun _ => ih.ternary_succ
        joined := fun level _ => ih.joined_succ level
        joinedTail := fun level x _ => ih.joinedTail_succ level x
        power := fun _ => ih.power_succ
        unary := fun _ => ih.unary_succ
        update := fun _ => ih.update_succ hcs
        operand := fun _ => ih.operand_succ
        construction := fun _ => ih.construction_succ
        memberLinks := fun x _ => ih.memberLinks_succ x
        links := fun x _ => ih.links_succ x
        optionalLink := fun x _ => ih.optionalLink_succ x
        element := fun _ => ih.element_succ
        objectMember := fun _ => ih.objectMember_succ
        primary := fun _ => ih.primary_succ hcs
        functionRest := fun _ => ih.functionRest_succ
        patternElement := fun _ => ih.patternElement_succ
        defaulted := fun x _ => ih.defaulted_succ x
        bindingTarget := fun _ => ih.bindingTarget_succ
        objectPatternItem := fun _ => ih.objectPatternItem_succ }

end Comprehend.Parser
