import Comprehend.Proofs.Graft.Lists

/-! # The readers of the grammar side by side

Each reader of a text is followed by the same reader of the text with pieces put in. The step from
one fuel to the next is made for each reader by the ways that it is put together of others; where a
tag comes next the one run reads the tag and its template, and the other one what stands for them. -/

namespace Comprehend

open Comprehend.Text Comprehend.Lexeme Comprehend.Parser

namespace Grafting

open Node (Within)

variable {G : Grafting} {fuel fuel' : Nat}

/-- A tree with some pieces put in behind others. -/
abbrev Later (G : Grafting) (m n : Nat) : Node → Node → Prop := PutNode G.put (m + n)

/-- A callee of a construction, and whether it has its arguments. -/
def PutCallee (G : Grafting) (n : Nat) (x x' : Node × Bool) : Prop :=
  PutNode G.put n x.1 x'.1 ∧ x'.2 = x.2

/-- A callee that nothing comes of. One without arguments takes no links. -/
def LostCallee (G : Grafting) (x : Node × Bool) (r : List Char) : Prop :=
  G.Spoiled x.1 ∨ Dull r ∧ (x.2 = true → Stray r)

/-- The readers of two runs. -/
structure ReadersFollow (G : Grafting) (fuel fuel' : Nat) : Prop where
  expression : G.Follows (G.Place Anywhere) (G.Lost Stalled) (PutNode G.put) fuel fuel'
    (expression fuel) (expression fuel')
  arrowHead : G.Follows (G.Plains Anywhere) (G.AllLost never) (PutNodes G.put) fuel fuel'
    (arrowHead fuel) (arrowHead fuel')
  ternary : G.Follows (G.Place Anywhere) (G.Lost Stalled) (PutNode G.put) fuel fuel'
    (ternary fuel) (ternary fuel')
  joined : ∀ level, G.Follows (G.Place Anywhere) (G.Lost Dull) (PutNode G.put) fuel fuel'
    (joined fuel level) (joined fuel' level)
  joinedTail : ∀ level m x x', PutNode G.put m x x' →
    G.Follows (G.Place Solid) (G.Lost Dull) (G.Later m) fuel fuel'
      (joinedTail fuel level x) (joinedTail fuel' level x')
  power : G.Follows (G.Place Anywhere) (G.Lost Dull) (PutNode G.put) fuel fuel'
    (power fuel) (power fuel')
  unary : G.Follows (G.Place Anywhere) (G.Lost Dull) (PutNode G.put) fuel fuel'
    (unary fuel) (unary fuel')
  update : G.Follows (G.Place Anywhere) (G.Lost Dull) (PutNode G.put) fuel fuel'
    (update fuel) (update fuel')
  operand : G.Follows (G.Place Anywhere) (G.Lost Dull) (PutNode G.put) fuel fuel'
    (operand fuel) (operand fuel')
  construction : G.Follows (G.Plains Anywhere) G.LostCallee G.PutCallee fuel fuel'
    (construction fuel) (construction fuel')
  memberLinks : ∀ m x x', PutNode G.put m x x' →
    G.Follows (G.Place Solid) (G.Lost Dull) (G.Later m) fuel fuel'
      (memberLinks fuel x) (memberLinks fuel' x')
  links : ∀ m x x', PutNode G.put m x x' →
    G.Follows (G.Place Solid) (G.Lost Dull) (G.Later m) fuel fuel' (links fuel x) (links fuel' x')
  optionalLink : ∀ m x x', PutNode G.put m x x' →
    G.Follows (G.Place Sealed) (G.Lost Dull) (G.Later m) fuel fuel'
      (optionalLink fuel x) (optionalLink fuel' x')
  element : G.Follows (G.Place Anywhere) (G.Lost Stalled) (PutNode G.put) fuel fuel'
    (element fuel) (element fuel')
  objectMember : G.Follows (G.Place Anywhere) (G.Lost Stalled) (PutNode G.put) fuel fuel'
    (objectMember fuel) (objectMember fuel')
  primary : G.Follows (G.Plains Anywhere) (G.Lost Stray) (PutNode G.put) fuel fuel'
    (primary fuel) (primary fuel')
  functionRest : G.Follows (G.Place Solid) (G.Lost never) (PutNode G.put) fuel fuel'
    (functionRest fuel) (functionRest fuel')
  patternElement : G.Follows (G.Place Anywhere) (G.Lost Stalled) (PutNode G.put) fuel fuel'
    (patternElement fuel) (patternElement fuel')
  defaulted : ∀ m x x', PutNode G.put m x x' →
    G.Follows (G.Place Solid) (G.Lost Stalled) (G.Later m) fuel fuel'
      (defaulted fuel x) (defaulted fuel' x')
  bindingTarget : G.Follows (G.Place Anywhere) (G.Lost Dull) (PutNode G.put) fuel fuel'
    (bindingTarget fuel) (bindingTarget fuel')
  objectPatternItem : G.Follows (G.Place Anywhere) (G.Lost Stalled) (PutNode G.put) fuel fuel'
    (objectPatternItem fuel) (objectPatternItem fuel')

/-! ## What stays lost -/

section

variable {stop : List Char → Prop} {x y : Node} {r : List Char} {os : Outcomes Node}

theorem Spoiled.all (h : G.Spoiled x) (hos : os.All (Within x)) : ∀ o ∈ os, G.Lost stop o.1 o.2 :=
  fun o ho => .inl (h.within (hos o ho))

theorem all_one {P : Node → Prop} (hx : P x) : (one x r).All P := fun o ho => by
  obtain rfl := List.mem_singleton.1 ho
  exact hx

theorem lost_one (h : G.Lost stop x r) : ∀ o ∈ one x r, G.Lost stop o.1 o.2 := fun o ho => by
  obtain rfl := List.mem_singleton.1 ho
  exact h

theorem Lost.child (h : G.Lost stop x r) (hy : x ∈ y.children) : G.Lost stop y r :=
  h.imp_left fun h => h.child hy

theorem AllLost.spoiled {xs : List Node} (h : G.AllLost never xs r) (hy : ∀ x ∈ xs, Within x y) :
    G.Spoiled y := by
  obtain ⟨x, hx, hs⟩ := h.resolve_right id
  exact hs.within (hy x hx)

theorem AllLost.child {xs : List Node} (h : G.AllLost never xs r) (hy : ∀ x ∈ xs, x ∈ y.children) :
    G.Lost stop y r :=
  .inl (h.spoiled fun x hx => .child (.self x) (hy x hx))

theorem lost_links (fuel : Nat) (h : G.Lost Stray x r) :
    ∀ o ∈ links fuel x r, G.Lost Dull o.1 o.2 := by
  rcases h with h | h
  · exact h.all ((within_links fuel).1 x r (.self x))
  · cases fuel with
    | zero => exact nofun
    | succ fuel =>
      have hun := h.unlinked
      rw [links, hun.dot, hun.bracket, hun.paren, hun.template, hun.optional]
      exact lost_one (.inr h.dull)

theorem lost_memberLinks (fuel : Nat) (h : G.Lost Stray x r) :
    ∀ o ∈ memberLinks fuel x r, G.Lost Dull o.1 o.2 := by
  rcases h with h | h
  · exact h.all (within_memberLinks (.self x) fuel r)
  · cases fuel with
    | zero => exact nofun
    | succ fuel =>
      have hun := h.unlinked
      rw [memberLinks, hun.dot, hun.bracket, hun.template]
      exact lost_one (.inr h.dull)

theorem lost_joinedTail (fuel level : Nat) (h : G.Lost Dull x r) :
    ∀ o ∈ joinedTail fuel level x r, G.Lost Dull o.1 o.2 := by
  rcases h with h | h
  · exact h.all (within_joinedTail (.self x) fuel level r)
  · cases fuel with
    | zero => exact nofun
    | succ fuel =>
      rw [joinedTail, h.jointAt_eq_none level]
      exact lost_one (.inr h)

theorem lost_postfix (h : G.Lost Dull x r) : ∀ o ∈ (match updateAt r with
    | some (op, r') => [(Node.postfixUpdate x op, r'), (x, r)]
    | none => one x r), G.Lost Dull o.1 o.2 := by
  rcases h with h | h
  · refine h.all fun o ho => ?_
    split at ho
    · rcases List.mem_pair.1 ho with rfl | rfl
      · exact .child (.self x) (by simp [Node.children])
      · exact .self x
    · obtain rfl := List.mem_singleton.1 ho
      exact .self x
  · rw [h.updateAt_eq_none]
    exact lost_one (.inr h)

theorem mem_children_build (joint : Joint) (x y : Node) : y ∈ (joint.build x y).children := by
  cases joint <;> simp [Joint.build, Node.children]

theorem spoiled_of_token (cls : TokenClass) {t : List Char} (ht : G.Covered t)
    (hcls : cls ∈ [TokenClass.string, .template, .regex]) (hx : .token (token cls t) ∈ x.children) :
    G.Spoiled x :=
  ⟨token cls t, .child (.self _) hx, hcls, by rwa [token, String.toList_ofList]⟩

/-- A template that is not closed is no link. -/
theorem dull_of_open {cs t r : List Char}
    (h : ∃ c u u', skipBlanks cs = c :: u ∧ template (c :: u') = some (t, r)) : Dull cs := by
  obtain ⟨c, u, u', hcs, ht⟩ := h
  obtain ⟨v, rfl⟩ := template_eq_some ht
  cases append_of_template ht
  exact dull_of_template hcs

/-- A literal that is not closed is no word. -/
theorem word_of_open {cs t r : List Char}
    (h : ∃ c u u', skipBlanks cs = c :: u ∧ string (c :: u') = some (t, r)) :
    word (skipBlanks cs) = none := by
  obtain ⟨c, u, u', hcs, ht⟩ := h
  obtain ⟨d, v, rfl, hd⟩ := string_eq_some ht
  cases append_of_string ht
  rw [hcs]
  exact word_of_ne (by rcases hd with rfl | rfl <;> rfl) u

theorem lost_defaulted (fuel : Nat) (h : G.Lost Dull x r) :
    ∀ o ∈ defaulted fuel x r, G.Lost Stalled o.1 o.2 := by
  rcases h with h | h
  · exact h.all (within_defaulted (.self x) fuel r)
  · cases fuel with
    | zero => exact nofun
    | succ fuel =>
      rw [defaulted, h.mark_eq_none rfl (by decide)]
      exact lost_one (.inr h.stalled)

end

theorem Follows.assoc {α : Type} {K : List Graft → List Char → List Char → Prop}
    {L : α → List Char → Prop} {P : Nat → α → α → Prop} {f f' : List Char → Outcomes α} {m n : Nat}
    (h : G.Follows K L (fun k => P (m + n + k)) fuel fuel' f f') :
    G.Follows K L (fun k => P (m + (n + k))) fuel fuel' f f' := by
  simpa only [Nat.add_assoc] using h

theorem Follows.later_zero {K : List Graft → List Char → List Char → Prop}
    {L : Node → List Char → Prop} {f f' : List Char → Outcomes Node}
    (h : G.Follows K L (G.Later 0) fuel fuel' f f') :
    G.Follows K L (PutNode G.put) fuel fuel' f f' := fun _ _ _ hp hf =>
  (h hp hf).mono (fun _ _ => id) fun _ _ hi => Image.later (m := 0) hi (rfl : ([] : List Graft).length = 0)

theorem Place.plains_of_sealed {gs : List Graft} {cs cs' : List Char}
    (h : G.Place Sealed gs cs cs') : G.Plains Anywhere gs cs cs' := by
  obtain ⟨front, hfront, hat⟩ := h
  exact ⟨front, trivial, hat, hat.plain_of_sealed hfront⟩

theorem Plains.anywhere {F : List Char → Prop} {gs : List Graft} {cs cs' : List Char}
    (h : G.Plains F gs cs cs') : G.Plains Anywhere gs cs cs' := by
  obtain ⟨front, -, hp⟩ := h
  exact ⟨front, trivial, hp⟩

/-! ## Tokens that are trees -/

section

variable {front : List Char} {gs : List Graft} {cs cs' : List Char}

/-- A token that is a tree by itself. -/
theorem Plain.kept_leaf {L : List Char → Prop} {scan : List Char → Scan} (hs : G.AlikeLiterals L scan)
    (hp : G.Plain front gs cs cs') (kind : LeafKind) (cls : TokenClass)
    (hL : ∀ t, L t → G.Spoiled (.leaf kind (token cls t))) :
    (leafOutcomes kind cls (scan (skipBlanks cs))).Kept (OneWay G.text) (G.Lost Stray) (G.Image (PutNode G.put) gs)
      (leafOutcomes kind cls (scan (skipBlanks cs'))) := by
  cases hown : scan (skipBlanks cs) with
  | none => exact .empty _
  | some p =>
    obtain ⟨t, r⟩ := p
    rcases hs hp hown with hl | ⟨r', hother, hplace⟩
    · exact .of_lost (lost_one (hl.imp_left (hL t))) _
    · rw [hother]
      exact .one (.one (.refl rfl) hplace)

/-- Behind the start of a word the rest of it comes next in both texts. -/
theorem Copied.place_in_word {w r r' t v : List Char} (h : G.Copied front gs (w ++ r) (w ++ r'))
    (hw : ∀ d ∈ w, isNamePart d = true) (ht : t ≠ []) (hv : w = t ++ v) :
    G.Place Solid gs (v ++ r) (v ++ r') := by
  subst hv
  obtain ⟨a, as, rfl⟩ := List.exists_cons_of_ne_nil ht
  rw [List.append_assoc, List.append_assoc] at h
  have hname : ∀ d ∈ a :: as, isNamePart d = true := fun d hd => hw d (List.mem_append_left _ hd)
  obtain ⟨q, hq, hat⟩ := h.inside fun d hd => Surface.mayPrecedeTag_of_isNamePart (hname d hd)
  obtain rfl := List.append_cancel_left hq
  refine ⟨_, solid_of_not_mem (List.cons_ne_nil a as) (fun hmem => ?_) _, hat⟩
  have hpart := hname _ hmem
  cases hpart

/-- A word is read alike, and so is a constant that is glued to an operator word. -/
theorem Plain.kept_wordOutcomes {w r r' : List Char} (hp : G.Plain front gs cs cs')
    (hw : word (skipBlanks cs) = some (w, r)) (hw' : word (skipBlanks cs') = some (w, r'))
    (hplace : G.Place Solid gs r r') :
    (wordOutcomes w r).Kept (OneWay G.text) (G.Lost Stray) (G.Image (PutNode G.put) gs) (wordOutcomes w r') := by
  obtain ⟨b, -, hat, hc⟩ := hp
  have hsole (hway : OneWay G.text) : (wordOutcomes w r).Sole G.text :=
    hway.wordOutcomes (r := skipBlanks cs) ⟨_, hat.text.symm⟩ (by rwa [skipBlanks_skipBlanks])
  rw [← append_of_word hw, ← append_of_word hw'] at hc
  have hname : ∀ c ∈ constants, c.1.toList ≠ [] := by decide
  unfold wordOutcomes at hsole ⊢
  split at hsole
  · exact .one (.one (.refl rfl) hplace)
  · split_ifs at hsole ⊢
    · exact .empty _
    · refine .met (.one (.refl rfl) hplace) ?_ fun hway => ?_
      rotate_left
      · exact List.length_eq_zero_iff.1 (Nat.le_zero.1 (Nat.le_of_succ_le_succ (hsole hway).1))
      clear hsole
      generalize constants = l at hname ⊢
      induction l with
      | nil => exact .nil
      | cons c l ih =>
        obtain ⟨hne, hname⟩ := List.forall_mem_cons.1 hname
        have hrest := ih hname
        rw [List.filterMap_cons, List.filterMap_cons]
        cases hafter : after c.1 w with
        | none => exact hrest
        | some v =>
          have hglued := hc.place_in_word (isNamePart_of_word hw) hne (append_of_after hafter)
          simp only [Option.bind_some]
          split_ifs
          · exact .met (.one (.refl rfl) hglued) hrest
          · exact hrest

end

/-! ## Tags -/

theorem wordOutcomes_tag (q : List Char) :
    wordOutcomes listTag.toList q = one .listName q := by
  rfl

theorem heads_tag {cs q : List Char} (hw : word (skipBlanks cs) = some (listTag.toList, q)) :
    heads (fuel + 1) cs = one (.listName, true) q := by
  have hnew : keyword "new" (skipBlanks cs) = none := keyword_of_word hw rfl (by decide)
  have hskip : skipBlanks cs = 'l' :: ("ist".toList ++ q) := by
    rw [← append_of_word hw]
    rfl
  have hprimary : primary (fuel + 1) cs = one .listName q := by
    rw [primary_of_plain hskip (by decide), ← hskip, hw, ← wordOutcomes_tag]
    rfl
  rw [heads, hnew]
  simp only [hprimary]
  rfl

/-- A template goes on with the links of its tag, blanks before it skipped. -/
theorem links_template {x : Node} {q t r : List Char} (ht : template t = some (t, []))
    (hq : skipBlanks q = t ++ r) :
    links (fuel + 1) x q = links fuel (.tagged x (token .template t)) r := by
  obtain ⟨v, rfl⟩ := template_eq_some ht
  have hmark {s : String} {a : Char} {as : List Char} (hs : s.toList = a :: as) (ha : a ≠ '\x60') :
      mark s q = none := by
    rw [mark, hq, List.cons_append, after_of_ne hs ha]
  rw [links, hmark rfl (by decide), hmark rfl (by decide), hmark rfl (by decide), hq,
    template_append ht r]
  rfl

theorem heads_skipBlanks (fuel : Nat) (cs : List Char) :
    heads fuel (skipBlanks cs) = heads fuel cs := by
  have hprimary : primary fuel (skipBlanks cs) = primary fuel cs := by
    cases fuel with
    | zero => rfl
    | succ fuel => rw [primary, primary, skipBlanks_skipBlanks]
  rw [heads, heads, skipBlanks_skipBlanks, hprimary]

namespace ReadersFollow

variable (ih : G.ReadersFollow fuel fuel')
include ih

/-- An expression and the mark behind it. No tree is lost with the mark. -/
theorem expression_closedBy {s : String} {E : List Char → Prop} (hs : s ∈ [")", "]", ":"]) :
    G.Follows (G.Place Anywhere) (G.Lost E) (PutNode G.put) fuel fuel'
      (fun r => (Parser.expression fuel r).closedBy s)
      fun r => (Parser.expression fuel' r).closedBy s := by
  have hmark : isCoherent s.toList = true ∧ s.toList.head?.all (· != 'l') = true ∧
      s.toList.getLast?.any (· != '.') = true ∧
      ∃ a as, s.toList = a :: as ∧ strays a = false ∧ a ≠ '\x60' ∧ a ≠ '=' := by
    simp only [List.mem_cons, List.not_mem_nil, or_false] at hs
    rcases hs with rfl | rfl | rfl <;>
      exact ⟨by decide, by decide, by decide, _, _, rfl, by decide⟩
  obtain ⟨hcoherent, huntagged, hsolid, a, as, hchars, ha⟩ := hmark
  refine ih.expression.closedBy hcoherent huntagged hsolid fun x r u hx hu => ?_
  refine hx.imp_right fun hr => ?_
  rw [hr.mark_eq_none hchars ha] at hu
  cases hu

/-! ## Operators -/

theorem ternary_succ : G.Follows (G.Place Anywhere) (G.Lost Stalled) (PutNode G.put) (fuel + 1)
    (fuel' + 1) (Parser.ternary (fuel + 1)) (Parser.ternary (fuel' + 1)) := by
  change G.Follows _ _ _ _ _ (fun r => _) fun r => _
  simp only [Parser.ternary]
  refine Follows.succ ((ih.joined 0).andThen (fun test r htest => ?_) fun m test test' htest => ?_)
  · rcases htest with htest | hr
    · refine htest.all ?_
      split
      · exact all_one (.self test)
      · exact all_andThen fun yes r => all_giving fun no => .child (.self test) (by simp [Node.children])
    · rw [hr.mark_eq_none rfl (by decide)]
      exact lost_one (.inr hr.stalled)
  · refine .unmarked (alike_averse_anywhere (by decide)) (.one htest) ?_
    have hyes := ih.expression_closedBy (s := ":") (E := never) (by decide)
    refine hyes.andThen (fun yes r hl => ?_) fun n yes yes' hyes => ?_
    · refine hl.elim (fun hl => hl.all (all_giving fun no => ?_)) False.elim
      exact .child (.self yes) (by simp [Node.children])
    · refine (ih.expression.from fun _ _ _ hp => hp.anywhere).giving
        (fun no r hno => hno.child (by simp [Node.children])) fun k no no' hno => ?_
      exact htest.within₃ hyes hno Node.ternary rfl rfl

theorem joined_succ (level : Nat) : G.Follows (G.Place Anywhere) (G.Lost Dull) (PutNode G.put)
    (fuel + 1) (fuel' + 1) (Parser.joined (fuel + 1) level) (Parser.joined (fuel' + 1) level) := by
  change G.Follows _ _ _ _ _ (fun r => _) fun r => _
  simp only [Parser.joined]
  refine Follows.succ (.cond _ ?_ ih.power)
  exact (ih.joined (level + 1)).andThen (fun lhs r hl => lost_joinedTail fuel level hl)
    fun m lhs lhs' hlhs => ih.joinedTail level m lhs lhs' hlhs

theorem joinedTail_succ (level m : Nat) (x x' : Node) (hx : PutNode G.put m x x') :
    G.Follows (G.Place Solid) (G.Lost Dull) (G.Later m) (fuel + 1) (fuel' + 1)
      (Parser.joinedTail (fuel + 1) level x) (Parser.joinedTail (fuel' + 1) level x') := by
  refine .of_plains ?_ fun r hr => lost_joinedTail (fuel + 1) level (.inr hr.dull)
  have hend : G.Follows (G.Place Solid) (G.Lost Dull) (G.Later m) fuel fuel' (one x) (one x') :=
    .one hx
  have hright (joint : Joint) := (ih.joined (level + 1)).andThen (M := G.Lost Dull) (Q := G.Later m)
    (fun rhs r hl => lost_joinedTail fuel level (hl.child (mem_children_build joint x rhs)))
    fun n rhs rhs' hrhs => (ih.joinedTail level (m + n) _ _ (hx.build hrhs joint)).assoc
  refine Follows.succ (.ofScan (alike_jointAt level) (hend.from fun _ _ _ hp => hp.place) hright
    (fun r => ?_) fun r => ?_)
  all_goals
    rw [Parser.joinedTail]
    cases jointAt level r <;> rfl

theorem power_succ : G.Follows (G.Place Anywhere) (G.Lost Dull) (PutNode G.put) (fuel + 1)
    (fuel' + 1) (Parser.power (fuel + 1)) (Parser.power (fuel' + 1)) := by
  intro gs cs cs' hp hfuel
  have hsign := alike_unaryAt hp
  rw [Parser.power, Parser.power]
  generalize unaryAt cs = s, unaryAt cs' = s' at hsign ⊢
  cases hsign with
  | none =>
    refine ih.update.andThen (M := G.Lost Dull) (Q := PutNode G.put) (fun base r hl => ?_)
      (fun m base base' hbase => ?_) hp (by omega)
    · rcases hl with hl | hr
      · refine hl.all ?_
        split
        · exact all_one (.self base)
        · exact all_giving fun x => .child (.self base) (by simp [Node.children])
      · rw [hr.mark_eq_none rfl (by decide)]
        exact lost_one (.inr hr)
    · refine .unmarked (alike_averse_anywhere (by decide)) (.one hbase) ?_
      exact ih.power.giving (fun x r hl => hl.child (by simp [Node.children])) fun n x x' hx =>
        hbase.within₂ hx Node.power rfl rfl
  | some => exact ih.unary hp (by omega)

theorem unary_succ : G.Follows (G.Place Anywhere) (G.Lost Dull) (PutNode G.put) (fuel + 1)
    (fuel' + 1) (Parser.unary (fuel + 1)) (Parser.unary (fuel' + 1)) := by
  have hsigned (op : Token) := ih.unary.giving (M := G.Lost Dull) (Q := PutNode G.put)
    (fun x r hl => hl.child (y := .unary op x) (by simp [Node.children])) fun m x x' hx =>
      hx.within (Node.unary op) rfl rfl
  refine Follows.succ (.ofScan alike_unaryAt ih.update hsigned (fun r => ?_) fun r => ?_)
  all_goals
    rw [Parser.unary]
    cases unaryAt r <;> rfl

omit ih in
/-- An operand, with an update behind it or without. -/
theorem follows_postfix (m : Nat) (x x' : Node) (hx : PutNode G.put m x x') :
    G.Follows (G.Place Solid) (G.Lost Dull) (G.Later m) fuel fuel'
      (fun r => match updateAt r with
        | some (op, r') => [(.postfixUpdate x op, r'), (x, r)]
        | none => one x r)
      (fun r => match updateAt r with
        | some (op, r') => [(.postfixUpdate x' op, r'), (x', r)]
        | none => one x' r) := by
  have hsplit (x : Node) : (fun r => match updateAt r with
      | some (op, r') => [(.postfixUpdate x op, r'), (x, r)]
      | none => one x r) = fun r =>
      ((updateAt r).elim [] fun p => one (Node.postfixUpdate x p.1) p.2) ++ one x r := by
    funext r
    cases updateAt r <;> rfl
  rw [hsplit, hsplit]
  have hupdate : AlikeTokens (G.Place Solid) (G.Place Solid) updateAt :=
    alike_updateAt fun v => ⟨solid_append rfl v, solid_append rfl v⟩
  refine .append (.ofScan hupdate .nil (fun op => .one ?_) (fun _ => rfl) fun _ => rfl) (.one hx)
    fun gs cs cs' hp hway => ?_
  · exact hx.within (Node.postfixUpdate · op) rfl rfl
  · have hnone : updateAt cs = none := by
      obtain ⟨front, -, hat⟩ := hp
      exact hway.updateAt_eq_none ⟨front, hat.text.symm⟩
    rw [hnone, (hupdate.eq_none_iff hp).1 hnone]
    exact ⟨rfl, rfl⟩

theorem update_succ : G.Follows (G.Place Anywhere) (G.Lost Dull) (PutNode G.put) (fuel + 1)
    (fuel' + 1) (Parser.update (fuel + 1)) (Parser.update (fuel' + 1)) := by
  have hoperand := ih.operand.andThen (fun x r => lost_postfix) follows_postfix
  have hsigned (op : Token) := ih.unary.giving (M := G.Lost Dull) (Q := PutNode G.put)
    (fun x r hl => hl.child (y := .prefixUpdate op x) (by simp [Node.children])) fun m x x' hx =>
      hx.within (Node.prefixUpdate op) rfl rfl
  refine Follows.succ (.ofScan alike_updateAt_anywhere hoperand hsigned (fun r => ?_) fun r => ?_)
  all_goals
    rw [Parser.update]
    cases updateAt r <;> rfl

/-! ## Operands and their links -/

/-- The key of a link in brackets. -/
theorem bracketed {F : List Char → Prop} {m : Nat} {f f' : Node → List Char → Outcomes Node}
    (hx : ∀ key r, (f key r).All (Within key))
    (hf : ∀ n key key', PutNode G.put n key key' →
      G.Follows (G.Place Solid) (G.Lost Dull) (G.Later (m + n)) fuel fuel' (f key) (f' key')) :
    G.Follows (G.Place F) (G.Lost Dull) (G.Later m) fuel fuel'
      (fun r => ((Parser.expression fuel r).closedBy "]").andThen f)
      fun r => ((Parser.expression fuel' r).closedBy "]").andThen f' := by
  have hkey := ih.expression_closedBy (s := "]") (E := never) (by decide)
  have hlinks := hkey.andThen (M := G.Lost Dull) (Q := G.Later m)
    (fun key r hl => hl.elim (fun hl => hl.all (hx key r)) False.elim)
    fun n key key' hkey => (hf n key key' hkey).assoc
  exact hlinks.from fun _ _ _ hp => hp.anywhere

omit ih in
theorem itemsFollow_element (h : G.ReadersFollow fuel fuel') :
    G.ItemsFollow fuel fuel' (Parser.element fuel) (Parser.element fuel') where
  follows := h.element
  leaves r := ((readersLeave r fuel').element r (.refl r)).leaves

/-- The arguments of a call. -/
theorem called {F : List Char → Prop} {m : Nat} {f f' : List Node → List Char → Outcomes Node}
    (hx : ∀ args r, (f args r).All fun x => ∀ arg ∈ args, Within arg x)
    (hf : ∀ n args args', PutNodes G.put n args args' →
      G.Follows (G.Place Solid) (G.Lost Dull) (G.Later (m + n)) fuel fuel' (f args) (f' args')) :
    G.Follows (G.Place F) (G.Lost Dull) (G.Later m) fuel fuel'
      (fun r => (itemsTo ")" (Parser.element fuel) r).andThen f)
      fun r => (itemsTo ")" (Parser.element fuel') r).andThen f' := by
  have hargs := (itemsFollow_element ih).itemsTo closing_round
  have hlinks := hargs.andThen (M := G.Lost Dull) (Q := G.Later m)
    (fun args r hl o ho => .inl (hl.spoiled (hx args r o ho)))
    fun n args args' hargs => (hf n args args' hargs).assoc
  exact hlinks.from fun _ _ _ hp => hp.anywhere

theorem memberLinks_succ (m : Nat) (x x' : Node) (hx : PutNode G.put m x x') :
    G.Follows (G.Place Solid) (G.Lost Dull) (G.Later m) (fuel + 1) (fuel' + 1)
      (Parser.memberLinks (fuel + 1) x) (Parser.memberLinks (fuel' + 1) x') := by
  refine .of_plains ?_ fun r hr => lost_memberLinks (fuel + 1) (.inr hr)
  have hend : G.Follows (G.Place Solid) (G.Lost Dull) (G.Later m) fuel fuel' (one x) (one x') :=
    .one hx
  change G.Follows _ _ _ _ _ (fun r => _) fun r => _
  simp only [Parser.memberLinks]
  refine Follows.succ (.scan alike_dotWord ?_ fun w => ?_)
  · refine .mark (alike_mark_anywhere (by decide)) ?_ ?_
    · refine .literal alikeLiterals_template (hend.from fun _ _ _ hp => hp.place) ?_ ?_ fun t => ?_
      · intro cs _ t r hopen
        exact lost_one (.inr (dull_of_open hopen))
      · intro t r hl
        exact lost_memberLinks fuel (hl.imp_left fun ht =>
          spoiled_of_token .template ht (by simp) (by simp [Node.children]))
      · exact ih.memberLinks m _ _ (hx.tagged G.fits _)
    · refine ih.bracketed (fun key r => within_memberLinks ?_ fuel r) fun n key key' hkey => ?_
      · exact .child (.self key) (by simp [Node.children])
      · exact ih.memberLinks (m + n) _ _ (hx.within₂ hkey (Node.index false) rfl rfl)
  · exact ih.memberLinks m _ _ (hx.within (Node.member false · _) rfl rfl)

theorem links_succ (m : Nat) (x x' : Node) (hx : PutNode G.put m x x') :
    G.Follows (G.Place Solid) (G.Lost Dull) (G.Later m) (fuel + 1) (fuel' + 1)
      (Parser.links (fuel + 1) x) (Parser.links (fuel' + 1) x') := by
  refine .of_plains ?_ fun r hr => lost_links (fuel + 1) (.inr hr)
  have hend : G.Follows (G.Place Solid) (G.Lost Dull) (G.Later m) fuel fuel' (one x) (one x') :=
    .one hx
  change G.Follows _ _ _ _ _ (fun r => _) fun r => _
  simp only [Parser.links]
  refine Follows.succ (.scan alike_dotWord ?_ fun w => ?_)
  · refine .mark (alike_mark_anywhere (by decide)) ?_ ?_
    · refine .mark (alike_mark_anywhere (by decide)) ?_ ?_
      · refine .literal alikeLiterals_template ?_ ?_ ?_ fun t => ?_
        · exact .mark alike_optionalAt (hend.from fun _ _ _ hp => hp.place)
            (ih.optionalLink m x x' hx)
        · intro cs _ t r hopen
          have hr := dull_of_open hopen
          have hoptional : optionalAt cs = none := by
            rw [optionalAt, hr.mark_eq_none rfl (by decide)]
            rfl
          rw [hoptional]
          exact lost_one (.inr hr)
        · intro t r hl
          exact lost_links fuel (hl.imp_left fun ht =>
            spoiled_of_token .template ht (by simp) (by simp [Node.children]))
        · exact ih.links m _ _ (hx.tagged G.fits _)
      · refine ih.called (fun args r o ho arg harg => ?_) fun n args args' hargs => ?_
        · exact (within_links fuel).1 _ r (.child (.self arg) (by simp [Node.children, harg])) o ho
        · exact ih.links (m + n) _ _ (hx.within₂ hargs (Node.call false) rfl rfl)
    · refine ih.bracketed (fun key r => (within_links fuel).1 _ r ?_) fun n key key' hkey => ?_
      · exact .child (.self key) (by simp [Node.children])
      · exact ih.links (m + n) _ _ (hx.within₂ hkey (Node.index false) rfl rfl)
  · exact ih.links m _ _ (hx.within (Node.member false · _) rfl rfl)

theorem optionalLink_succ (m : Nat) (x x' : Node) (hx : PutNode G.put m x x') :
    G.Follows (G.Place Sealed) (G.Lost Dull) (G.Later m) (fuel + 1) (fuel' + 1)
      (Parser.optionalLink (fuel + 1) x) (Parser.optionalLink (fuel' + 1) x') := by
  refine Follows.from (K := G.Plains Anywhere) ?_ fun _ _ _ hp => hp.plains_of_sealed
  change G.Follows _ _ _ _ _ (fun r => _) fun r => _
  simp only [Parser.optionalLink]
  refine Follows.succ (.mark (alike_mark_anywhere (by decide)) ?_ ?_)
  · refine .mark (alike_mark_anywhere (by decide)) ?_ ?_
    · refine .scan alike_word .nil fun w => ?_
      exact ih.links m _ _ (hx.within (Node.member true · _) rfl rfl)
    · refine ih.called (fun args r o ho arg harg => ?_) fun n args args' hargs => ?_
      · exact (within_links fuel).1 _ r (.child (.self arg) (by simp [Node.children, harg])) o ho
      · exact ih.links (m + n) _ _ (hx.within₂ hargs (Node.call true) rfl rfl)
  · refine ih.bracketed (fun key r => (within_links fuel).1 _ r ?_) fun n key key' hkey => ?_
    · exact .child (.self key) (by simp [Node.children])
    · exact ih.links (m + n) _ _ (hx.within₂ hkey (Node.index true) rfl rfl)

omit ih in
theorem lost_applied {x : Node} {r : List Char} (h : G.Lost Dull x r) : ∀ o ∈ (match mark "(" r with
    | some r => (itemsTo ")" (Parser.element fuel) r).giving fun args => (Node.construct x args, true)
    | none => one (Node.construct x [], false) r), G.LostCallee o.1 o.2 := by
  intro o ho
  rcases h with h | h
  · refine .inl (h.within ?_)
    split at ho
    · obtain ⟨args, -, heq⟩ := mem_giving.1 ho
      rw [← heq]
      exact .child (.self x) (by simp [Node.children])
    · obtain rfl := List.mem_singleton.1 ho
      exact .child (.self x) (by simp [Node.children])
  · rw [h.mark_eq_none rfl (by decide)] at ho
    obtain rfl := List.mem_singleton.1 ho
    exact .inr ⟨h, nofun⟩

omit ih in
/-- A callee with the arguments that follow it, if they do. -/
theorem follows_applied (h : G.ReadersFollow fuel fuel') (m : Nat) (x x' : Node)
    (hx : PutNode G.put m x x') :
    G.Follows (G.Place Solid) G.LostCallee (fun n => G.PutCallee (m + n)) fuel fuel'
      (fun r => match mark "(" r with
        | some r => (itemsTo ")" (Parser.element fuel) r).giving fun args => (.construct x args, true)
        | none => one (.construct x [], false) r)
      (fun r => match mark "(" r with
        | some r => (itemsTo ")" (Parser.element fuel') r).giving fun args => (.construct x' args, true)
        | none => one (.construct x' [], false) r) := by
  have hbare : G.Follows (G.Place Solid) G.LostCallee (fun n => G.PutCallee (m + n)) fuel fuel'
      (one (.construct x [], false)) (one (.construct x' [], false)) :=
    .one ⟨hx.within₂ PutNodes.nil Node.construct rfl rfl, rfl⟩
  refine .of_plains ?_ fun r hr => lost_applied (.inr hr.dull)
  refine .mark (alike_mark_anywhere (by decide))
    (hbare.from fun _ _ _ hp => hp.place) ?_
  refine ((itemsFollow_element h).itemsTo closing_round).giving (fun args r hl => ?_)
    fun n args args' hargs => ⟨hx.within₂ hargs Node.construct rfl rfl, rfl⟩
  exact .inl (hl.spoiled fun arg harg => .child (.self arg) (by simp [Node.children, harg]))

/-- What an operand starts with. -/
theorem heads_follow : G.Follows (G.Plains Anywhere) G.LostCallee G.PutCallee fuel fuel'
    (heads fuel) (heads fuel') := by
  change G.Follows _ _ _ _ _ (fun r => _) fun r => _
  unfold heads
  have hshut (v : List Char) : Shut (v ++ "new".toList) := by
    rw [show v ++ "new".toList = (v ++ ['n', 'e']) ++ ['w'] by simp]
    exact shut_concat rfl _
  refine .mark (alike_keyword (by decide) hshut sealed_new) ?_
    (ih.construction.from fun _ _ _ hp => hp.plains_of_sealed)
  exact ih.primary.giving (fun x r hl => hl.imp_right fun hr => ⟨hr.dull, fun _ => hr⟩)
    fun n x x' hx => ⟨hx, rfl⟩

theorem construction_succ : G.Follows (G.Plains Anywhere) G.LostCallee G.PutCallee (fuel + 1)
    (fuel' + 1) (Parser.construction (fuel + 1)) (Parser.construction (fuel' + 1)) := by
  change G.Follows _ _ _ _ _ (fun r => _) fun r => _
  simp only [Parser.construction_succ]
  refine Follows.succ (ih.heads_follow.andThen (fun x r hl o ho => ?_) fun m x x' hx => ?_)
  · split at ho
    · next hargs =>
      obtain ⟨callee, u, hcallee, ho⟩ := mem_andThen.1 ho
      exact lost_applied (lost_memberLinks fuel (hl.imp_right fun h => h.2 hargs) _ hcallee) o ho
    · obtain rfl := List.mem_singleton.1 ho
      exact hl.imp (fun h => h.child (by simp [Node.children])) fun h => ⟨h.1, nofun⟩
  · obtain ⟨x, hasArguments⟩ := x
    obtain ⟨x', hasArguments'⟩ := x'
    obtain ⟨hx, rfl⟩ := hx
    refine .cond _ ?_ (.one ⟨hx.within₂ PutNodes.nil Node.construct rfl rfl, rfl⟩)
    exact (ih.memberLinks m x x' hx).andThen (fun callee r => lost_applied)
      fun n callee callee' hcallee => (follows_applied ih (m + n) _ _ hcallee).assoc

theorem operand_plains : G.Follows (G.Plains Anywhere) (G.Lost Dull) (PutNode G.put) (fuel + 1)
    (fuel' + 1) (Parser.operand (fuel + 1)) (Parser.operand (fuel' + 1)) := by
  change G.Follows _ _ _ _ _ (fun r => _) fun r => _
  simp only [Parser.operand_succ]
  refine Follows.succ (ih.heads_follow.andThen (fun x r hl o ho => ?_) fun m x x' hx => ?_)
  · split at ho
    · next hargs => exact lost_links fuel (hl.imp_right fun h => h.2 hargs) o ho
    · obtain rfl := List.mem_singleton.1 ho
      exact hl.imp_right And.left
  · obtain ⟨x, hasArguments⟩ := x
    obtain ⟨x', hasArguments'⟩ := x'
    obtain ⟨hx, rfl⟩ := hx
    exact .cond _ (ih.links m x x' hx) (.one hx)

omit ih

/-- A tag is read with its template, and what is put in for them is read in their place. -/
theorem operand_tagged (hprev : ∀ f, fuel = f + 1 → ∀ k, G.ReadersFollow f k) {front : List Char}
    {gs : List Graft} {cs cs' : List Char} (ht : G.Tagged front gs cs cs')
    (hfuel : fuel + 1 + Graft.weight gs ≤ fuel' + 1) :
    (Parser.operand (fuel + 1) cs).Kept (OneWay G.text) (G.Lost Dull) (G.Image (PutNode G.put) gs)
      (Parser.operand (fuel' + 1) cs') := by
  obtain ⟨b, hb, hgrafted⟩ := ht
  cases fuel with
  | zero =>
    obtain ⟨q, hq, -⟩ := hgrafted.scan_word
    have hnone : Parser.operand 1 cs = [] := by
      rw [Parser.operand, keyword_of_word hq rfl (by decide)]
      rfl
    rw [hnone]
    exact .empty _
  | succ fuel =>
    have hskip : heads fuel' cs' = heads fuel' (skipBlanks cs') := (heads_skipBlanks fuel' cs').symm
    generalize hu : skipBlanks cs = u, hu' : skipBlanks cs' = u' at hgrafted hskip
    cases hgrafted with
    | @intro g gs r r' hg hat =>
      have hq : word (skipBlanks cs) = some (listTag.toList, g.gap ++ (g.template ++ r)) := by
        rw [hu]
        exact hg.scan_word r
      have hweight : Graft.weight (g :: gs) = 32 * g.code.length + Graft.weight gs := rfl
      rw [Parser.operand_succ, heads_tag hq, andThen_one]
      simp only [if_true]
      rcases blank_or_stray hg.gap with hblank | hstray
      · have hstarts := hg.code.starts
        obtain ⟨k, x₀, r₀, hk, hheads, hwalk⟩ := @hstarts fuel' r' trivial (by omega)
        have hgap : skipBlanks (g.gap ++ (g.template ++ r)) = g.template ++ r := by
          obtain ⟨v, hv⟩ := template_eq_some hg.template
          rw [skipBlanks_append hblank, hv]
          rfl
        have hother : Parser.links k g.node r' <+: Parser.operand (fuel' + 1) cs' := by
          rw [Parser.operand_succ, hskip]
          exact hwalk.trans (hheads.prefix_andThen fun x r =>
            if x.2 then Parser.links fuel' x.1 r else one x.1 r)
        have hplace : G.Place Solid gs r r' := by
          refine ⟨_, ?_, hat⟩
          rw [Graft.matched, ← List.append_assoc, ← List.append_assoc]
          exact solid_template hg.template _
        have hlinks := (hprev fuel rfl k).links 1 _ _ (PutNode.put hg.put) hplace (by omega)
        rw [links_template hg.template hgap]
        exact (hlinks.mono (fun _ _ => id) fun _ _ h =>
          Image.later h (rfl : [g].length = 1)).of_isPrefix hother
      · exact .of_lost (lost_links (fuel + 1) (.inr (hstray _))) _

theorem operand_succ (hprev : ∀ f, fuel = f + 1 → ∀ k, G.ReadersFollow f k)
    (ih : G.ReadersFollow fuel fuel') :
    G.Follows (G.Place Anywhere) (G.Lost Dull) (PutNode G.put) (fuel + 1) (fuel' + 1)
      (Parser.operand (fuel + 1)) (Parser.operand (fuel' + 1)) := by
  intro gs cs cs' hp hfuel
  rcases hp.plains_or_tagged with hp | ⟨front, -, ht⟩
  · exact ih.operand_plains hp hfuel
  · exact operand_tagged hprev ht hfuel

/-! ## Primary expressions -/

section

variable (ih : G.ReadersFollow fuel fuel')
include ih

theorem element_succ : G.Follows (G.Place Anywhere) (G.Lost Stalled) (PutNode G.put) (fuel + 1)
    (fuel' + 1) (Parser.element (fuel + 1)) (Parser.element (fuel' + 1)) := by
  change G.Follows _ _ _ _ _ (fun r => _) fun r => _
  simp only [Parser.element]
  refine Follows.succ (.mark (alike_averse_anywhere (by decide))
    ih.expression ?_)
  exact ih.expression.giving (fun x r hl => hl.child (by simp [Node.children])) fun m x x' hx =>
    hx.within Node.spread rfl rfl

/-- The value of a property, behind its colon. -/
theorem follows_value {key : Token} {F : List Char → Prop} :
    G.Follows (G.Place F) (G.Lost Stalled) (PutNode G.put) fuel fuel'
      (fun r => (Parser.expression fuel r).giving (.property key ·))
      fun r => (Parser.expression fuel' r).giving (.property key ·) :=
  (ih.expression.from fun _ _ _ hp => hp.anywhere).giving
    (fun x r hl => hl.child (by simp [Node.children])) fun m x x' hx =>
      hx.within (Node.property key) rfl rfl

theorem objectMember_succ : G.Follows (G.Place Anywhere) (G.Lost Stalled) (PutNode G.put) (fuel + 1)
    (fuel' + 1) (Parser.objectMember (fuel + 1)) (Parser.objectMember (fuel' + 1)) := by
  change G.Follows _ _ _ _ _ (fun r => _) fun r => _
  simp only [Parser.objectMember]
  refine Follows.succ (.mark (alike_averse_anywhere (by decide)) ?_ ?_)
  rotate_left
  · exact ih.expression.giving (fun x r hl => hl.child (by simp [Node.children])) fun m x x' hx =>
      hx.within Node.spread rfl rfl
  have hcolon : Found (G.Place Solid) (G.Place Anywhere) (mark ":") :=
    found_mark (by decide) (by decide) fun _ => trivial
  refine .of_untagged ?_ fun r q hq hdull o ho => ?_
  · refine .literal alikeLiterals_string ?_ ?_ ?_ fun t => .required hcolon ih.follows_value
    · refine .scan alike_word .nil fun w => .of_plains ?_ fun r hr o ho => ?_
      · refine .mark (alike_mark_anywhere (by decide)) ?_ ih.follows_value
        exact .cond _ .nil ((Follows.one (.refl rfl)).from fun _ _ _ hp => hp.place)
      · rw [hr.dull.mark_eq_none rfl (by decide)] at ho
        dsimp only at ho
        split at ho
        · cases ho
        · exact lost_one (.inr hr.dull.stalled) o ho
    · intro cs _ t r hopen o ho
      rw [word_of_open hopen] at ho
      cases ho
    · intro t r hl o ho
      split at ho
      · next u hu =>
        rcases hl with ht | hr
        · obtain ⟨x, -, heq⟩ := mem_giving.1 ho
          rw [← heq]
          exact .inl (spoiled_of_token .string ht (by simp) (by simp [Node.children]))
        · rw [hr.dull.mark_eq_none rfl (by decide)] at hu
          cases hu
      · cases ho
  · have hmark : mark ":" q = none := hdull.mark_eq_none rfl (by decide)
    rw [string_of_word hq, hq] at ho
    simp only [hmark] at ho
    exact lost_one (.inr hdull.stalled) o ho

omit ih in
theorem itemsFollow_objectMember (h : G.ReadersFollow fuel fuel') :
    G.ItemsFollow fuel fuel' (Parser.objectMember fuel) (Parser.objectMember fuel') where
  follows := h.objectMember
  leaves r := ((readersLeave r fuel').objectMember r (.refl r)).leaves

theorem primary_succ : G.Follows (G.Plains Anywhere) (G.Lost Stray) (PutNode G.put) (fuel + 1)
    (fuel' + 1) (Parser.primary (fuel + 1)) (Parser.primary (fuel' + 1)) := by
  intro gs cs cs' hp hfuel
  obtain ⟨front, -, -, hplain⟩ := hp
  have hword := hplain.scan_word
  have hliteral {scan : List Char → Scan} (hs : G.AlikeLiterals G.Covered scan) (kind : LeafKind)
      (cls : TokenClass) (hcls : cls ∈ [TokenClass.string, .template, .regex]) :=
    hplain.kept_leaf hs kind cls fun t ht => spoiled_of_token cls ht hcls (by simp [Node.children])
  have hnumber := hplain.kept_leaf alikeLiterals_number .number .number fun t ht => ht.elim
  have hwords {w r r' : List Char} (hw : word (skipBlanks cs) = some (w, r))
      (hw' : word (skipBlanks cs') = some (w, r')) := hplain.kept_wordOutcomes hw hw'
  obtain ⟨b, -, -, hc⟩ := hplain
  have hfuel : fuel + Graft.weight gs ≤ fuel' := by omega
  generalize hu : skipBlanks cs = u, hu' : skipBlanks cs' = u' at hc hword hnumber hwords
  cases hc with
  | nil =>
    rw [Parser.primary, hu]
    exact .empty _
  | @cons c v v' hat =>
    have hplace : G.Place Anywhere gs v v' := ⟨_, trivial, hat⟩
    by_cases hc : c ∈ ['(', '[', '\x7b', '/', '\x60', '\'', '"']
    · have hround := ih.expression_closedBy (s := ")") (E := Stray) (by decide)
      have hall {f : List Node → Node} (hf : ∀ xs, (f xs).children = xs) (xs : List Node)
          (r : List Char) (hl : G.AllLost never xs r) : G.Lost Stray (f xs) r :=
        hl.child fun x hx => by rwa [hf]
      have hsquare := ((itemsFollow_element ih).itemsToSpare closing_square
        fun r k hk => element_of_bracket hk fuel').giving (Q := PutNode G.put)
          (hall (f := Node.array) fun _ => rfl) fun m xs xs' hxs => hxs.within Node.array rfl rfl
      have hcurly := ((itemsFollow_objectMember ih).itemsToSpare closing_curly
        fun r k hk => objectMember_of_brace hk fuel').giving (Q := PutNode G.put)
          (hall (f := Node.object) fun _ => rfl) fun m xs xs' hxs => hxs.within Node.object rfl rfl
      have hregex := hliteral alikeLiterals_regex .regex .regex (by decide)
      have htemplate := hliteral alikeLiterals_template .template .template (by decide)
      have hstring := hliteral alikeLiterals_string .string .string (by decide)
      rw [hu, hu'] at hregex htemplate hstring
      rw [Parser.primary, Parser.primary, hu, hu']
      fin_cases hc
      · exact hround hplace hfuel
      · exact hsquare hplace hfuel
      · exact hcurly hplace hfuel
      · exact hregex
      · exact htemplate
      · exact hstring
      · exact hstring
    · rw [primary_of_plain hu hc, primary_of_plain hu' hc]
      generalize hw : word (c :: v) = p, hw' : word (c :: v') = p' at hword
      cases hword with
      | none => exact hnumber
      | @some p p' hr =>
        obtain ⟨w, r⟩ := p
        obtain ⟨w', r'⟩ := p'
        obtain ⟨rfl, hr⟩ := hr
        dsimp only
        split_ifs
        · exact (ih.functionRest hr hfuel).mono (fun _ _ h => h.mono False.elim) fun _ _ => id
        · exact hwords hw hw' hr

/-! ## Functions and patterns -/

omit ih in
theorem itemsFollow_patternElement (h : G.ReadersFollow fuel fuel') :
    G.ItemsFollow fuel fuel' (Parser.patternElement fuel) (Parser.patternElement fuel') where
  follows := h.patternElement
  leaves r := ((readersLeave r fuel').patternElement r (.refl r)).leaves

omit ih in
theorem itemsFollow_objectPatternItem (h : G.ReadersFollow fuel fuel') :
    G.ItemsFollow fuel fuel' (Parser.objectPatternItem fuel) (Parser.objectPatternItem fuel') where
  follows := h.objectPatternItem
  leaves r := ((readersLeave r fuel').objectPatternItem r (.refl r)).leaves

theorem functionRest_succ : G.Follows (G.Place Solid) (G.Lost never) (PutNode G.put) (fuel + 1)
    (fuel' + 1) (Parser.functionRest (fuel + 1)) (Parser.functionRest (fuel' + 1)) := by
  change G.Follows _ _ _ _ _ (fun r => _) fun r => _
  simp only [Parser.functionRest]
  have hopen : Found (G.Place Solid) (G.Place Anywhere) (mark "(") :=
    found_mark (by decide) (by decide) fun _ => trivial
  have hcurly : Found (G.Place Solid) (G.Place Anywhere) (mark "\x7b") :=
    found_mark (by decide) (by decide) fun _ => trivial
  have hreturn : Found (G.Place Solid) (G.Place Anywhere) fun r =>
      (mark "\x7b" r).bind (mark "return") :=
    hcurly.bind (found_mark (by decide) (by decide) fun _ => trivial)
  have hclose : Found (G.Place Solid) (G.Place Solid) fun r =>
      mark "\x7d" ((mark ";" r).getD r) := by
    have hsemicolon : Alike (G.Plains Solid) (G.Place Anywhere) (mark ";") :=
      alike_mark_anywhere (by decide)
    have hspare : Alike (G.Plains Solid) (G.Place Solid) fun r =>
        mark "\x7d" ((mark ";" r).getD r) :=
      .spare hsemicolon (closing_curly.alike.from fun _ _ _ hp => hp.place) closing_curly.alike
    refine hspare.found.of_plains fun r w hw => ?_
    rw [mark_of_tag (s := ";") (by decide) (by decide) hw, Option.getD_none]
    exact mark_of_tag (by decide) (by decide) hw
  have hbody (params params' : List Node) (n : Nat) (hparams : PutNodes G.put n params params') :
      G.Follows (G.Place Anywhere) (G.Lost never) (fun m => PutNode G.put (n + m)) fuel fuel'
        (fun r => (Parser.expression fuel r).andThen fun body r =>
          match mark "\x7d" ((mark ";" r).getD r) with
          | some r => one (.function params body) r
          | none => [])
        (fun r => (Parser.expression fuel' r).andThen fun body r =>
          match mark "\x7d" ((mark ";" r).getD r) with
          | some r => one (.function params' body) r
          | none => []) := by
    refine ih.expression.andThen (fun body r hl o ho => ?_) fun m body body' hbody =>
      .required hclose (.one (hparams.within₂ hbody Node.function rfl rfl))
    split at ho
    · next u hu =>
      obtain rfl := List.mem_singleton.1 ho
      refine hl.imp (fun h => h.child (by simp [Node.children])) fun hr => ?_
      rw [hr.mark_eq_none (s := ";") rfl (by decide), Option.getD_none,
        hr.mark_eq_none rfl (by decide)] at hu
      cases hu
    · cases ho
  refine Follows.succ (.demanded hopen ?_)
  refine ((itemsFollow_patternElement ih).itemsTo closing_round).andThen (fun params r hl o ho => ?_)
    fun m params params' hparams => .demanded hreturn (hbody _ _ _ hparams)
  have hparams : G.Spoiled (.params params) :=
    hl.spoiled fun x hx => .child (.self x) (by simpa [Node.children] using hx)
  split at ho
  · cases ho
  · obtain ⟨body, u, -, ho⟩ := mem_andThen.1 ho
    split at ho
    · obtain rfl := List.mem_singleton.1 ho
      exact .inl (hparams.child (y := .function params body) (by simp [Node.children]))
    · cases ho

theorem patternElement_succ : G.Follows (G.Place Anywhere) (G.Lost Stalled) (PutNode G.put)
    (fuel + 1) (fuel' + 1) (Parser.patternElement (fuel + 1)) (Parser.patternElement (fuel' + 1)) := by
  change G.Follows _ _ _ _ _ (fun r => _) fun r => _
  simp only [Parser.patternElement]
  refine Follows.succ (.mark (alike_averse_anywhere (by decide)) ?_ ?_)
  · exact ih.bindingTarget.andThen (fun x r => lost_defaulted fuel) fun m x x' hx =>
      ih.defaulted m x x' hx
  · exact ih.bindingTarget.giving
      (fun x r hl => (hl.child (by simp [Node.children])).mono Dull.stalled) fun m x x' hx =>
        hx.within Node.patternRest rfl rfl

theorem defaulted_succ (m : Nat) (x x' : Node) (hx : PutNode G.put m x x') :
    G.Follows (G.Place Solid) (G.Lost Stalled) (G.Later m) (fuel + 1) (fuel' + 1)
      (Parser.defaulted (fuel + 1) x) (Parser.defaulted (fuel' + 1) x') := by
  change G.Follows _ _ _ _ _ (fun r => _) fun r => _
  simp only [Parser.defaulted]
  refine Follows.succ (.mark (alike_averse_anywhere (by decide)) (.one hx) ?_)
  exact ih.ternary.giving (fun y r hl => hl.child (by simp [Node.children])) fun n y y' hy =>
    hx.within₂ hy Node.patternDefault rfl rfl

theorem bindingTarget_succ : G.Follows (G.Place Anywhere) (G.Lost Dull) (PutNode G.put)
    (fuel + 1) (fuel' + 1) (Parser.bindingTarget (fuel + 1)) (Parser.bindingTarget (fuel' + 1)) := by
  refine .of_untagged ?_ fun r q hq hdull o ho => ?_
  · change G.Follows _ _ _ _ _ (fun r => _) fun r => _
    simp only [Parser.bindingTarget]
    refine Follows.succ (.mark (alike_mark_anywhere (by decide)) ?_ ?_)
    · refine .mark (alike_mark_anywhere (by decide)) ?_ ?_
      · exact .scan alike_plainName .nil fun w => .one (.refl rfl)
      · refine ((itemsFollow_objectPatternItem ih).itemsTo closing_curly).giving (fun xs r hl => ?_)
          fun m xs xs' hxs => hxs.within Node.objectPattern rfl rfl
        exact hl.child fun x hx => by simpa [Node.children] using hx
    · refine ((itemsFollow_patternElement ih).itemsTo closing_square).giving (fun xs r hl => ?_)
        fun m xs xs' hxs => hxs.within Node.arrayPattern rfl rfl
      exact hl.child fun x hx => by simpa [Node.children] using hx
  · have hname : plainName r = some (listTag.toList, q) := by
      rw [plainName, hq]
      rfl
    rw [bindingTarget_of_plainName hname] at ho
    exact lost_one (.inr hdull) o ho

theorem objectPatternItem_succ : G.Follows (G.Place Anywhere) (G.Lost Stalled) (PutNode G.put)
    (fuel + 1) (fuel' + 1) (Parser.objectPatternItem (fuel + 1))
      (Parser.objectPatternItem (fuel' + 1)) := by
  change G.Follows _ _ _ _ _ (fun r => _) fun r => _
  simp only [Parser.objectPatternItem]
  refine Follows.succ (.mark (alike_averse_anywhere (by decide)) ?_ ?_)
  · refine .of_untagged ?_ fun r q hq hdull o ho => ?_
    · refine .unscanned alike_word .nil fun w => .of_plains ?_ fun r hr o ho => ?_
      · refine .mark (alike_mark_anywhere (by decide)) ?_ ?_
        · refine .cond _ .nil ?_
          exact ((ih.defaulted 0 _ _ (.refl rfl)).from fun _ _ _ hp => hp.place).later_zero
        · exact ih.patternElement.giving (fun x r hl => hl.child (by simp [Node.children]))
            fun m x x' hx => hx.within (Node.propertyPattern _) rfl rfl
      · rw [hr.dull.mark_eq_none rfl (by decide)] at ho
        dsimp only at ho
        split at ho
        · cases ho
        · exact lost_defaulted fuel (.inr hr.dull) o ho
    · have hmark : mark ":" q = none := hdull.mark_eq_none rfl (by decide)
      rw [hq] at ho
      simp only [hmark] at ho
      exact lost_defaulted fuel (.inr hdull) o ho
  · refine .of_untagged ?_ fun r q hq hdull o ho => ?_
    · exact .scan alike_plainName .nil fun w => .one (.refl rfl)
    · have hname : plainName r = some (listTag.toList, q) := by
        rw [plainName, hq]
        rfl
      rw [hname] at ho
      exact lost_one (.inr hdull.stalled) o ho

end

end ReadersFollow

end Grafting

end Comprehend
