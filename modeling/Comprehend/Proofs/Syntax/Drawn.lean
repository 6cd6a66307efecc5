import Comprehend.Proofs.Syntax.Printed

/-! # Where the tokens of a tree stand

A reader takes a part off the front of a text and leaves the rest, and the tokens of its tree stand
in the part that it took. No part ends in a backslash, so what is left of a text is escaped no more
and no less than it was in the text. -/

namespace Comprehend.Parser

open Comprehend.Text Comprehend.Lexeme

/-- What is left of a text behind a part that does not end in a backslash. -/
def Cut (cs r : List Char) : Prop := ∃ u, cs = u ++ r ∧ u.getLast? ≠ some '\\'

/-- A text stands in another one behind such a part. -/
def Stands (cs t : List Char) : Prop := ∃ r, Cut cs (t ++ r)

/-- A token is taken off a text. -/
def Takes (cs t r : List Char) : Prop := Cut cs (t ++ r) ∧ t.getLast? ≠ some '\\'

section

variable {cs r s t u w : List Char}

theorem Cut.refl (cs : List Char) : Cut cs cs := ⟨[], rfl, by simp⟩

theorem Cut.trans (h : Cut cs r) (h' : Cut r s) : Cut cs s := by
  obtain ⟨u, rfl, hu⟩ := h
  obtain ⟨v, rfl, hv⟩ := h'
  refine ⟨u ++ v, (List.append_assoc u v s).symm, ?_⟩
  cases hlast : v.getLast? with
  | none =>
    rw [List.getLast?_eq_none_iff.1 hlast, List.append_nil]
    exact hu
  | some c =>
    rw [List.getLast?_append, hlast, Option.some_or, ← hlast]
    exact hv

theorem cut_append (hu : u.getLast? ≠ some '\\') (r : List Char) : Cut (u ++ r) r := ⟨u, rfl, hu⟩

theorem getLast?_ne {c : Char} (hu : ∀ d ∈ u, d ≠ c) : u.getLast? ≠ some c := fun h =>
  hu c (List.mem_of_getLast? h) rfl

theorem cut_skipBlanks (cs : List Char) : Cut cs (skipBlanks cs) := by
  have hblanks : ∀ c ∈ cs.takeWhile isBlank, c ≠ '\\' := by
    rintro c hc rfl
    cases List.mem_takeWhile_imp hc
  have hcut := cut_append (getLast?_ne hblanks) (skipBlanks cs)
  rwa [skipBlanks, List.takeWhile_append_dropWhile] at hcut

theorem Takes.cut (h : Takes cs t r) : Cut cs r := h.1.trans (cut_append h.2 r)

theorem Takes.stands (h : Takes cs t r) : Stands cs t := ⟨r, h.1⟩

theorem takes_of_append (h : t ++ r = skipBlanks cs) (ht : t.getLast? ≠ some '\\') :
    Takes cs t r := ⟨h ▸ cut_skipBlanks cs, ht⟩

theorem Stands.of_cut (h : Cut cs r) (ht : Stands r t) : Stands cs t := by
  obtain ⟨v, hv⟩ := ht
  exact ⟨v, h.trans hv⟩

/-! ## Tokens -/

/-- A spelling after which nothing is escaped. -/
abbrev EndsOpen (spelling : String) : Prop := spelling.toList.getLast? ≠ some '\\'

theorem takes_after {spelling : String} (hs : EndsOpen spelling)
    (h : after spelling (skipBlanks cs) = some r) : Takes cs spelling.toList r :=
  takes_of_append (append_of_after h).symm hs

theorem cut_mark {spelling : String} (hs : EndsOpen spelling) (h : mark spelling cs = some r) :
    Cut cs r := (takes_after hs h).cut

theorem takes_keyword {spelling : String} (hs : EndsOpen spelling)
    (h : keyword spelling (skipBlanks cs) = some r) : Takes cs spelling.toList r :=
  takes_after hs (Option.filter_eq_some_iff.1 h).1

theorem cut_spare {spelling : String} (hs : EndsOpen spelling) :
    Cut cs ((mark spelling cs).getD cs) := by
  cases h : mark spelling cs with
  | none => exact .refl cs
  | some r => exact cut_mark hs h

theorem isNamePart_ne {c : Char} (h : isNamePart c = true) : c ≠ '\\' := by
  rintro rfl
  cases h

theorem takes_word (h : word (skipBlanks cs) = some (w, r)) : Takes cs w r := by
  refine takes_of_append (append_of_word h) (getLast?_ne fun c hc => ?_)
  obtain ⟨d, t, rfl, hd, ht⟩ := word_eq_some h
  rcases List.mem_cons.1 hc with rfl | hc
  · exact isNamePart_ne (isNamePart_of_isNameStart hd)
  · exact isNamePart_ne (ht c hc)

theorem takes_plainName (h : plainName cs = some (w, r)) : Takes cs w r :=
  takes_word (plainName_eq_some h).1

theorem getLast?_quotedRest {quote : Char} {overLines : Bool} (hq : quote ≠ '\\') (c : Char)
    (h : quotedRest quote overLines cs = some (t, r)) : (c :: t).getLast? ≠ some '\\' := by
  obtain ⟨v, rfl⟩ := exists_of_quotedRest h
  rw [← List.cons_append, List.getLast?_concat]
  exact fun h => hq (Option.some.inj h)

theorem takes_string (h : string (skipBlanks cs) = some (t, r)) : Takes cs t r := by
  refine takes_of_append (append_of_string h) ?_
  unfold string at h
  split at h
  · obtain ⟨u, hu, rfl⟩ := cons_eq_some.1 h
    exact getLast?_quotedRest (by decide) _ hu
  · obtain ⟨u, hu, rfl⟩ := cons_eq_some.1 h
    exact getLast?_quotedRest (by decide) _ hu
  · cases h

theorem takes_template (h : template (skipBlanks cs) = some (t, r)) : Takes cs t r := by
  refine takes_of_append (append_of_template h) ?_
  unfold template at h
  split at h
  · obtain ⟨u, hu, rfl⟩ := cons_eq_some.1 h
    exact getLast?_quotedRest (by decide) _ hu
  · cases h

theorem takes_regex (h : regex (skipBlanks cs) = some (t, r)) : Takes cs t r := by
  obtain ⟨happend, v, flags, rfl, hflags⟩ := regex_pieces h
  refine takes_of_append happend ?_
  cases hlast : flags.getLast? with
  | none =>
    rw [List.getLast?_eq_none_iff.1 hlast, List.getLast?_concat]
    decide
  | some c =>
    have hc : c ≠ '\\' := isNamePart_ne (hflags c (List.mem_of_getLast? hlast))
    rw [List.getLast?_append, List.getLast?_cons, hlast]
    simpa using hc

theorem takes_number (h : number (skipBlanks cs) = some (t, r)) : Takes cs t r := by
  obtain ⟨happend, hnumeral⟩ := number_pieces h
  refine takes_of_append happend (getLast?_ne ?_)
  rintro c hc rfl
  cases hnumeral _ hc

end

/-! ## Trees -/

/-- The tokens of a tree stand in a text. -/
def Drawn (cs : List Char) (x : Node) : Prop :=
  ∀ t, Node.Within (.token t) x → Stands cs t.text.toList

section

variable {cs r t u w : List Char} {x y : Node} {xs : List Node}

theorem Drawn.of_children (hx : x.isToken = false) (h : ∀ y ∈ x.children, Drawn cs y) :
    Drawn cs x := by
  intro t ht
  cases ht with
  | self => cases hx
  | child ht hy => exact h _ hy t ht

theorem Drawn.token {t : Token} (h : Stands cs t.text.toList) : Drawn cs (.token t) := by
  intro t' ht
  cases ht with
  | self => exact h
  | child _ hy => cases hy

/-- A property that a tree has where its children have it, and a token where it stands in a text. -/
structure Inherited (cs : List Char) (P : Node → Prop) : Prop where
  of_children : ∀ {x : Node}, x.isToken = false → (∀ y ∈ x.children, P y) → P x
  token : ∀ {t : Token}, Stands cs t.text.toList → P (.token t)

theorem inherited_drawn (cs : List Char) : Inherited cs (Drawn cs) where
  of_children := .of_children
  token := .token

variable {P : Node → Prop}

theorem Inherited.taken (hP : Inherited cs P) (cls : TokenClass) (hcut : Cut cs u)
    (h : Takes u t r) : P (.token (Lexeme.token cls t)) := by
  refine hP.token ?_
  rw [Lexeme.token, String.toList_ofList]
  exact h.stands.of_cut hcut

theorem Inherited.params (hP : Inherited cs P) (h : ∀ p ∈ xs, P p) : P (.params xs) :=
  hP.of_children rfl h

/-! ## Operators -/

theorem takes_anyOf {spellings : List String} {s : String} (hs : ∀ s ∈ spellings, EndsOpen s)
    (h : anyOf spellings (skipBlanks cs) = some (s, r)) : Takes cs s.toList r := by
  obtain ⟨s', hs', h⟩ := List.exists_of_findSome?_eq_some h
  obtain ⟨v, hv, h⟩ := Option.map_eq_some_iff.1 h
  cases h
  exact takes_after (hs s hs') hv

theorem takes_keywords {spellings : List String} {s : String} (hs : ∀ s ∈ spellings, EndsOpen s)
    (h : (spellings.findSome? fun s => (keyword s (skipBlanks cs)).map (s, ·)) = some (s, r)) :
    Takes cs s.toList r := by
  obtain ⟨s', hs', h⟩ := List.exists_of_findSome?_eq_some h
  obtain ⟨v, hv, h⟩ := Option.map_eq_some_iff.1 h
  cases h
  exact takes_keyword (hs s hs') hv

theorem takes_binaryAt {group : OperatorGroup} {joint : Joint}
    (h : binaryAt group (skipBlanks cs) = some (joint, r)) :
    ∃ op, joint = .binary group op ∧ Takes cs op.toList r := by
  obtain ⟨⟨op, r'⟩, hop, h⟩ := Option.map_eq_some_iff.1 h
  cases h
  refine ⟨op, rfl, ?_⟩
  cases group with
  | bitOr | bitAnd => exact takes_anyOf (by decide) (Option.filter_eq_some_iff.1 hop).1
  | relational =>
    rcases Option.or_eq_some_iff.1 hop with hop | ⟨-, hop⟩
    · exact takes_keywords (by decide) hop
    · exact takes_anyOf (by decide) hop
  | _ => exact takes_anyOf (by decide) hop

theorem takes_jointAt (hP : Inherited cs P) {level : Nat} {joint : Joint} (hcut : Cut cs u)
    (h : jointAt level u = some (joint, r)) :
    Cut cs r ∧ ∀ {x y : Node}, P x → P y → P (joint.build x y) := by
  have hlogical {op : LogicalOp} {s : String} (hs : EndsOpen s)
      (h : logicalAt op s (skipBlanks u) = some (joint, r)) :
      Cut cs r ∧ ∀ {x y : Node}, P x → P y → P (joint.build x y) := by
    obtain ⟨v, hv, h⟩ := Option.map_eq_some_iff.1 h
    cases h
    refine ⟨hcut.trans (takes_after hs hv).cut, fun hx hy => hP.of_children rfl ?_⟩
    simp [Joint.build, Node.children, hx, hy]
  have hbinary {group : OperatorGroup} (h : binaryAt group (skipBlanks u) = some (joint, r)) :
      Cut cs r ∧ ∀ {x y : Node}, P x → P y → P (joint.build x y) := by
    obtain ⟨op, rfl, htakes⟩ := takes_binaryAt h
    have hop : P (.token ⟨.other group.label, op⟩) := hP.token (htakes.stands.of_cut hcut)
    refine ⟨hcut.trans htakes.cut, fun hx hy => hP.of_children rfl ?_⟩
    simp [Joint.build, Node.children, hx, hy, hop]
  unfold jointAt at h
  split at h
  · exact hlogical (by decide) h
  · exact hlogical (by decide) h
  · exact hlogical (by decide) h
  · exact hbinary h
  · exact hbinary h
  · exact hbinary h
  · exact hbinary h
  · exact hbinary h
  · exact hbinary h
  · exact hbinary h
  · exact hbinary h
  · cases h

theorem takes_unaryAt {op : Token} (h : unaryAt cs = some (op, r)) : Takes cs op.text.toList r := by
  have hsign {c : Char} {v : List Char} (hc : c ≠ '\\') (hskip : skipBlanks cs = c :: v) :
      Takes cs [c] v := takes_of_append hskip.symm (by simpa using hc)
  unfold unaryAt at h
  split at h
  · next hskip =>
    split at h
    · cases h
    · cases h
      exact hsign (by decide) hskip
  · next hskip =>
    split at h
    · cases h
    · cases h
      exact hsign (by decide) hskip
  · next hskip =>
    cases h
    exact hsign (by decide) hskip
  · next hskip =>
    cases h
    exact hsign (by decide) hskip
  · obtain ⟨s, hs, h⟩ := List.exists_of_findSome?_eq_some h
    obtain ⟨v, hv, h⟩ := Option.map_eq_some_iff.1 h
    cases h
    have hopen : ∀ s ∈ ["typeof", "void", "delete"], EndsOpen s := by decide
    exact takes_keyword (hopen s hs) hv

theorem takes_updateAt {op : Token} (h : updateAt cs = some (op, r)) :
    Takes cs op.text.toList r := by
  obtain ⟨⟨s, v⟩, hs, h⟩ := Option.map_eq_some_iff.1 h
  cases h
  exact takes_anyOf (by decide) hs

theorem cut_optionalAt (h : optionalAt cs = some r) : Cut cs r :=
  cut_mark (by decide) (Option.filter_eq_some_iff.1 h).1

end

/-! ## What is left of a text -/

/-- Every outcome leaves a rest of a text and has a property. -/
def Outcomes.Draws (os : Outcomes α) (cs : List Char) (P : α → Prop) : Prop :=
  ∀ o ∈ os, Cut cs o.2 ∧ P o.1

namespace Outcomes.Draws

variable {cs r : List Char} {os : Outcomes α} {P : α → Prop} {Q : β → Prop}

theorem nil : Outcomes.Draws ([] : Outcomes α) cs P := fun _ h => absurd h List.not_mem_nil

theorem one {x : α} (hr : Cut cs r) (hx : P x) : (Parser.one x r).Draws cs P := fun o ho => by
  obtain rfl := List.mem_singleton.1 ho
  exact ⟨hr, hx⟩

theorem giving {f : α → β} (h : os.Draws cs P) (hf : ∀ x, P x → Q (f x)) :
    (os.giving f).Draws cs Q := by
  intro o ho
  obtain ⟨x, hx, hfx⟩ := mem_giving.1 ho
  obtain ⟨hr, hP⟩ := h _ hx
  exact ⟨hr, hfx ▸ hf x hP⟩

theorem andThen {f : α → List Char → Outcomes β} (h : os.Draws cs P)
    (hf : ∀ x r, Cut cs r → P x → (f x r).Draws cs Q) : (os.andThen f).Draws cs Q := by
  intro o ho
  obtain ⟨x, r, hx, ho⟩ := mem_andThen.1 ho
  obtain ⟨hr, hP⟩ := h _ hx
  exact hf x r hr hP o ho

theorem closedBy {spelling : String} (hs : EndsOpen spelling) (h : os.Draws cs P) :
    (os.closedBy spelling).Draws cs P := by
  intro o ho
  obtain ⟨r, hx, hclose⟩ := mem_closedBy.1 ho
  obtain ⟨hr, hP⟩ := h _ hx
  exact ⟨hr.trans (cut_mark hs hclose), hP⟩

variable {item : List Char → Outcomes α}

theorem items (h : ∀ r, Cut cs r → (item r).Draws cs P) (more : Nat) (hr : Cut cs r) :
    (items item more r).Draws cs fun xs => ∀ x ∈ xs, P x := by
  induction more generalizing r with
  | zero => exact .nil
  | succ more ih =>
    refine (h r hr).andThen fun x u hu hx => ?_
    have hone : ∀ y ∈ [x], P y := by simpa using hx
    split
    · exact .one hu hone
    · next v hcomma =>
      split
      · exact .one hu hone
      · exact (ih (hu.trans (cut_mark (by decide) hcomma))).giving fun xs hxs =>
          List.forall_mem_cons.2 ⟨hx, hxs⟩

theorem itemsTo {close : String} (hc : EndsOpen close) (h : ∀ r, Cut cs r → (item r).Draws cs P)
    (hr : Cut cs r) : (itemsTo close item r).Draws cs fun xs => ∀ x ∈ xs, P x := by
  rw [Parser.itemsTo]
  split
  · next u hclose => exact .one (hr.trans (cut_mark hc hclose)) (by simp)
  · exact (items h _ hr).closedBy hc

theorem itemsToSpare {close : String} (hc : EndsOpen close)
    (h : ∀ r, Cut cs r → (item r).Draws cs P) (hr : Cut cs r) :
    (itemsToSpare close item r).Draws cs fun xs => ∀ x ∈ xs, P x := by
  rw [Parser.itemsToSpare]
  split
  · next u hclose => exact .one (hr.trans (cut_mark hc hclose)) (by simp)
  · split
    · next u hspare =>
      obtain ⟨v, hcomma, hclose⟩ := Option.bind_eq_some_iff.1 hspare
      exact .one ((hr.trans (cut_mark (by decide) hcomma)).trans (cut_mark hc hclose)) (by simp)
    · refine (items h _ hr).andThen fun xs u hu hxs => ?_
      split
      · next v hclose =>
        exact .one ((hu.trans (cut_spare (by decide))).trans (cut_mark hc hclose)) hxs
      · exact .nil

theorem leaf {P : Node → Prop} (hP : Inherited cs P) {kind : LeafKind} {cls : TokenClass}
    {scan : Scan} (hr : Cut cs r) (h : ∀ t u, scan = some (t, u) → Takes r t u) :
    (leafOutcomes kind cls scan).Draws cs P := by
  unfold leafOutcomes
  split
  · next t u =>
    have htakes := h t u rfl
    exact .one (hr.trans htakes.cut)
      (hP.of_children rfl (List.forall_mem_singleton.2 (hP.taken cls hr htakes)))
  · exact .nil

theorem word {P : Node → Prop} (hP : Inherited cs P) {w u : List Char} (hr : Cut cs r)
    (hw : word (skipBlanks r) = some (w, u)) :
    (wordOutcomes w u).Draws cs P := by
  have htakes := takes_word hw
  unfold wordOutcomes
  split
  · exact .one (hr.trans htakes.cut) (hP.of_children rfl (List.forall_mem_nil _))
  · split
    · exact .nil
    · intro o ho
      rcases List.mem_cons.1 ho with rfl | ho
      · exact ⟨hr.trans htakes.cut,
          hP.of_children rfl (List.forall_mem_singleton.2 (hP.taken .name hr htakes))⟩
      · -- a constant glued to the operator word behind it
        obtain ⟨c, hc, ho⟩ := List.mem_filterMap.1 ho
        obtain ⟨v, hv, ho⟩ := Option.bind_eq_some_iff.1 ho
        split at ho
        · cases ho
          have hopen : ∀ c ∈ constants, EndsOpen c.1 := by decide
          have hcut : Cut (w ++ u) (v ++ u) := by
            rw [append_of_after hv, List.append_assoc]
            exact cut_append (hopen c hc) _
          exact ⟨(hr.trans htakes.1).trans hcut, hP.of_children rfl (List.forall_mem_nil _)⟩
        · cases ho

end Outcomes.Draws

/-! ## The readers -/

/-- What the readers draw from a text with some fuel, each from a rest of the text. -/
structure ReadersDraw (cs : List Char) (P : Node → Prop) (fuel : Nat) : Prop where
  inherited : Inherited cs P
  expression : ∀ r, Cut cs r → (expression fuel r).Draws cs P
  arrowHead : ∀ r, Cut cs r → (arrowHead fuel r).Draws cs fun ps => ∀ p ∈ ps, P p
  ternary : ∀ r, Cut cs r → (ternary fuel r).Draws cs P
  joined : ∀ level r, Cut cs r → (joined fuel level r).Draws cs P
  joinedTail : ∀ level x r, Cut cs r → P x →
    (joinedTail fuel level x r).Draws cs P
  power : ∀ r, Cut cs r → (power fuel r).Draws cs P
  unary : ∀ r, Cut cs r → (unary fuel r).Draws cs P
  update : ∀ r, Cut cs r → (update fuel r).Draws cs P
  operand : ∀ r, Cut cs r → (operand fuel r).Draws cs P
  construction : ∀ r, Cut cs r → (construction fuel r).Draws cs fun x => P x.1
  memberLinks : ∀ x r, Cut cs r → P x → (memberLinks fuel x r).Draws cs P
  links : ∀ x r, Cut cs r → P x → (links fuel x r).Draws cs P
  optionalLink : ∀ x r, Cut cs r → P x → (optionalLink fuel x r).Draws cs P
  element : ∀ r, Cut cs r → (element fuel r).Draws cs P
  objectMember : ∀ r, Cut cs r → (objectMember fuel r).Draws cs P
  primary : ∀ r, Cut cs r → (primary fuel r).Draws cs P
  functionRest : ∀ r, Cut cs r → (functionRest fuel r).Draws cs P
  patternElement : ∀ r, Cut cs r → (patternElement fuel r).Draws cs P
  defaulted : ∀ x r, Cut cs r → P x → (defaulted fuel x r).Draws cs P
  bindingTarget : ∀ r, Cut cs r → (bindingTarget fuel r).Draws cs P
  objectPatternItem : ∀ r, Cut cs r → (objectPatternItem fuel r).Draws cs P

namespace ReadersDraw

variable {cs r : List Char} {P : Node → Prop} {fuel : Nat} {x : Node}

/-! ### Operators -/

theorem expression_succ (ih : ReadersDraw cs P fuel) (hr : Cut cs r) :
    (Parser.expression (fuel + 1) r).Draws cs P := by
  rw [Parser.expression]
  split
  · exact ih.ternary r hr
  · exact (ih.arrowHead r hr).andThen fun ps u hu hps =>
      (ih.expression u hu).giving fun x hx => ih.inherited.of_children rfl (by
        simpa [Node.children] using ⟨ih.inherited.params hps, hx⟩)

theorem arrowHead_succ (ih : ReadersDraw cs P fuel) (hr : Cut cs r) :
    (Parser.arrowHead (fuel + 1) r).Draws cs fun ps => ∀ p ∈ ps, P p := by
  rw [Parser.arrowHead]
  split
  · next u hopen =>
    exact (Outcomes.Draws.itemsTo (by decide) ih.patternElement
      (hr.trans (cut_mark (by decide) hopen))).closedBy (by decide)
  · split
    · next w u hw =>
      have htakes := takes_plainName hw
      refine Outcomes.Draws.closedBy (by decide) (.one (hr.trans htakes.cut) ?_)
      refine List.forall_mem_singleton.2 (ih.inherited.of_children rfl ?_)
      exact List.forall_mem_singleton.2 (ih.inherited.taken .name hr htakes)
    · exact .nil

theorem ternary_succ (ih : ReadersDraw cs P fuel) (hr : Cut cs r) :
    (Parser.ternary (fuel + 1) r).Draws cs P := by
  rw [Parser.ternary]
  refine (ih.joined 0 r hr).andThen fun x u hu hx => ?_
  split
  · exact .one hu hx
  · next v hquestion =>
    have hv := hu.trans (cut_mark (by decide) hquestion)
    exact ((ih.expression v hv).closedBy (by decide)).andThen fun y p hp hy =>
      (ih.expression p hp).giving fun z hz => ih.inherited.of_children rfl (by
        simp [Node.children, hx, hy, hz])

theorem joined_succ (ih : ReadersDraw cs P fuel) (level : Nat) (hr : Cut cs r) :
    (Parser.joined (fuel + 1) level r).Draws cs P := by
  rw [Parser.joined]
  split
  · exact (ih.joined _ r hr).andThen fun x u hu hx => ih.joinedTail level x u hu hx
  · exact ih.power r hr

theorem joinedTail_succ (ih : ReadersDraw cs P fuel) (level : Nat) (hr : Cut cs r) (hx : P x) :
    (Parser.joinedTail (fuel + 1) level x r).Draws cs P := by
  rw [Parser.joinedTail]
  split
  · exact .one hr hx
  · next joint u hjoint =>
    obtain ⟨hu, hbuild⟩ := takes_jointAt ih.inherited hr hjoint
    exact (ih.joined _ u hu).andThen fun y v hv hy => ih.joinedTail level _ v hv (hbuild hx hy)

theorem power_succ (ih : ReadersDraw cs P fuel) (hr : Cut cs r) :
    (Parser.power (fuel + 1) r).Draws cs P := by
  rw [Parser.power]
  split
  · exact ih.unary r hr
  · refine (ih.update r hr).andThen fun x u hu hx => ?_
    split
    · exact .one hu hx
    · next v hstars =>
      exact (ih.power v (hu.trans (cut_mark (by decide) hstars))).giving fun y hy =>
        ih.inherited.of_children rfl (by simp [Node.children, hx, hy])

theorem unary_succ (ih : ReadersDraw cs P fuel) (hr : Cut cs r) :
    (Parser.unary (fuel + 1) r).Draws cs P := by
  rw [Parser.unary]
  split
  · next op u hop =>
    have htakes := takes_unaryAt hop
    have hsign : P (.token op)  := ih.inherited.token (htakes.stands.of_cut hr)
    exact (ih.unary u (hr.trans htakes.cut)).giving fun x hx =>
      ih.inherited.of_children rfl (by simp [Node.children, hsign, hx])
  · exact ih.update r hr

theorem update_succ (ih : ReadersDraw cs P fuel) (hr : Cut cs r) :
    (Parser.update (fuel + 1) r).Draws cs P := by
  rw [Parser.update]
  split
  · next op u hop =>
    have htakes := takes_updateAt hop
    have hsign : P (.token op)  := ih.inherited.token (htakes.stands.of_cut hr)
    exact (ih.unary u (hr.trans htakes.cut)).giving fun x hx =>
      ih.inherited.of_children rfl (by simp [Node.children, hsign, hx])
  · refine (ih.operand r hr).andThen fun x u hu hx => ?_
    split
    · next op v hop =>
      have htakes := takes_updateAt hop
      have hsign : P (.token op)  := ih.inherited.token (htakes.stands.of_cut hu)
      intro o ho
      simp only [List.mem_cons, List.not_mem_nil, or_false] at ho
      rcases ho with rfl | rfl
      · exact ⟨hu.trans htakes.cut,
          ih.inherited.of_children rfl (by simp [Node.children, hsign, hx])⟩
      · exact ⟨hu, hx⟩
    · exact .one hu hx

/-! ### Operands and links -/

theorem operand_succ (ih : ReadersDraw cs P fuel) (hr : Cut cs r) :
    (Parser.operand (fuel + 1) r).Draws cs P := by
  rw [Parser.operand]
  split
  · next u hnew =>
    have hu := hr.trans (takes_keyword (by decide) hnew).cut
    refine (ih.construction u hu).andThen fun x v hv hx => ?_
    split
    · exact ih.links x.1 v hv hx
    · exact .one hv hx
  · exact (ih.primary r hr).andThen fun x u hu hx => ih.links x u hu hx

theorem construction_succ (ih : ReadersDraw cs P fuel) (hr : Cut cs r) :
    (Parser.construction (fuel + 1) r).Draws cs fun x => P x.1 := by
  have hmade {callee : Node} {args : List Node} (hcallee : P callee)
      (hargs : ∀ x ∈ args, P x) : P (.construct callee args) :=
    ih.inherited.of_children rfl (List.forall_mem_cons.2 ⟨hcallee, hargs⟩)
  have hheads : (heads fuel r).Draws cs fun x => P x.1 := by
    rw [heads]
    split
    · next u hnew => exact ih.construction u (hr.trans (takes_keyword (by decide) hnew).cut)
    · exact (ih.primary r hr).giving fun x hx => hx
  rw [Parser.construction_succ]
  refine hheads.andThen fun x u hu hx => ?_
  split
  · refine (ih.memberLinks x.1 u hu hx).andThen fun callee v hv hcallee => ?_
    split
    · next p hopen =>
      exact (Outcomes.Draws.itemsTo (by decide) ih.element
        (hv.trans (cut_mark (by decide) hopen))).giving fun args hargs => hmade hcallee hargs
    · exact .one hv (hmade hcallee (by simp))
  · exact .one hu (hmade hx (by simp))

theorem dotted (hP : Inherited cs P) (optional : Bool) {w u : List Char} (hr : Cut cs r) (hx : P x)
    (h : ((mark "." r).bind fun r => word (skipBlanks r)) = some (w, u)) :
    Cut cs u ∧ P (.member optional x (token .propertyName w)) := by
  obtain ⟨v, hdot, hw⟩ := Option.bind_eq_some_iff.1 h
  have hv := hr.trans (cut_mark (by decide) hdot)
  have htakes := takes_word hw
  have hname := hP.taken .propertyName hv htakes
  exact ⟨hv.trans htakes.cut, hP.of_children rfl (by simp [Node.children, hx, hname])⟩

theorem indexed {f : Node → List Char → Outcomes Node} (optional : Bool) (ih : ReadersDraw cs P fuel)
    (hx : P x) {u : List Char} (hr : Cut cs r) (hopen : mark "[" r = some u)
    (hf : ∀ y v, Cut cs v → P y → (f y v).Draws cs P) :
    (((Parser.expression fuel u).closedBy "]").andThen fun key v =>
      f (.index optional x key) v).Draws cs P := by
  have hu := hr.trans (cut_mark (by decide) hopen)
  exact ((ih.expression u hu).closedBy (by decide)).andThen fun key v hv hkey =>
    hf _ v hv (ih.inherited.of_children rfl (by simp [Node.children, hx, hkey]))

theorem called {f : Node → List Char → Outcomes Node} (optional : Bool) (ih : ReadersDraw cs P fuel)
    (hx : P x) {u : List Char} (hr : Cut cs r) (hopen : mark "(" r = some u)
    (hf : ∀ y v, Cut cs v → P y → (f y v).Draws cs P) :
    ((itemsTo ")" (Parser.element fuel) u).andThen fun args v =>
      f (.call optional x args) v).Draws cs P := by
  have hu := hr.trans (cut_mark (by decide) hopen)
  exact (Outcomes.Draws.itemsTo (by decide) ih.element hu).andThen fun args v hv hargs =>
    hf _ v hv (ih.inherited.of_children rfl (List.forall_mem_cons.2 ⟨hx, hargs⟩))

theorem taggedWith (hP : Inherited cs P) {t u : List Char} (hr : Cut cs r) (hx : P x)
    (h : template (skipBlanks r) = some (t, u)) :
    Cut cs u ∧ P (.tagged x (token .template t)) := by
  have htakes := takes_template h
  have htoken := hP.taken .template hr htakes
  exact ⟨hr.trans htakes.cut, hP.of_children rfl (by simp [Node.children, hx, htoken])⟩

theorem memberLinks_succ (ih : ReadersDraw cs P fuel) (hr : Cut cs r) (hx : P x) :
    (Parser.memberLinks (fuel + 1) x r).Draws cs P := by
  rw [Parser.memberLinks]
  split
  · next w u hw =>
    obtain ⟨hu, hmember⟩ := dotted ih.inherited false hr hx hw
    exact ih.memberLinks _ u hu hmember
  · split
    · next u hopen => exact ih.indexed false hx hr hopen ih.memberLinks
    · split
      · next t u ht =>
        obtain ⟨hu, htagged⟩ := taggedWith ih.inherited hr hx ht
        exact ih.memberLinks _ u hu htagged
      · exact .one hr hx

theorem links_succ (ih : ReadersDraw cs P fuel) (hr : Cut cs r) (hx : P x) :
    (Parser.links (fuel + 1) x r).Draws cs P := by
  rw [Parser.links]
  split
  · next w u hw =>
    obtain ⟨hu, hmember⟩ := dotted ih.inherited false hr hx hw
    exact ih.links _ u hu hmember
  · split
    · next u hopen => exact ih.indexed false hx hr hopen ih.links
    · split
      · next u hopen => exact ih.called false hx hr hopen ih.links
      · split
        · next t u ht =>
          obtain ⟨hu, htagged⟩ := taggedWith ih.inherited hr hx ht
          exact ih.links _ u hu htagged
        · split
          · next u hmark => exact ih.optionalLink x u (hr.trans (cut_optionalAt hmark)) hx
          · exact .one hr hx

theorem optionalLink_succ (ih : ReadersDraw cs P fuel) (hr : Cut cs r) (hx : P x) :
    (Parser.optionalLink (fuel + 1) x r).Draws cs P := by
  rw [Parser.optionalLink]
  split
  · next u hopen => exact ih.indexed true hx hr hopen ih.links
  · split
    · next u hopen => exact ih.called true hx hr hopen ih.links
    · split
      · next w u hw =>
        have htakes := takes_word hw
        have hname := ih.inherited.taken .propertyName hr htakes
        exact ih.links _ u (hr.trans htakes.cut)
          (ih.inherited.of_children rfl (by simp [Node.children, hx, hname]))
      · exact .nil

/-! ### Primary expressions -/

theorem spread (ih : ReadersDraw cs P fuel) {u : List Char} (hr : Cut cs r)
    (h : mark "..." r = some u) :
    ((Parser.expression fuel u).giving .spread).Draws cs P :=
  (ih.expression u (hr.trans (cut_mark (by decide) h))).giving fun x hx =>
    ih.inherited.of_children rfl (List.forall_mem_singleton.2 hx)

theorem element_succ (ih : ReadersDraw cs P fuel) (hr : Cut cs r) :
    (Parser.element (fuel + 1) r).Draws cs P := by
  rw [Parser.element]
  split
  · next u hdots => exact ih.spread hr hdots
  · exact ih.expression r hr

theorem property (ih : ReadersDraw cs P fuel) {k u v : List Char} (cls : TokenClass) (hr : Cut cs r)
    (hk : Takes r k u) (hcolon : mark ":" u = some v) :
    ((Parser.expression fuel v).giving (.property (token cls k) ·)).Draws cs P := by
  have hkey := ih.inherited.taken cls hr hk
  exact (ih.expression v ((hr.trans hk.cut).trans (cut_mark (by decide) hcolon))).giving fun x hx =>
    ih.inherited.of_children rfl (by simp [Node.children, hkey, hx])

theorem objectMember_succ (ih : ReadersDraw cs P fuel) (hr : Cut cs r) :
    (Parser.objectMember (fuel + 1) r).Draws cs P := by
  rw [Parser.objectMember]
  split
  · next u hdots => exact ih.spread hr hdots
  · split
    · next t u ht =>
      split
      · next v hcolon => exact ih.property .string hr (takes_string ht) hcolon
      · exact .nil
    · split
      · next w u hw =>
        have htakes := takes_word hw
        split
        · next v hcolon => exact ih.property .propertyName hr htakes hcolon
        · split
          · exact .nil
          · exact .one (hr.trans htakes.cut)
              (ih.inherited.of_children rfl
                (List.forall_mem_singleton.2 (ih.inherited.taken .name hr htakes)))
      · exact .nil

theorem primary_succ (ih : ReadersDraw cs P fuel) (hr : Cut cs r) :
    (Parser.primary (fuel + 1) r).Draws cs P := by
  have behind {c : Char} {u : List Char} (hc : c ≠ '\\') (hskip : skipBlanks r = c :: u) : Cut cs u :=
    hr.trans (takes_of_append (t := [c]) hskip.symm (by simpa using hc)).cut
  rw [Parser.primary]
  split
  · exact .nil
  · next u hskip => exact (ih.expression u (behind (by decide) hskip)).closedBy (by decide)
  · next u hskip =>
    exact (Outcomes.Draws.itemsToSpare (by decide) ih.element (behind (by decide) hskip)).giving
      fun xs hxs => ih.inherited.of_children rfl hxs
  · next u hskip =>
    exact (Outcomes.Draws.itemsToSpare (by decide) ih.objectMember
      (behind (by decide) hskip)).giving fun xs hxs => ih.inherited.of_children rfl hxs
  · next u hskip => exact .leaf ih.inherited hr fun t v ht => takes_regex (hskip ▸ ht)
  · next u hskip => exact .leaf ih.inherited hr fun t v ht => takes_template (hskip ▸ ht)
  · next u hskip => exact .leaf ih.inherited hr fun t v ht => takes_string (hskip ▸ ht)
  · next u hskip => exact .leaf ih.inherited hr fun t v ht => takes_string (hskip ▸ ht)
  · split
    · next w u hw =>
      split
      · exact ih.functionRest u (hr.trans (takes_word hw).cut)
      · exact .word ih.inherited hr hw
    · exact .leaf ih.inherited hr fun t v ht => takes_number ht

theorem functionRest_succ (ih : ReadersDraw cs P fuel) (hr : Cut cs r) :
    (Parser.functionRest (fuel + 1) r).Draws cs P := by
  rw [Parser.functionRest]
  split
  · exact .nil
  · next u hopen =>
    refine (Outcomes.Draws.itemsTo (by decide) ih.patternElement
      (hr.trans (cut_mark (by decide) hopen))).andThen fun ps v hv hps => ?_
    split
    · exact .nil
    · next p hbody =>
      obtain ⟨q, hbrace, hreturn⟩ := Option.bind_eq_some_iff.1 hbody
      have hp := (hv.trans (cut_mark (by decide) hbrace)).trans (cut_mark (by decide) hreturn)
      refine (ih.expression p hp).andThen fun x o ho hx => ?_
      split
      · next s hclose =>
        refine .one ((ho.trans (cut_spare (by decide))).trans (cut_mark (by decide) hclose)) ?_
        have hparams := ih.inherited.params hps
        exact ih.inherited.of_children rfl (by simp [Node.children, hparams, hx])
      · exact .nil

/-! ### Patterns -/

theorem patternElement_succ (ih : ReadersDraw cs P fuel) (hr : Cut cs r) :
    (Parser.patternElement (fuel + 1) r).Draws cs P := by
  rw [Parser.patternElement]
  split
  · next u hdots =>
    exact (ih.bindingTarget u (hr.trans (cut_mark (by decide) hdots))).giving fun p hp =>
      ih.inherited.of_children rfl (List.forall_mem_singleton.2 hp)
  · exact (ih.bindingTarget r hr).andThen fun p u hu hp => ih.defaulted p u hu hp

theorem defaulted_succ (ih : ReadersDraw cs P fuel) (hr : Cut cs r) (hx : P x) :
    (Parser.defaulted (fuel + 1) x r).Draws cs P := by
  rw [Parser.defaulted]
  split
  · next u hequal =>
    exact (ih.ternary u (hr.trans (cut_mark (by decide) hequal))).giving fun v hv =>
      ih.inherited.of_children rfl (by simp [Node.children, hx, hv])
  · exact .one hr hx

theorem named (hP : Inherited cs P) {w u : List Char} (hr : Cut cs r) (hw : Takes r w u) :
    P (.bindingName (token .name w)) :=
  hP.of_children rfl (List.forall_mem_singleton.2 (hP.taken .name hr hw))

theorem bindingTarget_succ (ih : ReadersDraw cs P fuel) (hr : Cut cs r) :
    (Parser.bindingTarget (fuel + 1) r).Draws cs P := by
  rw [Parser.bindingTarget]
  split
  · next u hopen =>
    exact (Outcomes.Draws.itemsTo (by decide) ih.patternElement
      (hr.trans (cut_mark (by decide) hopen))).giving fun ps hps =>
        ih.inherited.of_children rfl hps
  · split
    · next u hopen =>
      exact (Outcomes.Draws.itemsTo (by decide) ih.objectPatternItem
        (hr.trans (cut_mark (by decide) hopen))).giving fun ps hps =>
          ih.inherited.of_children rfl hps
    · split
      · next w u hw =>
        have htakes := takes_plainName hw
        exact .one (hr.trans htakes.cut) (named ih.inherited hr htakes)
      · exact .nil

theorem objectPatternItem_succ (ih : ReadersDraw cs P fuel) (hr : Cut cs r) :
    (Parser.objectPatternItem (fuel + 1) r).Draws cs P := by
  rw [Parser.objectPatternItem]
  split
  · next u hdots =>
    have hu := hr.trans (cut_mark (by decide) hdots)
    split
    · next w v hw =>
      have htakes := takes_plainName hw
      exact .one (hu.trans htakes.cut)
        (ih.inherited.of_children rfl (List.forall_mem_singleton.2 (named ih.inherited hu htakes)))
    · exact .nil
  · split
    · exact .nil
    · next w u hw =>
      have htakes := takes_word hw
      have hu := hr.trans htakes.cut
      split
      · next v hcolon =>
        have hkey := ih.inherited.taken .propertyName hr htakes
        exact (ih.patternElement v (hu.trans (cut_mark (by decide) hcolon))).giving fun p hp =>
          ih.inherited.of_children rfl (by simp [Node.children, hkey, hp])
      · split
        · exact .nil
        · exact ih.defaulted _ u hu (named ih.inherited hr htakes)

end ReadersDraw

theorem readersDraw {cs : List Char} {P : Node → Prop} (hP : Inherited cs P) (fuel : Nat) :
    ReadersDraw cs P fuel := by
  induction fuel with
  | zero =>
    constructor
    · exact hP
    all_goals
      intros
      exact .nil
  | succ fuel ih =>
    exact
      { inherited := hP
        expression := fun _ => ih.expression_succ
        arrowHead := fun _ => ih.arrowHead_succ
        ternary := fun _ => ih.ternary_succ
        joined := fun level _ => ih.joined_succ level
        joinedTail := fun level _ _ => ih.joinedTail_succ level
        power := fun _ => ih.power_succ
        unary := fun _ => ih.unary_succ
        update := fun _ => ih.update_succ
        operand := fun _ => ih.operand_succ
        construction := fun _ => ih.construction_succ
        memberLinks := fun _ _ => ih.memberLinks_succ
        links := fun _ _ => ih.links_succ
        optionalLink := fun _ _ => ih.optionalLink_succ
        element := fun _ => ih.element_succ
        objectMember := fun _ => ih.objectMember_succ
        primary := fun _ => ih.primary_succ
        functionRest := fun _ => ih.functionRest_succ
        patternElement := fun _ => ih.patternElement_succ
        defaulted := fun _ _ => ih.defaulted_succ
        bindingTarget := fun _ => ih.bindingTarget_succ
        objectPatternItem := fun _ => ih.objectPatternItem_succ }

/-- No reader leaves more of a text than it was given. -/
theorem readersLeave (cs : List Char) (fuel : Nat) : ReadersDraw cs (fun _ => True) fuel :=
  readersDraw ⟨fun _ _ => trivial, fun _ => trivial⟩ fuel

theorem Outcomes.Draws.whole {os : Outcomes Node} {cs : List Char} {P : Node → Prop} {x : Node}
    (h : os.Draws cs P) (hx : whole? os = some x) : P x := by
  obtain ⟨o, ho, rfl⟩ := Option.map_eq_some_iff.1 hx
  exact (h o (List.mem_of_find?_eq_some ho)).2

/-- The tokens of an expression stand in its text. -/
theorem drawn_of_parseExpression {text : String} {x : Node} (h : parseExpression text = .ok x) :
    Drawn text.toList x := by
  unfold parseExpression at h
  split at h
  · cases h
  · split at h
    · next hx =>
      cases h
      exact ((readersDraw (inherited_drawn _) _).expression _ (.refl _)).whole hx
    · cases h

/-- The tokens of a pattern stand in its text. -/
theorem drawn_of_parsePattern {text : String} {x : Node} (h : parsePattern text = .ok x) :
    Drawn text.toList x := by
  unfold parsePattern at h
  split at h
  · cases h
  · split at h
    · next hx =>
      cases h
      exact ((readersDraw (inherited_drawn _) _).patternElement _ (.refl _)).whole hx
    · cases h

end Comprehend.Parser
