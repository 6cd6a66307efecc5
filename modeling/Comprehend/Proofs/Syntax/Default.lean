import Comprehend.Proofs.Syntax.Closing

/-! # In front of a default

A list of patterns is made of names, brackets and a few marks as far as its first default, and no
token of an expression has the equal sign in it that stands there. So no expression is read over
that sign, and a parenthesis in front of a list of patterns is closed behind the list or not at all.
Nor is an expression read over a closing parenthesis behind such a list, since none is opened in it.
-/

namespace Comprehend.Parser

open Comprehend.Text Comprehend.Lexeme

/-- The characters of names and numerals, the brackets and the marks of patterns, and blanks. -/
def isBinding (c : Char) : Bool :=
  isNamePart c || isBlank c || "[]\x7b\x7d,:.".toList.contains c

/-- Nothing, or an equal sign that is no part of an operator or an arrow. -/
def Default (b : List Char) : Prop :=
  b = [] ∨ ∃ u, b = '=' :: u ∧ startsWith (fun c => c == '=' || c == '>') u = false

/-- A default, or a closing parenthesis. -/
def Halts (b : List Char) : Prop := Default b ∨ ∃ u, b = ')' :: u

/-- Nothing stands in front of a text but what can stand in front of the first default. -/
def Ahead (b cs : List Char) : Prop := ∃ v, cs = v ++ b ∧ ∀ c ∈ v, isBinding c = true

/-- Texts of which names, brackets and marks can be taken off. -/
def PastNames (S : List Char → Prop) : Prop :=
  ∀ t u, (∀ c ∈ t, isBinding c = true) → S (t ++ u) → S u

section

variable {b cs q r t u w : List Char} {S : List Char → Prop}

theorem isBinding_of_isNamePart {c : Char} (h : isNamePart c = true) : isBinding c = true := by
  simp [isBinding, h]

theorem isBinding_of_isBlank {c : Char} (h : isBlank c = true) : isBinding c = true := by
  simp [isBinding, h]

theorem Ahead.refl (b : List Char) : Ahead b b := ⟨[], rfl, by simp⟩

theorem Ahead.of_append (ht : ∀ c ∈ t, isBinding c = true) (u : List Char) : Ahead u (t ++ u) :=
  ⟨t, rfl, ht⟩

theorem Ahead.trans (h : Ahead q cs) (h' : Ahead b q) : Ahead b cs := by
  obtain ⟨v, rfl, hv⟩ := h
  obtain ⟨v', rfl, hv'⟩ := h'
  exact ⟨v ++ v', (List.append_assoc ..).symm, List.forall_mem_append.2 ⟨hv, hv'⟩⟩

theorem ahead_skipBlanks (r : List Char) : Ahead (skipBlanks r) r :=
  ⟨r.takeWhile isBlank, List.takeWhile_append_dropWhile.symm,
    fun _ hc => isBinding_of_isBlank (List.mem_takeWhile_imp hc)⟩

theorem ahead_of_mark {s : String} (hs : s.toList.all isBinding = true) (h : mark s r = some u) :
    Ahead u r := by
  have hskip := append_of_after h
  exact (ahead_skipBlanks r).trans (hskip ▸ .of_append (List.all_eq_true.1 hs) u)

/-! ## Taking names and marks off -/

namespace PastNames

variable (hS : PastNames S)
include hS

theorem skipBlanks (h : S r) : S (skipBlanks r) := by
  obtain ⟨v, hv, hblanks⟩ := ahead_skipBlanks r
  rw [hv] at h
  exact hS v _ hblanks h

theorem after {s : String} (hs : s.toList.all isBinding = true) (h : S r)
    (hu : after s r = some u) : S u := by
  rw [append_of_after hu] at h
  exact hS s.toList u (List.all_eq_true.1 hs) h

theorem mark {s : String} (hs : s.toList.all isBinding = true) (h : S r)
    (hu : mark s r = some u) : S u := hS.after hs (hS.skipBlanks h) hu

theorem keyword {s : String} (hs : s.toList.all isBinding = true) (h : S r)
    (hu : keyword s (Text.skipBlanks r) = some u) : S u :=
  hS.mark hs h (Option.filter_eq_some_iff.1 hu).1

theorem word (h : S r) (hu : word (Text.skipBlanks r) = some (w, u)) : S u := by
  refine hS w u (fun c hc => isBinding_of_isNamePart ?_) (append_of_word hu ▸ hS.skipBlanks h)
  obtain ⟨d, t, rfl, hd, ht⟩ := word_eq_some hu
  rcases List.mem_cons.1 hc with rfl | hc
  · exact isNamePart_of_isNameStart hd
  · exact ht c hc

theorem plainName (h : S r) (hu : plainName r = some (w, u)) : S u :=
  hS.word h (plainName_eq_some hu).1

theorem member (h : S r)
    (hu : ((Parser.mark "." r).bind fun v => Lexeme.word (Text.skipBlanks v)) = some (w, u)) :
    S u := by
  obtain ⟨v, hdot, hw⟩ := Option.bind_eq_some_iff.1 hu
  exact hS.word (hS.mark (by decide) h hdot) hw

end PastNames

/-! ## Texts in front of a default -/

theorem halts_cases (hb : Halts b) : b = [] ∨ ∃ c u, b = c :: u ∧ (c = '=' ∨ c = ')') := by
  rcases hb with (rfl | ⟨u, rfl, -⟩) | ⟨u, rfl⟩
  · exact .inl rfl
  · exact .inr ⟨'=', u, rfl, .inl rfl⟩
  · exact .inr ⟨')', u, rfl, .inr rfl⟩

/-- A text is taken off in front of a default if it has neither of the characters to stop at. -/
theorem Ahead.of_taken (hb : Halts b) (h : Ahead b (t ++ u)) (ht : ∀ c ∈ t, c ≠ '=' ∧ c ≠ ')') :
    Ahead b u := by
  obtain ⟨v, heq, hv⟩ := h
  rcases List.append_eq_append_iff.1 heq with ⟨v', rfl, rfl⟩ | ⟨t', rfl, hu⟩
  · exact ⟨v', rfl, fun c hc => hv c (List.mem_append_right _ hc)⟩
  · rcases halts_cases hb with rfl | ⟨c, d, rfl, hc⟩
    · obtain ⟨-, rfl⟩ := List.append_eq_nil_iff.1 hu.symm
      exact .refl []
    · cases t' with
      | nil => exact ⟨[], hu.symm, by simp⟩
      | cons a t' =>
        obtain ⟨rfl, -⟩ := List.cons.inj hu
        have hfree := ht c (List.mem_append_right v List.mem_cons_self)
        exact (hc.elim hfree.1 hfree.2).elim

theorem pastNames_ahead (hb : Halts b) : PastNames (Ahead b) := fun t u ht h =>
  h.of_taken hb fun c hc => by
    constructor <;>
    · rintro rfl
      exact absurd (ht _ hc) (by decide)

/-- What starts neither a name or bracket nor a default, and is no closing parenthesis. -/
def isForeign (s : String) : Bool :=
  match s.toList with
  | '=' :: c :: _ => c == '=' || c == '>'
  | a :: _ => !isBinding a && a != '=' && a != ')'
  | [] => false

/-- What comes next in front of a default or a closing parenthesis. -/
theorem Ahead.next (hb : Halts b) (h : Ahead b cs) :
    cs = [] ∨ (∃ c u, cs = c :: u ∧ (isBinding c = true ∨ c = ')')) ∨
      ∃ u, cs = '=' :: u ∧ startsWith (fun c => c == '=' || c == '>') u = false := by
  obtain ⟨v, rfl, hv⟩ := h
  cases v with
  | nil =>
    rcases hb with hb | ⟨u, rfl⟩
    · exact hb.imp id .inr
    · exact .inr (.inl ⟨')', u, rfl, .inr rfl⟩)
  | cons c v => exact .inr (.inl ⟨c, v ++ b, rfl, .inl (hv c List.mem_cons_self)⟩)

theorem Ahead.ne_cons (hb : Halts b) (h : Ahead b cs) {c : Char}
    (hc : c ∈ ['(', '/', '\x60', '\'', '"']) (u : List Char) : cs ≠ c :: u := by
  rintro rfl
  rcases h.next hb with h | ⟨d, v, h, hd⟩ | ⟨v, h, -⟩
  · cases h
  · cases h
    fin_cases hc <;> rcases hd with hd | hd <;> cases hd
  · cases h
    revert hc
    decide

theorem Ahead.template_eq_none (hb : Halts b) (h : Ahead b cs) : template cs = none := by
  unfold template
  split
  · exact absurd rfl (h.ne_cons hb (by decide) _)
  · rfl

theorem Ahead.string_eq_none (hb : Halts b) (h : Ahead b cs) : string cs = none := by
  unfold string
  split
  · exact absurd rfl (h.ne_cons hb (by decide) _)
  · exact absurd rfl (h.ne_cons hb (by decide) _)
  · rfl

theorem Ahead.after_eq_none (hb : Halts b) (h : Ahead b cs) {s : String}
    (hs : isForeign s = true) : after s cs = none := by
  cases hafter : after s cs with
  | none => rfl
  | some u =>
    have hcs := append_of_after hafter
    unfold isForeign at hs
    split at hs
    · next c as heq =>
      -- an equal sign that goes on as no default does
      rw [heq, List.cons_append, List.cons_append] at hcs
      rcases h.next hb with rfl | ⟨d, u', rfl, hd⟩ | ⟨u', rfl, hu'⟩
      · cases hcs
      · cases hcs
        rcases hd with hd | hd <;> cases hd
      · cases hcs
        rw [startsWith, hs] at hu'
        cases hu'
    · next a as hne heq =>
      rw [heq, List.cons_append] at hcs
      simp only [Bool.and_eq_true, Bool.not_eq_true', bne_iff_ne] at hs
      rcases h.next hb with rfl | ⟨d, u', rfl, hd⟩ | ⟨u', rfl, -⟩
      · cases hcs
      · cases hcs
        rcases hd with hd | hd
        · rw [hs.1.1] at hd
          cases hd
        · exact absurd hd hs.2
      · cases hcs
        exact absurd rfl hs.1.2
    · cases hs

theorem Ahead.mark_eq_none (hb : Halts b) (h : Ahead b cs) {s : String}
    (hs : isForeign s = true) : mark s cs = none :=
  ((pastNames_ahead hb).skipBlanks h).after_eq_none hb hs

theorem Ahead.anyOf_eq_none (hb : Halts b) (h : Ahead b cs) {spellings : List String}
    (hs : spellings.all isForeign = true) : anyOf spellings cs = none := by
  refine List.findSome?_eq_none_iff.2 fun s hmem => ?_
  rw [h.after_eq_none hb (List.all_eq_true.1 hs s hmem), Option.map_none]

end

/-! ## What is left -/

/-- Every outcome leaves a text of some kind. -/
def Outcomes.Stay (os : Outcomes α) (S : List Char → Prop) : Prop := ∀ o ∈ os, S o.2

namespace Outcomes.Stay

variable {S : List Char → Prop} {os : Outcomes α} {r : List Char}

theorem nil : Outcomes.Stay ([] : Outcomes α) S := fun _ h => absurd h List.not_mem_nil

theorem one (x : α) (h : S r) : (Parser.one x r).Stay S := fun o ho => by
  obtain rfl := List.mem_singleton.1 ho
  exact h

theorem giving (h : os.Stay S) (f : α → β) : (os.giving f).Stay S := by
  intro o ho
  obtain ⟨x, hx, -⟩ := mem_giving.1 ho
  exact h _ hx

theorem andThen {f : α → List Char → Outcomes β} (h : os.Stay S)
    (hf : ∀ x r, S r → (f x r).Stay S) : (os.andThen f).Stay S := by
  intro o ho
  obtain ⟨x, r, hx, ho⟩ := mem_andThen.1 ho
  exact hf x r (h _ hx) o ho

variable (hS : PastNames S)
include hS

theorem closedBy {s : String} (hs : s.toList.all isBinding = true) (h : os.Stay S) :
    (os.closedBy s).Stay S := by
  intro o ho
  obtain ⟨r, hx, hclose⟩ := mem_closedBy.1 ho
  exact hS.mark hs (h _ hx) hclose

variable {item : List Char → Outcomes α} (hitem : ∀ r, S r → (item r).Stay S)
include hitem

theorem items (more : Nat) (hr : S r) : (items item more r).Stay S := by
  induction more generalizing r with
  | zero => exact .nil
  | succ more ih =>
    refine (hitem r hr).andThen fun x u hu => ?_
    split
    · exact .one _ hu
    · next v hcomma =>
      split
      · exact .one _ hu
      · exact (ih (hS.mark (by decide) hu hcomma)).giving _

theorem itemsTo {close : String} (hc : close.toList.all isBinding = true) (hr : S r) :
    (itemsTo close item r).Stay S := by
  rw [Parser.itemsTo]
  split
  · next u hclose => exact .one _ (hS.mark hc hr hclose)
  · exact (items hS hitem _ hr).closedBy hS hc

theorem itemsToSpare {close : String} (hc : close.toList.all isBinding = true) (hr : S r) :
    (itemsToSpare close item r).Stay S := by
  rw [Parser.itemsToSpare]
  split
  · next u hclose => exact .one _ (hS.mark hc hr hclose)
  · split
    · next u hspare =>
      obtain ⟨v, hcomma, hclose⟩ := Option.bind_eq_some_iff.1 hspare
      exact .one _ (hS.mark hc (hS.mark (by decide) hr hcomma) hclose)
    · refine (items hS hitem _ hr).andThen fun xs u hu => ?_
      split
      · next v hclose =>
        refine .one _ (hS.mark hc ?_ hclose)
        cases hcomma : mark "," u with
        | none => exact hu
        | some w => exact hS.mark (by decide) hu hcomma
      · exact .nil

end Outcomes.Stay

/-! ## Expressions in front of a default -/

/-- The readers of expressions stay in front of a default or a closing parenthesis. -/
structure ReadersStay (b : List Char) (fuel : Nat) : Prop where
  expression : ∀ r, Ahead b r → (expression fuel r).Stay (Ahead b)
  ternary : ∀ r, Ahead b r → (ternary fuel r).Stay (Ahead b)
  joined : ∀ level r, Ahead b r → (joined fuel level r).Stay (Ahead b)
  joinedTail : ∀ level x r, Ahead b r → (joinedTail fuel level x r).Stay (Ahead b)
  power : ∀ r, Ahead b r → (power fuel r).Stay (Ahead b)
  unary : ∀ r, Ahead b r → (unary fuel r).Stay (Ahead b)
  update : ∀ r, Ahead b r → (update fuel r).Stay (Ahead b)
  operand : ∀ r, Ahead b r → (operand fuel r).Stay (Ahead b)
  construction : ∀ r, Ahead b r → (construction fuel r).Stay (Ahead b)
  memberLinks : ∀ x r, Ahead b r → (memberLinks fuel x r).Stay (Ahead b)
  links : ∀ x r, Ahead b r → (links fuel x r).Stay (Ahead b)
  element : ∀ r, Ahead b r → (element fuel r).Stay (Ahead b)
  objectMember : ∀ r, Ahead b r → (objectMember fuel r).Stay (Ahead b)
  primary : ∀ r, Ahead b r → (primary fuel r).Stay (Ahead b)

section

variable {b r u : List Char} (hb : Halts b)
include hb

theorem Ahead.arrowHead_eq_nil (h : Ahead b r) (fuel : Nat) : arrowHead fuel r = [] := by
  cases fuel with
  | zero => rfl
  | succ fuel =>
    rw [arrowHead, h.mark_eq_none hb (by decide)]
    simp only
    split
    · next w u hw =>
      have hu : Ahead b u := (pastNames_ahead hb).plainName h hw
      rw [Outcomes.closedBy, andThen_one, hu.mark_eq_none hb (by decide)]
    · rfl

theorem Ahead.jointAt (h : Ahead b r) {level : Nat} {joint : Joint}
    (hj : jointAt level r = some (joint, u)) : Ahead b u := by
  have hskip := (pastNames_ahead hb).skipBlanks h
  have hlogical {op : LogicalOp} {s : String} (hs : isForeign s = true)
      (hj : logicalAt op s (skipBlanks r) = some (joint, u)) : Ahead b u := by
    rw [logicalAt, hskip.after_eq_none hb hs] at hj
    cases hj
  have hbinary {group : OperatorGroup} (hj : binaryAt group (skipBlanks r) = some (joint, u)) :
      Ahead b u := by
    have hforeign {spellings : List String} {p : String × List Char}
        (hop : anyOf spellings (skipBlanks r) = some p) (hs : spellings.all isForeign = true) :
        Ahead b u := by
      rw [hskip.anyOf_eq_none hb hs] at hop
      cases hop
    obtain ⟨⟨op, u'⟩, hop, hj⟩ := Option.map_eq_some_iff.1 hj
    cases hj
    cases group with
    | relational =>
      -- the words are the only operators here
      rcases Option.or_eq_some_iff.1 hop with hop | ⟨-, hop⟩
      · obtain ⟨s, hs, hop⟩ := List.exists_of_findSome?_eq_some hop
        obtain ⟨v, hv, hop⟩ := Option.map_eq_some_iff.1 hop
        cases hop
        have hwords : ∀ t ∈ ["instanceof", "in"], t.toList.all isBinding = true := by decide
        exact (pastNames_ahead hb).keyword (hwords _ hs) h hv
      · exact hforeign hop (by decide)
    | bitOr | bitAnd => exact hforeign (Option.filter_eq_some_iff.1 hop).1 (by decide)
    | _ => exact hforeign hop (by decide)
  unfold Parser.jointAt at hj
  split at hj
  · exact hlogical (by decide) hj
  · exact hlogical (by decide) hj
  · exact hlogical (by decide) hj
  · exact hbinary hj
  · exact hbinary hj
  · exact hbinary hj
  · exact hbinary hj
  · exact hbinary hj
  · exact hbinary hj
  · exact hbinary hj
  · exact hbinary hj
  · cases hj

theorem Ahead.updateAt_eq_none (h : Ahead b r) : updateAt r = none := by
  rw [updateAt, ((pastNames_ahead hb).skipBlanks h).anyOf_eq_none hb (by decide), Option.map_none]

theorem Ahead.unaryAt (h : Ahead b r) {op : Token} (hop : unaryAt r = some (op, u)) :
    Ahead b u := by
  have hsign {c : Char} {v : List Char} (hskip : skipBlanks r = c :: v)
      (hc : isForeign (String.ofList [c]) = true) : Ahead b u := by
    have hnone := h.mark_eq_none hb hc
    rw [mark, hskip, after, String.toList_ofList] at hnone
    simp [List.isPrefixOf?] at hnone
  unfold Parser.unaryAt at hop
  split at hop
  · exact hsign ‹_› (by decide)
  · exact hsign ‹_› (by decide)
  · exact hsign ‹_› (by decide)
  · exact hsign ‹_› (by decide)
  · obtain ⟨s, hs, hop⟩ := List.exists_of_findSome?_eq_some hop
    obtain ⟨v, hv, hop⟩ := Option.map_eq_some_iff.1 hop
    cases hop
    have hwords : ∀ s ∈ ["typeof", "void", "delete"], s.toList.all isBinding = true := by decide
    exact (pastNames_ahead hb).keyword (hwords s hs) h hv

end

namespace ReadersStay

variable {b r : List Char} {fuel : Nat} (hb : Halts b) (ih : ReadersStay b fuel)
include hb ih

theorem expression_succ (h : Ahead b r) : (Parser.expression (fuel + 1) r).Stay (Ahead b) := by
  rw [Parser.expression, h.arrowHead_eq_nil hb]
  exact ih.ternary r h

theorem ternary_succ (h : Ahead b r) : (Parser.ternary (fuel + 1) r).Stay (Ahead b) := by
  rw [Parser.ternary]
  refine (ih.joined 0 r h).andThen fun test u hu => ?_
  rw [hu.mark_eq_none hb (by decide)]
  exact .one test hu

omit hb in
theorem joined_succ (level : Nat) (h : Ahead b r) :
    (Parser.joined (fuel + 1) level r).Stay (Ahead b) := by
  rw [Parser.joined]
  split
  · exact (ih.joined (level + 1) r h).andThen fun lhs => ih.joinedTail level lhs
  · exact ih.power r h

theorem joinedTail_succ (level : Nat) (x : Node) (h : Ahead b r) :
    (Parser.joinedTail (fuel + 1) level x r).Stay (Ahead b) := by
  rw [Parser.joinedTail]
  split
  · exact .one x h
  · next joint u hj =>
    exact (ih.joined (level + 1) u (h.jointAt hb hj)).andThen fun rhs =>
      ih.joinedTail level (joint.build x rhs)

theorem power_succ (h : Ahead b r) : (Parser.power (fuel + 1) r).Stay (Ahead b) := by
  rw [Parser.power]
  split
  · exact ih.unary r h
  · refine (ih.update r h).andThen fun base u hu => ?_
    rw [hu.mark_eq_none hb (by decide)]
    exact .one base hu

theorem unary_succ (h : Ahead b r) : (Parser.unary (fuel + 1) r).Stay (Ahead b) := by
  rw [Parser.unary]
  split
  · next op u hop => exact (ih.unary u (h.unaryAt hb hop)).giving _
  · exact ih.update r h

theorem update_succ (h : Ahead b r) : (Parser.update (fuel + 1) r).Stay (Ahead b) := by
  rw [Parser.update, h.updateAt_eq_none hb]
  refine (ih.operand r h).andThen fun x u hu => ?_
  rw [hu.updateAt_eq_none hb]
  exact .one x hu

theorem operand_succ (h : Ahead b r) : (Parser.operand (fuel + 1) r).Stay (Ahead b) := by
  rw [Parser.operand]
  split
  · next u hnew =>
    refine (ih.construction u ((pastNames_ahead hb).keyword (by decide) h hnew)).andThen
      fun x v hv => ?_
    split
    · exact ih.links x.1 v hv
    · exact .one x.1 hv
  · exact (ih.primary r h).andThen fun x => ih.links x

theorem construction_succ (h : Ahead b r) :
    (Parser.construction (fuel + 1) r).Stay (Ahead b) := by
  rw [Parser.construction]
  refine Outcomes.Stay.andThen ?_ fun x u hu => ?_
  · split
    · next u hnew => exact ih.construction u ((pastNames_ahead hb).keyword (by decide) h hnew)
    · exact (ih.primary r h).giving _
  · split
    · refine (ih.memberLinks x.1 u hu).andThen fun callee v hv => ?_
      rw [hv.mark_eq_none hb (by decide)]
      exact .one _ hv
    · exact .one _ hu

/-- A link by a key in brackets. -/
theorem bracketed {f : Node → List Char → Outcomes Node}
    (hf : ∀ x u, Ahead b u → (f x u).Stay (Ahead b))
    (h : Ahead b r) {u : List Char} (hopen : mark "[" r = some u) :
    (((Parser.expression fuel u).closedBy "]").andThen f).Stay (Ahead b) := by
  have hS := pastNames_ahead hb
  exact ((ih.expression u (hS.mark (by decide) h hopen)).closedBy hS (by decide)).andThen hf

theorem memberLinks_succ (x : Node) (h : Ahead b r) :
    (Parser.memberLinks (fuel + 1) x r).Stay (Ahead b) := by
  rw [Parser.memberLinks]
  split
  · next w u hw => exact ih.memberLinks _ u ((pastNames_ahead hb).member h hw)
  · split
    · next u hopen => exact ih.bracketed hb (fun key => ih.memberLinks _) h hopen
    · rw [((pastNames_ahead hb).skipBlanks h).template_eq_none hb]
      exact .one x h

theorem links_succ (x : Node) (h : Ahead b r) :
    (Parser.links (fuel + 1) x r).Stay (Ahead b) := by
  have hoptional : optionalAt r = none := by
    rw [optionalAt, h.mark_eq_none hb (by decide)]
    rfl
  rw [Parser.links]
  split
  · next w u hw => exact ih.links _ u ((pastNames_ahead hb).member h hw)
  · split
    · next u hopen => exact ih.bracketed hb (fun key => ih.links _) h hopen
    · rw [h.mark_eq_none hb (by decide), ((pastNames_ahead hb).skipBlanks h).template_eq_none hb,
        hoptional]
      exact .one x h

theorem element_succ (h : Ahead b r) : (Parser.element (fuel + 1) r).Stay (Ahead b) := by
  rw [Parser.element]
  split
  · next u hdots => exact (ih.expression u ((pastNames_ahead hb).mark (by decide) h hdots)).giving _
  · exact ih.expression r h

theorem objectMember_succ (h : Ahead b r) :
    (Parser.objectMember (fuel + 1) r).Stay (Ahead b) := by
  have hS := pastNames_ahead hb
  rw [Parser.objectMember]
  split
  · next u hdots => exact (ih.expression u (hS.mark (by decide) h hdots)).giving _
  · rw [(hS.skipBlanks h).string_eq_none hb]
    simp only
    split
    · next w u hw =>
      have hu : Ahead b u := hS.word h hw
      split
      · next v hcolon => exact (ih.expression v (hS.mark (by decide) hu hcolon)).giving _
      · split
        · exact .nil
        · exact .one _ hu
    · exact .nil

omit ih in
theorem wordOutcomes_stay {w u : List Char} (hw : word (skipBlanks r) = some (w, u))
    (h : Ahead b r) : (wordOutcomes w u).Stay (Ahead b) := by
  have hS := pastNames_ahead hb
  have hu : Ahead b u := hS.word h hw
  unfold wordOutcomes
  split
  · exact .one _ hu
  · split
    · exact .nil
    · intro o ho
      rcases List.mem_cons.1 ho with rfl | ho
      · exact hu
      · -- a constant glued to the operator word behind it
        obtain ⟨c, hc, ho⟩ := List.mem_filterMap.1 ho
        obtain ⟨v, hv, ho⟩ := Option.bind_eq_some_iff.1 ho
        split at ho
        · cases ho
          have hnames : ∀ c ∈ constants, c.1.toList.all isBinding = true := by decide
          have hwhole : Ahead b (w ++ u) := append_of_word hw ▸ hS.skipBlanks h
          rw [append_of_after hv, List.append_assoc] at hwhole
          exact hS c.1.toList _ (List.all_eq_true.1 (hnames c hc)) hwhole
        · cases ho

omit ih in
theorem number_stay (h : Ahead b r) (kind : LeafKind) (cls : TokenClass) :
    (leafOutcomes kind cls (number r)).Stay (Ahead b) := by
  unfold leafOutcomes
  split
  · next t u hu =>
    obtain ⟨rfl, hnumeral⟩ := number_pieces hu
    refine .one _ (h.of_taken hb fun c hc => ?_)
    constructor <;>
    · rintro rfl
      exact absurd (hnumeral _ hc) (by decide)
  · exact .nil

theorem primary_succ (h : Ahead b r) : (Parser.primary (fuel + 1) r).Stay (Ahead b) := by
  have hS := pastNames_ahead hb
  have hskip := hS.skipBlanks h
  rw [Parser.primary]
  split
  · exact .nil
  · exact absurd ‹_› (hskip.ne_cons hb (by decide) _)
  · next u hu =>
    exact (Outcomes.Stay.itemsToSpare hS ih.element (by decide)
      (hS.mark (s := "[") (by decide) h (by rw [mark, hu]; rfl))).giving _
  · next u hu =>
    exact (Outcomes.Stay.itemsToSpare hS ih.objectMember (by decide)
      (hS.mark (s := "\x7b") (by decide) h (by rw [mark, hu]; rfl))).giving _
  · exact absurd ‹_› (hskip.ne_cons hb (by decide) _)
  · exact absurd ‹_› (hskip.ne_cons hb (by decide) _)
  · exact absurd ‹_› (hskip.ne_cons hb (by decide) _)
  · exact absurd ‹_› (hskip.ne_cons hb (by decide) _)
  · split
    · next w u hw =>
      split
      · -- no list of parameters comes next
        have hparen : mark "(" u = none := (hS.word h hw).mark_eq_none hb (by decide)
        cases fuel with
        | zero => exact .nil
        | succ fuel =>
          rw [functionRest, hparen]
          exact .nil
      · exact wordOutcomes_stay hb hw h
    · exact number_stay hb hskip _ _

end ReadersStay

theorem readersStay {b : List Char} (hb : Halts b) (fuel : Nat) : ReadersStay b fuel := by
  induction fuel with
  | zero =>
    constructor <;> intros <;> exact .nil
  | succ fuel ih =>
    exact
      { expression := fun _ => ih.expression_succ hb
        ternary := fun _ => ih.ternary_succ hb
        joined := fun level _ => ih.joined_succ level
        joinedTail := fun level x _ => ih.joinedTail_succ hb level x
        power := fun _ => ih.power_succ hb
        unary := fun _ => ih.unary_succ hb
        update := fun _ => ih.update_succ hb
        operand := fun _ => ih.operand_succ hb
        construction := fun _ => ih.construction_succ hb
        memberLinks := fun x _ => ih.memberLinks_succ hb x
        links := fun x _ => ih.links_succ hb x
        element := fun _ => ih.element_succ hb
        objectMember := fun _ => ih.objectMember_succ hb
        primary := fun _ => ih.primary_succ hb }

theorem Ahead.mark_paren_eq_none {b r : List Char} (hb : Default b) (h : Ahead b r) :
    mark ")" r = none := by
  cases hclose : mark ")" r with
  | none => rfl
  | some u =>
    have hskip : skipBlanks r = ')' :: u := append_of_after hclose
    obtain ⟨v, heq, hv⟩ := (pastNames_ahead (.inl hb)).skipBlanks h
    rw [hskip] at heq
    cases v with
    | nil =>
      rcases hb with rfl | ⟨d, rfl, -⟩ <;> cases heq
    | cons c v =>
      obtain ⟨rfl, -⟩ := List.cons.inj heq
      exact absurd (hv ')' List.mem_cons_self) (by decide)

/-- No parenthesis is closed in front of a default. -/
theorem Ahead.expression_closedBy {b r : List Char} (hb : Default b) (h : Ahead b r) (fuel : Nat) :
    (expression fuel r).closedBy ")" = [] := by
  refine List.eq_nil_iff_forall_not_mem.2 fun o ho => ?_
  obtain ⟨u, hu, hclose⟩ := mem_closedBy.1 ho
  rw [((readersStay (.inl hb) fuel).expression r h _ hu).mark_paren_eq_none hb] at hclose
  cases hclose

/-- An expression is not read to the end of a text that a default or a closing parenthesis stands in.
-/
theorem Ahead.skipBlanks_ne_nil {b r : List Char} (hb : Halts b) (hne : b ≠ []) (h : Ahead b r)
    {fuel : Nat} : ∀ o ∈ expression fuel r, skipBlanks o.2 ≠ [] := by
  intro o ho hblank
  obtain ⟨v, heq, -⟩ := (readersStay hb fuel).expression r h o ho
  rcases halts_cases hb with rfl | ⟨c, u, rfl, hc⟩
  · exact hne rfl
  · have hall := List.dropWhile_eq_nil_iff.1 hblank
    have hsolid := hall c (by simp [heq])
    rcases hc with rfl | rfl <;> cases hsolid

/-! ## Patterns up to a default -/

/-- What is left of a text by patterns: either no default has been read, or the text is one in front
of a default. -/
def Passes (cs q : List Char) : Prop :=
  Ahead q cs ∨ ∃ b, b ≠ [] ∧ Default b ∧ Ahead b cs

theorem pastNames_passes (cs : List Char) : PastNames (Passes cs) := fun _ u ht h =>
  h.imp (fun h => h.trans (.of_append ht u)) id

/-- The readers of patterns pass no other text. -/
structure PatternsPass (cs : List Char) (fuel : Nat) : Prop where
  patternElement : ∀ r, Passes cs r → (patternElement fuel r).Stay (Passes cs)
  defaulted : ∀ x r, Passes cs r → (defaulted fuel x r).Stay (Passes cs)
  bindingTarget : ∀ r, Passes cs r → (bindingTarget fuel r).Stay (Passes cs)
  objectPatternItem : ∀ r, Passes cs r → (objectPatternItem fuel r).Stay (Passes cs)

namespace PatternsPass

variable {cs r : List Char} {fuel : Nat}

theorem defaulted_succ (x : Node) (h : Passes cs r) :
    (Parser.defaulted (fuel + 1) x r).Stay (Passes cs) := by
  rw [Parser.defaulted]
  split
  · next u hequal =>
    have hskip : skipBlanks r = '=' :: u := append_of_after hequal
    by_cases hu : startsWith (fun c => c == '=' || c == '>') u = true
    · -- the sign is part of an operator or an arrow, and nothing can be read behind it
      have hdead : ternary fuel u = [] := by
        cases u with
        | nil => cases hu
        | cons c u =>
          have hc : c = '=' ∨ c = '>' := by simpa [startsWith] using hu
          exact (dead (by rcases hc with rfl | rfl <;> decide)
            (skipBlanks_of_ne (by rcases hc with rfl | rfl <;> rfl) u) fuel).ternary
      rw [hdead]
      exact .nil
    · have hdefault : Default ('=' :: u) := .inr ⟨u, rfl, by simpa using hu⟩
      have hpassed : ∃ b, b ≠ [] ∧ Default b ∧ Ahead b cs := by
        rcases h with h | h
        · exact ⟨_, List.cons_ne_nil _ _, hdefault, h.trans (hskip ▸ ahead_skipBlanks r)⟩
        · exact h
      exact fun _ _ => .inr hpassed
  · exact .one x h

variable (ih : PatternsPass cs fuel)
include ih

theorem patternElement_succ (h : Passes cs r) :
    (Parser.patternElement (fuel + 1) r).Stay (Passes cs) := by
  rw [Parser.patternElement]
  split
  · next u hdots =>
    exact (ih.bindingTarget u ((pastNames_passes cs).mark (by decide) h hdots)).giving _
  · exact (ih.bindingTarget r h).andThen fun x => ih.defaulted x

theorem bindingTarget_succ (h : Passes cs r) :
    (Parser.bindingTarget (fuel + 1) r).Stay (Passes cs) := by
  have hS := pastNames_passes cs
  rw [Parser.bindingTarget]
  split
  · next u hopen =>
    exact (Outcomes.Stay.itemsTo hS ih.patternElement (by decide)
      (hS.mark (by decide) h hopen)).giving _
  · split
    · next u hopen =>
      exact (Outcomes.Stay.itemsTo hS ih.objectPatternItem (by decide)
        (hS.mark (by decide) h hopen)).giving _
    · split
      · next w u hw => exact .one _ (hS.plainName h hw)
      · exact .nil

theorem objectPatternItem_succ (h : Passes cs r) :
    (Parser.objectPatternItem (fuel + 1) r).Stay (Passes cs) := by
  have hS := pastNames_passes cs
  rw [Parser.objectPatternItem]
  split
  · next u hdots =>
    split
    · next w v hw => exact .one _ (hS.plainName (hS.mark (by decide) h hdots) hw)
    · exact .nil
  · split
    · exact .nil
    · next w u hw =>
      have hu : Passes cs u := hS.word h hw
      split
      · next v hcolon => exact (ih.patternElement v (hS.mark (by decide) hu hcolon)).giving _
      · split
        · exact .nil
        · exact ih.defaulted _ u hu

end PatternsPass

theorem patternsPass (cs : List Char) (fuel : Nat) : PatternsPass cs fuel := by
  induction fuel with
  | zero => constructor <;> intros <;> exact .nil
  | succ fuel ih =>
    exact ⟨fun _ => ih.patternElement_succ, fun x _ => PatternsPass.defaulted_succ x,
      fun _ => ih.bindingTarget_succ, fun _ => ih.objectPatternItem_succ⟩

theorem itemsTo_passes {cs u : List Char} {fuel : Nat} {xs : List Node}
    (ho : (xs, u) ∈ itemsTo ")" (patternElement fuel) cs) :
    ∃ q, Passes cs q ∧ mark ")" q = some u := by
  have hrefl : Passes cs cs := .inl (.refl cs)
  unfold itemsTo at ho
  split at ho
  · next v hclose =>
    obtain ⟨-, rfl⟩ := Prod.mk.inj (List.mem_singleton.1 ho)
    exact ⟨cs, hrefl, hclose⟩
  · obtain ⟨q, hq, hclose⟩ := mem_closedBy.1 ho
    exact ⟨q, Outcomes.Stay.items (pastNames_passes cs) (patternsPass cs fuel).patternElement _
      hrefl _ hq, hclose⟩

/-! ## A parenthesis that is closed behind a text -/

section

variable {z r q u : List Char} (hz : Closing z)
include hz

theorem Ahead.of_behind (h : Ahead q (r ++ z)) : ∃ r', q = r' ++ z ∧ Ahead r' r := by
  obtain ⟨v, heq, hv⟩ := h
  rcases List.append_eq_append_iff.1 heq with ⟨v', rfl, hz'⟩ | ⟨r', rfl, rfl⟩
  · cases v' with
    | nil => exact ⟨[], hz'.symm, r, (List.append_nil r).symm, by simpa using hv⟩
    | cons c v' =>
      obtain ⟨w, rfl, -⟩ := hz
      obtain ⟨rfl, -⟩ := List.cons.inj hz'
      exact absurd (hv ')' (by simp)) (by decide)
  · exact ⟨r', rfl, v, rfl, hv⟩

/-- Patterns that are read from a text are closed behind a default, behind the whole text, or by a
parenthesis in it. -/
theorem halts_of_closed (hq : Passes (r ++ z) q) (hclose : mark ")" q = some u) :
    (∃ b, Default b ∧ Ahead b r ∧ (b = [] → ')' :: u = z)) ∨
      ∃ v, u = v ++ z ∧ Ahead (')' :: v) r := by
  rcases hq with hq | ⟨b, hne, hb, hahead⟩
  · have hskip : skipBlanks q = ')' :: u := append_of_after hclose
    obtain ⟨r', hr', hahead⟩ := (hq.trans (hskip ▸ ahead_skipBlanks q)).of_behind hz
    cases r' with
    | nil => exact .inl ⟨[], .inl rfl, hahead, fun _ => hr'⟩
    | cons c r' =>
      obtain ⟨rfl, hu⟩ := List.cons.inj hr'
      exact .inr ⟨r', hu, hahead⟩
  · obtain ⟨r', rfl, hown⟩ := hahead.of_behind hz
    refine .inl ⟨r', ?_, hown, ?_⟩
    · cases r' with
      | nil => exact .inl rfl
      | cons c r' =>
        rcases hb with hnil | ⟨d, hd, hstart⟩
        · cases hnil
        · obtain ⟨rfl, rfl⟩ := List.cons.inj hd
          exact .inr ⟨r', rfl, by rwa [← startsWith_closing hz (by decide)]⟩
    · -- what stands behind the text starts no default
      rintro rfl
      obtain ⟨w, rfl, -⟩ := hz
      rcases hb with hnil | ⟨d, hd, -⟩
      · cases hnil
      · cases hd

/-- Where patterns that are read from a text are closed behind it, nothing stands in the text but
what stands in front of a default. -/
theorem ahead_of_closed (hq : Passes (r ++ z) q) (hclose : mark ")" q = some u)
    (hbehind : ∀ v, u ≠ v ++ z) : ∃ b, Default b ∧ Ahead b r := by
  rcases halts_of_closed hz hq hclose with ⟨b, hb, hahead, -⟩ | ⟨v, hv, -⟩
  · exact ⟨b, hb, hahead⟩
  · exact absurd hv (hbehind v)

/-- No operand starts with a parenthesis that behind the text closes the parameters of an arrow
function. -/
theorem ternary_of_head_behind {fuel : Nat} {o : List Node × List Char}
    (ho : o ∈ arrowHead fuel (r ++ z)) (hshort : o.2.length < z.length) (fuel' : Nat) :
    ternary fuel' r = [] := by
  have harrow {v : List Char} (h : mark "=>" (v ++ z) = some o.2) : False := by
    rw [(marks_mark hz (by decide)).behind] at h
    obtain ⟨v', -, hv'⟩ := Option.map_eq_some_iff.1 h
    rw [← hv', List.length_append] at hshort
    omega
  cases fuel with
  | zero => cases ho
  | succ fuel =>
    rw [arrowHead, (marks_mark hz (by decide)).behind] at ho
    cases hopen : mark "(" r with
    | none =>
      rw [hopen, Option.map_none, (scans_plainName hz).behind] at ho
      cases hname : plainName r with
      | none =>
        rw [hname] at ho
        cases ho
      | some p =>
        rw [hname] at ho
        obtain ⟨u, hu, hmark⟩ := mem_closedBy.1 ho
        obtain ⟨-, rfl⟩ := Prod.mk.inj (List.mem_singleton.1 hu)
        exact (harrow hmark).elim
    | some r₁ =>
      rw [hopen] at ho
      obtain ⟨u, hu, hmark⟩ := mem_closedBy.1 ho
      obtain ⟨q, hq, hclose⟩ := itemsTo_passes hu
      obtain ⟨b, hb, hahead⟩ := ahead_of_closed hz hq hclose fun v hv => harrow (hv ▸ hmark)
      have hskip : skipBlanks r = '(' :: r₁ := append_of_after hopen
      refine (noOperand ?_ ?_ ?_ (fun fuel => ?_) fuel').ternary
      · rw [unaryAt, hskip]
        rfl
      · rw [updateAt, hskip]
        rfl
      · rw [hskip]
        rfl
      · cases fuel with
        | zero => rfl
        | succ fuel =>
          rw [primary, hskip]
          exact hahead.expression_closedBy hb fuel

end

end Comprehend.Parser
