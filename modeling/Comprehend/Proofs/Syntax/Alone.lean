import Comprehend.Proofs.Syntax.Readers

/-! # Arrow functions and objects

Operators and links build other trees, so where an arrow function or an object is what a reader of
operands gives, a primary expression was read: the one stands in parentheses, the other in
parentheses or in braces. -/

namespace Comprehend

open Comprehend.Text Comprehend.Lexeme

/-- An arrow function or an object, which no operator and no link builds. -/
def Node.standsAlone : Node → Bool
  | .arrow _ _ => true
  | .object _ => true
  | _ => false

namespace Parser

/-! ## Trees that no operator and no link builds -/

/-- No outcome is an arrow function or an object. -/
def Outcomes.Built (os : Outcomes Node) : Prop := os.All fun x => x.standsAlone = false

/-- No outcome is an arrow function or an object, unless nothing has gone on from one. -/
def Outcomes.Keep (os : Outcomes Node) (x : Node) (r : List Char) : Prop :=
  ∀ o ∈ os, o.1.standsAlone = true → o = (x, r)

/-- An arrow function or an object that is read is a primary expression. -/
def Outcomes.FromPrimary (os : Outcomes Node) (cs : List Char) : Prop :=
  ∀ o ∈ os, o.1.standsAlone = true → ∃ fuel, o ∈ primary fuel cs

section

variable {f : Node → List Char → Outcomes Node} {os : Outcomes Node} {cs r : List Char} {x : Node}

theorem Outcomes.Built.keep (h : os.Built) (x : Node) (r : List Char) : os.Keep x r := by
  intro o ho hx
  rw [h o ho] at hx
  cases hx

theorem Outcomes.Built.fromPrimary (h : os.Built) (cs : List Char) : os.FromPrimary cs := by
  intro o ho hx
  rw [h o ho] at hx
  cases hx

theorem Outcomes.Keep.built (h : os.Keep x r) (hx : x.standsAlone = false) : os.Built := by
  intro o ho
  by_contra ho'
  rw [Bool.not_eq_false] at ho'
  rw [h o ho ho', hx] at ho'
  cases ho'

theorem keep_one (x : Node) (r : List Char) : (one x r).Keep x r := fun _ ho _ =>
  List.mem_singleton.1 ho

theorem built_giving (os : Outcomes α) {f : α → Node} (hf : ∀ x, (f x).standsAlone = false) :
    (os.giving f).Built := by
  intro o ho
  obtain ⟨x, -, hx⟩ := mem_giving.1 ho
  rw [← hx]
  exact hf x

theorem built_andThen (os : Outcomes α) {f : α → List Char → Outcomes Node}
    (hf : ∀ x r, (f x r).Built) : (os.andThen f).Built := by
  intro o ho
  obtain ⟨x, r, -, ho⟩ := mem_andThen.1 ho
  exact hf x r o ho

theorem Outcomes.FromPrimary.andThen (h : os.FromPrimary cs) (hf : ∀ x r, (f x r).Keep x r) :
    (os.andThen f).FromPrimary cs := by
  intro o ho hx
  obtain ⟨x, r, hr, ho⟩ := mem_andThen.1 ho
  obtain rfl := hf x r o ho hx
  exact h _ hr hx

end

theorem keep_links (fuel : Nat) :
    (∀ x r, (links fuel x r).Keep x r) ∧ ∀ x r, (optionalLink fuel x r).Built := by
  induction fuel with
  | zero => exact ⟨nofun, nofun⟩
  | succ fuel ih =>
    have hnext {x : Node} (hx : x.standsAlone = false) (r : List Char) : (links fuel x r).Built :=
      (ih.1 x r).built hx
    constructor
    · intro x r
      rw [links]
      split
      · exact (hnext rfl _).keep x r
      · split
        · exact (built_andThen _ fun key => hnext rfl).keep x r
        · split
          · exact (built_andThen _ fun args => hnext rfl).keep x r
          · split
            · exact (hnext rfl _).keep x r
            · split
              · exact (ih.2 x _).keep x r
              · exact keep_one x r
    · intro x r
      rw [optionalLink]
      split
      · exact built_andThen _ fun key => hnext rfl
      · split
        · exact built_andThen _ fun args => hnext rfl
        · split
          · exact hnext rfl _
          · exact .nil

theorem keep_joinedTail (fuel level : Nat) (x : Node) (r : List Char) :
    (joinedTail fuel level x r).Keep x r := by
  induction fuel generalizing x r with
  | zero => exact nofun
  | succ fuel ih =>
    rw [joinedTail]
    split
    · exact keep_one x r
    · next joint u hj =>
      have hjoint (rhs : Node) : (joint.build x rhs).standsAlone = false := by cases joint <;> rfl
      exact (built_andThen _ fun rhs v => (ih _ v).built (hjoint rhs)).keep x r

theorem built_construction (fuel : Nat) (r : List Char) :
    ∀ o ∈ construction fuel r, o.1.1.standsAlone = false := by
  cases fuel with
  | zero => exact nofun
  | succ fuel =>
    intro o ho
    rw [construction] at ho
    obtain ⟨x, u, -, ho⟩ := mem_andThen.1 ho
    split at ho
    · obtain ⟨callee, v, -, ho⟩ := mem_andThen.1 ho
      split at ho
      · obtain ⟨args, -, hargs⟩ := mem_giving.1 ho
        rw [← hargs]
        rfl
      · rw [List.mem_singleton.1 ho]
        rfl
    · rw [List.mem_singleton.1 ho]
      rfl

theorem operand_fromPrimary (fuel : Nat) (cs : List Char) : (operand fuel cs).FromPrimary cs := by
  cases fuel with
  | zero => exact nofun
  | succ fuel =>
    rw [operand]
    split
    · next u hnew =>
      refine Outcomes.Built.fromPrimary (fun o ho => ?_) cs
      obtain ⟨x, v, hx, ho⟩ := mem_andThen.1 ho
      have hbuilt := built_construction fuel u _ hx
      split at ho
      · exact ((keep_links fuel).1 x.1 v).built hbuilt o ho
      · rw [List.mem_singleton.1 ho]
        exact hbuilt
    · exact Outcomes.FromPrimary.andThen (fun o ho _ => ⟨fuel, ho⟩) (keep_links fuel).1

theorem update_fromPrimary (fuel : Nat) (cs : List Char) : (update fuel cs).FromPrimary cs := by
  cases fuel with
  | zero => exact nofun
  | succ fuel =>
    rw [update]
    split
    · exact (built_giving _ fun _ => rfl).fromPrimary cs
    · refine (operand_fromPrimary fuel cs).andThen fun x r => ?_
      split
      · intro o ho hx
        rcases List.mem_cons.1 ho with rfl | ho
        · cases hx
        · exact List.mem_singleton.1 ho
      · exact keep_one x r

theorem unary_fromPrimary (fuel : Nat) (cs : List Char) : (unary fuel cs).FromPrimary cs := by
  cases fuel with
  | zero => exact nofun
  | succ fuel =>
    rw [unary]
    split
    · exact (built_giving _ fun _ => rfl).fromPrimary cs
    · exact update_fromPrimary fuel cs

theorem power_fromPrimary (fuel : Nat) (cs : List Char) : (power fuel cs).FromPrimary cs := by
  cases fuel with
  | zero => exact nofun
  | succ fuel =>
    rw [power]
    split
    · exact unary_fromPrimary fuel cs
    · refine (update_fromPrimary fuel cs).andThen fun x r => ?_
      split
      · exact keep_one x r
      · exact (built_giving _ fun _ => rfl).keep x r

theorem joined_fromPrimary (fuel level : Nat) (cs : List Char) :
    (joined fuel level cs).FromPrimary cs := by
  induction fuel generalizing level with
  | zero => exact nofun
  | succ fuel ih =>
    rw [joined]
    split
    · exact (ih (level + 1)).andThen (keep_joinedTail fuel level)
    · exact power_fromPrimary fuel cs

theorem ternary_fromPrimary (fuel : Nat) (cs : List Char) : (ternary fuel cs).FromPrimary cs := by
  cases fuel with
  | zero => exact nofun
  | succ fuel =>
    rw [ternary]
    refine (joined_fromPrimary fuel 0 cs).andThen fun x r => ?_
    split
    · exact keep_one x r
    · exact (built_andThen _ fun yes u => built_giving _ fun _ => rfl).keep x r

theorem built_functionRest (fuel : Nat) (cs : List Char) : (functionRest fuel cs).Built := by
  cases fuel with
  | zero => exact nofun
  | succ fuel =>
    rw [functionRest]
    split
    · exact .nil
    · refine built_andThen _ fun params r => ?_
      split
      · exact .nil
      · refine built_andThen _ fun body u => ?_
        split
        · exact .one _ rfl
        · exact .nil

theorem built_wordOutcomes (w r : List Char) : (wordOutcomes w r).Built := by
  unfold wordOutcomes
  split
  · exact .one _ rfl
  · split
    · exact .nil
    · refine List.forall_mem_cons.2 ⟨rfl, fun o ho => ?_⟩
      obtain ⟨c, -, hc⟩ := List.mem_filterMap.1 ho
      obtain ⟨v, -, hv⟩ := Option.bind_eq_some_iff.1 hc
      split at hv
      · cases hv
        rfl
      · cases hv

/-- An arrow function stands in parentheses, and an object in parentheses or in braces. -/
theorem standsAlone_of_primary {fuel : Nat} {cs q : List Char} {x : Node}
    (h : (x, q) ∈ primary fuel cs) (hx : x.standsAlone = true) :
    (∃ v, v <:+ cs ∧ mark ")" v = some q) ∨
      ∃ u xs fuel, mark "\x7b" cs = some u ∧ x = .object xs ∧
        (xs, q) ∈ itemsToSpare "\x7d" (objectMember fuel) u := by
  have hbuilt {os : Outcomes Node} (hos : os.Built) (h : (x, q) ∈ os) : False := by
    have hfalse : x.standsAlone = false := hos _ h
    rw [hx] at hfalse
    cases hfalse
  have hleaf {kind : LeafKind} {cls : TokenClass} {s : Scan}
      (h : (x, q) ∈ leafOutcomes kind cls s) : False := hbuilt (.leaf fun _ _ _ => rfl) h
  cases fuel with
  | zero => cases h
  | succ fuel =>
    rw [primary] at h
    split at h
    · cases h
    · next r hr =>
      obtain ⟨v, hv, hclose⟩ := mem_closedBy.1 h
      have hsuffix : r <:+ cs :=
        (List.suffix_cons '(' r).trans (hr ▸ List.dropWhile_suffix _)
      exact .inl ⟨v, (((readersLeave r fuel).expression r (.refl r)).leaves _ hv).trans hsuffix,
        hclose⟩
    · exact (hbuilt (built_giving _ fun _ => rfl) h).elim
    · next r hr =>
      obtain ⟨xs, hxs, rfl⟩ := mem_giving.1 h
      exact .inr ⟨r, xs, fuel, by rw [mark, hr]; rfl, rfl, hxs⟩
    · exact (hleaf h).elim
    · exact (hleaf h).elim
    · exact (hleaf h).elim
    · exact (hleaf h).elim
    · split at h
      · split at h
        · exact (hbuilt (built_functionRest _ _) h).elim
        · exact (hbuilt (built_wordOutcomes _ _) h).elim
      · exact (hleaf h).elim

/-! ## How the text of an arrow function or an object ends -/

/-- No list that is read item by item is empty. -/
theorem ne_nil_of_mem_items {item : List Char → Outcomes α} {more : Nat} {r : List Char}
    {o : List α × List Char} (ho : o ∈ items item more r) : o.1 ≠ [] := by
  cases more with
  | zero => cases ho
  | succ more =>
    obtain ⟨x, u, -, ho⟩ := mem_andThen.1 (Agree.items_succ item more r ▸ ho)
    unfold Agree.moreItems at ho
    split at ho
    · rw [List.mem_singleton.1 ho]
      exact List.cons_ne_nil _ _
    · split at ho
      · rw [List.mem_singleton.1 ho]
        exact List.cons_ne_nil _ _
      · obtain ⟨xs, -, hxs⟩ := mem_giving.1 ho
        rw [← hxs]
        exact List.cons_ne_nil _ _

/-- An object without members is two braces, perhaps with a comma between. -/
theorem ahead_of_empty {item : List Char → Outcomes Node} {u q : List Char}
    (h : (([] : List Node), q) ∈ itemsToSpare "\x7d" item u) : Ahead q u := by
  unfold itemsToSpare at h
  split at h
  · next v hclose =>
    cases List.mem_singleton.1 h
    exact ahead_of_mark (by decide) hclose
  · split at h
    · next v hspare =>
      cases List.mem_singleton.1 h
      obtain ⟨v', hcomma, hclose⟩ := Option.bind_eq_some_iff.1 hspare
      exact (ahead_of_mark (by decide) hcomma).trans (ahead_of_mark (by decide) hclose)
    · obtain ⟨xs, v, hxs, h⟩ := mem_andThen.1 h
      split at h
      · cases List.mem_singleton.1 h
        exact absurd rfl (ne_nil_of_mem_items hxs)
      · cases h

/-- A text that ends with a brace has no closing parenthesis with nothing but blanks behind it. -/
theorem not_closed_of_brace {cs v q : List Char} (hlast : cs.getLast? = some '\x7d') (hv : v <:+ cs)
    (hclose : mark ")" v = some q) (hq : skipBlanks q = []) : False := by
  have hskip : skipBlanks v = ')' :: q := append_of_after hclose
  have hsuffix : ')' :: q <:+ cs := (hskip ▸ List.dropWhile_suffix _ : ')' :: q <:+ v).trans hv
  obtain ⟨u, rfl⟩ := hsuffix
  rw [List.getLast?_append_cons] at hlast
  rcases List.mem_cons.1 (List.mem_of_getLast? hlast) with h | h
  · cases h
  · cases List.dropWhile_eq_nil_iff.1 hq _ h

end Parser

end Comprehend
