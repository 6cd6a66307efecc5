import Comprehend.Proofs.Graft.Readers
import Comprehend.Proofs.Syntax.Arrow

/-! # Expressions side by side

The head of an arrow function is read in both runs or in none, but for a pattern whose default only
the second run reads. Then what the first run reads in parentheses leaves the arrow standing behind
them, and nothing comes of it. -/

namespace Comprehend

open Comprehend.Text Comprehend.Lexeme Comprehend.Parser

namespace Grafting

variable {G : Grafting} {fuel fuel' : Nat} {gs : List Graft} {front cs cs' : List Char}

theorem alike_arrow {F : List Char → Prop} :
    Alike (G.Place F) (G.Place Anywhere) (mark "=>") :=
  alike_averse (by decide) fun _ => trivial

namespace ReadersFollow

variable (ih : G.ReadersFollow fuel fuel')
include ih

theorem arrowHead_succ : G.Follows (G.Plains Anywhere) (G.AllLost never) (PutNodes G.put) (fuel + 1)
    (fuel' + 1) (Parser.arrowHead (fuel + 1)) (Parser.arrowHead (fuel' + 1)) := by
  change G.Follows _ _ _ _ _ (fun r => _) fun r => _
  simp only [Parser.arrowHead]
  refine Follows.succ (.mark (alike_mark_anywhere (by decide)) ?_ ?_)
  · refine .scan alike_plainName .nil fun w => ?_
    refine Follows.closedBy (L := G.AllLost never) (.one ?_) (by decide) (by decide) (by decide)
      fun xs r u h _ => h
    exact .refl rfl
  · exact ((itemsFollow_patternElement ih).itemsTo closing_round).closedBy (by decide) (by decide)
      (by decide) fun xs r u h _ => h

omit ih in
/-- Where the second run alone finds the head of an arrow function, it reads no operand there but one
that is left in front of the arrow. -/
theorem arrowed_of_headless (hp : G.Plains Anywhere gs cs cs')
    (hnil : Parser.arrowHead (fuel + 1) cs = []) (hhead : Parser.arrowHead fuel' cs' ≠ []) (k : Nat) :
    (Parser.ternary k cs').Stay Arrowed := by
  cases hopen : mark "(" cs' with
  | some r => exact ternary_of_head hopen hhead k
  | none =>
    exfalso
    have hparen : Alike (G.Plains Anywhere) (G.Place Anywhere) (mark "(") :=
      alike_mark (by decide) fun _ => trivial
    have hown : mark "(" cs = none := (hparen.eq_none_iff hp).2 hopen
    -- the name in front of the arrow is the same in both
    cases fuel' with
    | zero => exact hhead rfl
    | succ fuel' =>
      have hname := alike_plainName hp
      rw [Parser.arrowHead, hopen] at hhead
      rw [Parser.arrowHead, hown] at hnil
      generalize plainName cs = p, plainName cs' = p' at hname hnil hhead
      cases hname with
      | none => exact hhead rfl
      | @some p p' hr =>
        obtain ⟨w, r⟩ := p
        obtain ⟨w', r'⟩ := p'
        obtain ⟨rfl, hplace⟩ := hr
        have harrow := alike_arrow hplace
        simp only [Outcomes.closedBy, andThen_one] at hnil hhead
        generalize mark "=>" r = a, mark "=>" r' = a' at harrow hnil hhead
        cases harrow with
        | none => exact hhead rfl
        | some _ => cases hnil

theorem expression_succ : G.Follows (G.Place Anywhere) (G.Lost Stalled) (PutNode G.put) (fuel + 1)
    (fuel' + 1) (Parser.expression (fuel + 1)) (Parser.expression (fuel' + 1)) := by
  intro gs cs cs' hp hfuel
  have hweight : fuel + Graft.weight gs ≤ fuel' := by omega
  have hternary := ih.ternary hp hweight
  rw [Parser.expression, Parser.expression]
  rcases hp.plains_or_tagged with hp | ⟨front, -, ht⟩
  · have hheads := ih.arrowHead hp hweight
    have hspoiled (params : List Node) (r : List Char) (hl : G.AllLost never params r) :
        ∀ o ∈ (Parser.expression fuel r).giving (.arrow params ·), G.Lost Stalled o.1 o.2 := by
      intro o ho
      obtain ⟨body, -, heq⟩ := mem_giving.1 ho
      obtain ⟨x, hx, hs⟩ := hl.resolve_right False.elim
      rw [← heq]
      exact .inl ((hs.child (y := .params params) (by simpa [Node.children] using hx)).child
        (by simp [Node.children]))
    cases hown : Parser.arrowHead fuel cs with
    | nil =>
      cases hother : Parser.arrowHead fuel' cs' with
      | nil => exact hternary
      | cons o' os' =>
        -- whatever is read in place of the head is lost
        refine .of_lost (fun o ho => ?_) _
        cases fuel with
        | zero => cases ho
        | succ fuel =>
          rcases hternary.lost_or_met o ho with hl | ⟨p, hmem, hi⟩
          · exact hl
          · obtain ⟨done, ahead, -, -, hplace⟩ := hi
            have hhead : Parser.arrowHead fuel' cs' ≠ [] := hother ▸ List.cons_ne_nil o' os'
            obtain ⟨u, hu⟩ := arrowed_of_headless hp hown hhead _ p hmem
            refine .inr (.inr (Option.ne_none_iff_exists'.1 fun hnone => ?_))
            rw [(alike_arrow.eq_none_iff hplace).1 hnone] at hu
            cases hu
    | cons o os =>
      rw [hown] at hheads
      cases hother : Parser.arrowHead fuel' cs' with
      | nil =>
        rw [hother] at hheads
        refine .of_lost (fun p hmem => ?_) _
        obtain ⟨params, r, hparams, hmem⟩ := mem_andThen.1 hmem
        exact hspoiled params r (hheads.lost_of_nil _ hparams) p hmem
      | cons o' os' =>
        rw [hother] at hheads
        refine kept_andThen hheads hweight hspoiled fun m params params' hparams => ?_
        exact (ih.expression.from fun _ _ _ hp => hp.anywhere).giving
          (fun body r hl => hl.child (by simp [Node.children])) fun n body body' hbody =>
            hparams.within₂ hbody Node.arrow rfl rfl
  · obtain ⟨hown, hother⟩ := ht.headless fuel fuel'
    rw [hown, hother]
    exact hternary

end ReadersFollow

/-- What the readers read of a text they read again with pieces put in, if they have fuel enough. -/
theorem readersFollow (G : Grafting) (fuel fuel' : Nat) : G.ReadersFollow fuel fuel' := by
  induction fuel using Nat.strong_induction_on generalizing fuel' with
  | _ fuel ih =>
    cases fuel with
    | zero => constructor <;> intros <;> intro _ _ _ _ _ <;> exact .empty _
    | succ fuel =>
      cases fuel' with
      | zero => constructor <;> intros <;> intro _ _ _ _ hfuel <;> omega
      | succ fuel' =>
        have h := ih fuel (by omega) fuel'
        have hprev (f : Nat) (hf : fuel = f + 1) (k : Nat) : G.ReadersFollow f k := ih f (by omega) k
        exact
          { expression := h.expression_succ
            arrowHead := h.arrowHead_succ
            ternary := h.ternary_succ
            joined := h.joined_succ
            joinedTail := h.joinedTail_succ
            power := h.power_succ
            unary := h.unary_succ
            update := h.update_succ
            operand := ReadersFollow.operand_succ hprev h
            construction := h.construction_succ
            memberLinks := h.memberLinks_succ
            links := h.links_succ
            optionalLink := h.optionalLink_succ
            element := h.element_succ
            objectMember := h.objectMember_succ
            primary := h.primary_succ
            functionRest := h.functionRest_succ
            patternElement := h.patternElement_succ
            defaulted := h.defaulted_succ
            bindingTarget := h.bindingTarget_succ
            objectPatternItem := h.objectPatternItem_succ }

end Grafting

end Comprehend
