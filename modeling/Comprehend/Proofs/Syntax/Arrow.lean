import Comprehend.Proofs.Syntax.Default

/-! # In front of an arrow

The parameters of an arrow function in parentheses are an operand at best with the arrow left behind
it, which no operator or link starts with. -/

namespace Comprehend.Parser

open Comprehend.Text Comprehend.Lexeme

/-- An arrow comes next. -/
def Arrowed (r : List Char) : Prop := ∃ u, mark "=>" r = some u

namespace Arrowed

variable {r : List Char} (h : Arrowed r)
include h

theorem skip : ∃ u, skipBlanks r = '=' :: '>' :: u := by
  obtain ⟨u, hu⟩ := h
  exact ⟨u, append_of_after hu⟩

theorem mark_eq_none {s : String} {a : Char} {as : List Char} (hs : s.toList = a :: as)
    (ha : a ≠ '=') : mark s r = none := by
  obtain ⟨u, hu⟩ := h.skip
  rw [mark, hu, after_of_ne hs ha]

theorem unlinked : Unlinked r := by
  have hoptional : optionalAt r = none := by
    rw [optionalAt, h.mark_eq_none rfl (by decide), Option.filter_none]
  refine ⟨h.mark_eq_none rfl (by decide), h.mark_eq_none rfl (by decide),
    h.mark_eq_none rfl (by decide), ?_, hoptional⟩
  obtain ⟨u, hu⟩ := h.skip
  rw [hu]
  rfl

theorem updateAt_eq_none : updateAt r = none := by
  obtain ⟨u, hu⟩ := h.skip
  rw [updateAt, hu]
  rfl

theorem jointAt_eq_none (level : Nat) : jointAt level r = none := by
  obtain ⟨u, hu⟩ := h.skip
  unfold jointAt
  rw [hu]
  split <;> rfl

theorem links (fuel : Nat) (x : Node) : (links fuel x r).Stay Arrowed := by
  cases fuel with
  | zero => exact .nil
  | succ fuel =>
    have hun := h.unlinked
    rw [Parser.links, hun.dot, hun.bracket, hun.paren, hun.template, hun.optional]
    exact .one x h

theorem joinedTail (fuel level : Nat) (x : Node) : (joinedTail fuel level x r).Stay Arrowed := by
  cases fuel with
  | zero => exact .nil
  | succ fuel =>
    rw [Parser.joinedTail, h.jointAt_eq_none level]
    exact .one x h

end Arrowed

/-- An operand is read up to an arrow, with operators or without. -/
structure UpToArrow (fuel : Nat) (cs : List Char) : Prop where
  ternary : (ternary fuel cs).Stay Arrowed
  joined : ∀ level, (joined fuel level cs).Stay Arrowed
  power : (power fuel cs).Stay Arrowed
  update : (update fuel cs).Stay Arrowed
  operand : (operand fuel cs).Stay Arrowed

theorem upToArrow {cs : List Char} (hunary : unaryAt cs = none) (hupdate : updateAt cs = none)
    (hnew : keyword "new" (skipBlanks cs) = none)
    (hprimary : ∀ fuel, (primary fuel cs).Stay Arrowed) (fuel : Nat) : UpToArrow fuel cs := by
  induction fuel with
  | zero => constructor <;> intros <;> exact .nil
  | succ fuel ih =>
    constructor
    · rw [Parser.ternary]
      refine ih.joined 0 |>.andThen fun x r hr => ?_
      rw [hr.mark_eq_none rfl (by decide)]
      exact .one x hr
    · intro level
      rw [Parser.joined]
      split
      · exact (ih.joined _).andThen fun x r hr => hr.joinedTail fuel level x
      · exact ih.power
    · rw [Parser.power, hunary]
      refine ih.update.andThen fun x r hr => ?_
      rw [hr.mark_eq_none rfl (by decide)]
      exact .one x hr
    · rw [Parser.update, hupdate]
      refine ih.operand.andThen fun x r hr => ?_
      rw [hr.updateAt_eq_none]
      exact .one x hr
    · rw [Parser.operand, hnew]
      exact (hprimary fuel).andThen fun x r hr => hr.links fuel x

/-- A text in parentheses that are closed in front of an arrow. -/
theorem primary_of_params {cs r q u : List Char} (hopen : mark "(" cs = some r) (hq : Passes r q)
    (hclose : mark ")" q = some u) (harrow : Arrowed u) (fuel : Nat) :
    (primary fuel cs).Stay Arrowed := by
  have hskip : skipBlanks cs = '(' :: r := append_of_after hopen
  have hbehind : skipBlanks q = ')' :: u := append_of_after hclose
  cases fuel with
  | zero => exact .nil
  | succ fuel =>
    have hprimary : primary (fuel + 1) cs = (expression fuel r).closedBy ")" := by
      rw [primary, hskip]
      rfl
    rw [hprimary]
    rcases hq with hq | ⟨b, -, hb, hahead⟩
    · have hhalts : Halts (')' :: u) := .inr ⟨u, rfl⟩
      have hstay := (readersStay hhalts fuel).expression r (hq.trans (hbehind ▸ ahead_skipBlanks q))
      intro o ho
      obtain ⟨v, hv, hmark⟩ := mem_closedBy.1 ho
      -- the parenthesis that is closed is the first one that comes next
      obtain ⟨w, hw, hbinding⟩ := (pastNames_ahead hhalts).skipBlanks (hstay _ hv)
      rw [show skipBlanks v = ')' :: o.2 from append_of_after hmark] at hw
      cases w with
      | nil =>
        obtain ⟨-, rfl⟩ := List.cons.inj hw
        exact harrow
      | cons c w =>
        obtain ⟨rfl, -⟩ := List.cons.inj hw
        exact absurd (hbinding ')' List.mem_cons_self) (by decide)
    · rw [hahead.expression_closedBy hb]
      exact .nil

/-- Where parameters in parentheses come next, an operand leaves their arrow standing. -/
theorem ternary_of_head {cs r : List Char} {fuel : Nat} (hopen : mark "(" cs = some r)
    (hhead : arrowHead fuel cs ≠ []) (fuel' : Nat) : (ternary fuel' cs).Stay Arrowed := by
  obtain ⟨o, ho⟩ := List.exists_mem_of_ne_nil _ hhead
  cases fuel with
  | zero => cases ho
  | succ fuel =>
    rw [arrowHead, hopen] at ho
    obtain ⟨u, hu, hmark⟩ := mem_closedBy.1 ho
    obtain ⟨q, hq, hclose⟩ := itemsTo_passes hu
    have hskip : skipBlanks cs = '(' :: r := append_of_after hopen
    refine (upToArrow ?_ ?_ ?_ (primary_of_params hopen hq hclose ⟨_, hmark⟩) fuel').ternary
    · rw [unaryAt, hskip]
      rfl
    · rw [updateAt, hskip]
      rfl
    · rw [hskip]
      rfl

end Comprehend.Parser
