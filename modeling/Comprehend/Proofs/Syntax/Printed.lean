import Comprehend.Proofs.Syntax.Formed
import Comprehend.Syntax.Labelled

/-! # The text of a tree

The pieces that a tree is printed as make up its text, and each rule of the printer is a way to put
texts together. What binds too loosely for its place stands in parentheses. -/

namespace Comprehend

open Comprehend.Parser

namespace Layout

/-- The text of some pieces. -/
def chars (ps : List Piece) : List Char := (plain ps).toList

@[simp] theorem chars_nil : chars [] = [] := rfl

@[simp] theorem chars_text (s : String) (ps : List Piece) :
    chars (.text s :: ps) = s.toList ++ chars ps := by
  simp [chars, plain]

@[simp] theorem chars_checkpoint (ps : List Piece) : chars (.checkpoint :: ps) = chars ps := rfl

@[simp] theorem chars_append (ps qs : List Piece) : chars (ps ++ qs) = chars ps ++ chars qs := by
  induction ps with
  | nil => rfl
  | cons p ps ih =>
    cases p with
    | text s => simp [ih]
    | checkpoint => simpa using ih
    | refuse fault => exact ih

@[simp] theorem chars_parenthesized (ps : List Piece) :
    chars (parenthesized ps) = parens (chars ps) := by
  simp [parenthesized, parens]

theorem chars_slot (p : Nat) (x : Node) (ps : List Piece) :
    chars (slot p x ps) = if x.precedence < p then parens (chars ps) else chars ps := by
  unfold slot
  split <;> simp

theorem two_le_precedence (x : Node) : 2 ≤ x.precedence := by
  cases x <;> simp only [Node.precedence, Precedence.assignment, Precedence.power, Precedence.unary,
    Precedence.postfixUpdate, Precedence.link, Precedence.primary] <;> try omega
  · next op _ _ => cases op <;> decide
  · next group _ _ _ => cases group <;> decide

@[simp] theorem chars_slot_assignment (x : Node) (ps : List Piece) :
    chars (slot Precedence.assignment x ps) = chars ps := by
  have h : ¬ x.precedence < Precedence.assignment := Nat.not_lt.2 (two_le_precedence x)
  rw [chars_slot, if_neg h]

@[simp] theorem chars_slot_zero (x : Node) (ps : List Piece) : chars (slot 0 x ps) = chars ps := by
  rw [chars_slot, if_neg (Nat.not_lt_zero _)]

attribute [local simp] pieces

/-- The text of a tree, its chains printed in a style. -/
def text (style : Option ChainStyle) (x : Node) : List Char := chars (pieces style x)

theorem toList_of_settle {limit : Int} {style : Option ChainStyle} {x : Node} {out : String}
    (h : settle limit (slot 0 x (pieces style x)) = .ok out) : out.toList = text style x := by
  rw [settle_ok h]
  exact chars_slot_zero x _

theorem chars_listed_rest (style : Option ChainStyle) (x : Node) (xs : List Node) :
    chars (listed style false (x :: xs)) = ',' :: ' ' :: commas ((x :: xs).map (text style)) := by
  induction xs generalizing x with
  | nil => simp [listed, commas, text]
  | cons y ys ih =>
    rw [listed, chars_append, ih y]
    simp [commas, text]

@[simp] theorem chars_listed (style : Option ChainStyle) (xs : List Node) :
    chars (listed style true xs) = commas (xs.map (text style)) := by
  cases xs with
  | nil => simp [listed, commas]
  | cons x xs =>
    rw [listed, chars_append]
    cases xs with
    | nil => simp [listed, commas, text]
    | cons y ys =>
      rw [chars_listed_rest]
      simp [commas, text]

theorem chars_braced (style : Option ChainStyle) (xs : List Node) :
    chars (braced xs (listed style true xs)) = braces (xs.map (text style)) := by
  cases xs with
  | nil => simp [braced, braces, braceGap, commas]
  | cons x xs => simp [braced, braces, braceGap]

end Layout

namespace Node

/-- The level that a printed tree is read at. -/
def level : Node → Nat
  | .arrow .. => 0
  | .ternary .. => 1
  | .logical op .. => 2 + logicalLevel op
  | .binary group .. => group.precedence
  | .power .. => 14
  | .unary .. | .prefixUpdate .. => 15
  | .postfixUpdate .. => 16
  | .leaf .number _ => 17
  | .member optional target _ => if optional || target.startsFromCall then 18 else 19
  | .index optional target _ => if optional || target.startsFromCall then 18 else 19
  | .tagged tag _ => if tag.startsFromCall then 18 else 19
  | .call .. => 18
  | .construct .. => 19
  | _ => 20

/-- The level that a tree needs for a slot. -/
def slotLevel (p : Nat) : Nat :=
  if p ≤ 2 then 0 else if p = 3 then 2 else if p ≤ 12 then p else min (p + 1) 17

theorem slotLevel_le {x : Node} {p : Nat} (h : p ≤ x.precedence) : slotLevel p ≤ x.level := by
  unfold slotLevel
  cases x with
  | leaf kind t =>
    cases kind <;> simp only [precedence, Precedence.primary, level] at h ⊢ <;> split_ifs <;> omega
  | logical op lhs rhs =>
    cases op <;> simp only [precedence, LogicalOp.precedence, level, logicalLevel] at h ⊢ <;>
      split_ifs <;> omega
  | binary group op lhs rhs =>
    cases group <;> simp only [precedence, OperatorGroup.precedence, level] at h ⊢ <;>
      split_ifs <;> omega
  | _ =>
    simp only [precedence, Precedence.assignment, Precedence.power, Precedence.unary,
      Precedence.postfixUpdate, Precedence.link, Precedence.primary, level] at h ⊢
    split_ifs <;> omega

/-- What a link may follow is read as the start of an operand. -/
theorem receiver_level {x : Node} (hp : 17 ≤ x.precedence) (hn : x.needsParens = false) :
    (if x.startsFromCall then 18 else 19) ≤ x.level := by
  cases x with
  | leaf kind t => cases kind <;> simp_all [needsParens, startsFromCall, level]
  | logical op lhs rhs => cases op <;> simp [precedence, LogicalOp.precedence] at hp
  | binary group op lhs rhs => cases group <;> simp [precedence, OperatorGroup.precedence] at hp
  | tagged tag template => exact Nat.le_refl _
  | _ => simp_all [needsParens, startsFromCall, level, precedence, Precedence.assignment,
      Precedence.power, Precedence.unary, Precedence.postfixUpdate]

end Node

open Comprehend.Layout

section

variable {x y : Node} {ps : List Piece}

namespace Parser.Reads

theorem slot {p t : Nat} (h : Reads x.level (chars ps) x) (ht : t ≤ Node.slotLevel p) :
    Reads t (chars (Layout.slot p x ps)) x := by
  rw [chars_slot]
  split
  · refine h.parens.mono (ht.trans ?_)
    unfold Node.slotLevel
    split_ifs <;> omega
  · next hp => exact h.mono (ht.trans (Node.slotLevel_le (Nat.not_lt.1 hp)))

theorem receiver (h : Reads x.level (chars ps) x) :
    Reads (if x.startsFromCall then 18 else 19) (chars (Layout.receiver x ps)) x := by
  have hle : (if x.startsFromCall then 18 else 19) ≤ 20 := by split <;> omega
  unfold Layout.receiver
  cases hn : x.needsParens with
  | true => simpa using h.parens.mono hle
  | false =>
    rw [if_neg Bool.false_ne_true, chars_slot]
    by_cases hp : x.precedence < Precedence.link
    · rw [if_pos hp]
      exact h.parens.mono hle
    · rw [if_neg hp]
      exact h.mono (Node.receiver_level (Nat.not_lt.1 hp) hn)

theorem receiver_links (h : Reads x.level (chars ps) x) :
    Reads 18 (chars (Layout.receiver x ps)) x :=
  h.receiver.mono (by split <;> omega)

theorem constructed (h : Reads x.level (chars ps) x) (hn : ∀ t, x ≠ .leaf .number t) :
    Constructs (chars (Layout.constructed x ps)) x := by
  unfold Layout.constructed
  split
  · simpa using h.parens.constructs (by omega)
  · next hc =>
    simp only [Bool.or_eq_true, decide_eq_true_eq, not_or] at hc
    rw [chars_slot_zero]
    have hlevel : 17 ≤ x.level := Node.slotLevel_le (Nat.not_lt.1 hc.2)
    refine h.constructs ?_
    cases hneeds : x.needsParens with
    | false =>
      have := Node.receiver_level (Nat.not_lt.1 hc.2) hneeds
      rwa [if_neg hc.1] at this
    | true =>
      cases x with
      | leaf kind t => cases kind <;> simp_all [Node.needsParens]
      | object members => exact Nat.le_of_ble_eq_true rfl
      | function params body => exact Nat.le_of_ble_eq_true rfl
      | _ => cases hneeds

theorem arrowBody {t : Nat} (h : Reads t (chars ps) y) :
    ∃ t, Reads t (chars (Layout.arrowBody x ps)) y := by
  unfold Layout.arrowBody
  split
  · exact ⟨20, by simpa using h.parens⟩
  · exact ⟨t, by simpa using h⟩

end Parser.Reads

end

/-! ## Trees without arrow functions for defaults -/

namespace Node

/-- A node that occurs in a tree. -/
inductive Within : Node → Node → Prop
  | self (x : Node) : Within x x
  | child {x y z : Node} (h : Within x y) (hy : y ∈ z.children) : Within x z

/-- A node that is a token by itself. Every other kind of node is a shape of its children. -/
def isToken : Node → Bool
  | .token _ => true
  | _ => false

/-- No default in a tree is an arrow function. -/
def PlainDefaults (t : Node) : Prop :=
  ∀ target params body, ¬ Within (.patternDefault target (.arrow params body)) t

theorem PlainDefaults.child {x y : Node} (h : x.PlainDefaults) (hy : y ∈ x.children) :
    y.PlainDefaults := fun _ _ _ hw => h _ _ _ (.child hw hy)

theorem PlainDefaults.of_children {x : Node}
    (hx : ∀ target params body, x ≠ .patternDefault target (.arrow params body))
    (h : ∀ y ∈ x.children, y.PlainDefaults) : x.PlainDefaults := by
  intro target params body hw
  cases hw with
  | self => exact hx _ _ _ rfl
  | child hw hy => exact h _ hy _ _ _ hw

theorem PlainDefaults.token (t : Token) : (Node.token t).PlainDefaults :=
  .of_children nofun (by simp [children])

theorem PlainDefaults.leaf (kind : LeafKind) (t : Token) : (leaf kind t).PlainDefaults :=
  .of_children nofun (by simpa [children] using PlainDefaults.token t)

theorem one_le_level {x : Node} (h : ∀ params body, x ≠ .arrow params body) : 1 ≤ x.level := by
  cases x with
  | arrow params body => exact absurd rfl (h params body)
  | leaf kind t => cases kind <;> exact Nat.le_of_ble_eq_true rfl
  | logical op lhs rhs => cases op <;> exact Nat.le_of_ble_eq_true rfl
  | binary group op lhs rhs => cases group <;> exact Nat.le_of_ble_eq_true rfl
  | member optional target name | index optional target key =>
    simp only [level]
    split <;> omega
  | tagged tag template =>
    simp only [level]
    split <;> omega
  | _ => exact Nat.le_of_ble_eq_true rfl

theorem PlainDefaults.default {target x : Node} (h : (Node.patternDefault target x).PlainDefaults) :
    1 ≤ x.level :=
  one_le_level fun params body hx => h target params body (hx ▸ .self _)

end Node

end Comprehend
