import Comprehend.Proofs.Graft.Put
import Comprehend.Proofs.Syntax.Links
import Mathlib.Data.List.DropRight

/-! # Texts with templates replaced

A text in which some list-tagged templates are replaced by program texts is set beside the text as
it was. Each of the two can be cut where the other can: behind a character that both have, and behind
a template on the one side and what is put in for it on the other. What stands in front of a template
decides whether the tag is one there. -/

namespace Comprehend

open Comprehend.Text Comprehend.Lexeme Comprehend.Parser

/-- A character that the first one of a mark may go on with. -/
def markTails : List Char := ".>*?|&=<+-".toList

/-- A text that can stand for an operand wherever an operand can stand, with any link behind it. -/
structure Parser.StandsIn (u : List Char) (y : Node) : Prop where
  item : OpensItem u
  spread : ∀ rest, mark "..." (u ++ rest) = none
  head : ∀ fuel rest, arrowHead fuel (u ++ rest) = []
  sign : ∀ rest, unaryAt (u ++ rest) = none ∧ updateAt (u ++ rest) = none
  tail : startsWith markTails.contains u = false
  starts : StartsBefore (fun _ => True) links u y

/-- A list-tagged template and what is put in for it. -/
structure Graft where
  gap : List Char
  template : List Char
  code : List Char
  node : Node

/-- The tag and the template. -/
def Graft.matched (g : Graft) : List Char := listTag.toList ++ (g.gap ++ g.template)

theorem Graft.matched_cons (g : Graft) (r : List Char) :
    g.matched ++ r = 'l' :: ("ist".toList ++ (g.gap ++ (g.template ++ r))) := by
  simp [Graft.matched, listTag]

/-- How much longer a text may take to read with some pieces put in. -/
def Graft.weight (gs : List Graft) : Nat := (gs.map fun g => 32 * g.code.length).sum

/-- What a tag may stand behind: the dots of a spread, but no other dot, and no `new`. -/
def MayStand (front : List Char) : Prop :=
  ¬ "new".toList <:+ front.rdropWhile isBlank ∧
    (".".toList <:+ front.rdropWhile isBlank → "...".toList <:+ front.rdropWhile isBlank)

/-- A text, the offsets in it where something is put in, and what it is. -/
structure Grafting where
  text : List Char
  starts : Nat → Prop
  put : Token → Option Node
  fits : Node.Fits put

namespace Grafting

variable {G : Grafting}

/-- Something is put in behind the front part of a text. -/
structure Fits (G : Grafting) (front : List Char) (g : Graft) : Prop where
  starts : G.starts front.length
  precedes : front.getLast?.all Surface.mayPrecedeTag = true
  stands : MayStand front
  gap : ∀ c ∈ g.gap, isSpace c = true
  template : Lexeme.template g.template = some (g.template, [])
  put : G.put (token .template g.template) = some g.node
  code : StandsIn g.code g.node

/-- What is left of a text behind its front part, and what is left of it with pieces put in. -/
inductive Aligned (G : Grafting) : List Char → List Graft → List Char → List Char → Prop
  | nil (front : List Char) : Aligned G front [] [] []
  | copied {front cs cs' : List Char} {gs : List Graft} (c : Char)
      (h : Aligned G (front ++ [c]) gs cs cs') : Aligned G front gs (c :: cs) (c :: cs')
  | put {front cs cs' : List Char} {gs : List Graft} {g : Graft} (hg : G.Fits front g)
      (h : Aligned G (front ++ g.matched) gs cs cs') :
      Aligned G front (g :: gs) (g.matched ++ cs) (g.code ++ cs')

/-- A place in a text and the place in the other one that it comes to. -/
structure At (G : Grafting) (front : List Char) (gs : List Graft) (cs cs' : List Char) : Prop where
  text : G.text = front ++ cs
  aligned : G.Aligned front gs cs cs'

section

variable {front b t cs cs' r r' v v' : List Char} {gs : List Graft} {g : Graft} {c : Char}

/-- Both texts go on with one character. -/
inductive Copied (G : Grafting) (front : List Char) (gs : List Graft) :
    List Char → List Char → Prop
  | nil (hgs : gs = []) : Copied G front gs [] []
  | cons (c : Char) {v v' : List Char} (h : G.At (front ++ [c]) gs v v') :
      Copied G front gs (c :: v) (c :: v')

/-- A template comes next, and what is put in for it. -/
inductive Grafted (G : Grafting) (front : List Char) : List Graft → List Char → List Char → Prop
  | intro {g : Graft} {gs : List Graft} {r r' : List Char} (hg : G.Fits front g)
      (h : G.At (front ++ g.matched) gs r r') :
      Grafted G front (g :: gs) (g.matched ++ r) (g.code ++ r')

theorem At.copied_or_grafted (h : G.At front gs cs cs') :
    G.Copied front gs cs cs' ∨ G.Grafted front gs cs cs' := by
  obtain ⟨htext, haligned⟩ := h
  cases haligned with
  | nil => exact .inl (.nil rfl)
  | copied c h => exact .inl (.cons c ⟨by simpa using htext, h⟩)
  | put hg h => exact .inr (.intro hg ⟨by simpa using htext, h⟩)

/-- A text without the first letter of the tag is copied as a whole. -/
theorem At.of_not_mem (h : G.At front gs (t ++ r) cs') (ht : 'l' ∉ t) :
    ∃ r', cs' = t ++ r' ∧ G.At (front ++ t) gs r r' := by
  induction t generalizing front cs' with
  | nil => exact ⟨cs', rfl, by simpa using h⟩
  | cons c t ih =>
    simp only [List.mem_cons, not_or] at ht
    generalize hcs : c :: t ++ r = cs at h
    rcases h.copied_or_grafted with hc | hg
    · cases hc with
      | nil => cases hcs
      | cons d hd =>
        cases hcs
        obtain ⟨r', rfl, hr'⟩ := ih hd ht.2
        exact ⟨r', rfl, by simpa using hr'⟩
    · cases hg with
      | @intro g gs q q' hg hq =>
        rw [Graft.matched_cons, List.cons_append] at hcs
        exact absurd (List.cons.inj hcs).1.symm ht.1

end

end Grafting

end Comprehend
