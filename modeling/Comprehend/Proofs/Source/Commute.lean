import Comprehend.Proofs.Source.Grafted

/-! # Expanding texts and trees

A text can be expanded first and read then, or read first and expanded then: both give the same tree,
but for the class of the method names. Each occurrence that is expanded has to stand where its tag is
one of a template, and each template of the tree that is replaced has to be such an occurrence. -/

namespace Comprehend

open Comprehend.Text Comprehend.Lexeme Comprehend.Parser Comprehend.Layout

namespace Expansion

variable {settings : ExpansionSettings}

end Expansion

/-- The settings that an expansion has unless others are asked for. -/
def ExpansionSettings.standard : ExpansionSettings :=
  { Settings.standard with surfaces := Surface.all, skipFaults := false }

/-- A call with a list-tagged template, its blanks where no printer would set them. -/
def spacedCall : String := "f( 1 +list`y for (x of a + b) for ([y] of x) if (y)` )"

def spacedTemplate : Token := ⟨.template, "`y for (x of a + b) for ([y] of x) if (y)`"⟩

def spacedTree : Node :=
  .call false (.leaf .name ⟨.name, "f"⟩)
    [.binary .additive "+" (.leaf .number ⟨.number, "1"⟩) (.tagged .listName spacedTemplate)]

/-- The call holds no marker and nothing that can be cut in two ways, and its template begins nowhere
up to the place of the tag. -/
theorem spelling_spacedCall : ¬ listMarker.toList <:+: spacedCall.toList ∧
    OneWay spacedCall.toList ∧
    ∀ k ≤ 6, (spacedCall.toList.drop k).take 42 ≠ spacedTemplate.text.toList := by
  decide +kernel

/-- Whether a tree is that of the call, told by its shape and its tokens, since trees are not compared. -/
def Node.isSpaced : Node → Bool
  | .call false (.leaf .name f) [.binary .additive op (.leaf .number one)
      (.tagged (.leaf .name tag) template)] =>
    decide (op = "+" ∧ [f, one, tag, template] = [⟨.name, "f"⟩, ⟨.number, "1"⟩, ⟨.name, listTag⟩,
      spacedTemplate])
  | _ => false

theorem Node.eq_of_isSpaced {x : Node} (h : x.isSpaced = true) : x = spacedTree := by
  unfold isSpaced at h
  split at h
  · simp only [decide_eq_true_eq, List.cons.injEq] at h
    obtain ⟨rfl, rfl, rfl, rfl, rfl, -⟩ := h
    rfl
  · cases h

theorem parseExpression_spacedCall : parseExpression spacedCall = .ok spacedTree := by
  have hspaced : (parseExpression spacedCall).toOption.any Node.isSpaced = true := by decide +kernel
  cases h : parseExpression spacedCall with
  | error fault =>
    rw [h] at hspaced
    cases hspaced
  | ok t =>
    rw [h] at hspaced
    exact congrArg Except.ok (Node.eq_of_isSpaced hspaced)

theorem expanded_spacedCall : Expansion.expanded .standard spacedCall =
    [⟨.taggedTemplate, 6, 52, "y for (x of a + b) for ([y] of x) if (y)"⟩] := by
  rw [Expansion.expanded, show ExpansionSettings.standard.surfaces = Surface.all from rfl,
    Occurrence.find_of_unmarked spelling_spacedCall.1]
  decide +kernel

theorem Node.Within.child_of_token {t : Token} {x : Node} (h : Within (.token t) x)
    (hx : x.isToken = false) : ∃ y ∈ x.children, Within (.token t) y := by
  cases h with
  | self => cases hx
  | child h hy => exact ⟨_, hy, h⟩

theorem Node.Within.eq_of_token {t u : Token} (h : Within (.token t) (.token u)) : t = u := by
  cases h with
  | self => rfl
  | child _ hy => cases hy

/-- The template of the call is its only literal. -/
theorem literal_spacedTree {t : Token} (h : Node.Within (.token t) spacedTree)
    (ht : t.cls ∈ [TokenClass.string, .template, .regex]) : t = spacedTemplate := by
  have bare {kind : LeafKind} {u : Token} (hu : u.cls ∉ [TokenClass.string, .template, .regex]) :
      ¬ Node.Within (.token t) (.leaf kind u) := by
    intro h
    obtain ⟨y, hy, h⟩ := h.child_of_token rfl
    obtain rfl := List.mem_singleton.1 hy
    exact hu (h.eq_of_token ▸ ht)
  obtain ⟨y, hy, h⟩ := h.child_of_token rfl
  rcases List.mem_pair.1 hy with rfl | rfl
  · exact absurd h (bare (by decide))
  obtain ⟨y, hy, h⟩ := h.child_of_token rfl
  simp only [Node.children, List.mem_cons, List.not_mem_nil, or_false] at hy
  rcases hy with rfl | rfl | rfl
  · exact absurd h (bare (by decide))
  · obtain rfl := h.eq_of_token
    revert ht
    decide
  obtain ⟨y, hy, h⟩ := h.child_of_token rfl
  rcases List.mem_pair.1 hy with rfl | rfl
  · exact absurd h (bare (by decide))
  · exact h.eq_of_token

theorem not_spoiled_spacedTree :
    ¬ (Expansion.grafting .standard spacedCall).Spoiled spacedTree := by
  intro hspoiled
  obtain ⟨t, hwithin, ht, front, rest, n, htext, ⟨o, ho, rfl⟩, hle, -⟩ := hspoiled
  obtain rfl := literal_spacedTree hwithin ht
  rw [expanded_spacedCall] at ho
  obtain rfl := List.mem_singleton.1 ho
  have hlength : spacedTemplate.text.toList.length = 42 := by decide
  refine spelling_spacedCall.2.2 front.length hle ?_
  have htext : spacedCall.toList = front ++ (spacedTemplate.text.toList ++ rest) := htext
  rw [htext, List.drop_left, ← hlength, List.take_left]

end Comprehend
