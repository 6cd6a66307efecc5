import Comprehend.Proofs.Syntax.Drawn

/-! # Texts that no backtick opens or closes anything in

Inside a template a backtick can only stand behind a backslash. So it is in every part of the inside
that does not start right behind a backslash, and no token of the expression language starts there.
What is read from such a text has no template in it. -/

namespace Comprehend

open Comprehend.Text Comprehend.Lexeme Comprehend.Parser

namespace Lexeme

/-- Every backtick of a text stands right behind a backslash. -/
def Guarded (cs : List Char) : Prop := ∀ u v, cs = u ++ '\x60' :: v → u.getLast? = some '\\'

section

variable {cs r t u v : List Char}

theorem guarded_of_not_mem (h : '\x60' ∉ cs) : Guarded cs := by
  rintro u v rfl
  exact absurd (List.mem_append_right u List.mem_cons_self) h

theorem Guarded.left (h : Guarded (u ++ v)) : Guarded u := by
  rintro p q rfl
  exact h p (q ++ v) (by simp)

theorem Guarded.append (hu : Guarded u) (hv : Guarded v) : Guarded (u ++ v) := by
  intro p q hsplit
  rcases List.append_eq_append_iff.1 hsplit with ⟨w, rfl, hw⟩ | ⟨w, rfl, hw⟩
  · have hlast := hv w q hw
    rw [List.getLast?_append, hlast, Option.some_or]
  · cases w with
    | nil =>
      have hlast := hv [] q hw.symm
      cases hlast
    | cons c w =>
      obtain ⟨rfl, -⟩ := List.cons.inj hw
      exact hu p w rfl

theorem guarded_nil : Guarded [] := guarded_of_not_mem List.not_mem_nil

theorem guarded_append_cons {c : Char} (hc : c ≠ '\x60') :
    Guarded (u ++ c :: v) ↔ Guarded u ∧ Guarded (c :: v) := by
  refine ⟨fun h => ⟨h.left, fun p q hsplit => ?_⟩, fun h => h.1.append h.2⟩
  cases p with
  | nil => exact absurd (List.cons.inj hsplit).1 hc
  | cons d p =>
    have hlast := h (u ++ d :: p) q (by simp [hsplit])
    simpa [List.getLast?_cons] using hlast

theorem guarded_cons {c : Char} (hc : c ≠ '\x60') (hc' : c ≠ '\\') : Guarded (c :: cs) ↔ Guarded cs := by
  refine ⟨fun h p q hsplit => ?_, fun h => ?_⟩
  · have hlast := h (c :: p) q (by rw [hsplit, List.cons_append])
    cases hp : p.getLast? with
    | none =>
      rw [List.getLast?_eq_none_iff.1 hp] at hlast
      exact absurd (Option.some.inj hlast) hc'
    | some d => rwa [List.getLast?_cons, hp] at hlast
  · have hleft : Guarded [c] := guarded_of_not_mem fun hmem => hc (List.mem_singleton.1 hmem).symm
    exact hleft.append h

theorem Guarded.cut (h : Guarded cs) (hcut : Cut cs r) : Guarded r := by
  obtain ⟨w, rfl, hw⟩ := hcut
  rintro u v rfl
  have hlast := h (w ++ u) v (by simp)
  cases hu : u.getLast? with
  | none =>
    rw [List.getLast?_eq_none_iff.1 hu, List.append_nil] at hlast
    exact absurd hlast hw
  | some c => rwa [List.getLast?_append, hu, Option.some_or] at hlast

theorem Guarded.stands (h : Guarded cs) (ht : Stands cs t) : Guarded t := by
  obtain ⟨r, hcut⟩ := ht
  exact (h.cut hcut).left

theorem guarded_escape (c : Char) : Guarded ['\\', c] := by
  intro u v hsplit
  match u, hsplit with
  | [], hsplit => cases hsplit
  | [_], hsplit =>
    obtain ⟨rfl, -⟩ := List.cons.inj hsplit
    rfl
  | _ :: _ :: w, hsplit =>
    have hlength := congrArg List.length hsplit
    simp at hlength

/-- A literal between backticks is guarded up to the last one. -/
theorem guarded_of_quotedRest (h : quotedRest '\x60' true cs = some (t, r)) :
    ∃ v, t = v ++ ['\x60'] ∧ Guarded v := by
  fun_induction quotedRest '\x60' true cs generalizing t r with
  | case1 => cases h
  | case2 =>
    cases h
    exact ⟨[], rfl, guarded_of_not_mem List.not_mem_nil⟩
  | case3 => cases h
  | case4 =>
    cases h
    exact ⟨[], rfl, guarded_of_not_mem List.not_mem_nil⟩
  | case5 => cases h
  | case6 => cases h
  | case7 d cs _ _ _ ih =>
    obtain ⟨u, hu, rfl⟩ := cons_eq_some.1 h
    obtain ⟨v, hv, rfl⟩ := cons_eq_some.1 hu
    obtain ⟨w, rfl, hw⟩ := ih hv
    exact ⟨'\\' :: d :: w, rfl, (guarded_escape d).append hw⟩
  | case8 c d cs hq _ _ ih =>
    obtain ⟨u, hu, rfl⟩ := cons_eq_some.1 h
    obtain ⟨w, rfl, hw⟩ := ih hu
    have hc : Guarded [c] := guarded_of_not_mem fun hmem => hq (List.mem_singleton.1 hmem).symm
    exact ⟨c :: w, rfl, hc.append hw⟩

/-- The inside of a template is guarded, and the template is not. -/
theorem guarded_of_template (h : template cs = some (t, r)) :
    ∃ v, t = '\x60' :: (v ++ ['\x60']) ∧ Guarded v := by
  unfold template at h
  split at h
  · obtain ⟨u, hu, rfl⟩ := cons_eq_some.1 h
    obtain ⟨v, rfl, hv⟩ := guarded_of_quotedRest hu
    exact ⟨v, rfl, hv⟩
  · cases h

theorem not_guarded_of_template (h : template cs = some (t, r)) : ¬ Guarded t := by
  obtain ⟨v, rfl, -⟩ := guarded_of_template h
  intro hguarded
  have hlast := hguarded [] _ rfl
  cases hlast

end

end Lexeme

/-! ## Trees -/

namespace Node

/-- The tokens of a tree are guarded. -/
def Guarded (x : Node) : Prop := ∀ t, Within (.token t) x → Lexeme.Guarded t.text.toList

/-- A tree has no tagged template in it. -/
def Untagged (x : Node) : Prop := ∀ tag template, ¬ Within (.tagged tag template) x

variable {x y : Node}

theorem Within.trans {z : Node} (h : Within x y) (h' : Within y z) : Within x z := by
  induction h' with
  | self => exact h
  | child _ hy ih => exact .child ih hy

theorem Guarded.child (h : x.Guarded) (hy : y ∈ x.children) : y.Guarded :=
  fun t ht => h t (.child ht hy)

theorem Untagged.of_children (hx : ∀ tag template, x ≠ .tagged tag template)
    (h : ∀ y ∈ x.children, y.Untagged) : x.Untagged := by
  intro tag template ht
  cases ht with
  | self => exact hx tag template rfl
  | child ht hy => exact h _ hy tag template ht

end Node

namespace Parser

variable {phrase : Phrase} {x y : Node} {text : String}

theorem Drawn.guarded {cs : List Char} (h : Drawn cs x) (hcs : Lexeme.Guarded cs) : x.Guarded :=
  fun t ht => hcs.stands (h t ht)

/-- What is read from a guarded text is guarded. -/
theorem guarded_of_parseExpression (h : parseExpression text = .ok x)
    (ht : Lexeme.Guarded text.toList) : x.Guarded := (drawn_of_parseExpression h).guarded ht

theorem guarded_of_parsePattern (h : parsePattern text = .ok x)
    (ht : Lexeme.Guarded text.toList) : x.Guarded := (drawn_of_parsePattern h).guarded ht

/-! ## Parts of trees -/

/-- A part of a tree of the grammar: a tree, the parameters of a function or a token. -/
inductive Part : Node → Prop
  | formed {phrase : Phrase} {x : Node} (h : Formed phrase x) : Part x
  | params {ps : List Node} (h : ∀ p ∈ ps, Formed .pattern p) : Part (.params ps)
  | token (t : Token) : Part (.token t)

theorem Formed.part_of_child (h : Formed phrase x) (hy : y ∈ x.children) : Part y := by
  induction h with
  | name | number | string | template | regex | shorthand | bindingName | nameItem =>
    rw [List.mem_singleton.1 hy]
    exact .token _
  | constant => cases hy
  | element _ ih | pattern _ ih => exact ih hy
  | array h | object h | arrayPattern h | objectPattern h => exact .formed (h y hy)
  | spreadElement h | spreadMember h | rest h =>
    rw [List.mem_singleton.1 hy]
    exact .formed h
  | restItem h =>
    rw [List.mem_singleton.1 hy]
    exact .formed (.bindingName h)
  | arrow hp hx | function hp hx =>
    rcases List.mem_pair.1 hy with rfl | rfl
    · exact .params hp
    · exact .formed hx
  | logical _ hx hz | power hx hz | index _ hx hz | default hx hz =>
    rcases List.mem_pair.1 hy with rfl | rfl
    · exact .formed hx
    · exact .formed hz
  | defaultItem hw hx =>
    rcases List.mem_pair.1 hy with rfl | rfl
    · exact .formed (.bindingName hw)
    · exact .formed hx
  | binary _ hx hz =>
    simp only [Node.children, List.mem_cons, List.not_mem_nil, or_false] at hy
    rcases hy with rfl | rfl | rfl
    · exact .formed hx
    · exact .token _
    · exact .formed hz
  | ternary hx hz hw =>
    simp only [Node.children, List.mem_cons, List.not_mem_nil, or_false] at hy
    rcases hy with rfl | rfl | rfl
    · exact .formed hx
    · exact .formed hz
    · exact .formed hw
  | sign _ hx | signWord _ hx | prefixUpdate _ hx | property _ hx | propertyItem _ hx =>
    rcases List.mem_pair.1 hy with rfl | rfl
    · exact .token _
    · exact .formed hx
  | postfixUpdate _ hx | link _ hx | tagged hx =>
    rcases List.mem_pair.1 hy with rfl | rfl
    · exact .formed hx
    · exact .token _
  | call _ hx h | construct hx h =>
    rcases List.mem_cons.1 hy with rfl | hy
    · exact .formed hx
    · exact .formed (h y hy)

theorem Part.child (h : Part x) (hy : y ∈ x.children) : Part y := by
  cases h with
  | formed h => exact h.part_of_child hy
  | params h => exact .formed (h y hy)
  | token t => cases hy

theorem Part.within (h : Part x) (hw : Node.Within y x) : Part y := by
  induction hw with
  | self => exact h
  | child _ hz ih => exact ih (h.child hz)

/-- What a tag stands in front of is the text of a template. -/
theorem Formed.template_of_within {tag : Node} {template : Token} (h : Formed phrase x)
    (hw : Node.Within (.tagged tag template) x) :
    ∃ t, template = Lexeme.token .template t ∧ Lexeme.template t = some (t, []) := by
  have hpart := (Part.formed h).within hw
  generalize hy : Node.tagged tag template = y at hpart
  clear hw
  cases hpart with
  | formed h =>
    induction h with
    | tagged hx ht =>
      cases hy
      exact ⟨_, rfl, ht⟩
    | element _ ih | pattern _ ih => exact ih hy
    | _ => cases hy
  | params h => cases hy
  | token t => cases hy

/-- A guarded tree of the grammar has no tagged template in it. -/
theorem Formed.untagged (h : Formed phrase x) (hx : x.Guarded) : x.Untagged := by
  intro tag template hw
  obtain ⟨t, rfl, ht⟩ := h.template_of_within hw
  have htoken : Node.Within (.token (Lexeme.token .template t))
      (.tagged tag (Lexeme.token .template t)) := .child (.self _) (.tail _ (.head _))
  have hguarded := hx _ (htoken.trans hw)
  rw [Lexeme.token, String.toList_ofList] at hguarded
  exact not_guarded_of_template ht hguarded

end Parser

end Comprehend
