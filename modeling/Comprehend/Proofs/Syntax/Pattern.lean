import Comprehend.Proofs.Syntax.Parts

/-! # Texts of patterns -/

namespace Comprehend.Parser

open Comprehend.Text Comprehend.Lexeme

/-- A list in square brackets. -/
def bracketed (us : List (List Char)) : List Char := '[' :: (commas us ++ [']'])

/-- What sets a list off from its braces. -/
def braceGap (us : List (List Char)) : List Char := if us.isEmpty then [] else [' ']

/-- A list in braces. -/
def braces (us : List (List Char)) : List Char :=
  '\x7b' :: (braceGap us ++ (commas us ++ (braceGap us ++ ['\x7d'])))

theorem gap_braceGap (us : List (List Char)) : Gap (braceGap us) := by
  unfold braceGap Gap
  cases us.isEmpty <;> simp

theorem Gap.closes {gap : List Char} (hg : Gap gap) (cs : List Char) :
    closes (gap ++ '\x7d' :: cs) = true := by
  rcases hg with rfl | rfl <;> rfl

/-- A text that is read as what a pattern binds, without a default. -/
structure ReadsTarget (u : List Char) (x : Node) : Prop where
  opens : OpensItem u
  spread : ∀ rest, mark "..." (u ++ rest) = none
  reads : ∀ ⦃fuel rest⦄, Free rest → 32 * u.length ≤ fuel →
    Leads (bindingTarget fuel (u ++ rest)) x rest

theorem IsName.target {w : List Char} (h : IsName w) : ReadsTarget w (.bindingName (token .name w)) where
  opens := h.key.opens
  spread := h.key.spread
  reads := by
    intro fuel rest hr hf
    obtain ⟨c, t, rfl, -⟩ := h.key.opens
    obtain ⟨fuel, rfl⟩ : ∃ f, fuel = f + 1 := ⟨fuel - 1, by simp only [List.length_cons] at hf; omega⟩
    have hw := h.append hr
    rw [bindingTarget_of_plainName (by rw [plainName_of_word hw, h.free]; rfl)]
    exact .one _ _

section

variable {us : List (List Char)} {xs : List Node}

theorem bindingTarget_bracketed (us : List (List Char)) (fuel : Nat) (rest : List Char) :
    bindingTarget (fuel + 1) (bracketed us ++ rest) =
      (itemsTo "]" (patternElement fuel) (commas us ++ ']' :: rest)).giving .arrayPattern := by
  have hm : mark "[" (bracketed us ++ rest) = some (commas us ++ ']' :: rest) := by
    simp [bracketed, mark, skipBlanks, after, isBlank, List.isPrefixOf?]
  rw [bindingTarget, hm]

theorem bindingTarget_braces (us : List (List Char)) (fuel : Nat) (rest : List Char) :
    bindingTarget (fuel + 1) (braces us ++ rest) =
      (itemsTo "\x7d" (objectPatternItem fuel)
        (braceGap us ++ (commas us ++ (braceGap us ++ '\x7d' :: rest)))).giving
          .objectPattern := by
  have hm : mark "\x7b" (braces us ++ rest) =
      some (braceGap us ++ (commas us ++ (braceGap us ++ '\x7d' :: rest))) := by
    simp [braces, mark, skipBlanks, after, isBlank, List.isPrefixOf?]
  have hb : mark "[" (braces us ++ rest) = none := rfl
  rw [bindingTarget, hb]
  simp only [hm]

theorem ReadsTarget.array (h : List.Forall₂ (ReadsPart patternElement) us xs) :
    ReadsTarget (bracketed us) (.arrayPattern xs) where
  opens := ⟨'[', _, rfl, rfl⟩
  spread _ := rfl
  reads := by
    intro fuel rest hr hf
    simp only [bracketed, List.length_cons, List.length_append, List.length_nil] at hf
    obtain ⟨fuel, rfl⟩ : ∃ f, fuel = f + 1 := ⟨fuel - 1, by omega⟩
    rw [bindingTarget_bracketed]
    exact (Leads.partsTo (show "]" ∈ _ by simp) .nil
      (fun fuel cs => (skipsBlanks fuel cs).patternElement) h (by omega) rfl rfl rfl).giving _

theorem ReadsTarget.object (h : List.Forall₂ (ReadsPart objectPatternItem) us xs) :
    ReadsTarget (braces us) (.objectPattern xs) where
  opens := ⟨'\x7b', _, rfl, rfl⟩
  spread _ := rfl
  reads := by
    intro fuel rest hr hf
    simp only [braces, List.length_cons, List.length_append, List.length_nil] at hf
    obtain ⟨fuel, rfl⟩ : ∃ f, fuel = f + 1 := ⟨fuel - 1, by omega⟩
    have hg := gap_braceGap us
    rw [bindingTarget_braces]
    exact (Leads.partsTo (by simp) hg (fun fuel cs => (skipsBlanks fuel cs).objectPatternItem) h
      (by omega) (hg.closes _) (hg.mark _ _) (hg.mark _ _)).giving _

end

section

variable {level : Nat} {u v w : List Char} {x y : Node}

theorem ReadsTarget.element (h : ReadsTarget u x) : ReadsPart patternElement u x where
  opens := h.opens
  reads := by
    intro fuel hf rest hr
    obtain ⟨c, t, rfl, -⟩ := h.opens
    obtain ⟨fuel, rfl⟩ : ∃ f, fuel = f + 2 := ⟨fuel - 2, by simp only [List.length_cons] at hf; omega⟩
    rw [patternElement, h.spread]
    refine (h.reads (Ends.of_closes hr).free (by omega)).andThen ?_
    rw [defaulted, mark_of_closes hr rfl rfl]
    exact .one _ _

theorem mark_equal (v rest : List Char) : mark "=" (infixed "=" v ++ rest) = some (' ' :: (v ++ rest)) :=
  rfl

theorem Leads.defaulted (hv : Reads level v y) (hl : 1 ≤ level) {fuel : Nat} {rest : List Char}
    (hf : 32 * v.length < fuel) (hr : closes rest = true) (x : Node) :
    Leads (defaulted fuel x (infixed "=" v ++ rest)) (.patternDefault x y) rest := by
  obtain ⟨fuel, rfl⟩ : ∃ f, fuel = f + 1 := ⟨fuel - 1, by omega⟩
  rw [Parser.defaulted, mark_equal]
  simp only [(skipsBlanks _ _).ternary]
  exact Leads.giving (hv.at' 1 hl (by omega) ((Ends.of_closes hr).mono (by omega)) (by omega)) _

theorem ReadsTarget.default (h : ReadsTarget u x) (hv : Reads level v y) (hl : 1 ≤ level) :
    ReadsPart patternElement (u ++ infixed "=" v) (.patternDefault x y) where
  opens := h.opens.append _
  reads := by
    intro fuel hf rest hr
    have hlen : (infixed "=" v).length = v.length + 3 := by simp [infixed]
    simp only [List.length_append, hlen] at hf
    obtain ⟨fuel, rfl⟩ : ∃ f, fuel = f + 1 := ⟨fuel - 1, by omega⟩
    have hfree : Free (infixed "=" v ++ rest) := rfl
    rw [List.append_assoc, patternElement, h.spread]
    exact (h.reads hfree (by omega)).andThen (.defaulted hv hl (by omega) hr x)

theorem ReadsTarget.rest (h : ReadsTarget u x) :
    ReadsPart patternElement ("...".toList ++ u) (.patternRest x) where
  opens := ⟨'.', _, rfl, rfl⟩
  reads := by
    intro fuel hf rest hr
    obtain ⟨fuel, rfl⟩ : ∃ f, fuel = f + 1 := ⟨fuel - 1, by omega⟩
    have hm : mark "..." ("...".toList ++ u ++ rest) = some (u ++ rest) := rfl
    rw [patternElement, hm]
    refine (h.reads (Ends.of_closes hr).free ?_).giving _
    simp at hf
    omega

theorem ReadsPart.propertyItem (h : ReadsPart patternElement u x) (hw : word w = some (w, [])) :
    ReadsPart objectPatternItem (keyed w u) (.propertyPattern (token .propertyName w) x) where
  opens := (IsKey.word hw).opens.append _
  reads := by
    intro fuel hf rest hr
    simp only [keyed, List.length_append, List.length_cons] at hf
    obtain ⟨fuel, rfl⟩ : ∃ f, fuel = f + 1 := ⟨fuel - 1, by omega⟩
    have hfree : Free (':' :: ' ' :: u ++ rest) := rfl
    have hw' := word_append hw hfree
    have hm : mark ":" (':' :: ' ' :: u ++ rest) = some (' ' :: (u ++ rest)) := rfl
    rw [keyed, List.append_assoc, objectPatternItem, (IsKey.word hw).spread]
    simp only [skipBlanks_of_word hw', hw', hm, (skipsBlanks _ _).patternElement]
    exact (h.reads (by omega) rest hr).giving _

theorem IsName.item (h : IsName w) :
    ReadsPart objectPatternItem w (.bindingName (token .name w)) where
  opens := h.key.opens
  reads := by
    intro fuel hf rest hr
    obtain ⟨c, t, hc, -⟩ := h.key.opens
    have hlen : 0 < w.length := by rw [hc]; exact Nat.succ_pos _
    obtain ⟨fuel, rfl⟩ : ∃ f, fuel = f + 2 := ⟨fuel - 2, by omega⟩
    have hw := h.append (Ends.of_closes hr).free
    rw [objectPatternItem, h.key.spread]
    simp only [skipBlanks_of_word hw, hw, mark_of_closes hr (s := ":") rfl rfl, h.free,
      Bool.false_eq_true, if_false]
    rw [defaulted, mark_of_closes hr rfl rfl]
    exact .one _ _

theorem IsName.defaultItem (h : IsName w) (hv : Reads level v y) (hl : 1 ≤ level) :
    ReadsPart objectPatternItem (w ++ infixed "=" v)
      (.patternDefault (.bindingName (token .name w)) y) where
  opens := h.key.opens.append _
  reads := by
    intro fuel hf rest hr
    have hlen : (infixed "=" v).length = v.length + 3 := by simp [infixed]
    simp only [List.length_append, hlen] at hf
    obtain ⟨fuel, rfl⟩ : ∃ f, fuel = f + 1 := ⟨fuel - 1, by omega⟩
    have hfree : Free (infixed "=" v ++ rest) := rfl
    have hw := h.append hfree
    have hcolon : mark ":" (infixed "=" v ++ rest) = none := rfl
    rw [List.append_assoc, objectPatternItem, h.key.spread]
    simp only [skipBlanks_of_word hw, hw, hcolon, h.free, Bool.false_eq_true, if_false]
    exact .defaulted hv hl (by omega) hr _

theorem IsName.restItem (h : IsName w) :
    ReadsPart objectPatternItem ("...".toList ++ w)
      (.patternRest (.bindingName (token .name w))) where
  opens := ⟨'.', _, rfl, rfl⟩
  reads := by
    intro fuel hf rest hr
    obtain ⟨fuel, rfl⟩ : ∃ f, fuel = f + 1 := ⟨fuel - 1, by omega⟩
    have hm : mark "..." ("...".toList ++ w ++ rest) = some (w ++ rest) := rfl
    have hw := h.append (Ends.of_closes hr).free
    rw [objectPatternItem, hm]
    simp only [plainName_of_word hw, h.free, Bool.false_eq_true, if_false]
    exact .one _ _

end

end Comprehend.Parser
