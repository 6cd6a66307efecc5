import Comprehend.Proofs.Chain.Reserved

/-! # Identifiers

What an identifier is stands in three places: in the check of a plain loop variable, in its list of
reserved words, and in the names of the grammar. They agree on every text that does not end in a line
break. The check also lets one line break follow a word, whatever the word is, since no reserved word
ends in one, and the name that a pattern then binds is the word without it. -/

namespace Comprehend

open Comprehend.Parser Comprehend.Lexeme Comprehend.Text

namespace Variable

/-- A letter, a low line or a dollar sign, and then any number of these and of digits. -/
def IsIdentifier (name : String) : Prop :=
  ∃ c cs, name.toList = c :: cs ∧ isNameStart c = true ∧ ∀ d ∈ cs, isNamePart d = true

section

variable {name w : String}

theorem isIdentifier_iff_word : IsIdentifier name ↔ word name.toList = some (name.toList, []) := by
  constructor
  · rintro ⟨c, cs, hname, hc, hcs⟩
    have htake : cs.takeWhile isNamePart = cs := List.takeWhile_eq_self_iff.2 hcs
    have hdrop : cs.dropWhile isNamePart = [] := List.dropWhile_eq_nil_iff.2 hcs
    rw [hname, word, if_pos hc, htake, hdrop]
  · intro h
    cases hname : name.toList with
    | nil =>
      rw [hname] at h
      cases h
    | cons c cs =>
      rw [hname, word] at h
      split_ifs at h with hc
      obtain ⟨-, hdrop⟩ := Prod.mk.inj (Option.some.inj h)
      exact ⟨c, cs, hname, hc, List.dropWhile_eq_nil_iff.1 hdrop⟩

theorem IsIdentifier.isEmpty (h : IsIdentifier w) (line : String) :
    (w ++ line).isEmpty = false := by
  obtain ⟨c, cs, hw, -⟩ := h
  rw [← Bool.not_eq_true, String.isEmpty_iff]
  intro hempty
  have hlist := congrArg String.toList hempty
  simp [hw] at hlist

/-- The expression that variables are matched against stops at the end of a text and also right
before a line break there. -/
theorem isWordLine_iff : isWordLine name.toList = true ↔
    IsIdentifier name ∨ ∃ w : String, IsIdentifier w ∧ name = w ++ "\n" := by
  constructor
  · intro h
    unfold isWordLine at h
    split at h
    · next u rest hu =>
      have happend := append_of_word hu
      rcases Bool.or_eq_true _ _ |>.mp h with hr | hr <;> rw [beq_iff_eq] at hr <;> subst hr
      · rw [List.append_nil] at happend
        exact .inl (isIdentifier_iff_word.2 (happend ▸ hu))
      · refine .inr ⟨String.ofList u, isIdentifier_iff_word.2 ?_, ?_⟩
        · rw [String.toList_ofList]
          exact word_self hu
        · rw [← String.toList_inj, ← happend]
          simp
    · cases h
  · rintro (h | ⟨w, h, rfl⟩)
    · rw [isWordLine, isIdentifier_iff_word.1 h]
      rfl
    · have hfree : Free ['\n'] := rfl
      have hword : word (w ++ "\n").toList = some (w.toList, ['\n']) := by
        rw [String.toList_append]
        exact word_append (isIdentifier_iff_word.1 h) hfree
      rw [isWordLine, hword]
      rfl

theorem append_not_mem_reservedWords (w : String) : w ++ "\n" ∉ reservedWords := by
  have hsolid : ∀ u ∈ reservedWords, '\n' ∉ u.toList := by decide
  exact fun h => hsolid _ h (by simp)

theorem validate_eq_ok_iff_identifier : validate name = .ok () ↔
    (IsIdentifier name ∧ name ∉ reservedWords) ∨ ∃ w : String, IsIdentifier w ∧ name = w ++ "\n" := by
  rw [validate_eq_ok_iff, isWordLine_iff]
  constructor
  · rintro ⟨-, hname | hline, hfree⟩
    · exact .inl ⟨hname, hfree⟩
    · exact .inr hline
  · rintro (⟨hname, hfree⟩ | ⟨w, hw, rfl⟩)
    · exact ⟨by simpa using hname.isEmpty "", .inl hname, hfree⟩
    · exact ⟨hw.isEmpty "\n", .inr ⟨w, hw, rfl⟩, append_not_mem_reservedWords w⟩

/-- A word with blanks behind it is read as a pattern by the name that it is, without the blanks. -/
theorem IsIdentifier.parsePattern_append (h : IsIdentifier w) (gap : String)
    (hgap : skipBlanks gap.toList = []) :
    parsePattern (w ++ gap) = if w ∈ Lexeme.reservedWords then .error (.badPattern (w ++ gap))
      else .ok (.bindingName ⟨.name, w⟩) := by
  have hword := isIdentifier_iff_word.1 h
  have hcloses : closes gap.toList = true := by rw [closes, hgap]
  have hfree : Free gap.toList := (Ends.of_closes hcloses).free
  have hopens : isBlankText (w ++ gap) = false := by
    have hkey : IsKey .propertyName w.toList := .word hword
    simpa using isBlankText_of_opensItem (hkey.opens.append gap.toList)
  rw [parsePattern, hopens, if_neg Bool.false_ne_true, pattern?, String.toList_append]
  by_cases hmem : w ∈ Lexeme.reservedWords
  · have hreserved : isReserved w.toList = true := by simpa [isReserved] using hmem
    rw [patternElement_of_reserved hword hreserved hfree, if_pos hmem]
    rfl
  · have hname : IsName w.toList := ⟨hword, by simpa [isReserved] using hmem⟩
    have hfuel : 32 * w.toList.length < fuelFor (w.toList ++ gap.toList) := by
      simp only [fuelFor, depthPerChar, List.length_append]
      omega
    obtain ⟨more, hread⟩ := hname.target.element.reads hfuel gap.toList hcloses
    rw [hread, if_neg hmem]
    simp [whole?, hgap, token]

end

/-- A plain loop variable that is accepted is an identifier that is not reserved, or any identifier
at all with a line break behind it. Read as a pattern, the first is the name that it is; of the second
the line break is left out, or it is refused for a word that the grammar reserves. -/
theorem validate_identifier (name : String) :
    (validate name = .ok () ↔ (IsIdentifier name ∧ name ∉ reservedWords) ∨
      ∃ w : String, IsIdentifier w ∧ name = w ++ "\n") ∧
    (IsIdentifier name → name ∉ reservedWords →
      parsePattern name = .ok (.bindingName ⟨.name, name⟩)) ∧
    ∀ w : String, IsIdentifier w → name = w ++ "\n" →
      parsePattern name = if w ∈ Lexeme.reservedWords then .error (.badPattern name)
        else .ok (.bindingName ⟨.name, w⟩) := by
  refine ⟨validate_eq_ok_iff_identifier, fun h hfree => ?_, ?_⟩
  · have hsub : ∀ w ∈ Lexeme.reservedWords, w ∈ reservedWords := by decide
    have hread := h.parsePattern_append "" rfl
    rwa [String.append_empty, if_neg fun hmem => hfree (hsub name hmem)] at hread
  · rintro w hw rfl
    exact hw.parsePattern_append "\n" rfl

/-- A reserved word is accepted with a line break behind it, and is then bound without the line break
or is no pattern at all. -/
theorem validate_identifier_lineBreak :
    validate "x" = .ok () ∧ parsePattern "x" = .ok (.bindingName ⟨.name, "x"⟩) ∧
      validate "class\n" = .ok () ∧ parsePattern "class\n" = .ok (.bindingName ⟨.name, "class"⟩) ∧
      validate "true\n" = .ok () ∧ parsePattern "true\n" = .error (.badPattern "true\n") := by
  have hx : IsIdentifier "x" := isIdentifier_iff_word.2 (by decide +kernel)
  have hclass : IsIdentifier "class" := isIdentifier_iff_word.2 (by decide +kernel)
  have htrue : IsIdentifier "true" := isIdentifier_iff_word.2 (by decide +kernel)
  obtain ⟨hvalid, hread, -⟩ := validate_identifier "x"
  obtain ⟨hvalidClass, -, hreadClass⟩ := validate_identifier "class\n"
  obtain ⟨hvalidTrue, -, hreadTrue⟩ := validate_identifier "true\n"
  exact ⟨hvalid.2 (.inl ⟨hx, by decide⟩), hread hx (by decide), hvalidClass.2 (.inr ⟨_, hclass, rfl⟩),
    hreadClass "class" hclass rfl, hvalidTrue.2 (.inr ⟨_, htrue, rfl⟩), hreadTrue "true" htrue rfl⟩

end Variable

end Comprehend
