import Comprehend.Proofs.Syntax.Pattern

/-! # Texts of primary expressions -/

namespace Comprehend.Parser

open Comprehend.Text Comprehend.Lexeme

/-! ## Tokens -/

theorem primary_of_word {cs w r : List Char} (h : word cs = some (w, r)) (fuel : Nat) :
    primary (fuel + 1) cs =
      if w == "function".toList then functionRest fuel r else wordOutcomes w r := by
  obtain ⟨c, t, rfl, hc, -⟩ := word_eq_some h
  have happ := append_of_word h
  rw [primary, skipBlanks_of_word h]
  split <;> try (cases happ; cases hc)
  · cases h
  · next cs _ _ _ _ _ _ _ _ => simp only [h]

theorem IsName.ne {w : List Char} (h : IsName w) {spelling : String}
    (hs : spelling ∈ reservedWords) : w ≠ spelling.toList := by
  rintro rfl
  have hfree := h.free
  rw [isReserved, String.ofList_toList, List.contains_iff_mem.2 hs] at hfree
  cases hfree

theorem IsName.constants {w : List Char} (h : IsName w) :
    constants.find? (fun c => c.1.toList == w) = none := by
  refine List.find?_eq_none.2 fun c hc he => ?_
  have hres : c.1 ∈ reservedWords := by
    have : ∀ c ∈ Parser.constants, c.1 ∈ reservedWords := by decide
    exact this c hc
  exact h.ne hres (beq_iff_eq.1 he).symm

theorem IsName.reads {w : List Char} (h : IsName w) : Reads 20 w (.leaf .name (token .name w)) := by
  have hsign : w ∉ signWords := by
    simp only [signWords, List.mem_cons, List.not_mem_nil, or_false, not_or]
    exact ⟨h.ne (by decide), h.ne (by decide), h.ne (by decide)⟩
  have ho : Opens 20 (w ++ []) := .of_word h.word (fun rest hr => hr) (.inr rfl) (fun _ => hsign)
    fun _ => h.ne (by decide)
  rw [List.append_nil] at ho
  refine .of_primary ho fun fuel rest hr hf => ?_
  have hu := ho.length_pos
  obtain ⟨fuel, rfl⟩ : ∃ f, fuel = f + 1 := ⟨fuel - 1, by omega⟩
  rw [primary_of_word (h.append hr), beq_eq_false_iff_ne.2 (h.ne (by decide)), wordOutcomes,
    h.constants]
  simp only [h.free, Bool.false_eq_true, if_false]
  exact .cons _ _ _

theorem reads_constant (value : Constant) : Reads 20 value.text.toList (.constant value) := by
  have hword : word value.text.toList = some (value.text.toList, []) := by cases value <;> rfl
  have ho : Opens 20 (value.text.toList ++ []) := .of_word hword (fun rest hr => hr) (.inr rfl)
    (fun _ => by cases value <;> decide) fun _ => by cases value <;> decide
  rw [List.append_nil] at ho
  refine .of_primary ho fun fuel rest hr hf => ?_
  have hu := ho.length_pos
  obtain ⟨fuel, rfl⟩ : ∃ f, fuel = f + 1 := ⟨fuel - 1, by omega⟩
  rw [primary_of_word (word_append hword hr)]
  cases value <;> exact .one _ _

/-- A literal that its first character tells. -/
theorem reads_literal {kind : LeafKind} {cls : TokenClass} {c : Char} {t : List Char}
    (hc : isNameStart c = false) (ho : opensItem c = true) (hb : c ∉ ['[', '\x7b', '('])
    (hspread : c ≠ '.') (hs : c ∉ ['-', '+', '!', '~'])
    (h : ∀ ⦃rest⦄, Free rest → ∀ fuel,
      primary (fuel + 1) (c :: t ++ rest) = one (.leaf kind (token cls (c :: t))) rest) :
    Reads 20 (c :: t) (.leaf kind (token cls (c :: t))) := by
  have ho : Opens 20 (c :: t) := .of_symbol hc ho hb
    (fun rest => mark_cons_of_ne rfl (isBlank_of_opensItem ho) (Ne.symm hspread)) (fun _ => hs) fun _ => hspread
  refine .of_primary ho fun fuel rest hr hf => ?_
  have hu := ho.length_pos
  obtain ⟨fuel, rfl⟩ : ∃ f, fuel = f + 1 := ⟨fuel - 1, by omega⟩
  rw [h hr fuel]
  exact .one _ _

theorem reads_string {t : List Char} (h : string t = some (t, [])) :
    Reads 20 t (.leaf .string (token .string t)) := by
  obtain ⟨c, t, rfl, hc⟩ := string_eq_some h
  have happ (rest : List Char) := string_append h rest
  rcases hc with rfl | rfl
  · refine reads_literal rfl rfl (by decide) (by decide) (by decide) fun rest hr fuel => ?_
    change leafOutcomes .string .string (string ('"' :: t ++ rest)) = _
    rw [happ]
    rfl
  · refine reads_literal rfl rfl (by decide) (by decide) (by decide) fun rest hr fuel => ?_
    change leafOutcomes .string .string (string ('\'' :: t ++ rest)) = _
    rw [happ]
    rfl

theorem template_eq_some {cs t r : List Char} (h : template cs = some (t, r)) :
    ∃ t', t = '\x60' :: t' := by
  unfold template at h
  split at h
  · obtain ⟨t', -, rfl⟩ := cons_eq_some.1 h
    exact ⟨t', rfl⟩
  · cases h

theorem reads_template {t : List Char} (h : template t = some (t, [])) :
    Reads 20 t (.leaf .template (token .template t)) := by
  obtain ⟨t, rfl⟩ := template_eq_some h
  have happ (rest : List Char) := template_append h rest
  refine reads_literal rfl rfl (by decide) (by decide) (by decide) fun rest hr fuel => ?_
  change leafOutcomes .template .template (template ('\x60' :: t ++ rest)) = _
  rw [happ]
  rfl

theorem regex_eq_some {cs t r : List Char} (h : regex cs = some (t, r)) : ∃ t', t = '/' :: t' := by
  unfold regex at h
  split at h
  · split at h
    · cases h
    · obtain ⟨p, -, h⟩ := Option.map_eq_some_iff.1 h
      cases h
      exact ⟨_, rfl⟩
  · cases h

theorem reads_regex {t : List Char} (h : regex t = some (t, [])) :
    Reads 20 t (.leaf .regex (token .regex t)) := by
  obtain ⟨t, rfl⟩ := regex_eq_some h
  refine reads_literal rfl rfl (by decide) (by decide) (by decide) fun rest hr fuel => ?_
  change leafOutcomes .regex .regex (regex ('/' :: t ++ rest)) = _
  rw [regex_append h hr]
  rfl

/-! ## Numerals

A point after a numeral is read as its own, so no member can be taken from it. -/

theorem numeral_start {c : Char} (h : c.isDigit = true ∨ c = '.') :
    isNameStart c = false ∧ opensItem c = true ∧
      c ∉ ['(', '[', '\x7b', '/', '\x60', '\'', '"', '-', '+', '!', '~'] := by
  rcases h with h | rfl
  · refine ⟨isNameStart_of_isDigit h, opensItem_of_isNamePart (isNamePart_of_isDigit c h), ?_⟩
    intro hmem
    simp only [List.mem_cons, List.not_mem_nil, or_false] at hmem
    rcases hmem with rfl | rfl | rfl | rfl | rfl | rfl | rfl | rfl | rfl | rfl | rfl <;> cases h
  · exact ⟨rfl, rfl, by decide⟩

theorem primary_of_number {t rest : List Char} (h : number t = some (t, [])) (hr : Free rest)
    (hdot : startsWith (· == '.') rest = false) (fuel : Nat) :
    primary (fuel + 1) (t ++ rest) = one (.leaf .number (token .number t)) rest := by
  have happ := number_append h (startsWith_eq_false_of isNamePart_of_isNumberPart hr)
    fun hpoint => by simp [hdot] at hpoint
  obtain ⟨c, t, rfl, hc⟩ := number_eq_some h
  obtain ⟨hname, hitem, hne⟩ := numeral_start hc
  simp only [List.mem_cons, List.not_mem_nil, or_false, not_or] at hne
  rw [List.cons_append] at happ ⊢
  rw [primary, skipBlanks_of_ne (isBlank_of_opensItem hitem)]
  split <;> try (next heq => exact absurd (List.cons.inj heq).1 (by tauto))
  · next heq => cases heq
  · rw [word_of_ne hname, happ]
    rfl

theorem spread_of_number {t : List Char} (h : number t = some (t, [])) (rest : List Char) :
    mark "..." (t ++ rest) = none := by
  obtain ⟨c, t, rfl, hc⟩ := number_eq_some h
  by_cases hdot : c = '.'
  · subst hdot
    cases t with
    | nil => cases h
    | cons d t =>
      by_cases hd : d = '.'
      · subst hd
        cases h
      · have hskip : skipBlanks ('.' :: d :: t ++ rest) = '.' :: d :: t ++ rest := rfl
        rw [mark, hskip, after]
        simp [List.isPrefixOf?, Ne.symm hd]
  · exact mark_cons_of_ne rfl (isBlank_of_opensItem (numeral_start hc).2.1) (Ne.symm hdot)

theorem opens_number {t : List Char} (h : number t = some (t, [])) {level : Nat}
    (hl : level ≤ 17) : Opens level t := by
  have hspread := spread_of_number h
  obtain ⟨c, t, rfl, hc⟩ := number_eq_some h
  obtain ⟨hname, hitem, hne⟩ := numeral_start hc
  simp only [List.mem_cons, List.not_mem_nil, or_false, not_or] at hne
  refine .of_symbol hname hitem ?_ hspread (fun _ => ?_) fun h => by omega
  · simp only [List.mem_cons, List.not_mem_nil, or_false, not_or]
    tauto
  · simp only [List.mem_cons, List.not_mem_nil, or_false, not_or]
    tauto

theorem keyword_new_of_number {t : List Char} (h : number t = some (t, [])) (rest : List Char) :
    keyword "new" (skipBlanks (t ++ rest)) = none := by
  obtain ⟨c, t, rfl, hc⟩ := number_eq_some h
  obtain ⟨hname, hitem, -⟩ := numeral_start hc
  rw [List.cons_append, skipBlanks_of_ne (isBlank_of_opensItem hitem)]
  refine keyword_of_ne rfl ?_ _
  rintro rfl
  cases hname

theorem heads_of_number {t rest : List Char} (h : number t = some (t, [])) (hr : Free rest)
    (hdot : startsWith (· == '.') rest = false) (fuel : Nat) :
    heads (fuel + 1) (t ++ rest) = one (.leaf .number (token .number t), true) rest := by
  rw [heads, keyword_new_of_number h, primary_of_number h hr hdot]
  rfl

theorem startsWith_dot {rest : List Char} (h : mark "." rest = none) :
    startsWith (· == '.') rest = false := by
  cases rest with
  | nil => rfl
  | cons c cs =>
    by_contra hc
    have hc : c = '.' := by simpa [startsWith] using hc
    subst hc
    cases h

theorem reads_number {t : List Char} (h : number t = some (t, [])) :
    Reads 17 t (.leaf .number (token .number t)) := by
  have ho : Opens 17 t := opens_number h (Nat.le_refl _)
  have hu := ho.length_pos
  have hop : ReadsAt 17 t (.leaf .number (token .number t)) := by
    intro fuel rest he hf
    obtain ⟨fuel, rfl⟩ : ∃ f, fuel = f + 2 := ⟨fuel - 2, by omega⟩
    have hlinks := he.links (Nat.le_refl _)
    change Leads (operand (fuel + 2) (t ++ rest)) _ rest
    rw [operand_succ, heads_of_number h he.free (startsWith_dot hlinks.dot), andThen_one,
      if_pos rfl, links_of_unlinked _ hlinks]
    exact .one _ _
  exact .of_update ho (by omega) (hop.update ho (by omega)) (fun _ => hop) (fun h => by omega)
    fun h => by omega

end Comprehend.Parser
