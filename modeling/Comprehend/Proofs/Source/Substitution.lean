import Comprehend.Proofs.Source.Sweep
import Mathlib.Data.List.Induction

/-! # Live substitutions and escapes

A template is looked through for a dollar sign and a brace, and the backslashes right in front of each
such pair are counted back. This comes to the same as reading the text by units, a backslash and the
character after it being one. The backticks of a template are told apart by the same count, so the
text that a surface takes for the inside of a template is the one that the search was made for. -/

namespace Comprehend

open Text Lexeme

namespace Text

/-- How many backslashes stand at the start of a text. -/
def slashes (cs : List Char) : Nat := (cs.takeWhile (· == '\\')).length

/-- What stands behind this text is escaped: the text ends in an odd number of backslashes. -/
def Escapes (cs : List Char) : Prop := slashes cs.reverse % 2 = 1

instance (cs : List Char) : Decidable (Escapes cs) := inferInstanceAs (Decidable (_ = _))

/-- Goes from one dollar sign with a brace to the next and counts back the backslashes in front of it;
`before` is what has been passed, from its end. -/
def searched (before : List Char) : List Char → Bool
  | '$' :: '{' :: cs => slashes before % 2 == 0 || searched ('{' :: '$' :: before) cs
  | c :: cs => searched (c :: before) cs
  | [] => false

/-- Reads a text by units, up to a dollar sign and a brace that are units of their own. -/
def scanned : List Char → Bool
  | '\\' :: _ :: cs => scanned cs
  | '$' :: '{' :: _ => true
  | _ :: cs => scanned cs
  | [] => false

section

variable {c d : Char} {cs before : List Char}

theorem slashes_append_singleton (cs : List Char) (c : Char) :
    slashes (cs ++ [c]) = if slashes cs = cs.length ∧ c = '\\' then cs.length + 1 else slashes cs := by
  simp only [slashes, List.takeWhile_append]
  by_cases hall : (cs.takeWhile (· == '\\')).length = cs.length
  · by_cases hc : c = '\\' <;> simp [hall, hc]
  · simp [hall]

theorem slashes_le_length (cs : List Char) : slashes cs ≤ cs.length :=
  (List.takeWhile_sublist _).length_le

theorem not_escapes_nil : ¬ Escapes [] := by decide

/-- A character that is no backslash does not change what a text escapes. -/
theorem escapes_cons (hc : c ≠ '\\') : Escapes (c :: cs) ↔ Escapes cs := by
  simp [Escapes, slashes_append_singleton, hc]

/-- Neither does a backslash with the character after it. -/
theorem escapes_unit : Escapes ('\\' :: d :: cs) ↔ Escapes cs := by
  have hle := slashes_le_length cs.reverse
  simp only [Escapes, List.reverse_cons, slashes_append_singleton, List.length_append,
    List.length_singleton, and_true]
  split_ifs <;> omega

/-! ## The search and the scan -/

theorem searched_eq (before cs : List Char) :
    searched before cs = substitutionFrom (slashes before) cs := by
  fun_induction searched before cs with
  | case1 before cs ih => rw [ih, substitutionFrom]; rfl
  | case2 before c cs hlive ih =>
    rw [ih]
    by_cases hslash : c = '\\'
    · subst hslash
      rw [substitutionFrom]
      simp [slashes]
    · rw [substitutionFrom_cons hslash]
      · simp [slashes, hslash]
      · rintro rfl hbrace
        obtain ⟨ds, rfl⟩ := List.head?_eq_some_iff.1 hbrace
        exact hlive ds rfl rfl
  | case3 => rw [substitutionFrom]

/-- The pairs that the search comes to are all that there are. -/
theorem searched_eq_true_iff : searched before cs = true ↔
    ∃ pre post, cs = pre ++ '$' :: '{' :: post ∧ ¬ Escapes (before.reverse ++ pre) := by
  fun_induction searched before cs with
  | case1 before cs ih =>
    rw [Bool.or_eq_true, ih]
    constructor
    · rintro (h | ⟨pre, post, rfl, h⟩)
      · exact ⟨[], cs, rfl, by simpa [Escapes] using h⟩
      · exact ⟨'$' :: '{' :: pre, post, rfl, by simpa using h⟩
    · rintro ⟨pre, post, hsplit, h⟩
      match pre, hsplit with
      | [], _ => exact .inl (by simpa [Escapes] using h)
      | [_], hsplit => cases hsplit
      | _ :: _ :: pre, hsplit =>
        cases hsplit
        exact .inr ⟨pre, post, rfl, by simpa using h⟩
  | case2 before c cs hlive ih =>
    rw [ih]
    constructor
    · rintro ⟨pre, post, rfl, h⟩
      exact ⟨c :: pre, post, rfl, by simpa using h⟩
    · rintro ⟨pre, post, hsplit, h⟩
      cases pre with
      | nil =>
        obtain ⟨rfl, rfl⟩ := List.cons.inj hsplit
        exact absurd rfl (hlive post rfl)
      | cons _ pre =>
        obtain ⟨rfl, rfl⟩ := List.cons.inj hsplit
        exact ⟨pre, post, rfl, by simpa using h⟩
  | case3 => simp

/-- From an even number of backslashes on, counting them is reading by units. -/
theorem substitutionFrom_eq_scanned {n : Nat} (heven : n % 2 = 0) :
    substitutionFrom n cs = scanned cs := by
  fun_induction scanned cs generalizing n with
  | case1 d cs ih =>
    obtain ⟨m, hm, h⟩ := substitutionFrom_unit d cs heven
    rw [h, ih hm]
  | case2 => simp [substitutionFrom, heven]
  | case3 c cs hunit hlive ih =>
    by_cases hslash : c = '\\'
    · -- a backslash that ends the text
      subst hslash
      cases cs with
      | nil => simp [substitutionFrom, scanned]
      | cons d cs => exact absurd rfl (hunit d cs rfl)
    · rw [substitutionFrom_cons hslash, ih rfl]
      rintro rfl hbrace
      obtain ⟨ds, rfl⟩ := List.head?_eq_some_iff.1 hbrace
      exact hlive ds rfl rfl
  | case4 => simp [substitutionFrom]

theorem hasSubstitution_eq_searched (raw : String) : hasSubstitution raw = searched [] raw.toList := by
  rw [searched_eq]
  rfl

theorem hasSubstitution_eq_scanned (raw : String) : hasSubstitution raw = scanned raw.toList :=
  substitutionFrom_eq_scanned rfl

end

end Text

/-! ## The backticks of a template -/

namespace Lexeme

/-- No backtick of a text closes a template, and one right behind the text does. -/
def Inside (body : List Char) : Prop :=
  ¬ Escapes body ∧ ∀ pre post, body = pre ++ '\x60' :: post → Escapes pre

section

variable {c d : Char} {cs t r body : List Char}

theorem inside_nil : Inside [] := ⟨not_escapes_nil, fun pre post h => by simp at h⟩

theorem inside_cons (hc : c ≠ '\\') (hquote : c ≠ '\x60') : Inside (c :: body) ↔ Inside body := by
  refine and_congr (not_congr (escapes_cons hc)) ⟨fun h pre post hsplit => ?_, fun h pre post hsplit => ?_⟩
  · exact (escapes_cons hc).1 (h (c :: pre) post (by rw [hsplit, List.cons_append]))
  · cases pre with
    | nil => exact absurd (List.cons.inj hsplit).1 hquote
    | cons e pre =>
      cases hsplit
      exact (escapes_cons hc).2 (h pre post rfl)

theorem inside_unit : Inside ('\\' :: d :: body) ↔ Inside body := by
  refine and_congr (not_congr escapes_unit) ⟨fun h pre post hsplit => ?_, fun h pre post hsplit => ?_⟩
  · exact escapes_unit.1 (h ('\\' :: d :: pre) post (by rw [hsplit, List.cons_append, List.cons_append]))
  · match pre, hsplit with
    | [], hsplit => cases hsplit
    | [_], hsplit =>
      cases hsplit
      decide
    | _ :: _ :: pre, hsplit =>
      cases hsplit
      exact escapes_unit.2 (h pre post rfl)

theorem not_inside_slash : ¬ Inside ['\\'] := fun h => h.1 (by decide)

theorem not_inside_quote : ¬ Inside ('\x60' :: body) := fun h =>
  not_escapes_nil (h.2 [] body rfl)

/-- A template is read up to the first backtick that is not escaped. -/
theorem quotedRest_eq_some_iff : quotedRest '\x60' true cs = some (t, r) ↔
    ∃ body, cs = body ++ '\x60' :: r ∧ t = body ++ ['\x60'] ∧ Inside body := by
  constructor
  · intro h
    fun_induction quotedRest '\x60' true cs generalizing t r with
    | case1 | case3 | case5 | case6 => cases h
    | case2 | case4 =>
      cases h
      exact ⟨[], rfl, rfl, inside_nil⟩
    | case7 d cs _ _ _ ih =>
      obtain ⟨u, hu, rfl⟩ := cons_eq_some.1 h
      obtain ⟨v, hv, rfl⟩ := cons_eq_some.1 hu
      obtain ⟨body, rfl, rfl, hbody⟩ := ih hv
      exact ⟨'\\' :: d :: body, rfl, rfl, inside_unit.2 hbody⟩
    | case8 c d cs hquote _ hslash ih =>
      obtain ⟨u, hu, rfl⟩ := cons_eq_some.1 h
      obtain ⟨body, hcs, rfl, hbody⟩ := ih hu
      exact ⟨c :: body, by rw [hcs, List.cons_append], rfl, (inside_cons hslash hquote).2 hbody⟩
  · rintro ⟨body, rfl, rfl, hbody⟩
    induction body using List.twoStepInduction with
    | nil => cases r <;> simp [quotedRest]
    | singleton c =>
      by_cases hslash : c = '\\'
      · subst hslash
        exact absurd hbody not_inside_slash
      · by_cases hquote : c = '\x60'
        · subst hquote
          exact absurd hbody not_inside_quote
        · cases r <;> simp [quotedRest, hslash, hquote, Lexeme.cons]
    | cons_cons c d body ih ihd =>
      by_cases hslash : c = '\\'
      · subst hslash
        simp [quotedRest, ih (inside_unit.1 hbody), Lexeme.cons]
      · by_cases hquote : c = '\x60'
        · subst hquote
          exact absurd hbody not_inside_quote
        · have hrest := ihd d ((inside_cons hslash hquote).1 hbody)
          rw [List.cons_append] at hrest
          simp [quotedRest, hslash, hquote, hrest, Lexeme.cons]

end

end Lexeme

/-! ## What is rewritten -/

namespace Surface

variable {before : Option Char} {cs matched rest gap body : List Char}

/-- The pattern of a tagged template ends at the first backtick that is not escaped. -/
theorem tagged_eq_some_iff : tagged before cs = some (matched, rest) ↔
    before.all mayPrecedeTag = true ∧ cs = matched ++ rest ∧ ∃ gap body,
      (∀ c ∈ gap, isSpace c = true) ∧ Inside body ∧
        matched = listTag.toList ++ gap ++ '\x60' :: (body ++ ['\x60']) := by
  constructor
  · intro h
    obtain ⟨hbefore, gap, t, hgap, ht, rfl, rfl⟩ := tagged_eq_some h
    obtain ⟨v, rfl, -⟩ := guarded_of_template ht
    obtain ⟨u, hu, hquoted⟩ := cons_eq_some.1 ht
    obtain ⟨body, -, rfl, hbody⟩ := quotedRest_eq_some_iff.1 hu
    exact ⟨hbefore, rfl, gap, body, hgap, hbody, by rw [hquoted]⟩
  · rintro ⟨hbefore, rfl, gap, body, hgap, hbody, rfl⟩
    have hquoted : quotedRest '\x60' true (body ++ '\x60' :: rest) = some (body ++ ['\x60'], rest) :=
      quotedRest_eq_some_iff.2 ⟨body, rfl, rfl, hbody⟩
    have hspace : isSpace '\x60' = false := by decide
    simp [tagged, hbefore, after_self, List.takeWhile_append_of_pos hgap,
      List.dropWhile_append_of_pos hgap, hspace, template, hquoted, Lexeme.cons]

end Surface

theorem IsTemplateBody.inside {body : List Char} (h : IsTemplateBody body) : Inside body := by
  obtain ⟨_, hsplit, -, hinside⟩ := quotedRest_eq_some_iff.1 (h.quotedRest (r := []))
  rwa [List.append_cancel_right hsplit]

theorem IsTemplateBody.scanned {body : List Char} (h : IsTemplateBody body) :
    scanned body = false := by
  rw [← substitutionFrom_eq_scanned (Nat.zero_mod 2)]
  exact h.substitutionFrom (Nat.zero_mod 2)

/-- A tagged template with a live substitution stays as it is, and nothing is noted. -/
theorem Expansion.tagged_of_hasSubstitution {settings : ExpansionSettings} {template : Token}
    (h : hasSubstitution (literalBody template.text) = true) (tag : Node) :
    tagged settings tag template = pure (.tagged tag template) := by
  cases tag with
  | leaf kind t => cases kind <;> simp [tagged, h]
  | _ => rfl

/-- A template has a live substitution where reading it by units comes to a dollar sign and a brace.
The search finds the same by counting back the backslashes in front of each pair, and by that count
the pattern of a tagged template tells its backticks apart. No occurrence of a tagged template has a
live substitution in it, and no tagged template of a tree that has one is replaced. -/
theorem hasSubstitution_iff_scanned :
    (∀ raw : String,
      (hasSubstitution raw = true ↔ scanned raw.toList = true) ∧
      hasSubstitution raw = searched [] raw.toList ∧
      (hasSubstitution raw = true ↔
        ∃ pre post, raw.toList = pre ++ '$' :: '{' :: post ∧ ¬ Escapes pre)) ∧
    (∀ before cs matched rest, Surface.tagged before cs = some (matched, rest) ↔
      before.all Surface.mayPrecedeTag = true ∧ cs = matched ++ rest ∧ ∃ gap body,
        (∀ c ∈ gap, isSpace c = true) ∧ Inside body ∧
          matched = listTag.toList ++ gap ++ '\x60' :: (body ++ ['\x60'])) ∧
    (∀ surfaces source, ∀ o ∈ Occurrence.find surfaces source, o.surface = .taggedTemplate →
      scanned o.raw.toList = false ∧ Inside o.raw.toList ∧ ∃ gap, (∀ c ∈ gap, isSpace c = true) ∧
        o.text source.toList = listTag.toList ++ gap ++ '\x60' :: (o.raw.toList ++ ['\x60'])) ∧
    ∀ settings tag (template : Token), scanned (literalBody template.text).toList = true →
      Expansion.tree settings (.tagged tag template) =
        (do return .tagged (← Expansion.tree settings tag) template) := by
  refine ⟨fun raw => ⟨?_, ?_, ?_⟩, fun _ _ _ _ => Surface.tagged_eq_some_iff,
    fun surfaces source o ho htagged => ?_, fun settings tag template hlive => ?_⟩
  · rw [hasSubstitution_eq_scanned]
  · exact hasSubstitution_eq_searched raw
  · rw [hasSubstitution_eq_searched, searched_eq_true_iff]
    rfl
  · obtain ⟨surface, -, ho⟩ := List.mem_flatMap.1 (Occurrence.mem_listed_of_mem_find ho)
    obtain ⟨rfl, hspells⟩ := Occurrence.spells_of_mem_find ho
    rw [htagged] at hspells
    obtain ⟨-, hbody, gap, hgap, htext⟩ := hspells
    exact ⟨hbody.scanned, hbody.inside, gap, hgap, htext⟩
  · rw [Expansion.tree]
    rw [← hasSubstitution_eq_scanned] at hlive
    simp only [Expansion.tagged_of_hasSubstitution hlive]

/-- One backslash in front of the dollar sign keeps a substitution from being live, two do not. -/
theorem hasSubstitution_iff_scanned_slashes :
    let escaped : Occurrence := ⟨.taggedTemplate, 0, 14, "a\\`\\${b}"⟩
    let live : Token := ⟨.template, "`\\\\${b}`"⟩
    let settings : ExpansionSettings := ⟨Settings.standard, Surface.all, false⟩
    Occurrence.find [.taggedTemplate] "list`a\\`\\${b}` + list`\\\\${b}`" = [escaped] ∧
      scanned escaped.raw.toList = false ∧ Inside escaped.raw.toList ∧
      Expansion.tree settings (.tagged .listName live) =
        (do return .tagged (← Expansion.tree settings .listName) live) := by
  intro escaped live settings
  have hfind : Occurrence.find [.taggedTemplate] "list`a\\`\\${b}` + list`\\\\${b}`" = [escaped] := by
    decide +kernel
  obtain ⟨-, -, hfound, htree⟩ := hasSubstitution_iff_scanned
  have hmem : escaped ∈ Occurrence.find [.taggedTemplate] "list`a\\`\\${b}` + list`\\\\${b}`" := by
    rw [hfind]
    exact List.mem_singleton_self escaped
  obtain ⟨hscanned, hinside, -⟩ := hfound _ _ escaped hmem rfl
  exact ⟨hfind, hscanned, hinside, htree settings .listName live (by decide +kernel)⟩

end Comprehend
