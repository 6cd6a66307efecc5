import Comprehend.Proofs.Source.Enclosed
import Comprehend.Proofs.Source.Replaced
import Mathlib.Data.List.Dedup

/-! # What a search finds

The occurrences of all surfaces are put in the order of the text, and a sweep keeps each one that
starts where the last one kept has ended. What is kept is disjoint and in order, every other occurrence
is overlapped by one that is kept and starts no later, and since no two surfaces match at one place
the order and the number of times in which surfaces are given do not matter. -/

namespace Comprehend

open Text Lexeme

/-! ## What is found -/

/-- What follows an escape is looked through from an even number of backslashes again. -/
theorem substitutionFrom_unit {slashes : Nat} (d : Char) (cs : List Char) (heven : slashes % 2 = 0) :
    ∃ slashes', slashes' % 2 = 0 ∧
      substitutionFrom slashes ('\\' :: d :: cs) = substitutionFrom slashes' cs := by
  rw [substitutionFrom]
  by_cases hslash : d = '\\'
  · subst hslash
    rw [substitutionFrom]
    exact ⟨slashes + 1 + 1, by omega, rfl⟩
  · refine ⟨0, rfl, ?_⟩
    by_cases hlive : d = '$' → cs.head? ≠ some '{'
    · rw [substitutionFrom_cons hslash hlive]
    · -- an escaped dollar sign and a brace
      push Not at hlive
      obtain ⟨rfl, hhead⟩ := hlive
      obtain ⟨ds, rfl⟩ := List.head?_eq_some_iff.1 hhead
      have hodd : ((slashes + 1) % 2 == 0) = false := beq_eq_false_iff_ne.2 (by omega)
      rw [substitutionFrom, hodd, Bool.false_or,
        substitutionFrom_cons (c := '{') (by decide) (fun hc => absurd hc (by decide))]

/-- A literal between backticks without a live substitution is the inside of a template. -/
theorem isTemplateBody_of_quotedRest {cs t r v : List Char}
    (h : quotedRest '\x60' true cs = some (t, r)) (ht : t = v ++ ['\x60']) :
    ∀ {slashes : Nat}, slashes % 2 = 0 → substitutionFrom slashes v = false → IsTemplateBody v := by
  fun_induction quotedRest '\x60' true cs generalizing t r v with
  | case1 | case3 | case5 | case6 => cases h
  | case2 | case4 =>
    cases h
    obtain rfl : [] = v := List.append_cancel_right ht
    exact fun _ _ => .nil
  | case7 d cs _ _ _ ih =>
    obtain ⟨u, hu, rfl⟩ := cons_eq_some.1 h
    obtain ⟨w, hw, rfl⟩ := cons_eq_some.1 hu
    obtain ⟨z, rfl⟩ : ∃ z, w = z ++ ['\x60'] := by
      obtain ⟨z, hz, -⟩ := guarded_of_quotedRest hw
      exact ⟨z, hz⟩
    obtain rfl : '\\' :: d :: z = v := List.append_cancel_right ht
    intro slashes heven hlive
    obtain ⟨slashes', heven', hunit⟩ := substitutionFrom_unit d z heven
    exact .escape (ih hw rfl heven' (hunit ▸ hlive))
  | case8 c d cs hquote _ hslash ih =>
    obtain ⟨u, hu, rfl⟩ := cons_eq_some.1 h
    obtain ⟨z, rfl, -⟩ := guarded_of_quotedRest hu
    obtain rfl : c :: z = v := List.append_cancel_right ht
    intro slashes heven hlive
    have hdollar : c = '$' → z.head? ≠ some '{' := by
      rintro rfl hbrace
      obtain ⟨z, rfl⟩ := List.head?_eq_some_iff.1 hbrace
      simp [substitutionFrom, heven] at hlive
    rw [substitutionFrom_cons hslash hdollar] at hlive
    exact .plain hquote hslash hdollar (ih hu rfl rfl hlive)

namespace Surface

/-- What an occurrence of a surface is in the text: the mark of the surface, and between backticks the
raw text. A tag does not stand right behind a name, and its template has no live substitution. -/
def Spells (surface : Surface) (before matched raw : List Char) : Prop :=
  match surface with
  | .taggedTemplate =>
    (∀ c ∈ before.getLast?, isWord c = false ∧ c ≠ '$' ∧ c ≠ '.') ∧ IsTemplateBody raw ∧
      ∃ gap, (∀ c ∈ gap, isSpace c = true) ∧
        matched = listTag.toList ++ gap ++ '\x60' :: (raw ++ ['\x60'])
  | .markedLiteral =>
    raw ≠ [] ∧ '\x60' ∉ raw ∧ matched = listMarker.toList ++ '\x60' :: (raw ++ ['\x60'])

variable {surface : Surface} {before cs m r : List Char}

theorem spells_of_matchAt (h : surface.matchAt (endOf none before) cs = some (m, r))
    (haccepts : surface.accepts (body m) = true) : surface.Spells before m (body m) := by
  cases surface with
  | taggedTemplate =>
    obtain ⟨hbefore, gap, t, hgap, ht, rfl, -⟩ := tagged_eq_some h
    obtain ⟨v, rfl, -⟩ := guarded_of_template ht
    have hbody : body (listTag.toList ++ gap ++ '\x60' :: (v ++ ['\x60'])) = v :=
      body_enclosed (opens_tag hgap).quoteless
    rw [hbody] at haccepts ⊢
    obtain ⟨u, hu, hquoted⟩ := cons_eq_some.1 ht
    obtain rfl := (List.cons.inj hquoted).2
    refine ⟨fun c hc => ?_, ?_, gap, hgap, rfl⟩
    · simpa [endOf, Option.mem_def.1 hc, mayPrecedeTag, and_assoc] using hbefore
    · have hlive : substitutionFrom 0 v = false := by simpa [accepts] using haccepts
      exact isTemplateBody_of_quotedRest hu rfl rfl hlive
  | markedLiteral =>
    obtain ⟨raw, hne, hquote, rfl, -⟩ := marked_eq_some h
    have hmark : listMarker.toList ++ '\x60' :: raw ++ ['\x60'] =
        listMarker.toList ++ '\x60' :: (raw ++ ['\x60']) := by simp
    rw [hmark, body_enclosed opens_marker.quoteless]
    exact ⟨hne, hquote, rfl⟩

end Surface

namespace Occurrence

variable {o : Occurrence} {os : List Occurrence} {surfaces others : List Surface} {source : String}

/-- The text of an occurrence is the match that it was made from. -/
theorem matchAt_text {surface : Surface} {cs : List Char}
    (h : o ∈ surface.candidates none 0 0 cs) :
    (∃ r, surface.matchAt (Surface.endOf none (cs.take o.start)) (cs.drop o.start) =
      some (o.text cs, r)) ∧
    o.raw.toList = Surface.body (o.text cs) ∧ o.surface = surface := by
  obtain ⟨m, r, hm, ho⟩ := Surface.matchAt_of_mem_candidates h
  rw [Nat.sub_zero] at hm
  have hlength : o.stop - o.start = m.length := by
    rw [ho]
    simp
  have htext : o.text cs = m := by
    rw [text, hlength, (Surface.matchAt_eq_some hm).1, List.take_left]
  refine ⟨⟨r, htext ▸ hm⟩, ?_, ?_⟩
  · rw [htext, ho, String.toList_ofList]
  · rw [ho]

/-- An occurrence that a surface reports is one of the surface, and spelled as it has it. -/
theorem spells_of_mem_find {surface : Surface} (h : o ∈ surface.find source) :
    o.surface = surface ∧
      surface.Spells (source.toList.take o.start) (o.text source.toList) o.raw.toList := by
  rw [Surface.find, Surface.search_eq_filter, List.mem_filter] at h
  obtain ⟨⟨r, hmatch⟩, hraw, hsurface⟩ := matchAt_text h.1
  refine ⟨hsurface, ?_⟩
  rw [hraw]
  exact Surface.spells_of_matchAt hmatch (hraw ▸ h.2)

/-! ## What is kept -/

/-- An occurrence is kept, or starts too early, or is overlapped by one that is kept. -/
theorem mem_disjointFrom_or (hsorted : os.Pairwise (·.start ≤ ·.start)) :
    ∀ {position : Nat}, ∀ o ∈ os, o ∈ disjointFrom position os ∨ o.start < position ∨
      ∃ p ∈ disjointFrom position os, p.start ≤ o.start ∧ o.start < p.stop := by
  induction os with
  | nil => exact fun o ho => absurd ho List.not_mem_nil
  | cons q os ih =>
    intro position o ho
    obtain ⟨hfirst, hsorted⟩ := List.pairwise_cons.1 hsorted
    rw [disjointFrom]
    split_ifs with hq
    · rcases List.mem_cons.1 ho with rfl | ho
      · exact .inl List.mem_cons_self
      · rcases ih hsorted o ho with h | h | ⟨p, hp, h⟩
        · exact .inl (List.mem_cons_of_mem q h)
        · exact .inr (.inr ⟨q, List.mem_cons_self, hfirst o ho, h⟩)
        · exact .inr (.inr ⟨p, List.mem_cons_of_mem q hp, h⟩)
    · rcases List.mem_cons.1 ho with rfl | ho
      · exact .inr (.inl (Nat.lt_of_not_le hq))
      · exact ih hsorted o ho

/-- An occurrence that is listed twice is kept once. -/
theorem disjointFrom_dedup (hpos : ∀ o ∈ os, o.start < o.stop)
    (hsame : ∀ o ∈ os, ∀ p ∈ os, o.start = p.start → o = p)
    (hsorted : os.Pairwise (·.start ≤ ·.start)) :
    ∀ position, disjointFrom position os.dedup = disjointFrom position os := by
  induction os with
  | nil => exact fun _ => rfl
  | cons o os ih =>
    intro position
    obtain ⟨ho, hpos⟩ := List.forall_mem_cons.1 hpos
    obtain ⟨hfirst, hsorted⟩ := List.pairwise_cons.1 hsorted
    have ih := ih hpos (fun p hp q hq => hsame p (.tail _ hp) q (.tail _ hq)) hsorted
    by_cases hmem : o ∈ os
    · rw [List.dedup_cons_of_mem hmem, ih]
      cases os with
      | nil => exact absurd hmem List.not_mem_nil
      | cons q os =>
        -- the list is in order, so the other one stands next
        have hnext : q.start ≤ o.start := by
          rcases List.mem_cons.1 hmem with rfl | hmem
          · exact Nat.le_refl _
          · exact (List.pairwise_cons.1 hsorted).1 o hmem
        obtain rfl : o = q := hsame o List.mem_cons_self q (.tail _ List.mem_cons_self)
          (Nat.le_antisymm (hfirst q List.mem_cons_self) hnext)
        have hagain : ¬ o.stop ≤ o.start := Nat.not_le.2 ho
        simp only [disjointFrom, if_neg hagain]
        split_ifs <;> rfl
    · rw [List.dedup_cons_of_notMem hmem, disjointFrom, disjointFrom, ih, ih]

theorem eq_of_mem_ordered {p : Occurrence} (ho : o ∈ ordered surfaces source)
    (hp : p ∈ ordered others source) (h : o.start = p.start) : o = p := by
  obtain ⟨surface, -, ho⟩ := exists_candidates_of_mem_listed ((perm_ordered _ _).mem_iff.1 ho)
  obtain ⟨other, -, hp⟩ := exists_candidates_of_mem_listed ((perm_ordered _ _).mem_iff.1 hp)
  exact Surface.eq_of_start_eq ho hp h

theorem find_eq_dedup (surfaces : List Surface) (source : String) :
    find surfaces source = disjointFrom 0 (ordered surfaces source).dedup := by
  rw [find_eq, disjointFrom_dedup (fun o ho => ?_) (fun o ho p hp => eq_of_mem_ordered ho hp)
    (pairwise_ordered _ _)]
  exact start_lt_of_mem_listed ((perm_ordered _ _).mem_iff.1 ho)

/-- What is found depends on which surfaces there are, not on their order. -/
theorem find_congr (h : ∀ surface, surface ∈ others ↔ surface ∈ surfaces) :
    find others source = find surfaces source := by
  have hmem (o : Occurrence) : o ∈ (ordered others source).dedup ↔
      o ∈ (ordered surfaces source).dedup := by
    simp only [List.mem_dedup, (perm_ordered _ _).mem_iff, listed, List.mem_flatMap, h]
  have hperm : (ordered others source).dedup.Perm (ordered surfaces source).dedup :=
    (List.perm_ext_iff_of_nodup (List.nodup_dedup _) (List.nodup_dedup _)).2 hmem
  have hsorted (surfaces : List Surface) :
      (ordered surfaces source).dedup.Pairwise (·.start ≤ ·.start) :=
    (pairwise_ordered surfaces source).sublist (List.dedup_sublist _)
  rw [find_eq_dedup, find_eq_dedup]
  congr 1
  refine hperm.eq_of_pairwise (fun a b ha hb hab hba => ?_) (hsorted others) (hsorted surfaces)
  exact eq_of_mem_ordered (List.mem_dedup.1 ha) (List.mem_dedup.1 hb) (Nat.le_antisymm hab hba)

/-- The occurrences of a text stand in it one after another, each spelled as its surface has it. One
that a surface reports is missing only where one that is found starts no later and has not ended, and
what is found is the same in whatever order surfaces are given. -/
theorem find_disjoint (surfaces : List Surface) (source : String) :
    (∀ o ∈ find surfaces source, o.start < o.stop ∧ o.stop ≤ source.toList.length ∧
      o.surface ∈ surfaces ∧ o ∈ o.surface.find source ∧
      o.surface.Spells (source.toList.take o.start) (o.text source.toList) o.raw.toList) ∧
    (find surfaces source).Pairwise (fun o p => o.start < p.start ∧ o.stop ≤ p.start) ∧
    (∀ surface ∈ surfaces, ∀ o ∈ surface.find source, o ∉ find surfaces source →
      ∃ p ∈ find surfaces source, p.start ≤ o.start ∧ o.start < p.stop) ∧
    ∀ others, (∀ surface, surface ∈ others ↔ surface ∈ surfaces) →
      find others source = find surfaces source := by
  have hbounds : ∀ o ∈ find surfaces source, o.start < o.stop ∧ o.stop ≤ source.toList.length ∧
      ∃ surface ∈ surfaces, o ∈ surface.find source := by
    intro o ho
    obtain ⟨surface, hsurface, ho⟩ := List.mem_flatMap.1 (mem_listed_of_mem_find ho)
    have := Surface.search_bounds surface source.toList none 0 0 o ho
    exact ⟨this.2.1, by omega, surface, hsurface, ho⟩
  refine ⟨fun o ho => ?_, ?_, fun surface hsurface o ho hmissing => ?_, fun others h => find_congr h⟩
  · obtain ⟨hpos, hstop, surface, hsurface, ho⟩ := hbounds o ho
    obtain ⟨rfl, hspells⟩ := spells_of_mem_find ho
    exact ⟨hpos, hstop, hsurface, ho, hspells⟩
  · refine (inOrder_find surfaces source).pairwise.imp_of_mem fun {o p} ho hp h => ⟨?_, h⟩
    exact Nat.lt_of_lt_of_le (hbounds o ho).1 h
  · have hordered : o ∈ ordered surfaces source :=
      (perm_ordered _ _).mem_iff.2 (List.mem_flatMap.2 ⟨surface, hsurface, ho⟩)
    rcases mem_disjointFrom_or (pairwise_ordered surfaces source) o hordered with h | h | h
    · exact absurd h hmissing
    · exact absurd h (Nat.not_lt_zero _)
    · exact h

/-- A tagged template with a marker in it, whose literal starts with the last backtick of the template:
the template starts first and is kept. -/
theorem find_disjoint_marked :
    let source := "list\x60/*list*/\x60x\x60"
    let marked : Occurrence := ⟨.markedLiteral, 5, 16, "x"⟩
    marked ∈ Surface.markedLiteral.find source ∧
      find [.taggedTemplate, .markedLiteral] source = [⟨.taggedTemplate, 0, 14, "/*list*/"⟩] ∧
      (∃ p ∈ find [.taggedTemplate, .markedLiteral] source, p.start ≤ 5 ∧ 5 < p.stop) ∧
      find [.markedLiteral, .taggedTemplate, .markedLiteral] source =
        find [.taggedTemplate, .markedLiteral] source := by
  intro source marked
  have hreported : marked ∈ Surface.markedLiteral.find source := by
    decide +kernel
  have hfound : find [.taggedTemplate, .markedLiteral] source =
      [⟨.taggedTemplate, 0, 14, "/*list*/"⟩] := by
    rw [find, List.mergeSort_of_pairwise (by decide +kernel)]
    decide +kernel
  have hmissing : marked ∉ find [.taggedTemplate, .markedLiteral] source := by
    rw [hfound]
    decide
  obtain ⟨-, -, hoverlapped, horder⟩ := find_disjoint [.taggedTemplate, .markedLiteral] source
  refine ⟨hreported, hfound, ?_, ?_⟩
  · exact hoverlapped .markedLiteral (by decide) marked hreported hmissing
  · exact horder _ fun surface => by cases surface <;> decide

end Occurrence

end Comprehend
