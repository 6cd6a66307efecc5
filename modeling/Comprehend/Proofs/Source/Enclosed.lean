import Comprehend.Proofs.Source.Splice

/-! # A text that is one comprehension

A comprehension between the marks of a surface is found as it stands, whatever else in it looks like
an occurrence, and expanding it is the same as transforming it. -/

namespace Comprehend

open Text Lexeme

/-! ## Comprehensions between marks -/

/-- What can stand between the backticks of a template without a live substitution. -/
inductive IsTemplateBody : List Char → Prop
  | nil : IsTemplateBody []
  | plain {c : Char} {cs : List Char} (hquote : c ≠ '\x60') (hslash : c ≠ '\\')
    (hlive : c = '$' → cs.head? ≠ some '{') (h : IsTemplateBody cs) : IsTemplateBody (c :: cs)
  | escape {c : Char} {cs : List Char} (h : IsTemplateBody cs) : IsTemplateBody ('\\' :: c :: cs)

namespace Surface

/-- What marks a comprehension of a surface, in front of the backtick. -/
def mark : Surface → String
  | .taggedTemplate => listTag
  | .markedLiteral => listMarker

/-- A comprehension with the mark of a surface, between backticks. -/
def enclose (surface : Surface) (raw : String) : String := surface.mark ++ "\x60" ++ raw ++ "\x60"

/-- The texts that a surface can have between backticks. -/
def Encloses : Surface → List Char → Prop
  | .taggedTemplate, cs => IsTemplateBody cs
  | .markedLiteral, cs => cs ≠ [] ∧ '\x60' ∉ cs

theorem toList_enclose (surface : Surface) (raw : String) :
    (surface.enclose raw).toList = surface.mark.toList ++ '\x60' :: (raw.toList ++ ['\x60']) := by
  simp [enclose]

end Surface

section

variable {cs r : List Char}

/-- The backtick after the inside of a template closes it. -/
theorem IsTemplateBody.quotedRest (h : IsTemplateBody cs) :
    quotedRest '\x60' true (cs ++ '\x60' :: r) = some (cs ++ ['\x60'], r) := by
  induction h with
  | nil => cases r <;> simp [Lexeme.quotedRest]
  | @plain c cs hquote hslash hlive h ih =>
    obtain ⟨d, ds, hds⟩ := List.exists_cons_of_ne_nil
      (List.append_ne_nil_of_right_ne_nil cs (List.cons_ne_nil '\x60' r))
    rw [hds] at ih
    rw [List.cons_append, hds, Lexeme.quotedRest, if_neg hquote]
    simp [hslash, ih, Lexeme.cons]
  | escape h ih => simp [Lexeme.quotedRest, ih, Lexeme.cons]

theorem after_self (s : String) (r : List Char) : after s (s.toList ++ r) = some r :=
  List.isPrefixOf?_eq_some_iff_append_eq.2 rfl

theorem substitutionFrom_cons {slashes : Nat} {c : Char} (hslash : c ≠ '\\')
    (hlive : c = '$' → cs.head? ≠ some '{') :
    substitutionFrom slashes (c :: cs) = substitutionFrom 0 cs := by
  rw [substitutionFrom]
  · rintro ds rfl rfl
    exact hlive rfl rfl
  · exact hslash

theorem IsTemplateBody.substitutionFrom (h : IsTemplateBody cs) :
    ∀ {slashes : Nat}, slashes % 2 = 0 → substitutionFrom slashes cs = false := by
  induction h with
  | nil => exact fun _ => by simp [Text.substitutionFrom]
  | plain hquote hslash hlive h ih =>
    intro slashes heven
    rw [substitutionFrom_cons hslash hlive]
    exact ih rfl
  | @escape c cs h ih =>
    intro slashes heven
    rw [Text.substitutionFrom]
    by_cases hslash : c = '\\'
    · subst hslash
      rw [Text.substitutionFrom]
      exact ih (by omega)
    · by_cases hlive : c = '$' → cs.head? ≠ some '{'
      · rw [substitutionFrom_cons hslash hlive]
        exact ih rfl
      · -- an escaped dollar sign and a brace
        push Not at hlive
        obtain ⟨rfl, hhead⟩ := hlive
        obtain ⟨ds, rfl⟩ := List.head?_eq_some_iff.1 hhead
        have hds : Text.substitutionFrom 0 ('{' :: ds) = false := ih rfl
        rw [substitutionFrom_cons (c := '{') (by decide) (fun hc => absurd hc (by decide))] at hds
        rw [Text.substitutionFrom, hds, Bool.or_false, beq_eq_false_iff_ne]
        omega

end

namespace Surface

variable {surface other : Surface} {raw : String}

/-- A comprehension between marks is matched as a whole. -/
theorem matchAt_enclose (h : surface.Encloses raw.toList) :
    surface.matchAt none (surface.enclose raw).toList = some ((surface.enclose raw).toList, []) := by
  rw [toList_enclose]
  cases surface with
  | taggedTemplate =>
    have hbody : IsTemplateBody raw.toList := h
    have hspace : isSpace '\x60' = false := by decide
    simp [matchAt, tagged, after_self, hspace, template, hbody.quotedRest, Lexeme.cons, mark]
  | markedLiteral =>
    obtain ⟨hne, hquote⟩ := h
    have hinside : ∀ c ∈ raw.toList, (c != '\x60') = true := fun c hc => by
      simpa using fun hq : c = '\x60' => hquote (hq ▸ hc)
    have htake : (raw.toList ++ ['\x60']).takeWhile (· != '\x60') = raw.toList := by
      simp [List.takeWhile_append_of_pos hinside]
    have hdrop : (raw.toList ++ ['\x60']).dropWhile (· != '\x60') = ['\x60'] := by
      simp [List.dropWhile_append_of_pos hinside]
    simp only [matchAt, marked, mark, after_self, htake, hdrop]
    cases hraw : raw.toList with
    | nil => exact absurd hraw hne
    | cons c cs => simp

/-- Nothing else is matched at the start of it. -/
theorem matchAt_enclose_ne (h : other ≠ surface) :
    other.matchAt none (surface.enclose raw).toList = none := by
  rw [toList_enclose]
  cases surface <;> cases other
  case taggedTemplate.taggedTemplate | markedLiteral.markedLiteral => exact absurd rfl h
  all_goals rfl

theorem find_enclose (h : surface.Encloses raw.toList) :
    surface.find (surface.enclose raw) =
      [⟨surface, 0, (surface.enclose raw).toList.length, raw⟩] := by
  have hmatch := matchAt_enclose h
  have hbody : body (surface.enclose raw).toList = raw.toList := by
    rw [toList_enclose]
    exact body_enclosed (by cases surface <;> decide)
  have haccepts : surface.accepts raw.toList = true := by
    cases surface with
    | taggedTemplate => 
      have hlive := IsTemplateBody.substitutionFrom h (Nat.zero_mod 2)
      simp [accepts, hlive]
    | markedLiteral => rfl
  rw [find]
  cases htext : (surface.enclose raw).toList with
  | nil =>
    rw [toList_enclose] at htext
    simp at htext
  | cons c cs =>
    rw [htext] at hmatch hbody
    rw [search, hmatch]
    simp [hbody, haccepts, search_skip]

theorem start_pos_of_mem_find (h : other ≠ surface) {o : Occurrence}
    (ho : o ∈ other.find (surface.enclose raw)) : 0 < o.start := by
  have hmatch : other.matchAt none (surface.enclose raw).toList = none := matchAt_enclose_ne h
  rw [find] at ho
  cases htext : (surface.enclose raw).toList with
  | nil =>
    rw [htext] at ho
    cases ho
  | cons c cs =>
    rw [htext] at ho hmatch
    rw [search, hmatch] at ho
    have := search_bounds other cs _ _ _ o ho
    omega

end Surface

namespace Occurrence

/-- An occurrence that takes up the whole text is the only one. -/
theorem find_eq_singleton {surfaces : List Surface} {source : String} {o : Occurrence}
    (ho : o ∈ surfaces.flatMap (·.find source)) (hstart : o.start = 0)
    (hstop : o.stop = source.toList.length)
    (hfirst : ∀ p ∈ surfaces.flatMap (·.find source), p.start = 0 → p = o) :
    find surfaces source = [o] := by
  have hinOrder := inOrder_find surfaces source
  unfold find at hinOrder ⊢
  generalize hsorted : (surfaces.flatMap (·.find source)).mergeSort
    (fun a b => a.start ≤ b.start) = sorted at hinOrder ⊢
  have hmem : ∀ {p}, p ∈ sorted ↔ p ∈ surfaces.flatMap (·.find source) := by
    rw [← hsorted]
    exact List.mem_mergeSort
  cases sorted with
  | nil => cases hmem.2 ho
  | cons p ps =>
    have hpairs : (p :: ps).Pairwise fun a b => (decide (a.start ≤ b.start)) = true := by
      rw [← hsorted]
      exact List.pairwise_mergeSort (by simpa using fun a b c => Nat.le_trans)
        (by simpa using fun a b => Nat.le_total _ _) _
    have hp : p.start = 0 := by
      rcases List.mem_cons.1 (hmem.2 ho) with rfl | ho
      · exact hstart
      · have := of_decide_eq_true ((List.pairwise_cons.1 hpairs).1 o ho)
        omega
    obtain rfl := hfirst p (hmem.1 List.mem_cons_self) hp
    rw [disjointFrom, if_pos (Nat.zero_le _)] at hinOrder ⊢
    cases hinOrder with
    | cons _ _ hos =>
      rw [hstop] at hos ⊢
      cases hrest : disjointFrom source.toList.length ps with
      | nil => rfl
      | cons q qs =>
        rw [hrest] at hos
        exact absurd hos.position_lt (Nat.lt_irrefl _)

end Occurrence

namespace Expansion

/-- Expanding a text that is one comprehension comes to transforming it, but that the text stays as
it is after a fault that is tolerated. -/
theorem source_enclosed {settings : ExpansionSettings} (hr : settings.reader.RefusesOperands)
    (hskip : settings.skipFaults = false) {surface : Surface} (hs : surface ∈ settings.surfaces)
    {raw : String} (h : surface.Encloses raw.toList) :
    (source settings (surface.enclose raw)).result =
      match (transform (surface.settings settings) raw).result with
      | .ok code => .ok code
      | .error fault =>
        if fault.IsTolerated then .ok (surface.enclose raw) else .error fault := by
  let o : Occurrence := ⟨surface, 0, (surface.enclose raw).toList.length, raw⟩
  have hfind : Occurrence.find settings.surfaces (surface.enclose raw) = [o] := by
    refine Occurrence.find_eq_singleton ?_ rfl rfl fun p hp hstart => ?_
    · exact List.mem_flatMap.2 ⟨surface, hs, by simp [Surface.find_enclose h, o]⟩
    · obtain ⟨other, -, hp⟩ := List.mem_flatMap.1 hp
      by_cases hother : other = surface
      · subst hother
        rw [Surface.find_enclose h] at hp
        exact List.mem_singleton.1 hp
      · have := Surface.start_pos_of_mem_find hother hp
        omega
  have hresult : (o.transformed settings).result = (transform (surface.settings settings) raw).result := rfl
  rw [← hresult]
  have hfree (hnone : o.obstacle? settings = none) :
      (source settings (surface.enclose raw)).result =
        .ok (String.ofList (o.written settings (surface.enclose raw).toList)) := by
    rw [source_of_free hr (by simpa [hfind] using .inr hnone), hfind]
    simp [Occurrence.weave, o]
  cases htransform : (o.transformed settings).result with
  | ok code =>
    rw [hfree (by simp [Occurrence.obstacle?, Occurrence.fault?, htransform])]
    simp [Occurrence.written, htransform]
  | error fault =>
    have hfault : o.fault? settings = some fault := by simp [Occurrence.fault?, htransform]
    by_cases htolerated : fault.IsTolerated
    · rw [hfree (by simp [Occurrence.obstacle?, hfault, htolerated])]
      simp [Occurrence.written, htransform, htolerated, Occurrence.text, o]
    · have hobstacle : o.obstacle? settings = some fault := by
        simp [Occurrence.obstacle?, hfault, htolerated]
      rw [source, Noted.result_bind, hfind, splice_of_obstacle hr hskip (by simpa using hobstacle)]
      simp [htolerated]

end Expansion

/-- With an escape and something that looks like another occurrence in the text, and with a fault. -/
theorem source_enclosed_eachSurface :
    (Expansion.source ⟨Settings.standard, Surface.all, false⟩
        (Surface.taggedTemplate.enclose "x + \"\\n/*list*/\" for (x of xs)")).result =
      .ok "xs.map(x => x + \"\\n/*list*/\")" ∧
    (Expansion.source ⟨Settings.standard, Surface.all, false⟩
        (Surface.markedLiteral.enclose "x for (x of list || xs)")).result =
      .ok "(list || xs).map(x => x)" ∧
    (Expansion.source ⟨Settings.standard, Surface.all, false⟩
        (Surface.markedLiteral.enclose "x for (1 of xs)")).result = .error (.badVariable "1") := by
  have hbody : Surface.taggedTemplate.Encloses "x + \"\\n/*list*/\" for (x of xs)".toList := by
    repeat first
      | exact .nil
      | refine .escape ?_
      | refine .plain (by decide) (by decide) (by decide) ?_
  have hsound : Surface.markedLiteral.Encloses "x for (x of list || xs)".toList :=
    ⟨by decide, by decide⟩
  have hfaulty : Surface.markedLiteral.Encloses "x for (1 of xs)".toList :=
    ⟨by decide, by decide⟩
  refine ⟨?_, ?_, ?_⟩
  · exact (Expansion.source_enclosed OperandReader.refusesOperands_script rfl (by decide)
      hbody).trans (by decide +kernel)
  · exact (Expansion.source_enclosed OperandReader.refusesOperands_script rfl (by decide)
      hsound).trans (by decide +kernel)
  · exact (Expansion.source_enclosed OperandReader.refusesOperands_script rfl (by decide)
      hfaulty).trans (by decide +kernel)

end Comprehend
