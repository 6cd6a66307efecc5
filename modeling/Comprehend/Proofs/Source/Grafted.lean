import Comprehend.Proofs.Graft.Code
import Comprehend.Proofs.Graft.Readings
import Comprehend.Proofs.Source.Expanded
import Comprehend.Proofs.Source.Splice
import Comprehend.Proofs.Source.Sweep

/-! # An expanded text beside the text as it was

Where nothing in a text is marked, its occurrences are tagged templates, and expanding the text puts
the text of a chain in for each of those that are expanded. -/

namespace Comprehend

open Comprehend.Text Comprehend.Lexeme Comprehend.Parser Comprehend.Layout

variable {settings : ExpansionSettings} {source : String} {o : Occurrence}

namespace Grafting

variable {G : Grafting} {front v cs cs' : List Char} {gs : List Graft}

theorem Aligned.copied_append (h : G.Aligned (front ++ v) gs cs cs') :
    G.Aligned front gs (v ++ cs) (v ++ cs') := by
  induction v generalizing front with
  | nil => simpa using h
  | cons c v ih => exact .copied c (ih (by simpa using h))

theorem Aligned.refl (G : Grafting) (front cs : List Char) : G.Aligned front [] cs cs := by
  have h : G.Aligned front [] (cs ++ []) (cs ++ []) := .copied_append (.nil _)
  simpa using h

end Grafting

/-! ## Occurrences of a text that has no marker -/

namespace Occurrence

theorem bounds_of_mem_find {surfaces : List Surface} (h : o ∈ find surfaces source) :
    o.start < o.stop ∧ o.stop ≤ source.toList.length := by
  obtain ⟨surface, -, ho⟩ := List.mem_flatMap.1 (mem_listed_of_mem_find h)
  have := Surface.search_bounds surface source.toList none 0 0 o ho
  omega

/-- What an occurrence of a tagged template is in a text, and where it stands. -/
theorem tagged_of_mem_find {surfaces : List Surface}
    (hmarker : ¬ listMarker.toList <:+: source.toList) (h : o ∈ find surfaces source) :
    o.surface = .taggedTemplate ∧ hasSubstitution o.raw = false ∧
      (source.toList.take o.start).getLast?.all Surface.mayPrecedeTag = true ∧
      ∃ gap t, (∀ c ∈ gap, isSpace c = true) ∧ template t = some (t, []) ∧
        literalBody (token .template t).text = o.raw ∧
        o.text source.toList = listTag.toList ++ (gap ++ t) := by
  obtain ⟨surface, -, ho⟩ := List.mem_flatMap.1 (mem_listed_of_mem_find h)
  cases surface with
  | markedLiteral =>
    rw [Surface.find, Surface.search_marked hmarker] at ho
    cases ho
  | taggedTemplate =>
    rw [Surface.find, Surface.search_eq_filter, List.mem_filter] at ho
    obtain ⟨⟨r, hmatch⟩, hraw, hsurface⟩ := matchAt_text ho.1
    obtain ⟨hbefore, gap, t, hgap, ht, htext, -⟩ := Surface.tagged_eq_some hmatch
    have hlive : substitutionFrom 0 o.raw.toList = false := by
      simpa [Surface.accepts] using ho.2
    refine ⟨hsurface, hlive, ?_, gap, t, hgap, ht, ?_, by rw [htext, List.append_assoc]⟩
    · simpa [Surface.endOf] using hbefore
    · obtain ⟨v, rfl, -⟩ := guarded_of_template ht
      rw [htext, Surface.body_enclosed (Surface.opens_tag hgap).quoteless] at hraw
      refine String.toList_inj.1 ?_
      rw [hraw]
      simp [literalBody, token]

end Occurrence

namespace Expansion

/-- The occurrences of a text that are expanded. -/
def expanded (settings : ExpansionSettings) (source : String) : List Occurrence :=
  (Occurrence.find settings.surfaces source).filter fun o => (o.fault? settings).isNone

/-- A text beside what it is expanded to, the chains spelled with method calls. -/
def grafting (settings : ExpansionSettings) (source : String) : Grafting where
  text := source.toList
  starts n := ∃ o ∈ expanded settings source, o.start = n
  put := spelledChain settings .propertyName
  fits := fits_spelledChain _

theorem put_grafting : (grafting settings source).put = spelledChain settings .propertyName := rfl

theorem mem_expanded : o ∈ expanded settings source ↔
    o ∈ Occurrence.find settings.surfaces source ∧
      ∃ code, (o.transformed settings).result = .ok code := by
  rw [expanded, List.mem_filter, Occurrence.fault?]
  cases (o.transformed settings).result <;> simp

/-- The chain that is built for an occurrence is the one of its template. -/
theorem chainOf_of_built (hr : settings.reader = .script) {template : Token} {g : Node}
    (hlive : hasSubstitution o.raw = false) (hraw : literalBody template.text = o.raw)
    (h : o.built settings = .ok g) : chainOf settings template = some g := by
  have hrefuses : settings.reader.RefusesOperands := hr ▸ OperandReader.refusesOperands_script
  have hchain : (chain? settings treePlace o.raw).result = .ok (some g) := by
    rw [result_chain? treePlace o.place, chain?_eq hrefuses, h]
  rw [chainOf, hraw, if_neg (by simp [hlive]), hchain]

/-- What is written for an occurrence that is expanded. -/
theorem built_of_transformed {code : String} (h : (o.transformed settings).result = .ok code) :
    ∃ g, o.built settings = .ok g ∧ printChain settings.maxOutput
      ⟨settings.style.dialect, o.surface.parenthesizesSources⟩ g = .ok code := by
  rw [Occurrence.transformed_eq] at h
  exact Chain.bind_eq_ok h

section

variable (hr : settings.reader = .script) (hstyle : settings.style.dialect = .es2019)
  (hmarker : ¬ listMarker.toList <:+: source.toList)
  (hstands : ∀ o ∈ expanded settings source, MayStand (source.toList.take o.start))
  (hchains : ∀ o ∈ expanded settings source, ∀ g, o.built settings = .ok g → g.PlainOperands)
include hr hstyle hmarker hstands hchains

/-- The chain of an occurrence can stand for its template. -/
theorem exists_fits {code : String} (ho : o ∈ Occurrence.find settings.surfaces source)
    (hcode : (o.transformed settings).result = .ok code) :
    ∃ g : Graft, g.matched = o.text source.toList ∧ g.code = code.toList ∧
      (grafting settings source).Fits (source.toList.take o.start) g := by
  have hmem : o ∈ expanded settings source := mem_expanded.2 ⟨ho, code, hcode⟩
  obtain ⟨hsurface, hlive, hbefore, gap, t, hgap, ht, hraw, htext⟩ :=
    Occurrence.tagged_of_mem_find hmarker ho
  obtain ⟨g, hg, hprint⟩ := built_of_transformed hcode
  rw [hsurface, hstyle] at hprint
  have hchain := chainOf_of_built hr hlive hraw hg
  have hclean : Clean (pieces (some ⟨.es2019, false⟩) g) := clean_slot.1 (clean_of_settleFrom hprint)
  have hcodeText : code.toList = text (some ⟨.es2019, false⟩) g :=
    toList_of_settle hprint
  have hstart : (source.toList.take o.start).length = o.start := by
    have := Occurrence.bounds_of_mem_find ho
    rw [List.length_take]
    omega
  refine ⟨⟨gap, t, code.toList, g.spelled (Node.methodCall .propertyName .arrow)⟩, htext.symm, rfl,
    ⟨o, hmem, hstart.symm⟩, hbefore, hstands o hmem, hgap, ht, ?_, ?_⟩
  · rw [put_grafting, spelledChain, hchain, Option.map_some]
  · rw [hcodeText]
    exact (generated_of_chainOf hr hchain).standsIn (isChain_of_chainOf hchain) (hchains o hmem g hg)
      hclean

theorem aligned_weave {os : List Occurrence} {p : Nat}
    (hos : ∀ o ∈ os, o ∈ Occurrence.find settings.surfaces source)
    (horder : Occurrence.InOrder source.toList.length p os) :
    ∃ gs : List Graft, gs.length = (os.filter fun o => (o.fault? settings).isNone).length ∧
      (grafting settings source).Aligned (source.toList.take p) gs (source.toList.drop p)
        (Occurrence.weave source.toList (·.written settings source.toList) p os) := by
  induction os generalizing p with
  | nil => exact ⟨[], rfl, .refl _ _ _⟩
  | cons o os ih =>
    obtain ⟨ho, hos⟩ := List.forall_mem_cons.1 hos
    cases horder with
    | cons hp hpos horder =>
      obtain ⟨gs, hlength, hrest⟩ := ih hos horder
      have hfront : source.toList.take p ++ (source.toList.drop p).take (o.start - p) =
          source.toList.take o.start := by
        rw [← List.take_add, Nat.add_sub_cancel' hp]
      have hthrough : source.toList.take o.stop =
          source.toList.take o.start ++ o.text source.toList := by
        rw [Occurrence.text, ← List.take_add, Nat.add_sub_cancel' hpos.le]
      have hbehind : source.toList.drop o.start =
          o.text source.toList ++ source.toList.drop o.stop := by
        rw [Occurrence.text, ← Nat.add_sub_cancel' hpos.le, ← List.drop_drop,
          Nat.add_sub_cancel_left, List.take_append_drop]
      have hsplit : source.toList.drop p =
          (source.toList.drop p).take (o.start - p) ++ source.toList.drop o.start := by
        nth_rewrite 1 [← List.take_append_drop (o.start - p) (source.toList.drop p)]
        rw [List.drop_drop, Nat.add_sub_cancel' hp]
      rw [hthrough] at hrest
      rw [Occurrence.weave, List.append_assoc]
      generalize (source.toList.drop p).take (o.start - p) = between at hfront hsplit ⊢
      rw [hsplit, hbehind]
      cases hresult : (o.transformed settings).result with
      | error fault =>
        have hwritten : o.written settings source.toList = o.text source.toList := by
          rw [Occurrence.written, hresult]
        refine ⟨gs, ?_, ?_⟩
        · rw [List.filter_cons_of_neg (by simp [Occurrence.fault?, hresult]), hlength]
        · refine .copied_append ?_
          rw [hfront, hwritten]
          exact .copied_append hrest
      | ok code =>
        obtain ⟨g, hmatched, hcode, hfits⟩ := exists_fits hr hstyle hmarker hstands hchains ho hresult
        have hwritten : o.written settings source.toList = g.code := by
          rw [Occurrence.written, hresult, hcode]
        refine ⟨g :: gs, ?_, ?_⟩
        · rw [List.filter_cons_of_pos (by simp [Occurrence.fault?, hresult]), List.length_cons,
            List.length_cons, hlength]
        · refine .copied_append ?_
          rw [hfront, hwritten, ← hmatched]
          exact .put hfits (hmatched ▸ hrest)

/-- Expanding a text puts in as many chains as occurrences are expanded. -/
theorem exists_at_source {s : String} (h : (Expansion.source settings source).result = .ok s) :
    ∃ gs : List Graft, gs.length = (expanded settings source).length ∧
      (grafting settings source).At [] gs source.toList s.toList := by
  have hrefuses : settings.reader.RefusesOperands := hr ▸ OperandReader.refusesOperands_script
  rw [source_of_free hrefuses (free_of_source hrefuses h)] at h
  have hs := Except.ok.inj h
  obtain ⟨gs, hlength, haligned⟩ := aligned_weave hr hstyle hmarker hstands hchains (fun _ => id)
    (Occurrence.inOrder_find settings.surfaces source)
  refine ⟨gs, hlength, rfl, ?_⟩
  rw [← hs, String.toList_ofList]
  exact haligned

end

end Expansion

end Comprehend
