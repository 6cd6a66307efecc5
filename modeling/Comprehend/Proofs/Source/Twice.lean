import Comprehend.Proofs.Source.Expanded
import Comprehend.Proofs.Source.Settled
import Comprehend.Proofs.Source.Sweep

/-! # Expanding a source text twice

The program text of an occurrence is inert, so splicing it in neither makes an occurrence nor hides
one. Nor does it reveal one, if the occurrence stands alone: a match that overlaps it is dropped, and
what that match has been passed over for is searched again in the second pass. Where all occurrences
that are expanded stand alone, expanding the text is idempotent. -/

namespace Comprehend

open Comprehend.Text Comprehend.Lexeme Comprehend.Layout

variable {settings : ExpansionSettings} {text : String} {o : Occurrence} {code : String}

/-! ## Program texts -/

/-- What is printed for a guarded comprehension is inert. -/
theorem Occurrence.inert_of_transformed (hr : settings.reader = .script)
    (hraw : Lexeme.Guarded o.raw.toList) (h : (o.transformed settings).result = .ok code) :
    Surface.Inert code.toList := by
  rw [transformed_eq] at h
  obtain ⟨g, hbuilt, hprint⟩ := Chain.bind_eq_ok h
  rw [Expansion.built_eq] at hbuilt
  obtain ⟨⟨c, g'⟩, hgenerate, rfl⟩ := ClauseToken.map_eq_ok hbuilt
  generalize (⟨_, _⟩ : ChainStyle) = style at hprint
  have hguarded : Layout.Guarded (pieces (some style) g') :=
    (Chain.generated_of_generate hr hgenerate).guarded_pieces
      (Chain.guarded_of_generate hr hgenerate hraw)
  have htext : code.toList = Layout.text (some style) g' := by
    rw [settle_ok hprint]
    exact chars_slot_zero g' _
  rw [htext]
  exact ⟨hguarded.chars, Chain.exists_text_of_isChain (Expansion.isChain_of_generate hgenerate)⟩

/-! ## Occurrences that are left -/

namespace Occurrence

/-- An occurrence that stays as it is, and whose fault does not end the expansion. -/
def Stays (settings : ExpansionSettings) (o : Occurrence) : Prop :=
  ∃ fault, (o.transformed settings).result = .error fault ∧
    (fault.IsTolerated ∨ settings.skipFaults = true)

theorem Stays.free (h : o.Stays settings) :
    settings.skipFaults = true ∨ o.obstacle? settings = none := by
  obtain ⟨fault, hfault, htolerated | hskip⟩ := h
  · refine .inr ?_
    simp [obstacle?, fault?, hfault, Option.filter, htolerated]
  · exact .inl hskip

theorem stays_of_free {fault : Fault} (hfault : (o.transformed settings).result = .error fault)
    (h : settings.skipFaults = true ∨ o.obstacle? settings = none) : o.Stays settings := by
  refine ⟨fault, hfault, h.symm.imp_left fun hnone => ?_⟩
  simpa [obstacle?, fault?, hfault, Option.filter] using hnone

theorem Stays.written (h : o.Stays settings) (source : List Char) :
    o.written settings source = o.text source := by
  obtain ⟨fault, hfault, -⟩ := h
  rw [Occurrence.written, hfault]

/-- A text in which some occurrences are still to be replaced: those that are stand alone, and all
others that it has stay. -/
structure Remaining (settings : ExpansionSettings) (os : List Occurrence) (text : String) : Prop where
  alone : ∀ o ∈ os, ∀ code, (o.transformed settings).result = .ok code →
    o.Alone settings.surfaces text
  found : ∀ o ∈ find settings.surfaces text, o ∈ os ∨ o.Stays settings

theorem Remaining.stay {os : List Occurrence} (h : Remaining settings (os ++ [o]) text)
    (ho : o.Stays settings) : Remaining settings os text where
  alone c hc := h.alone c (List.mem_append_left _ hc)
  found c hc := by
    rcases h.found c hc with hc | hc
    · rcases List.mem_append.1 hc with hc | hc
      · exact .inl hc
      · exact .inr (List.mem_singleton.1 hc ▸ ho)
    · exact .inr hc

/-- Writing its program text for the last of them leaves the others. -/
theorem Remaining.replace {os : List Occurrence} {a t u v z : List Char} {text' : String}
    (htext : text.toList = u ++ (t ++ z)) (htext' : text'.toList = u ++ (code.toList ++ z))
    (hstart : o.start = u.length) (hstop : o.stop = u.length + t.length)
    (ht : Surface.IsMatch a v t) (hs : Surface.Inert code.toList)
    (hcode : (o.transformed settings).result = .ok code)
    (hos : ∀ c ∈ os, c.start < c.stop ∧ c.stop ≤ o.start)
    (h : Remaining settings (os ++ [o]) text) : Remaining settings os text' := by
  have halone := h.alone o (by simp) code hcode
  refine ⟨fun c hc code' hcode' => ?_, fun c hc => ?_⟩
  · exact alone_replaced htext htext' hstart hstop ht hs halone
      (h.alone c (List.mem_append_left _ hc) code' hcode') (hos c hc).2
  · rw [find_replaced htext htext' hstart hstop ht hs halone] at hc
    obtain ⟨d, hd, rfl⟩ := List.mem_map.1 hc
    obtain ⟨hd, hne⟩ := List.mem_filter.1 hd
    rcases h.found d hd with hd | hd
    · rcases List.mem_append.1 hd with hd | hd
      · obtain ⟨hdpos, hdstop⟩ := hos d hd
        rw [moved_of_le hdpos.le hdstop]
        exact .inl hd
      · simp [List.mem_singleton.1 hd] at hne
    · exact .inr hd

/-- An occurrence stands where its offsets say. -/
theorem isMatch_text {surfaces : List Surface} (h : o ∈ find surfaces text) :
    ∃ a v, Surface.IsMatch a v (o.text text.toList) ∧ o.raw.toList = v ∧
      o.start < o.stop ∧ o.stop ≤ text.toList.length := by
  obtain ⟨surface, -, ho⟩ := exists_candidates_of_mem_listed (mem_listed_of_mem_find h)
  have hbounds := Surface.candidates_bounds _ _ _ _ _ o ho
  obtain ⟨⟨r, hmatchAt⟩, hraw, -⟩ := matchAt_text ho
  obtain ⟨a, v, hmatch⟩ := Surface.isMatch_of_matchAt hmatchAt
  exact ⟨a, v, hmatch, hraw.trans hmatch.body_eq, hbounds.2.1, by omega⟩

/-! ## The run -/

theorem weave_congr {source : List Char} {write write' : Occurrence → List Char}
    {os : List Occurrence} (h : ∀ o ∈ os, write o = write' o) :
    ∀ {p : Nat}, weave source write p os = weave source write' p os := by
  induction os with
  | nil => exact rfl
  | cons o os ih =>
    intro p
    obtain ⟨ho, hos⟩ := List.forall_mem_cons.1 h
    rw [weave, weave, ho, ih hos]

/-- Writing the rest of the occurrences leaves those in front of them. -/
theorem remaining_weave (hr : settings.reader = .script) {pre os : List Occurrence} {p : Nat}
    (hfind : find settings.surfaces text = pre ++ os)
    (hfree : ∀ o ∈ os, settings.skipFaults = true ∨ o.obstacle? settings = none)
    (halone : ∀ o ∈ find settings.surfaces text, ∀ code,
      (o.transformed settings).result = .ok code → o.Alone settings.surfaces text)
    (hp : ∀ o ∈ os, p ≤ o.start) :
    Remaining settings pre (String.ofList (text.toList.take p ++
      weave text.toList (·.written settings text.toList) p os)) := by
  induction os generalizing pre p with
  | nil =>
    rw [weave, List.take_append_drop, String.ofList_toList]
    rw [List.append_nil] at hfind
    exact ⟨hfind ▸ halone, fun o ho => .inl (hfind ▸ ho)⟩
  | cons o os ih =>
    obtain ⟨hofree, hosfree⟩ := List.forall_mem_cons.1 hfree
    have hpairs : (pre ++ o :: os).Pairwise (·.stop ≤ ·.start) := by
      rw [← hfind]
      exact (inOrder_find _ _).pairwise
    obtain ⟨-, hbehind, hbetween⟩ := List.pairwise_append.1 hpairs
    have hmem : o ∈ find settings.surfaces text := by simp [hfind]
    obtain ⟨a, v, hmatch, hraw, hpos, hstop⟩ := isMatch_text hmem
    have hnext : find settings.surfaces text = (pre ++ [o]) ++ os := by simp [hfind]
    have hrest := ih hnext hosfree (List.pairwise_cons.1 hbehind).1
    have hfront : text.toList.take p ++ (text.toList.drop p).take (o.start - p) =
        text.toList.take o.start := by
      rw [← List.take_add, Nat.add_sub_cancel' (hp o List.mem_cons_self)]
    have hthrough : text.toList.take o.stop = text.toList.take o.start ++ o.text text.toList := by
      rw [Occurrence.text, ← List.take_add, Nat.add_sub_cancel' hpos.le]
    rw [weave, List.append_assoc, ← List.append_assoc (text.toList.take p), hfront]
    rw [hthrough, List.append_assoc] at hrest
    generalize weave text.toList (·.written settings text.toList) o.stop os = z at hrest ⊢
    cases hresult : (o.transformed settings).result with
    | error fault =>
      have hstays := stays_of_free hresult hofree
      rw [hstays.written]
      exact hrest.stay hstays
    | ok code =>
      have hstart : o.start = (text.toList.take o.start).length := by
        rw [List.length_take]
        omega
      have hlength : o.stop = (text.toList.take o.start).length + (o.text text.toList).length := by
        rw [← List.length_append, ← hthrough, List.length_take]
        omega
      have hinert := inert_of_transformed hr (hraw ▸ hmatch.guarded) hresult
      have hwritten : o.written settings text.toList = code.toList := by
        rw [Occurrence.written, hresult]
      rw [hwritten]
      refine hrest.replace (String.toList_ofList) (String.toList_ofList) hstart hlength hmatch hinert
        hresult fun c hc => ?_
      have hcmem : c ∈ find settings.surfaces text := by simp [hfind, hc]
      obtain ⟨-, -, -, -, hcpos, -⟩ := isMatch_text hcmem
      exact ⟨hcpos, hbetween c hc o List.mem_cons_self⟩

end Occurrence

namespace Expansion

/-- Expanding a source text is idempotent where each occurrence that is expanded stands alone: no
other match overlaps it, not even one that is dropped or does not count. All occurrences of the
expanded text stay as they are. -/
theorem source_source (hr : settings.reader = .script) {s : String}
    (h : (source settings text).result = .ok s)
    (halone : ∀ o ∈ Occurrence.find settings.surfaces text, ∀ code,
      (o.transformed settings).result = .ok code → o.Alone settings.surfaces text) :
    (source settings s).result = .ok s ∧
      ∀ o ∈ Occurrence.find settings.surfaces s, o.Stays settings := by
  have hrefuses : settings.reader.RefusesOperands := hr ▸ OperandReader.refusesOperands_script
  have hfree := free_of_source hrefuses h
  rw [source_of_free hrefuses hfree] at h
  have hs := Except.ok.inj h
  have hremaining := Occurrence.remaining_weave hr (List.nil_append _).symm hfree halone
    fun _ _ => Nat.zero_le _
  rw [List.take_zero, List.nil_append, hs] at hremaining
  have hstays : ∀ o ∈ Occurrence.find settings.surfaces s, o.Stays settings := fun o ho =>
    (hremaining.found o ho).resolve_left List.not_mem_nil
  refine ⟨?_, hstays⟩
  have hkept : Occurrence.weave s.toList (·.written settings s.toList) 0
      (Occurrence.find settings.surfaces s) = s.toList := by
    rw [Occurrence.weave_congr fun o ho => (hstays o ho).written s.toList,
      Occurrence.weave_text (Occurrence.inOrder_find _ _), List.drop_zero]
  rw [source_of_free hrefuses fun o ho => (hstays o ho).free, hkept, String.ofList_toList]

end Expansion

theorem source_source_mixedText :
    (Expansion.source ⟨Settings.standard, Surface.all, true⟩ mixedText).result = .ok
        "[xs.map(x => x), list`x of xs`, list`x for (1 of xs)`, (y || z).map(x => x)]" ∧
      (Expansion.source ⟨Settings.standard, Surface.all, true⟩
        "[xs.map(x => x), list`x of xs`, list`x for (1 of xs)`, (y || z).map(x => x)]").result =
          .ok "[xs.map(x => x), list`x of xs`, list`x for (1 of xs)`, (y || z).map(x => x)]" := by
  have hfirst : (Expansion.source ⟨Settings.standard, Surface.all, true⟩ mixedText).result = .ok
      "[xs.map(x => x), list`x of xs`, list`x for (1 of xs)`, (y || z).map(x => x)]" := by
    rw [Expansion.source, find_mixedText]
    decide +kernel
  have halone : ∀ o ∈ Occurrence.find Surface.all mixedText, o.Alone Surface.all mixedText := by
    rw [find_mixedText]
    decide +kernel
  exact ⟨hfirst, (Expansion.source_source rfl hfirst fun o ho _ _ => halone o ho).1⟩

end Comprehend
