import Comprehend.Proofs.Chain.Stage
import Comprehend.Proofs.Source.Found

/-! # Splicing

A source text is the texts around its occurrences and the occurrences themselves, and expanding it
writes the former again and something of its own for each of the latter. What that is depends on the
occurrence alone: its comprehension transformed, or the occurrence as it stands if that fails. One
failure does not touch another; what it does to the whole is a matter of the settings. -/

namespace Comprehend

open Comprehend.Layout

/-! ## One occurrence -/

/-- A fault for which a comprehension stays as it is under all settings: its text is malformed, or
it has no clause that can be used. -/
def Fault.IsTolerated (fault : Fault) : Prop :=
  fault.family = .comprehension ∨ fault.family = .depth ∧ fault.depth = 0

instance : DecidablePred Fault.IsTolerated := fun _ => inferInstanceAs (Decidable (_ ∨ _))

/-- The settings for one comprehension of a surface. -/
def Surface.settings (settings : ExpansionSettings) (surface : Surface) : Settings :=
  { settings.toSettings with style := ⟨settings.style.dialect, surface.parenthesizesSources⟩ }

@[simp] theorem except_ok_bind {ε α β : Type} (x : α) (f : α → Except ε β) :
    (Except.ok x >>= f) = f x := rfl

@[simp] theorem except_error_bind {ε α β : Type} (e : ε) (f : α → Except ε β) :
    (Except.error e >>= f) = .error e := rfl

namespace Noted

variable {α β : Type} {ns : List Notice}

@[simp] theorem ok_bind (x : α) (f : α → Noted β) :
    (⟨ns, .ok x⟩ : Noted α) >>= f = ⟨ns ++ (f x).notices, (f x).result⟩ := rfl

@[simp] theorem error_bind (fault : Fault) (f : α → Noted β) :
    (⟨ns, .error fault⟩ : Noted α) >>= f = ⟨ns, .error fault⟩ := rfl

@[simp] theorem liftM_eq (a : Except Fault α) : (liftM a : Noted α) = ⟨[], a⟩ := rfl

@[simp] theorem pure_eq (x : α) : (pure x : Noted α) = ⟨[], .ok x⟩ := rfl

end Noted

/-- Nothing is noted once a comprehension is read. -/
theorem transform_eq (settings : Settings) (raw : String) :
    transform settings raw = ⟨(Comprehension.parse settings.strict raw).notices, do
      let c ← (Comprehension.parse settings.strict raw).result
      let chain ← c.chain settings
      printChain settings.maxOutput settings.style chain⟩ := by
  rw [transform, explain]
  obtain ⟨ns, _ | c⟩ := Comprehension.parse settings.strict raw
  · simp
  · cases hchain : c.chain settings with
    | error fault => simp [hchain]
    | ok chain => cases hprint : printChain settings.maxOutput settings.style chain <;> simp [hchain, hprint]

namespace Occurrence

/-- The comprehension of an occurrence, transformed on its own. -/
def transformed (settings : ExpansionSettings) (o : Occurrence) : Noted String :=
  transform (o.surface.settings settings) o.raw

/-- The chain that is built for an occurrence. -/
def built (settings : ExpansionSettings) (o : Occurrence) : Except Fault Node :=
  (Comprehension.parse settings.strict o.raw).result >>= (·.chain settings.toSettings)

theorem transformed_eq (settings : ExpansionSettings) (o : Occurrence) :
    o.transformed settings = ⟨(Comprehension.parse settings.strict o.raw).notices,
      o.built settings >>=
        printChain settings.maxOutput ⟨settings.style.dialect, o.surface.parenthesizesSources⟩⟩ := by
  rw [transformed, transform_eq, built, bind_assoc]
  rfl

/-- The fault that keeps an occurrence as it is. -/
def fault? (settings : ExpansionSettings) (o : Occurrence) : Option Fault :=
  match (o.transformed settings).result with
  | .ok _ => none
  | .error fault => some fault

/-- The fault of an occurrence that ends the expansion unless faults are to be skipped. -/
def obstacle? (settings : ExpansionSettings) (o : Occurrence) : Option Fault :=
  (o.fault? settings).filter fun fault => !fault.IsTolerated

/-- What is said of an occurrence that stays as it is. -/
def report (o : Occurrence) (fault : Fault) : Notice :=
  if fault.family = .comprehension then .malformed o.place fault
  else if fault.IsTolerated then .unusable o.place o.raw
  else .skipped o.place fault

/-- The text of an occurrence as it stands. -/
def text (source : List Char) (o : Occurrence) : List Char :=
  (source.drop o.start).take (o.stop - o.start)

/-- What is written for an occurrence. -/
def written (settings : ExpansionSettings) (source : List Char) (o : Occurrence) : List Char :=
  match (o.transformed settings).result with
  | .ok code => code.toList
  | .error _ => o.text source

/-- What is noted on the way past an occurrence. -/
def notices (settings : ExpansionSettings) (o : Occurrence) : List Notice :=
  (o.transformed settings).notices ++ ((o.fault? settings).map o.report).toList

/-- The texts around the occurrences, from a position on, with something in place of each of
these. -/
def weave (source : List Char) (write : Occurrence → List Char) : (position : Nat) →
    List Occurrence → List Char
  | position, [] => source.drop position
  | position, o :: os =>
    (source.drop position).take (o.start - position) ++ write o ++ weave source write o.stop os

end Occurrence

/-- The place that a notice says to stay as it is. -/
def Notice.keptPlace? : Notice → Option String
  | .unusable place _ | .malformed place _ | .skipped place _ => some place
  | .droppedClause _ | .ignoredText .. => none

@[simp] theorem keptPlace?_report (o : Occurrence) (fault : Fault) :
    (o.report fault).keptPlace? = some o.place := by
  unfold Occurrence.report
  split_ifs <;> rfl

theorem Noted.mem_notices_bind {α β : Type} {a : Noted α} {f : α → Noted β} {n : Notice}
    (h : n ∈ (a >>= f).notices) : n ∈ a.notices ∨ ∃ x, n ∈ (f x).notices := by
  rcases a with ⟨ns, _ | x⟩
  · exact .inl h
  · exact (List.mem_append.1 h).imp_right fun h => ⟨x, h⟩

/-! Reading a comprehension notes nothing but its dropped clauses and ignored texts. -/

theorem Clause.keptPlace?_of_ofSegment {strict : Bool} {segment : List ClauseToken} {n : Notice}
    (h : n ∈ (Clause.ofSegment strict segment).notices) : n.keptPlace? = none := by
  unfold Clause.ofSegment at h
  split at h
  · cases h
  split at h
  · cases h
  split at h
  · cases h
  split at h
  · cases h
  · cases h
  · cases h
  · rcases Noted.mem_notices_bind h with h | ⟨p, h⟩
    · cases h
    · dsimp only at h
      split at h
      · cases h
      · split at h
        · cases h
        · rcases Noted.mem_notices_bind h with h | ⟨-, h⟩
          · rw [List.mem_singleton.1 h]
            rfl
          · cases h

theorem Comprehension.keptPlace?_of_addSegments {strict : Bool} {c : Comprehension}
    {segments : List (List ClauseToken)} {n : Notice}
    (h : n ∈ (addSegments strict c segments).notices) : n.keptPlace? = none := by
  induction segments generalizing c with
  | nil => cases h
  | cons s segments ih =>
    rcases Noted.mem_notices_bind h with h | ⟨d, h⟩
    · simp only [addSegment] at h
      split at h
      · exact Clause.keptPlace?_of_ofSegment h
      · split at h
        · exact Clause.keptPlace?_of_ofSegment h
        · rcases List.mem_append.1 h with h | h
          · exact Clause.keptPlace?_of_ofSegment h
          · rw [List.mem_singleton.1 h]
            rfl
    · exact ih h

theorem Comprehension.keptPlace?_of_parse {strict : Bool} {raw : String} {n : Notice}
    (h : n ∈ (Comprehension.parse strict raw).notices) : n.keptPlace? = none := by
  unfold Comprehension.parse at h
  split at h
  · cases h
  · rcases Noted.mem_notices_bind h with h | ⟨segments, h⟩
    · cases h
    · split at h
      · cases h
      · cases h
      · cases h
      · exact keptPlace?_of_addSegments h

section

variable {settings : ExpansionSettings} {fault : Fault}

theorem Fault.IsOfPrinting.not_isTolerated (h : fault.IsOfPrinting) : ¬ fault.IsTolerated := by
  rintro (hf | ⟨hf, -⟩) <;> rcases h with h | h | h <;> rw [h] at hf <;> cases hf

theorem not_isTolerated_of_clause (h : fault.family = .clause) : ¬ fault.IsTolerated := by
  rintro (hf | ⟨hf, -⟩) <;> rw [h] at hf <;> cases hf

/-- What keeps a chain from being built is tolerated only if there is no clause. -/
theorem Chain.build_error_not_isTolerated {reader : OperandReader} (hr : reader.RefusesOperands)
    {maxClauses : Int} {yield : String} {clauses : List Clause} (hne : clauses ≠ [])
    (h : Chain.build reader maxClauses yield clauses = .error fault) : ¬ fault.IsTolerated := by
  rcases Chain.build_error hr h with ⟨hnil, -⟩ | ⟨-, rfl | hf | hf⟩
  · exact absurd hnil hne
  · rintro (hf | ⟨-, hf⟩)
    · cases hf
    · exact hne (List.length_eq_zero_iff.1 hf)
  · rintro (h' | ⟨h', -⟩) <;> rw [hf] at h' <;> cases h'
  · rintro (h' | ⟨h', -⟩) <;> rw [hf] at h' <;> cases h'

theorem Expansion.passingOver_error {o : Occurrence} {ns : List Notice}
    (h : fault.IsTolerated → fault.family = .comprehension) :
    (passingOver settings o.place ⟨ns, .error fault⟩ : Noted (Option α)) =
      if fault.IsTolerated ∨ settings.skipFaults = true then ⟨ns ++ [o.report fault], .ok none⟩
      else ⟨ns, .error fault⟩ := by
  unfold passingOver Occurrence.report
  by_cases hf : fault.family = .comprehension
  · simp [hf, Fault.IsTolerated]
  · simp [hf, mt h hf]

/-- The chain of an occurrence is found where it can be built. -/
theorem Expansion.chain?_eq (hr : settings.reader.RefusesOperands) (o : Occurrence) :
    chain? settings o.place o.raw =
      match o.built settings with
      | .ok chain => ⟨(Comprehension.parse settings.strict o.raw).notices, .ok (some chain)⟩
      | .error fault =>
        if fault.IsTolerated ∨ settings.skipFaults = true then
          ⟨(Comprehension.parse settings.strict o.raw).notices ++ [o.report fault], .ok none⟩
        else ⟨(Comprehension.parse settings.strict o.raw).notices, .error fault⟩ := by
  rw [chain?, Occurrence.built]
  obtain ⟨ns, res, hparse⟩ : ∃ ns res, Comprehension.parse settings.strict o.raw = ⟨ns, res⟩ :=
    ⟨_, _, rfl⟩
  rw [hparse]
  cases res with
  | error fault =>
    have hfault : fault.IsTolerated → fault.family = .comprehension := fun htolerated => by
      have hresult : (Comprehension.parse settings.strict o.raw).result = .error fault := by
        rw [hparse]
      rcases Comprehension.family_of_parse hresult with h | h
      · exact h
      · exact absurd htolerated (not_isTolerated_of_clause h)
    simp only [Noted.error_bind, passingOver_error hfault, except_error_bind]
    split_ifs <;> simp
  | ok c =>
    by_cases hne : c.clauses = []
    · have htolerated : Fault.noClauses.IsTolerated := .inr ⟨rfl, rfl⟩
      have hreport : o.report .noClauses = .unusable o.place o.raw := rfl
      simp [hne, Comprehension.chain, Chain.build, passingOver, Noted.note, htolerated, hreport]
    · cases hchain : c.chain settings.toSettings with
      | error fault =>
        have hfault : fault.IsTolerated → fault.family = .comprehension := fun htolerated =>
          absurd htolerated (Chain.build_error_not_isTolerated hr hne hchain)
        simp [hne, hchain, passingOver_error hfault]
        split_ifs <;> simp
      | ok chain => simp [hne, hchain, passingOver]

/-- What becomes of an occurrence is what becomes of its comprehension on its own, but that a fault
is turned into a notice where it is tolerated or to be skipped. -/
theorem Expansion.code?_eq (hr : settings.reader.RefusesOperands) (o : Occurrence) :
    code? settings o =
      match (o.transformed settings).result with
      | .ok code => ⟨(o.transformed settings).notices, .ok (some code)⟩
      | .error fault =>
        if fault.IsTolerated ∨ settings.skipFaults = true then
          ⟨(o.transformed settings).notices ++ [o.report fault], .ok none⟩
        else ⟨(o.transformed settings).notices, .error fault⟩ := by
  rw [code?, chain?_eq hr, Occurrence.transformed_eq]
  cases o.built settings with
  | error fault =>
    simp only [except_error_bind]
    split_ifs <;> simp
  | ok chain =>
    simp only [Noted.ok_bind, except_ok_bind, Noted.liftM_eq]
    cases hprint : printChain settings.maxOutput
        ⟨settings.style.dialect, o.surface.parenthesizesSources⟩ chain with
    | error fault =>
      have hfault : fault.IsTolerated → fault.family = .comprehension := fun htolerated =>
        absurd htolerated (isOfPrinting_printChain hprint).not_isTolerated
      rw [passingOver_error hfault]
      dsimp only
      split_ifs <;> simp
    | ok code => simp [passingOver]

/-! ## All occurrences -/

theorem Occurrence.code?_of_free (hr : settings.reader.RefusesOperands) {o : Occurrence}
    (h : settings.skipFaults = true ∨ o.obstacle? settings = none) :
    Expansion.code? settings o = ⟨o.notices settings, .ok (o.transformed settings).result.toOption⟩ := by
  rw [Expansion.code?_eq hr]
  unfold obstacle? fault? at h
  unfold notices fault?
  cases hresult : (o.transformed settings).result with
  | ok code => simp [Except.toOption]
  | error fault =>
    rw [hresult] at h
    have hfree : fault.IsTolerated ∨ settings.skipFaults = true := by
      rcases h with h | h
      · exact .inr h
      · exact .inl (by simpa [Option.filter] using h)
    simp [if_pos hfree, Except.toOption]

theorem Occurrence.code?_of_obstacle (hr : settings.reader.RefusesOperands)
    (hskip : settings.skipFaults = false) {o : Occurrence} (h : o.obstacle? settings = some fault) :
    (Expansion.code? settings o).result = .error fault := by
  rw [Expansion.code?_eq hr]
  obtain ⟨hfault, htolerated⟩ := Option.filter_eq_some_iff.1 h
  unfold fault? at hfault
  split at hfault
  · cases hfault
  · cases hfault
    have hblocked : ¬(fault.IsTolerated ∨ settings.skipFaults = true) := by
      simpa [hskip] using htolerated
    simp only [if_neg hblocked]

namespace Occurrence

/-- The texts around the occurrences and the occurrences as they stand make up the source. -/
theorem weave_text {source : List Char} {os : List Occurrence} {position : Nat}
    (ho : InOrder source.length position os) :
    weave source (·.text source) position os = source.drop position := by
  induction ho with
  | nil => rfl
  | @cons position o os hstart hstop _ ih =>
    have hself := Expansion.take_between source hstart (o.stop - o.start)
    rw [Nat.add_sub_cancel' hstop.le] at hself
    have hjoin : source.drop o.stop = (source.drop position).drop (o.stop - position) := by
      rw [List.drop_drop, Nat.add_sub_cancel' (hstart.trans hstop.le)]
    rw [weave, ih, text, ← hself, hjoin, List.take_append_drop]

theorem keptPlace?_notices (settings : ExpansionSettings) (o : Occurrence) :
    (o.notices settings).filterMap Notice.keptPlace? =
      if (o.fault? settings).isSome then [o.place] else [] := by
  have hparse : (o.transformed settings).notices.filterMap Notice.keptPlace? = [] := by
    rw [transformed_eq]
    exact List.filterMap_eq_nil_iff.2 fun n hn => Comprehension.keptPlace?_of_parse hn
  rw [notices, List.filterMap_append, hparse, List.nil_append]
  cases o.fault? settings <;> simp

/-- The occurrences that stay are named in order, each once. -/
theorem keptPlace?_allNotices (settings : ExpansionSettings) (os : List Occurrence) :
    (os.flatMap (·.notices settings)).filterMap Notice.keptPlace? =
      (os.filter fun o => (o.fault? settings).isSome).map place := by
  induction os with
  | nil => rfl
  | cons o os ih =>
    rw [List.flatMap_cons, List.filterMap_append, keptPlace?_notices, ih, List.filter_cons]
    split_ifs <;> rfl

end Occurrence

namespace Expansion

/-- Where no occurrence ends the expansion, each has something written for it in its place. -/
theorem splice_of_free (hr : settings.reader.RefusesOperands) {source : List Char}
    {os : List Occurrence} {stop position : Nat}
    (hfree : ∀ o ∈ os, settings.skipFaults = true ∨ o.obstacle? settings = none)
    (ho : Occurrence.InOrder source.length stop os) (hp : position ≤ stop) :
    splice settings source position os =
      ⟨os.flatMap (·.notices settings), .ok ((source.drop position).take (stop - position) ++
        Occurrence.weave source (·.written settings source) stop os)⟩ := by
  induction os generalizing stop position with
  | nil =>
    have hjoin : (source.drop position).take (stop - position) ++ source.drop stop =
        source.drop position := by
      rw [← Nat.add_sub_cancel' hp, ← List.drop_drop, Nat.add_sub_cancel_left,
        List.take_append_drop]
    simp [splice, Occurrence.weave, hjoin]
  | cons o os ih =>
    obtain ⟨hfree, hrest⟩ := List.forall_mem_cons.1 hfree
    cases ho with
    | cons hstart hstop hos =>
      have hbefore := take_between source hp (o.start - stop)
      rw [Nat.add_sub_cancel' hstart] at hbefore
      rw [splice, Occurrence.code?_of_free hr hfree, Noted.ok_bind, Occurrence.weave,
        List.flatMap_cons]
      cases hresult : (o.transformed settings).result with
      | ok code =>
        simp [ih hrest hos (Nat.le_refl _), Except.toOption, hbefore, Occurrence.written, hresult]
      | error fault =>
        have hself := take_between source (hp.trans hstart) (o.stop - o.start)
        rw [Nat.add_sub_cancel' hstop.le, hbefore] at hself
        simp [ih hrest hos (hp.trans (hstart.trans hstop.le)), Except.toOption, hself,
          Occurrence.written, Occurrence.text, hresult]

/-- The first occurrence that ends the expansion says how. -/
theorem splice_of_obstacle (hr : settings.reader.RefusesOperands)
    (hskip : settings.skipFaults = false) {source : List Char} {os : List Occurrence}
    {position : Nat} (h : os.findSome? (·.obstacle? settings) = some fault) :
    (splice settings source position os).result = .error fault := by
  induction os generalizing position with
  | nil => cases h
  | cons o os ih =>
    rw [List.findSome?_cons] at h
    rw [splice, Noted.result_bind]
    cases ho : o.obstacle? settings with
    | some first =>
      rw [ho] at h
      cases h
      rw [Occurrence.code?_of_obstacle hr hskip ho]
      rfl
    | none =>
      rw [ho] at h
      rw [Occurrence.code?_of_free hr (.inr ho)]
      cases (o.transformed settings).result with
      | error _ => exact ih h
      | ok code =>
        change Noted.result (splice settings source o.stop os >>= _) = _
        rw [Noted.result_bind, ih h]
        rfl

/-- Where no occurrence ends the expansion, the texts around the occurrences are written again, and
in between what each comes to on its own. -/
theorem source_of_free (hr : settings.reader.RefusesOperands) {text : String}
    (hfree : ∀ o ∈ Occurrence.find settings.surfaces text,
      settings.skipFaults = true ∨ o.obstacle? settings = none) :
    source settings text =
      ⟨(Occurrence.find settings.surfaces text).flatMap (·.notices settings),
        .ok (String.ofList (Occurrence.weave text.toList (·.written settings text.toList) 0
          (Occurrence.find settings.surfaces text)))⟩ := by
  rw [source, splice_of_free hr hfree (Occurrence.inOrder_find _ _) (Nat.le_refl 0)]
  simp

/-- Where an expansion succeeds, no occurrence ends it. -/
theorem free_of_source (hr : settings.reader.RefusesOperands) {text s : String}
    (h : (source settings text).result = .ok s) :
    ∀ o ∈ Occurrence.find settings.surfaces text,
      settings.skipFaults = true ∨ o.obstacle? settings = none := by
  intro o ho
  by_contra hblocked
  simp only [not_or, Bool.not_eq_true] at hblocked
  obtain ⟨hskip, hobstacle⟩ := hblocked
  cases hfirst : (Occurrence.find settings.surfaces text).findSome? (·.obstacle? settings) with
  | none => exact hobstacle (List.findSome?_eq_none_iff.1 hfirst o ho)
  | some fault =>
    rw [source, Noted.result_bind, splice_of_obstacle hr hskip hfirst] at h
    cases h

/-- Expanding a source text writes the texts around its occurrences again and, for each occurrence,
what its comprehension is transformed to on its own, or the occurrence as it stands where that
fails, which is said once and with the place. Where faults are not to be skipped the outcome is the
same, but that the first fault that is not tolerated ends the expansion. -/
theorem source_splices (settings : ExpansionSettings) (hr : settings.reader.RefusesOperands)
    (text : String) :
    let os := Occurrence.find settings.surfaces text
    let spliced := String.ofList (Occurrence.weave text.toList (·.written settings text.toList) 0 os)
    Occurrence.InOrder text.toList.length 0 os ∧
      Occurrence.weave text.toList (·.text text.toList) 0 os = text.toList ∧
      (source { settings with skipFaults := true } text).result = .ok spliced ∧
      (source { settings with skipFaults := true } text).notices.filterMap Notice.keptPlace? =
        (os.filter fun o => (o.fault? settings).isSome).map Occurrence.place ∧
      (os.map Occurrence.place).Nodup ∧
      (source { settings with skipFaults := false } text).result =
        match os.findSome? (·.obstacle? settings) with
        | none => .ok spliced
        | some fault => .error fault := by
  intro os spliced
  have hinOrder : Occurrence.InOrder text.toList.length 0 os := Occurrence.inOrder_find _ _
  have hskipping : source { settings with skipFaults := true } text =
      ⟨os.flatMap (·.notices settings), .ok spliced⟩ := by
    refine source_of_free ?_ fun _ _ => .inl rfl
    exact hr
  refine ⟨hinOrder, Occurrence.weave_text hinOrder, by rw [hskipping], ?_, hinOrder.nodup_place, ?_⟩
  · rw [hskipping, Occurrence.keptPlace?_allNotices]
  · cases hobstacle : os.findSome? (·.obstacle? settings) with
    | none =>
      have hfree := List.findSome?_eq_none_iff.1 hobstacle
      have hwhole : source { settings with skipFaults := false } text =
          ⟨os.flatMap (·.notices settings), .ok spliced⟩ := by
        refine source_of_free ?_ fun o ho => .inr (hfree o ho)
        exact hr
      rw [hwhole]
    | some fault =>
      have hends : (splice { settings with skipFaults := false } text.toList 0 os).result =
          .error fault := by
        refine splice_of_obstacle ?_ rfl hobstacle
        exact hr
      rw [source, Noted.result_bind, hends]
      rfl

end Expansion

end

/-- A text with two comprehensions that can be transformed and, between them, one that is malformed
and one with a number for a variable. -/
def mixedText : String :=
  "[list`x for (x of xs)`, list`x of xs`, list`x for (1 of xs)`, /*list*/`x for (x of y || z)`]"

theorem find_mixedText : Occurrence.find Surface.all mixedText =
    [⟨.taggedTemplate, 1, 22, "x for (x of xs)"⟩, ⟨.taggedTemplate, 24, 37, "x of xs"⟩,
      ⟨.taggedTemplate, 39, 60, "x for (1 of xs)"⟩,
      ⟨.markedLiteral, 62, 91, "x for (x of y || z)"⟩] := by
  rw [Occurrence.find, List.mergeSort_of_pairwise (by decide +kernel)]
  decide +kernel

theorem source_splices_mixedText :
    (Expansion.source ⟨Settings.standard, Surface.all, true⟩ mixedText).result = .ok
        "[xs.map(x => x), list`x of xs`, list`x for (1 of xs)`, (y || z).map(x => x)]" ∧
      (Expansion.source ⟨Settings.standard, Surface.all, true⟩ mixedText).notices.filterMap
          Notice.keptPlace? = ["tagged_template at offset 24", "tagged_template at offset 39"] ∧
      (Expansion.source ⟨Settings.standard, Surface.all, false⟩ mixedText).result =
        .error (.badVariable "1") := by
  obtain ⟨-, -, hwhole, hkept, -, hending⟩ := Expansion.source_splices
    ⟨Settings.standard, Surface.all, false⟩ OperandReader.refusesOperands_script mixedText
  have hfault : (Occurrence.find Surface.all mixedText).findSome?
      (·.obstacle? ⟨Settings.standard, Surface.all, false⟩) = some (.badVariable "1") := by
    rw [find_mixedText]
    decide +kernel
  refine ⟨hwhole.trans ?_, hkept.trans ?_, hending.trans ?_⟩
  · rw [find_mixedText]
    exact congrArg Except.ok (by decide +kernel)
  · rw [find_mixedText]
    decide +kernel
  · dsimp only
    rw [hfault]

end Comprehend
