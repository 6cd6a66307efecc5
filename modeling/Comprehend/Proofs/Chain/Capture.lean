import Comprehend.Proofs.Chain.Equivalence
import Comprehend.Proofs.Chain.Library

/-! # Names that capture the library

The library dialect takes the library from a variable, at every level. A loop variable of its name
captures it for the levels inside, and then what is printed means something else. When no level but
the innermost binds the name, the library dialect means what the newest one does. -/

namespace Comprehend

open Script Chain Comprehend.Parser Comprehend.Layout

variable {view : View}

/-! ## Patterns are printed alike -/

namespace Chain

section

variable {style style' : ChainStyle} {x : Node}

theorem clean_callback (hs : style.dialect.supportsPatterns = true) (isPattern : Bool)
    (param : Except Fault String) (ps : List Piece) :
    Clean (callback style isPattern param ps) ↔ (∃ p, param = .ok p) ∧ Clean ps := by
  obtain ⟨dialect, parenthesize⟩ := style
  cases param with
  | error fault =>
    refine ⟨fun h => absurd List.mem_cons_self (h fault), fun h => ?_⟩
    obtain ⟨⟨p, hp⟩, -⟩ := h
    cases hp
  | ok p =>
    cases dialect with
    | es5 => cases hs
    | es2019 | lodash => simp [callback, hs]

/-- What one dialect with patterns prints, the others print too. -/
theorem Generated.clean (h : Generated x) (hs : style.dialect.supportsPatterns = true)
    (hs' : style'.dialect.supportsPatterns = true) (hclean : Clean (pieces (some style) x)) :
    Clean (pieces (some style') x) := by
  induction h with
  | operand hx => exact hx.clean
  | link op _ _ _ ihs ihb =>
    rw [pieces_chain, clean_link, clean_source, clean_callback hs] at hclean
    obtain ⟨hsource, hparam, hbody⟩ := hclean
    rw [pieces_chain, clean_link, clean_source, clean_callback hs']
    exact ⟨ihs hsource, hparam, clean_arrowBody.2 (ihb (clean_arrowBody.1 hbody))⟩

end

end Chain

/-! ## What a comprehension binds -/

/-- No clause binds its whole item as a rest. -/
def Comprehension.BindsNoRest (reader : OperandReader) (c : Comprehension) : Prop :=
  ∀ clause ∈ c.clauses, ∀ param, binding reader clause = .ok param →
    ∀ target, param.node ≠ .patternRest target

/-- No clause has a name in its pattern that the clauses inside would see. -/
def Comprehension.LeavesFree (reader : OperandReader) (name : String) (c : Comprehension) : Prop :=
  ∀ clause ∈ c.clauses.dropLast, ∀ param, binding reader clause = .ok param →
    name ∉ binders param.node

namespace Chain

section

variable {reader : OperandReader} {cs : List Clause} {ls : List Level} {l : Level}

theorem forall₂_dropLast {α β : Type} {R : α → β → Prop} {xs : List α} {ys : List β}
    (h : List.Forall₂ R xs ys) : List.Forall₂ R xs.dropLast ys.dropLast := by
  rw [List.dropLast_eq_take, List.dropLast_eq_take, h.length_eq]
  exact List.forall₂_take _ h

theorem exists_clause (h : List.Forall₂ (fun c l => Level.Reads reader c l) cs ls) (hl : l ∈ ls) :
    ∃ c ∈ cs, l.Reads reader c := by
  induction h with
  | nil => cases hl
  | @cons c l' cs ls hc _ ih =>
    rcases List.mem_cons.1 hl with rfl | hl
    · exact ⟨c, List.mem_cons_self, hc⟩
    · obtain ⟨c', hc', hr⟩ := ih hl
      exact ⟨c', List.mem_cons_of_mem _ hc', hr⟩

theorem Level.Generated.isPlain_of_param (hl : l.Generated)
    (hp : ∀ target, l.param.node ≠ .patternRest target) : l.IsPlain where
  source := hl.source.isChain_eq_false
  condition test ht := (hl.condition test ht).isChain_eq_false
  param := hp

end

/-! ## The library in an environment -/

/-- What the passes of some levels come to in an environment with the library, the calls of the
library evaluate to. -/
theorem passesIn_library [Host] [Host.Respects view] {environment : Frame} {lib : Value} (hlib : IsLibrary lib)
    (hname : getField? environment libraryName = some lib) {yield : Node}
    (hy : yield.isChain = false) {l : Level} {ls : List Level} (hls : ∀ l' ∈ l :: ls, l'.Generated)
    (hfree : ∀ l' ∈ (l :: ls).dropLast, libraryName ∉ binders l'.param.node) {depth depth' : Nat}
    (hd : depth + 4 * (ls.length + 1) ≤ depth') {p : Pairing view}
    (henv : AlikeFields p environment environment) {m n : Memory} {items : List Value}
    (hm : p.Holds m m) (h : passesIn depth environment yield (l :: ls) m = .ok (items, n)) :
    ∃ q v n', evaluateTree depth' environment
        ((nest yield (l :: ls)).spelled Dialect.lodash.spell) m = .ok (v, n') ∧
      p.Below q ∧ q.Holds n n' ∧ IsArrayOf q items v := by
  obtain ⟨f, o, hf, h⟩ := Run.bind_eq_ok h
  obtain ⟨q, f', o', hf', hpq, ho, hframes, -, -⟩ := (newFrame_carries henv).run hm hf
  have hresolves : o'.Resolves [f'] libraryName lib := by
    cases hf'
    refine ⟨fun g hg => ?_, ?_⟩
    · rw [List.mem_singleton.1 hg, Array.size_push]
      exact Nat.lt_succ_self _
    · rw [List.findSome?_cons, Array.getElem?_push_size]
      simp [hname]
  obtain ⟨r, v, n', hv, hqr, hn, hitems, -⟩ :=
    (passes_library hlib hy ls l hls hfree hd (survives_resolves [f'] libraryName lib)
      (fun _ h => h) (.cons hframes .nil)).run ho hresolves h
  exact ⟨r, v, n', (Run.bind_of_ok hf').trans hv, hpq.trans hqr, hn, hitems⟩

end Chain

/-- The settings for the dialect of the library, with a limit for what is printed. -/
def Settings.lodash (settings : Settings) (limit : Int) : Settings :=
  { settings with
    maxOutput := limit
    style := ⟨.lodash, settings.style.parenthesizeSources⟩ }

/-- Where what is printed for the newest dialect evaluates to a value and goes through nothing but
arrays, what is printed for the dialect of the library evaluates to an array of the same items, but
for identities: provided that the environment has the library, that no clause but the innermost binds
the name of the library, and that no default in an operand is an arrow function. -/
theorem evaluateText_lodash [Host] (view : View) [Host.Respects view] {settings : Settings} {raw code : String} {c : Comprehension} {g : Node}
    {environment : Frame} {depth : Nat} {m n : Memory} {v lib : Value}
    (hr : settings.reader = .script) (hs : settings.style.dialect = .es2019)
    (hg : Comprehension.generate settings raw = .ok (c, g))
    (hrest : c.BindsNoRest settings.reader) (hfree : c.LeavesFree settings.reader libraryName)
    (hd : g.PlainOperands) (hm : m.Closed) (henv : m.Knows environment) (hlib : IsLibrary lib)
    (hname : getField? environment libraryName = some lib)
    (harrays : c.GoesThroughArrays settings.reader environment m)
    (hcode : (transform settings raw).result = .ok code)
    (heval : evaluateText depth environment code m = .ok (v, n)) :
    ∃ t items code', v = .array t items ∧
      (∀ limit : Int, code'.length ≤ limit →
        (transform (settings.lodash limit) raw).result = .ok code') ∧
      ∃ bound, ∀ depth' ≥ bound, ∃ t' items' n', ∃ q : Pairing view,
        evaluateText depth' environment code' m = .ok (.array t' items', n') ∧
        m.selfPairing.Below q ∧ q.Holds n n' ∧ AlikeAll q items items' := by
  obtain ⟨c', g', hg', hprint⟩ := transform_eq_ok.1 hcode
  obtain ⟨rfl, rfl⟩ : c' = c ∧ g' = g := by
    rw [hg] at hg'
    cases hg'
    exact ⟨rfl, rfl⟩
  have hgenerated := generated_of_generate hr hg
  obtain ⟨yield, l, ls, hy, hread, rfl⟩ := Comprehension.generate_ok hg
  have hlevels : ∀ l' ∈ l :: ls, l'.Generated :=
    generated_of_reads (hr ▸ hread) (Comprehension.endsSolid_pattern (Comprehension.generate_eq_ok.1 hg).1)
  have hplain : ∀ l' ∈ l :: ls, l'.IsPlain := fun l' hl' => by
    obtain ⟨clause, hclause, hreads⟩ := exists_clause hread hl'
    exact (hlevels l' hl').isPlain_of_param (hrest clause hclause _ hreads.param)
  have hyield : yield.isChain = false :=
    (formed_of_parseExpression (by rwa [hr] at hy)).isChain_eq_false
  -- what the newest dialect evaluates to is what the passes come to
  rw [evaluateText_eq (hgenerated.parseExpression hd hprint), hs] at heval
  have hattempt := attemptIn_eval .propertyName .arrow hyield hplain
    (p := (m.selfPairing : Pairing view)) henv.alike depth
  rcases hattempt.run hm.holds heval with
    ⟨n₁, hnone⟩ | ⟨q, items₁, n₁, hsome, hq, hn₁, ⟨t, items, rfl, hitems₁⟩, -⟩
  · exact absurd hnone (harrays yield (l :: ls) hy hread depth n₁)
  have hpasses : passesIn depth environment yield (l :: ls) m = .ok (items₁, n₁) := by
    rw [← finish_attemptIn]
    exact Attempt.finish_ok.2 hsome
  let style : ChainStyle := ⟨.lodash, settings.style.parenthesizeSources⟩
  let ps := slot 0 (nest yield (l :: ls)) (pieces (some style) (nest yield (l :: ls)))
  have hclean : Clean ps := by
    have hold := clean_slot.1 (clean_of_settleFrom hprint)
    exact clean_slot.2 (hgenerated.clean (by rw [hs]; rfl) rfl hold)
  have hprint' (limit : Int) (hl : ((plain ps).length : Int) ≤ limit) :
      printChain limit style (nest yield (l :: ls)) = .ok (plain ps) := settle_of_clean hclean hl
  refine ⟨t, items, plain ps, rfl, fun limit hl => transform_eq_ok.2 ⟨c', _, hg, hprint' limit hl⟩,
    depth + 4 * (ls.length + 1), fun depth' hdepth => ?_⟩
  have hlevelsFree : ∀ l' ∈ (l :: ls).dropLast, libraryName ∉ binders l'.param.node := fun l' hl' => by
    obtain ⟨clause, hclause, hreads⟩ := exists_clause (forall₂_dropLast hread) hl'
    exact hfree clause hclause _ hreads.param
  rw [evaluateText_eq (hgenerated.parseExpression hd (hprint' _ (Int.le_refl _)))]
  obtain ⟨r, v', n', h', hr', hn', t', items', rfl, hitems'⟩ :=
    passesIn_library (p := (m.selfPairing : Pairing view)) hlib hname hyield hlevels hlevelsFree
      hdepth henv.alike hm.holds hpasses
  exact ⟨t', items', n', q.comp r, h', hq.below.comp hr', hn₁.comp hn', hitems₁.comp hitems'⟩

/-! ## Nested arrays and the library -/

/-- The nested arrays, and the library in its variable. -/
def libraryArrays : Frame := ("_", libraryObject) :: nestedArrays

theorem knows_libraryArrays : nestedMemory.Knows libraryArrays := by
  refine List.forall_mem_cons.2 ⟨.object_of_fields ⟨rfl, by decide⟩ ?_, knows_nestedArrays⟩
  exact .cons ⟨rfl, .host _⟩ (.cons ⟨rfl, .host _⟩ (.cons ⟨rfl, .host _⟩ .nil))

theorem attemptIn_libraryArrays (depth : Nat) :
    (attemptIn (depth + 1) libraryArrays (.named "y") flatteningLevels).run nestedMemory =
      .ok (some [.number (.int 2)],
        ⟨#[libraryArrays, [("x", .array 2 [.number (.int 0), .number (.int 2)])],
          [("y", .number (.int 0))], [("y", .number (.int 2))], [("y", .number (.int 2))],
          [("x", .array 3 [])]], 4, []⟩) := by
  refine Attempt.finish_ok.1 ?_
  simp only [attemptIn, flatteningLevels, passes_cons, Attempt.finish_bind, Attempt.finish_liftM]
  rfl

theorem flattening_goesThroughArrays_library :
    flattening.GoesThroughArrays .script libraryArrays nestedMemory := by
  intro yield ls hy hls depth n h
  obtain rfl : Node.named "y" = yield := Except.ok.inj (parseExpression_y.symm.trans hy)
  obtain rfl := Level.Reads.unique flattening_reads hls
  cases depth with
  | zero => cases h
  | succ depth =>
    rw [attemptIn_libraryArrays] at h
    cases h

theorem evaluateText_flattening_library : ∃ t n,
    evaluateText 20 libraryArrays "xs.flatMap(x => x.filter(y => y).map(y => y))" nestedMemory =
      .ok (.array t [.number (.int 2)], n) := by
  obtain ⟨_, _, hg, hprint⟩ := transform_eq_ok.1 transform_flattening
  rw [generate_flattening] at hg
  cases hg
  rw [evaluateText_eq ((generated_of_generate rfl generate_flattening).parseExpression
    flattening_plainOperands hprint)]
  have hpasses := finish_attemptIn 7 libraryArrays (.named "y") flatteningLevels ▸
    Attempt.finish_ok.2 (attemptIn_libraryArrays 6)
  obtain ⟨q, v, n, h, -, -, ⟨t, items, rfl, hitems⟩, -⟩ :=
    (passesIn_eval (p := (nestedMemory.selfPairing : Pairing .whole))
      (isSpelling_methodCall .propertyName .arrow) (show 7 + 4 * 2 + 1 < 20 by decide)
      knows_libraryArrays.alike).run closed_nestedMemory.holds hpasses
  rw [AlikeAll.eq_of_plain hitems isPlain_two] at h
  exact ⟨t, n, h⟩

theorem evaluateText_lodash_flattening : ∃ code',
    (∀ limit : Int, code'.length ≤ limit →
      (transform (Settings.standard.lodash limit) flatteningText).result = .ok code') ∧
    ∃ depth t n, evaluateText depth libraryArrays code' nestedMemory =
      .ok (.array t [.number (.int 2)], n) := by
  have hname {clause : Clause} {name : String} (h : binding .script clause = .ok (.name name))
      {param : Param} (hparam : binding .script clause = .ok param) : param = .name name :=
    Except.ok.inj (hparam.symm.trans h)
  have hx : binding .script ⟨"x", "xs", none⟩ = .ok (.name "x") := rfl
  have hy : binding .script ⟨"y", "x", some "y"⟩ = .ok (.name "y") := rfl
  have hrest : flattening.BindsNoRest .script := by
    intro clause hclause param hparam target
    simp only [flattening, List.mem_cons, List.not_mem_nil, or_false] at hclause
    rcases hclause with rfl | rfl
    · rw [hname hx hparam]
      rintro ⟨⟩
    · rw [hname hy hparam]
      rintro ⟨⟩
  have hfree : flattening.LeavesFree .script libraryName := by
    intro clause hclause param hparam
    obtain rfl : clause = ⟨"x", "xs", none⟩ := by simpa [flattening] using hclause
    rw [hname hx hparam]
    decide
  obtain ⟨t, n, heval⟩ := evaluateText_flattening_library
  obtain ⟨_, _, code', hv, hcode', bound, hrun⟩ := evaluateText_lodash .whole rfl rfl generate_flattening
    hrest hfree flattening_plainOperands closed_nestedMemory knows_libraryArrays
    isLibrary_libraryObject rfl flattening_goesThroughArrays_library transform_flattening heval
  cases hv
  obtain ⟨t', items', n', q, h, -, -, hitems⟩ := hrun bound (Nat.le_refl _)
  rw [AlikeAll.eq_of_plain hitems isPlain_two] at h
  exact ⟨code', hcode', bound, t', n', h⟩

end Comprehend
