import Comprehend.Proofs.Chain.Meaning
import Comprehend.Proofs.Chain.Printed
import Comprehend.Proofs.Chain.Unspelled

/-! # Dialects compared

What a comprehension is printed as in the newest dialect and what it is printed as in the oldest are
read back as two spellings of one chain. Where the one evaluates to a value and goes through nothing
but arrays on the way, it has come to what the passes of the chain come to, and so does the other. -/

namespace Comprehend

open Script Chain Comprehend.Parser Comprehend.Layout

variable {view : View}

/-! ## From notation text to program text -/

theorem transform_eq_ok {settings : Settings} {raw code : String} :
    (transform settings raw).result = .ok code ↔
      ∃ c g, Comprehension.generate settings raw = .ok (c, g) ∧
        printChain settings.maxOutput settings.style g = .ok code := by
  simp only [transform, explain, Noted.result_bind]
  constructor
  · intro h
    obtain ⟨e, he, h⟩ := bind_eq_ok h
    obtain ⟨c, hparse, he⟩ := bind_eq_ok he
    obtain ⟨g, hchain, he⟩ := bind_eq_ok he
    obtain ⟨out, hprint, he⟩ := bind_eq_ok he
    cases he
    cases h
    exact ⟨c, g, Comprehension.generate_eq_ok.2 ⟨hparse, hchain⟩, hprint⟩
  · rintro ⟨c, g, hg, hprint⟩
    obtain ⟨hparse, hchain⟩ := Comprehension.generate_eq_ok.1 hg
    rw [hparse]
    change (c.chain settings >>= _) >>= _ = _
    rw [hchain]
    change (printChain settings.maxOutput settings.style g >>= _) >>= _ = _
    rw [hprint]
    rfl

/-! ## Plain loop variables -/

namespace Chain

section

variable {style : ChainStyle} {c : Clause} {l : Level} {cs : List Clause} {ls : List Level}
  {yield : Node}

theorem Level.Reads.named {reader : OperandReader} (h : l.Reads reader c)
    (hc : c.isDestructuring = false) : l.param = .name c.pattern := by
  have hp := h.param
  rw [binding, hc, if_neg Bool.false_ne_true] at hp
  obtain ⟨u, -, hl⟩ := ClauseToken.map_eq_ok hp
  exact hl.symm

theorem named_of_reads {reader : OperandReader}
    (h : List.Forall₂ (fun c l => Level.Reads reader c l) cs ls)
    (hc : ∀ c ∈ cs, c.isDestructuring = false) : ∀ l ∈ ls, ∃ text, l.param = .name text := by
  induction h with
  | nil => exact fun _ h => absurd h List.not_mem_nil
  | cons hl _ ih =>
    obtain ⟨hc, hcs⟩ := List.forall_mem_cons.1 hc
    exact List.forall_mem_cons.2 ⟨⟨_, hl.named hc⟩, ih hcs⟩

theorem clean_named {op : Combinator} {x body : Node} {text : String} :
    Clean (pieces (some style) (.chain op x (.name text) body)) ↔
      Clean (pieces (some style) x) ∧ Clean (pieces (some style) body) := by
  rw [pieces_chain, clean_link, clean_source]
  obtain ⟨dialect, parenthesize⟩ := style
  cases dialect <;> simp [callback, printedParam, Param.isPattern]

theorem clean_filtered (hl : l.Generated) (hp : ∃ text, l.param = .name text) :
    Clean (pieces (some style) l.filtered) := by
  obtain ⟨text, hp⟩ := hp
  unfold Level.filtered
  split
  · exact hl.source.clean
  · next test ht => exact hp ▸ clean_named.2 ⟨hl.source.clean, (hl.condition test ht).clean⟩

/-- Every dialect prints a chain that binds plain variables. -/
theorem clean_nest (hy : Formed .expression yield) (hls : ∀ l ∈ ls, l.Generated)
    (hnames : ∀ l ∈ ls, ∃ text, l.param = .name text) :
    Clean (pieces (some style) (nest yield ls)) := by
  induction ls with
  | nil => exact hy.clean
  | cons l ls ih =>
    obtain ⟨hl, hls⟩ := List.forall_mem_cons.1 hls
    obtain ⟨⟨text, hp⟩, hnames⟩ := List.forall_mem_cons.1 hnames
    have hfiltered : Clean (pieces (some style) l.filtered) := clean_filtered hl ⟨text, hp⟩
    cases ls with
    | nil =>
      rw [nest, hp]
      exact clean_named.2 ⟨hfiltered, hy.clean⟩
    | cons l' ls =>
      simp only [nest, hp]
      exact clean_named.2 ⟨hfiltered, ih hls hnames⟩

theorem Level.Generated.isPlain (hl : l.Generated) (hp : ∃ text, l.param = .name text) :
    l.IsPlain where
  source := hl.source.isChain_eq_false
  condition test ht := (hl.condition test ht).isChain_eq_false
  param target h := by
    obtain ⟨text, hp⟩ := hp
    rw [hp] at h
    cases h

end

/-! ## Runs of one chain -/

section

variable [Host]

/-- The passes of some levels in an environment, as far as they go through arrays. -/
def attemptIn (depth : Nat) (environment : Frame) (yield : Node) (ls : List Level) :
    Attempt (List Value) := do
  let frame ← Run.newFrame environment
  passes (eval depth) yield ls [frame]

theorem finish_attemptIn (depth : Nat) (environment : Frame) (yield : Node) (ls : List Level) :
    (attemptIn depth environment yield ls).finish = passesIn depth environment yield ls := by
  simp only [attemptIn, passesIn, Attempt.finish_bind, Attempt.finish_liftM]

/-- A spelled chain that evaluates to a value evaluates to an array of what its passes come to,
unless they come upon something to go through that is no array. -/
theorem attemptIn_eval [Host.Respects view] (cls : TokenClass) {fn : List Node → Node → Node}
    (hfn : ∀ param body, IsCallback param body (fn [param] body)) {environment : Frame}
    {yield : Node} (hy : yield.isChain = false) {l : Level} {ls : List Level}
    (hls : ∀ l' ∈ l :: ls, l'.IsPlain) {p : Pairing view} (henv : AlikeFields p environment environment)
    (depth : Nat) :
    Attempts p ArrayOf
      (evaluateTree depth environment ((nest yield (l :: ls)).spelled (Node.methodCall cls fn)))
      (attemptIn depth environment yield (l :: ls)) := by
  refine (Attempts.of_simulates (.newFrame henv)).bind fun q f f' _ hf => ?_
  cases depth with
  | zero => rw [eval]; exact .stop
  | succ depth =>
    rw [eval_of_isLink (isLink_nest (fun _ _ _ _ => rfl) yield l ls)]
    refine (nest_attempts hfn hy ls l hls (Nat.lt_succ_self depth) (.cons hf.1 .nil)).bind_left
      fun _ _ _ _ hend => ?_
    obtain ⟨v, ho, hv⟩ := hend
    exact .pure (ho ▸ hv)

end

end Chain

/-- Whatever the chain of a comprehension goes through in an environment is an array. -/
def Comprehension.GoesThroughArrays [Host] (reader : OperandReader) (environment : Frame) (m : Memory)
    (c : Comprehension) : Prop :=
  ∀ yield ls, reader.expression c.yield = .ok yield →
    List.Forall₂ (fun c l => Level.Reads reader c l) c.clauses ls →
    ∀ depth n, (attemptIn depth environment yield ls).run m ≠ .ok (none, n)

/-- The settings for the oldest dialect, with a limit for what is printed. -/
def Settings.es5 (settings : Settings) (limit : Int) : Settings :=
  { settings with
    maxOutput := limit
    style := ⟨.es5, settings.style.parenthesizeSources⟩ }

/-- Where what is printed for the newest dialect evaluates to a value and goes through nothing but
arrays, what is printed for the oldest evaluates to an array of the same items, but for identities:
provided no default in an operand is an arrow function. -/
theorem evaluateText_es5 [Host] (view : View) [Host.Respects view] {settings : Settings} {raw code : String} {c : Comprehension} {g : Node}
    {environment : Frame} {depth : Nat} {m n : Memory} {v : Value}
    (hr : settings.reader = .script) (hs : settings.style.dialect = .es2019)
    (hg : Comprehension.generate settings raw = .ok (c, g))
    (hnames : ∀ clause ∈ c.clauses, clause.isDestructuring = false) (hd : g.PlainOperands)
    (hm : m.Closed) (henv : m.Knows environment)
    (harrays : c.GoesThroughArrays settings.reader environment m)
    (hcode : (transform settings raw).result = .ok code)
    (heval : evaluateText depth environment code m = .ok (v, n)) :
    ∃ t items code', v = .array t items ∧
      (∀ limit : Int, code'.length ≤ limit →
        (transform (settings.es5 limit) raw).result = .ok code') ∧
      ∃ bound, ∀ depth' ≥ bound, ∃ t' items' n', ∃ q : Pairing view,
        evaluateText depth' environment code' m = .ok (.array t' items', n') ∧
        m.selfPairing.Below q ∧ q.Holds n n' ∧ AlikeAll q items items' := by
  obtain ⟨c', g', hg', hprint⟩ := transform_eq_ok.1 hcode
  obtain ⟨rfl, rfl⟩ : c' = c ∧ g' = g := by
    rw [hg] at hg'
    cases hg'
    exact ⟨rfl, rfl⟩
  have hgenerated := generated_of_generate hr hg
  obtain ⟨yield, l, ls, hy, hread, rfl⟩ := Comprehension.generate_ok hg
  have hnamed := named_of_reads hread hnames
  have hlevels : ∀ l' ∈ l :: ls, l'.Generated :=
    generated_of_reads (hr ▸ hread) (Comprehension.endsSolid_pattern (Comprehension.generate_eq_ok.1 hg).1)
  have hyield : Formed .expression yield := formed_of_parseExpression (by rwa [hr] at hy)
  -- what the newest dialect evaluates to is what the passes come to
  rw [evaluateText_eq (hgenerated.parseExpression hd hprint), hs] at heval
  have hattempt := attemptIn_eval .propertyName .arrow hyield.isChain_eq_false
    (fun l' h => (hlevels l' h).isPlain (hnamed l' h)) (p := (m.selfPairing : Pairing view))
    henv.alike depth
  rcases hattempt.run hm.holds heval with
    ⟨n₁, hnone⟩ | ⟨q, items₁, n₁, hsome, hq, hn₁, ⟨t, items, rfl, hitems₁⟩, -⟩
  · exact absurd hnone (harrays yield (l :: ls) hy hread depth n₁)
  have hpasses : passesIn depth environment yield (l :: ls) m = .ok (items₁, n₁) := by
    rw [← finish_attemptIn]
    exact Attempt.finish_ok.2 hsome
  let style : ChainStyle := ⟨.es5, settings.style.parenthesizeSources⟩
  let ps := slot 0 (nest yield (l :: ls)) (pieces (some style) (nest yield (l :: ls)))
  have hclean : Clean ps := clean_slot.2 (clean_nest hyield hlevels hnamed)
  have hprint' (limit : Int) (hl : ((plain ps).length : Int) ≤ limit) :
      printChain limit style (nest yield (l :: ls)) = .ok (plain ps) := settle_of_clean hclean hl
  refine ⟨t, items, plain ps, rfl, fun limit hl => transform_eq_ok.2 ⟨c', _, hg, hprint' limit hl⟩,
    depth + 4 * (ls.length + 1) + 2, fun depth' hdepth => ?_⟩
  have hdeep : depth + 4 * (ls.length + 1) + 1 < depth' := hdepth
  rw [evaluateText_eq (hgenerated.parseExpression hd (hprint' _ (Int.le_refl _)))]
  obtain ⟨r, v', n', h', hr', hn', ⟨t', items', rfl, hitems'⟩, -⟩ :=
    (passesIn_eval (p := (m.selfPairing : Pairing view)) isSpelling_es5 hdeep henv.alike).run
      hm.holds hpasses
  exact ⟨t', items', n', q.comp r, h', hq.below.comp hr'.below, hn₁.comp hn', hitems₁.comp hitems'⟩

/-! ## Nested arrays flattened -/

def flatteningText : String := "y for (x of xs) for (y of x) if (y)"

def flattening : Comprehension := ⟨"y", [⟨"x", "xs", none⟩, ⟨"y", "x", some "y"⟩], []⟩

def flatteningLevels : List Level :=
  [⟨.named "xs", .name "x", none⟩, ⟨.named "x", .name "y", some (.named "y")⟩]

/-- Two arrays in an array, with the numbers zero and two in the first. -/
def nestedArrays : Frame :=
  [("xs", .array 1 [.array 2 [.number (.int 0), .number (.int 2)], .array 3 []])]

/-- A memory that has handed out three identities. -/
def nestedMemory : Memory := ⟨#[], 4, []⟩

theorem parseExpression_x : parseExpression "x" = .ok (.named "x") := rfl

theorem parseExpression_y : parseExpression "y" = .ok (.named "y") := rfl

theorem flattening_reads :
    List.Forall₂ (fun c l => Level.Reads .script c l) flattening.clauses flatteningLevels :=
  .cons ⟨parseExpression_xs, rfl, .none⟩
    (.cons ⟨parseExpression_x, rfl, .some parseExpression_y⟩ .nil)

theorem generate_flattening : Comprehension.generate .standard flatteningText =
    .ok (flattening, nest (.named "y") flatteningLevels) := by
  have hparse : (Comprehension.parse false flatteningText).result = .ok flattening := by
    decide +kernel
  have hx : binding ⟨parseExpression, parsePattern⟩ ⟨"x", "xs", none⟩ = .ok (.name "x") := rfl
  have hy : binding ⟨parseExpression, parsePattern⟩ ⟨"y", "x", some "y"⟩ = .ok (.name "y") := rfl
  refine Comprehension.generate_eq_ok.2 ⟨hparse, ?_⟩
  simp only [Comprehension.chain, flattening, Settings.standard, build, fold, level,
    OperandReader.script, parseExpression_xs, parseExpression_x, parseExpression_y, hx, hy]
  rfl

theorem closed_nestedMemory : nestedMemory.Closed where
  frames f vars h := by simp [nestedMemory] at h
  notes v h := by simp [nestedMemory] at h

theorem knows_nestedArrays : nestedMemory.Knows nestedArrays := by
  intro f hf
  obtain rfl := List.mem_singleton.1 hf
  refine .array_of_all ⟨rfl, by decide⟩ ?_
  exact .cons (.array_of_all ⟨rfl, by decide⟩ (.cons (.number _) (.cons (.number _) .nil)))
    (.cons (.array_of_all ⟨rfl, by decide⟩ .nil) .nil)

theorem attemptIn_flattening (depth : Nat) :
    (attemptIn (depth + 1) nestedArrays (.named "y") flatteningLevels).run nestedMemory =
      .ok (some [.number (.int 2)],
        ⟨#[nestedArrays, [("x", .array 2 [.number (.int 0), .number (.int 2)])],
          [("y", .number (.int 0))], [("y", .number (.int 2))], [("y", .number (.int 2))],
          [("x", .array 3 [])]], 4, []⟩) := by
  refine Attempt.finish_ok.1 ?_
  simp only [attemptIn, flatteningLevels, passes_cons, Attempt.finish_bind, Attempt.finish_liftM]
  rfl

theorem flattening_goesThroughArrays :
    flattening.GoesThroughArrays .script nestedArrays nestedMemory := by
  intro yield ls hy hls depth n h
  obtain rfl : Node.named "y" = yield := Except.ok.inj (parseExpression_y.symm.trans hy)
  obtain rfl := Level.Reads.unique flattening_reads hls
  cases depth with
  | zero => cases h
  | succ depth =>
    rw [attemptIn_flattening] at h
    cases h

theorem transform_flattening : (transform .standard flatteningText).result =
    .ok "xs.flatMap(x => x.filter(y => y).map(y => y))" := by
  have hprint : printChain defaultLimit ⟨.es2019, false⟩ (nest (.named "y") flatteningLevels) =
      .ok "xs.flatMap(x => x.filter(y => y).map(y => y))" := by
    decide +kernel
  exact transform_eq_ok.2 ⟨_, _, generate_flattening, hprint⟩

theorem flattening_plainOperands : (nest (.named "y") flatteningLevels).PlainOperands := by
  have hoperands : (nest (.named "y") flatteningLevels).operands =
      [.named "xs", .named "x", .named "y", .named "y"] := rfl
  intro x hx
  rw [hoperands] at hx
  simp only [List.mem_cons, List.not_mem_nil, or_false] at hx
  rcases hx with rfl | rfl | rfl | rfl <;> exact .leaf _ _

theorem isPlain_two : ∀ v ∈ [Value.number (.int 2)], v.IsPlain := by
  intro v hv
  rw [List.mem_singleton.1 hv]
  exact .number _

theorem evaluateText_flattening : ∃ t n,
    evaluateText 20 nestedArrays "xs.flatMap(x => x.filter(y => y).map(y => y))" nestedMemory =
      .ok (.array t [.number (.int 2)], n) := by
  obtain ⟨_, _, hg, hprint⟩ := transform_eq_ok.1 transform_flattening
  rw [generate_flattening] at hg
  cases hg
  rw [evaluateText_eq ((generated_of_generate rfl generate_flattening).parseExpression
    flattening_plainOperands hprint)]
  have hpasses := finish_attemptIn 7 nestedArrays (.named "y") flatteningLevels ▸
    Attempt.finish_ok.2 (attemptIn_flattening 6)
  obtain ⟨q, v, n, h, -, -, ⟨t, items, rfl, hitems⟩, -⟩ :=
    (passesIn_eval (p := (nestedMemory.selfPairing : Pairing .whole))
      (isSpelling_methodCall .propertyName .arrow) (show 7 + 4 * 2 + 1 < 20 by decide)
      knows_nestedArrays.alike).run closed_nestedMemory.holds hpasses
  rw [AlikeAll.eq_of_plain hitems isPlain_two] at h
  exact ⟨t, n, h⟩

theorem evaluateText_es5_flattening : ∃ code',
    (∀ limit : Int, code'.length ≤ limit →
      (transform (Settings.standard.es5 limit) flatteningText).result = .ok code') ∧
    ∃ depth t n, evaluateText depth nestedArrays code' nestedMemory =
      .ok (.array t [.number (.int 2)], n) := by
  obtain ⟨t, n, heval⟩ := evaluateText_flattening
  obtain ⟨_, _, code', hv, hcode', bound, hrun⟩ := evaluateText_es5 .whole rfl rfl generate_flattening
    (by decide) flattening_plainOperands closed_nestedMemory knows_nestedArrays flattening_goesThroughArrays
    transform_flattening heval
  cases hv
  obtain ⟨t', items', n', q, h, -, -, hitems⟩ := hrun bound (Nat.le_refl _)
  rw [AlikeAll.eq_of_plain hitems isPlain_two] at h
  exact ⟨code', hcode', bound, t', n', h⟩

end Comprehend
