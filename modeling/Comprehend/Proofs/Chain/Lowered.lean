import Comprehend.Proofs.Chain.Printed

/-! # Printing a chain and printing its lowering

A chain goes to text in two ways: it is printed as a chain, or it is lowered and printed as a tree.
Both write the same method calls around the same operands, with one difference: only the first puts
parentheses around an iterable with an optional link. -/

namespace Comprehend

open Comprehend.Text Comprehend.Parser Comprehend.Layout Comprehend.Lexeme

/-! ## The parts of a chain -/

namespace Node

/-- What the links of a chain go through, but for other links. -/
def iterables : Node → List Node
  | .chain _ source _ body =>
    (if source.isChain then iterables source else [source]) ++ iterables body
  | _ => []

/-- What the links of a chain bind. -/
def binders : Node → List Param
  | .chain _ source param body => binders source ++ param :: binders body
  | _ => []

theorem binders_of_operand {x : Node} (h : x.isChain = false) : x.binders = [] := by
  cases x <;> simp_all [binders, isChain]

theorem iterables_of_operand {x : Node} (h : x.isChain = false) : x.iterables = [] := by
  cases x <;> simp_all [iterables, isChain]

end Node

/-- A pattern that is more than a name. -/
def Param.IsStructured (param : Param) : Prop :=
  ∀ name, param ≠ .pattern (.bindingName name)

namespace Chain

theorem Level.Generated.binders_filtered {l : Level} (h : l.Generated) :
    ∀ param ∈ l.filtered.binders, param = l.param := by
  unfold Level.filtered
  split
  · simp [Node.binders_of_operand h.source.isChain_eq_false]
  · next test ht =>
    have htest := (h.condition test ht).isChain_eq_false
    simp [Node.binders, Node.binders_of_operand h.source.isChain_eq_false,
      Node.binders_of_operand htest]

/-- The links of a nest of levels bind what these bind. -/
theorem mem_binders_nest {yield : Node} {ls : List Level} (hy : yield.isChain = false)
    (hls : ∀ l ∈ ls, l.Generated) : ∀ param ∈ (nest yield ls).binders, ∃ l ∈ ls, param = l.param := by
  induction ls with
  | nil => simp [nest, Node.binders_of_operand hy]
  | cons l ls ih =>
    obtain ⟨hl, hls⟩ := List.forall_mem_cons.1 hls
    have hfiltered := hl.binders_filtered
    cases ls with
    | nil =>
      intro param hp
      simp only [nest, Node.binders, Node.binders_of_operand hy, List.mem_append,
        List.mem_singleton] at hp
      exact ⟨l, List.mem_cons_self, hp.elim (hfiltered param) id⟩
    | cons l' ls =>
      intro param hp
      simp only [nest, Node.binders, List.mem_append, List.mem_cons] at hp
      rcases hp with hp | hp | hp
      · exact ⟨l, List.mem_cons_self, hfiltered param hp⟩
      · exact ⟨l, List.mem_cons_self, hp⟩
      · obtain ⟨k, hk, hparam⟩ := ih hls param hp
        exact ⟨k, List.mem_cons_of_mem _ hk, hparam⟩

end Chain

namespace Parser

/-- A name is read from a text of blanks and word characters. -/
theorem isBlank_or_isNamePart_of_patternElement {fuel : Nat} {cs r : List Char} {name : Token}
    (h : (Node.bindingName name, r) ∈ patternElement fuel cs) (hr : skipBlanks r = []) :
    ∀ c ∈ cs, isBlank c = true ∨ isNamePart c = true := by
  have hblanks (us : List Char) : ∀ c ∈ us.takeWhile isBlank, isBlank c = true := fun c hc =>
    List.mem_takeWhile_imp hc
  obtain _ | fuel := fuel
  · cases h
  rw [patternElement] at h
  split at h
  · obtain ⟨x, -, hx⟩ := mem_giving.1 h
    cases hx
  obtain ⟨x, t, hx, h⟩ := mem_andThen.1 h
  obtain _ | fuel := fuel
  · cases hx
  rw [defaulted] at h
  split at h
  · obtain ⟨y, -, hy⟩ := mem_giving.1 h
    cases hy
  cases List.mem_singleton.1 h
  rw [bindingTarget] at hx
  split at hx
  · obtain ⟨y, -, hy⟩ := mem_giving.1 hx
    cases hy
  split at hx
  · obtain ⟨y, -, hy⟩ := mem_giving.1 hx
    cases hy
  split at hx
  · next w t hw =>
    cases List.mem_singleton.1 hx
    obtain ⟨hword, -⟩ := plainName_eq_some hw
    have hcs : cs.takeWhile isBlank ++ (w ++ r) = cs := by
      rw [append_of_word hword, skipBlanks, List.takeWhile_append_dropWhile]
    have hrest : r.takeWhile isBlank = r := by
      conv_rhs => rw [← List.takeWhile_append_dropWhile (p := isBlank) (l := r)]
      rw [skipBlanks] at hr
      rw [hr, List.append_nil]
    obtain ⟨d, t, rfl, hd, ht⟩ := word_eq_some hword
    intro c hc
    rw [← hcs] at hc
    rcases List.mem_append.1 hc with hc | hc
    · exact .inl (hblanks _ c hc)
    · rcases List.mem_append.1 hc with hc | hc
      · refine .inr ?_
        rcases List.mem_cons.1 hc with rfl | hc
        · exact isNamePart_of_isNameStart hd
        · exact ht c hc
      · exact .inl (hblanks r c (hrest.symm ▸ hc))
  · cases hx

theorem isStructured_of_parsePattern {pattern : String} {p : Node}
    (h : parsePattern pattern = .ok p)
    (hd : '[' ∈ pattern.toList ∨ '{' ∈ pattern.toList) : (Param.pattern p).IsStructured := by
  rintro name hname
  cases hname
  unfold parsePattern at h
  split at h
  · cases h
  split at h
  · next hx =>
    cases h
    obtain ⟨⟨y, r⟩, hy, hname⟩ := Option.map_eq_some_iff.1 hx
    dsimp only at hname
    subst hname
    have hr : skipBlanks r = [] := by simpa using List.find?_some hy
    have hall := isBlank_or_isNamePart_of_patternElement (List.mem_of_find?_eq_some hy) hr
    rcases hd with hd | hd
    · exact absurd (hall _ hd) (by decide)
    · exact absurd (hall _ hd) (by decide)
  · cases h

end Parser

theorem Chain.Level.Reads.isStructured {c : Clause} {l : Level} (h : Level.Reads .script c l) :
    l.param.IsStructured := by
  have hp := h.param
  unfold binding at hp
  split at hp
  · next hd =>
    obtain ⟨p, hp, hl⟩ := ClauseToken.map_eq_ok hp
    rw [← hl]
    refine isStructured_of_parsePattern hp ?_
    simpa [Clause.isDestructuring] using hd
  · obtain ⟨u, -, hl⟩ := ClauseToken.map_eq_ok hp
    rw [← hl]
    exact fun name => nofun

/-- A pattern of a generated chain is more than a name. -/
theorem Chain.isStructured_of_generate {settings : Settings} {raw : String} {c : Comprehension}
    {g : Node} (hr : settings.reader = .script)
    (h : Comprehension.generate settings raw = .ok (c, g)) :
    ∀ param ∈ g.binders, param.IsStructured := by
  obtain ⟨yield, l, ls, hy, hls, rfl⟩ := Comprehension.generate_ok h
  rw [hr] at hy hls
  have hparse := (Comprehension.generate_eq_ok.1 h).1
  have hlevels := generated_of_reads hls (Comprehension.endsSolid_pattern hparse)
  intro param hp
  obtain ⟨k, hk, rfl⟩ := mem_binders_nest (formed_of_parseExpression hy).isChain_eq_false hlevels
    param hp
  obtain ⟨i, hi, rfl⟩ := List.getElem_of_mem hk
  exact ((List.forall₂_iff_get.1 hls).2 i (hls.length_eq ▸ hi) hi).isStructured

/-! ## What is written -/

/-- The text of a parameter in front of the arrow. -/
def Param.written : Param → List Char
  | .name text => text.toList
  | .pattern p => parens (text none p)

/-- The text of a chain. Whether an iterable with an optional link is guarded by parentheses makes
the difference between the chain and its lowering. -/
def Node.written (guarded : Bool) : Node → List Char
  | .chain op source param body =>
    (if source.isChain then written guarded source
      else if guarded && source.hasOptionalLink then parens (text none source)
      else chars (receiver source (pieces none source))) ++
    '.' :: op.method.toList ++ '(' :: param.written ++ " => ".toList ++
    (if body.isObject then parens (written guarded body) else written guarded body) ++ [')']
  | x => text none x

section

variable {style : Option ChainStyle} {x : Node} {xs : List Node} {phrase : Phrase}

theorem listed_congr (h : ∀ x ∈ xs, pieces style x = pieces none x) (first : Bool) :
    listed style first xs = listed none first xs := by
  induction xs generalizing first with
  | nil => rw [listed, listed]
  | cons x xs ih =>
    obtain ⟨hx, hxs⟩ := List.forall_mem_cons.1 h
    rw [listed, listed, hx, ih hxs]

/-- A tree that was read is printed alike in all styles. -/
theorem Parser.Formed.pieces_eq (style : Option ChainStyle) (h : Formed phrase x) :
    pieces style x = pieces none x := by
  induction h with
  | @array xs h ih | @object xs h ih | @arrayPattern xs h ih | @objectPattern xs h ih =>
    simp only [pieces, listed_congr ih]
  | @arrow ps x hp hx ihp ihx | @function ps x hp hx ihp ihx =>
    simp only [pieces, listed_congr ihp, ihx]
  | @call optional x xs hx h ihx ih | @construct x xs hx h ihx ih =>
    simp only [pieces, listed_congr ih, ihx]
  | _ => simp_all only [pieces]

end

/-! ## The two texts -/

section

variable {x : Node} {ps : List Piece}

theorem chars_arrowBody (x : Node) (ps : List Piece) :
    chars (arrowBody x ps) = if x.isObject then parens (chars ps) else chars ps := by
  unfold arrowBody
  split_ifs <;> simp

/-- A lowered link is a receiver as it stands. -/
theorem chars_receiver_lower (h : x.isChain = true) (ps : List Piece) :
    chars (receiver x.lower ps) = chars ps := by
  cases x with
  | chain op source param body => exact chars_slot Precedence.link _ ps
  | _ => cases h

theorem isObject_lower (x : Node) : x.lower.isObject = x.isObject := by
  cases x <;> rfl

/-- An iterable with an optional link is a receiver as it stands. -/
theorem chars_receiver_of_optional (h : x.hasOptionalLink = true) (ps : List Piece) :
    chars (receiver x ps) = chars ps := by
  cases x with
  | member | index | call | tagged => exact chars_slot Precedence.link _ ps
  | _ => cases h

theorem Node.written_of_operand {guarded : Bool} (h : x.isChain = false) :
    x.written guarded = text none x := by
  cases x <;> first | rfl | cases h

theorem Param.node_ne_bindingName {p : Node} (h : (Param.pattern p).IsStructured) :
    ∀ name, [p] ≠ [.bindingName name] := fun name hp => h name (by rw [List.singleton_inj.1 hp])

/-- The parameter of a lowered link. -/
theorem chars_parameters_node {param : Param} (h : param.IsStructured) :
    chars (parameters [param.node] (listed none true [param.node])) = param.written := by
  cases param with
  | name t => simp [parameters, Param.node, Param.written]
  | pattern p =>
    rw [Param.node, parameters_of_ne (Param.node_ne_bindingName h)]
    simp [Param.written, commas]

theorem link_es2019 (parenthesize : Bool) (op : Combinator) (ps qs : List Piece) :
    link ⟨.es2019, parenthesize⟩ op ps qs = methodCall op.method ps qs := by
  cases op <;> rfl

/-- The callback of a link in the newest dialect. -/
theorem callback_es2019 {parenthesize : Bool} {param : Param} {printed : String}
    (h : printedParam param = .ok printed) (ps : List Piece) :
    chars (callback ⟨.es2019, parenthesize⟩ param.isPattern (.ok printed) ps) =
      param.written ++ " => ".toList ++ chars ps := by
  cases param with
  | name t =>
    cases h
    simp [callback, Param.isPattern, Param.written]
  | pattern p =>
    have hprinted : printed.toList = text none p := toList_of_settle h
    simp [callback, Param.isPattern, Dialect.supportsPatterns, Param.written, hprinted, parens]

/-- The source of a link in the newest dialect, iterables not parenthesized. -/
theorem chars_source_es2019 (x : Node) (ps : List Piece) :
    chars (source ⟨.es2019, false⟩ x ps) =
      if x.isChain then chars ps
      else if x.hasOptionalLink then parens (chars ps) else chars (receiver x ps) := by
  unfold source
  rw [if_neg Bool.false_ne_true, if_pos (show Dialect.es2019.hasReceivers = true from rfl)]
  split_ifs <;> simp

/-- The method call that a link stands for. -/
theorem text_linkCall (op : Combinator) {source body : Node} {param : Param} (h : param.IsStructured) :
    text none (Node.linkCall op source param body) =
      chars (receiver source (pieces none source)) ++ '.' :: op.method.toList ++
        '(' :: param.written ++ " => ".toList ++ chars (arrowBody body (pieces none body)) ++ [')'] := by
  have hmember (ps : List Piece) :
      chars (receiver (.member false source ⟨.name, op.method⟩) ps) = chars ps :=
    chars_slot Precedence.link _ ps
  simp [text, Node.linkCall, pieces, hmember, commas, chars_parameters_node h]

end

namespace Chain

variable {g : Node}

/-- The lowering of a chain is written without guards. -/
theorem Generated.text_lower (h : Generated g) (hp : ∀ param ∈ g.binders, param.IsStructured) :
    text none g.lower = g.written false ∧ Clean (pieces none g.lower) := by
  induction h with
  | operand hx =>
    have hx' := hx.isChain_eq_false
    rw [Node.lower_eq_self hx', Node.written_of_operand hx']
    exact ⟨rfl, hx.clean⟩
  | @link op source body param hs hb' hb ihs ihb =>
    simp only [Node.binders, List.forall_mem_append, List.forall_mem_cons] at hp
    obtain ⟨hsource, hparam, hbody⟩ := hp
    obtain ⟨hstext, hsclean⟩ := ihs hsource
    obtain ⟨hbtext, hbclean⟩ := ihb hbody
    have hpclean : Clean (pieces none param.node) := by
      cases hb' with
      | name => simp [Param.node, pieces]
      | pattern hp => exact hp.clean
    have hreceiver : chars (receiver source.lower (pieces none source.lower)) =
        if source.isChain then source.written false else chars (receiver source (pieces none source)) := by
      split_ifs with hchain
      · rw [chars_receiver_lower hchain, ← hstext, text]
      · rw [Node.lower_eq_self (Bool.eq_false_iff.2 hchain)]
    refine ⟨?_, ?_⟩
    · rw [Node.lower, text_linkCall op hparam, hreceiver, chars_arrowBody, isObject_lower, ← text,
        hbtext, Node.written]
      simp
    · simp [Node.lower, Node.linkCall, pieces, hsclean, hpclean, hbclean]

/-- A chain is written with a guard for each iterable that has an optional link. -/
theorem Generated.text_chain (h : Generated g)
    (hp : ∀ param ∈ g.binders, ∃ printed, printedParam param = .ok printed) :
    text (some ⟨.es2019, false⟩) g = g.written true ∧ Clean (pieces (some ⟨.es2019, false⟩) g) := by
  induction h with
  | operand hx =>
    rw [Node.written_of_operand hx.isChain_eq_false, text, hx.pieces_eq]
    exact ⟨rfl, hx.clean⟩
  | @link op source body param hs hb' hb ihs ihb =>
    simp only [Node.binders, List.forall_mem_append, List.forall_mem_cons] at hp
    obtain ⟨hsource, ⟨printed, hprinted⟩, hbody⟩ := hp
    obtain ⟨hstext, hsclean⟩ := ihs hsource
    obtain ⟨hbtext, hbclean⟩ := ihb hbody
    have hguarded : chars (Layout.source ⟨.es2019, false⟩ source
          (pieces (some ⟨.es2019, false⟩) source)) =
        if source.isChain then source.written true
        else if source.hasOptionalLink then parens (text none source)
        else chars (receiver source (pieces none source)) := by
      rw [chars_source_es2019, ← hstext]
      cases hs with
      | operand hx => rw [text, text, hx.pieces_eq]
      | link => rfl
    rw [pieces_chain, hprinted, clean_link, clean_source]
    refine ⟨?_, hsclean, ?_⟩
    · rw [text, pieces_chain, hprinted, link_es2019, Layout.methodCall]
      simp only [chars_append, chars_text, hguarded, callback_es2019 hprinted, chars_arrowBody]
      rw [← text, hbtext, Node.written]
      simp
    · cases hpattern : param.isPattern <;>
        simp [callback, Dialect.supportsPatterns, hbclean]

/-- Where a chain is printed, so are its patterns. -/
theorem Generated.printedParam_of_clean {style : ChainStyle} (h : Generated g)
    (hclean : Clean (pieces (some style) g)) :
    ∀ param ∈ g.binders, ∃ printed, printedParam param = .ok printed := by
  induction h with
  | operand hx => simp [Node.binders_of_operand hx.isChain_eq_false]
  | @link op source body param hs hb' hb ihs ihb =>
    rw [pieces_chain, clean_link, clean_source] at hclean
    simp only [Node.binders, List.forall_mem_append, List.forall_mem_cons]
    refine ⟨ihs hclean.1, ?_, ihb (clean_arrowBody.1 hclean.2.callback)⟩
    cases hprinted : printedParam param with
    | ok printed => exact ⟨printed, rfl⟩
    | error fault =>
      rw [hprinted] at hclean
      exact absurd List.mem_cons_self (hclean.2 fault)

/-- A guard takes two characters. -/
theorem Generated.length_written (h : Generated g) :
    (g.written true).length =
      (g.written false).length + 2 * g.iterables.countP (·.hasOptionalLink) := by
  induction h with
  | operand hx =>
    have hx' := hx.isChain_eq_false
    simp [Node.written_of_operand hx', Node.iterables_of_operand hx']
  | @link op source body param hs hb' hb ihs ihb =>
    have hbody : (if body.isObject then parens (body.written true) else body.written true).length =
        (if body.isObject then parens (body.written false) else body.written false).length +
          2 * body.iterables.countP (·.hasOptionalLink) := by
      split_ifs
      · simp [parens, ihb]
        omega
      · exact ihb
    by_cases hchain : source.isChain = true
    · simp only [Node.written, Node.iterables, if_pos hchain, List.length_append, List.length_cons,
        ihs, hbody, List.countP_append]
      omega
    · simp only [Node.written, Node.iterables, if_neg hchain, List.length_append, List.length_cons,
        hbody, List.countP_append, List.countP_singleton]
      by_cases hoptional : source.hasOptionalLink = true
      · simp [hoptional, chars_receiver_of_optional hoptional, parens, text]
        omega
      · simp [hoptional]
        omega

/-- The two texts of a chain are the same where no iterable needs a guard, and nowhere else. -/
theorem Generated.written_eq_iff (h : Generated g) :
    g.written false = g.written true ↔ ∀ x ∈ g.iterables, x.hasOptionalLink = false := by
  have hlength := h.length_written
  constructor
  · intro heq
    rw [heq] at hlength
    have hcount : g.iterables.countP (·.hasOptionalLink) = 0 := by omega
    simpa using hcount
  · intro hnone
    clear hlength
    induction h with
    | operand hx =>
      rw [Node.written_of_operand hx.isChain_eq_false, Node.written_of_operand hx.isChain_eq_false]
    | @link op source body param hs hb' hb ihs ihb =>
      simp only [Node.iterables, List.forall_mem_append] at hnone
      obtain ⟨hsource, hbody⟩ := hnone
      have hbody' := ihb hbody
      by_cases hchain : source.isChain = true
      · rw [if_pos hchain] at hsource
        simp only [Node.written, if_pos hchain, ihs hsource, hbody']
      · rw [if_neg hchain, List.forall_mem_singleton] at hsource
        simp [Node.written, if_neg hchain, hsource, hbody']

end Chain

theorem Layout.settle_slot {limit : Int} {x : Node} {ps : List Piece} (h : Clean ps)
    (hl : ((String.ofList (chars ps)).length : Int) ≤ limit) :
    settle limit (slot 0 x ps) = .ok (String.ofList (chars ps)) := by
  have hplain : plain (slot 0 x ps) = String.ofList (chars ps) := by
    rw [← chars_slot_zero x ps, chars, String.ofList_toList]
  rw [← hplain] at hl ⊢
  exact settle_of_clean (clean_slot.2 h) hl

/-- A chain that is printed and the tree it is lowered to are written alike where no iterable has an
optional link. Where one has, only the chain has parentheses around it. Limits aside, the tree is
always printed, and the chain is where its patterns are. -/
theorem printTree_lower {settings : Settings} {raw : String} {c : Comprehension} {g : Node}
    (hr : settings.reader = .script) (hg : Comprehension.generate settings raw = .ok (c, g)) :
    ∃ tree chain : String,
      (∀ limit : Int, tree.length ≤ limit → printTree limit g.lower = .ok tree) ∧
      ((∀ p, .pattern p ∈ g.binders → ∃ printed, printTree defaultLimit p = .ok printed) →
        ∀ limit : Int, chain.length ≤ limit → printChain limit ⟨.es2019, false⟩ g = .ok chain) ∧
      (∀ limit printed, printChain limit ⟨.es2019, false⟩ g = .ok printed → printed = chain) ∧
      (tree = chain ↔ ∀ x ∈ g.iterables, x.hasOptionalLink = false) := by
  have hgenerated := Chain.generated_of_generate hr hg
  obtain ⟨htree, htreeClean⟩ :=
    hgenerated.text_lower (Chain.isStructured_of_generate hr hg)
  refine ⟨String.ofList (g.written false), String.ofList (g.written true), ?_, ?_, ?_, ?_⟩
  · intro limit hl
    rw [← htree] at hl ⊢
    exact settle_slot htreeClean hl
  · intro hpatterns limit hl
    have hprinted : ∀ param ∈ g.binders, ∃ printed, printedParam param = .ok printed := by
      intro param hp
      cases param with
      | name text => exact ⟨text, rfl⟩
      | pattern p => exact hpatterns p hp
    obtain ⟨hchain, hchainClean⟩ := hgenerated.text_chain hprinted
    rw [← hchain] at hl ⊢
    exact settle_slot hchainClean hl
  · intro limit printed hprinted
    have hclean : Clean (pieces (some ⟨.es2019, false⟩) g) := clean_slot.1 (clean_of_settleFrom hprinted)
    obtain ⟨hchain, -⟩ := hgenerated.text_chain (hgenerated.printedParam_of_clean hclean)
    rw [settle_ok hprinted, ← hchain, text, ← chars_slot_zero g, chars, String.ofList_toList]
  · rw [String.ofList_inj, hgenerated.written_eq_iff]

theorem printTree_lower_sumOfLists : printTree defaultLimit sumOfLists.lower =
    .ok "(a + b).flatMap(x => x.filter(([y]) => y).map(([y]) => y))" := by
  obtain ⟨_, hg⟩ := generate_sumOfLists
  obtain ⟨tree, chain, htree, -, hchain, hsame⟩ := printTree_lower rfl hg
  have hprint : printChain defaultLimit ⟨.es2019, false⟩ sumOfLists =
      .ok "(a + b).flatMap(x => x.filter(([y]) => y).map(([y]) => y))" := by
    decide +kernel
  obtain rfl := hchain _ _ hprint
  obtain rfl : tree = _ := hsame.2 (by decide)
  exact htree _ (by decide)

/-- The lowered chain goes on after the optional link. -/
example :
    let items : Node := .member true (.leaf .name ⟨.name, "a"⟩) ⟨.propertyName, "b"⟩
    let g : Node := .chain .map items (.name "x") (.leaf .name ⟨.name, "x"⟩)
    printTree defaultLimit g.lower = .ok "a?.b.map(x => x)" ∧
      printChain defaultLimit ⟨.es2019, false⟩ g = .ok "(a?.b).map(x => x)" := by
  decide +kernel

end Comprehend
