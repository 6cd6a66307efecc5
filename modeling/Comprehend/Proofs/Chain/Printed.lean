import Comprehend.Proofs.Chain.Spelling
import Comprehend.Proofs.Chain.Variable
import Comprehend.Proofs.Syntax.Limit

/-! # Printed chains

A chain is printed by two hands: a dialect writes the links and the callbacks, the printer of trees
writes the operands between. What they write together is read as the chain spelled in the dialect,
each operand as it was, whether sources are parenthesized or not. -/

namespace Comprehend

open Comprehend.Parser Comprehend.Layout Comprehend.Lexeme

/-! ## Chains that are generated from text -/

namespace Chain

/-- A parameter that a clause binds. -/
inductive Binds : Param → Prop
  | name {text : String} (h : IsName text.toList) : Binds (.name text)
  | pattern {p : Node} (h : Formed .pattern p) : Binds (.pattern p)

/-- A chain over operands that were read from text. -/
inductive Generated : Node → Prop
  | operand {x : Node} (h : Formed .expression x) : Generated x
  | link (op : Combinator) {source body : Node} {param : Param} (hs : Generated source)
    (hp : Binds param) (hb : Generated body) : Generated (.chain op source param body)

/-- A level whose trees were read from text. -/
structure Level.Generated (l : Level) : Prop where
  source : Formed .expression l.source
  condition : ∀ test, l.condition = some test → Formed .expression test
  param : Binds l.param

theorem Level.Generated.filtered {l : Level} (h : l.Generated) : Chain.Generated l.filtered := by
  unfold Level.filtered
  split
  · exact .operand h.source
  · next test ht => exact .link _ (.operand h.source) h.param (.operand (h.condition test ht))

theorem generated_nest {yield : Node} {ls : List Level} (hy : Formed .expression yield)
    (hls : ∀ l ∈ ls, l.Generated) : Generated (nest yield ls) := by
  induction ls with
  | nil => exact .operand hy
  | cons l ls ih =>
    obtain ⟨hl, hls⟩ := List.forall_mem_cons.1 hls
    cases ls with
    | nil => exact .link _ hl.filtered hl.param (.operand hy)
    | cons l' ls => exact .link _ hl.filtered hl.param (ih hls)

theorem Level.Reads.generated {c : Clause} {l : Level} (h : Level.Reads .script c l)
    (hc : ClauseToken.EndsSolid c.pattern.toList) : l.Generated where
  source := formed_of_parseExpression h.source
  condition test ht := by
    have hcondition := h.condition
    rw [ht] at hcondition
    generalize c.condition = text at hcondition
    cases hcondition with
    | some htest => exact formed_of_parseExpression htest
  param := by
    have hp := h.param
    unfold binding at hp
    split at hp
    · obtain ⟨p, hp, hl⟩ := ClauseToken.map_eq_ok hp
      exact hl ▸ .pattern (formed_of_parsePattern hp)
    · obtain ⟨u, hv, hl⟩ := ClauseToken.map_eq_ok hp
      exact hl ▸ .name (Variable.isName_of_validate hv hc)

theorem generated_of_reads {cs : List Clause} {ls : List Level}
    (h : List.Forall₂ (fun c l => Level.Reads .script c l) cs ls)
    (hc : ∀ c ∈ cs, ClauseToken.EndsSolid c.pattern.toList) : ∀ l ∈ ls, l.Generated := by
  induction h with
  | nil => exact fun _ h => absurd h List.not_mem_nil
  | cons hl _ ih =>
    obtain ⟨hc, hcs⟩ := List.forall_mem_cons.1 hc
    exact List.forall_mem_cons.2 ⟨hl.generated hc, ih hcs⟩

/-- What is generated from notation text is a chain over operands read from text. -/
theorem generated_of_generate {settings : Settings} {raw : String} {c : Comprehension} {g : Node}
    (hr : settings.reader = .script) (h : Comprehension.generate settings raw = .ok (c, g)) :
    Generated g := by
  obtain ⟨yield, l, ls, hy, hls, rfl⟩ := Comprehension.generate_ok h
  rw [hr] at hy hls
  have hparse := (Comprehension.generate_eq_ok.1 h).1
  have hlevels := generated_of_reads hls (Comprehension.endsSolid_pattern hparse)
  exact generated_nest (formed_of_parseExpression hy) hlevels

end Chain

/-! ## Links -/

theorem token_toList (cls : TokenClass) (s : String) : token cls s.toList = ⟨cls, s⟩ := by
  rw [token, String.ofList_toList]

section

variable {style : ChainStyle} {x y : Node} {ps qs : List Piece} {s t : Nat}

/-- A method call on what a text is read as. -/
theorem reads_methodCall (method : String) {u : List Char} {us : List (List Char)} {xs : List Node}
    (hm : word method.toList = some (method.toList, [])) (hx : Reads s u x) (hs : 18 ≤ s)
    (hxs : List.Forall₂ (ReadsPart element) us xs) :
    Reads 18 (u ++ '.' :: method.toList ++ '(' :: (commas us ++ [')']))
      (.call false (.member false x ⟨.propertyName, method⟩) xs) := by
  have hmember := hx.member (t := 18) hs (Nat.le_refl _) (by omega) hm
  rw [token_toList] at hmember
  exact hmember.call (Nat.le_refl _) hxs

theorem word_method (op : Combinator) :
    word op.method.toList = some (op.method.toList, []) := by cases op <;> rfl

theorem Parser.Reads.of_eq {u v : List Char} (h : Reads t v y) (hu : u = v) : Reads t u y := hu ▸ h

theorem reads_link (op : Combinator) {param : Param} {source body : Node}
    (hsource : Reads s (chars ps) source) (hs : style.dialect.hasReceivers = true → 18 ≤ s)
    (hcallback : Reads t (chars qs) (style.dialect.callback [param.node] body)) :
    Reads 18 (chars (link style op ps qs)) (style.dialect.spell op source param body) := by
  have hparts : List.Forall₂ (ReadsPart element) [chars qs]
      [style.dialect.callback [param.node] body] := .cons hcallback.element.toReadsPart .nil
  obtain ⟨dialect, parenthesize⟩ := style
  cases dialect with
  | es2019 =>
    have h := reads_methodCall _ (word_method op) hsource (hs rfl) hparts
    exact h.of_eq (by simp [link, methodCall, commas])
  | es5 =>
    cases op with
    | flatMap =>
      have hcall := reads_methodCall "map" rfl hsource (hs rfl) hparts
      have hempty : Reads 20 (bracketed []) (.array []) := reads_array .nil
      have hconcat := hempty.member (t := 19) (by omega) (by omega) (by omega)
        (w := "concat".toList) rfl
      have h := reads_methodCall "apply" rfl hconcat (by omega)
        (.cons hempty.element.toReadsPart (.cons hcall.element.toReadsPart .nil))
      exact h.of_eq (by simp [link, methodCall, commas, bracketed])
    | filter | map =>
      exact (reads_methodCall _ (word_method _) hsource (hs rfl) hparts).of_eq
        (by simp [link, methodCall, commas])
  | lodash =>
    have hname : IsName ['_'] := ⟨rfl, rfl⟩
    have h := reads_methodCall _ (word_method op) hname.reads (by omega)
      (.cons hsource.element.toReadsPart hparts)
    exact h.of_eq (by simp [link, commas])

/-- The source of a link, parenthesized or not. -/
theorem reads_source (style : ChainStyle) (h : Reads t (chars ps) y) (hchain : x.isChain = true → 18 ≤ t)
    (hoperand : x.isChain = false → y = x ∧ t = x.level) :
    ∃ s, (style.dialect.hasReceivers = true → 18 ≤ s) ∧ Reads s (chars (source style x ps)) y := by
  have hparens : Reads 20 (chars (parenthesized (slot 0 x ps))) y := by simpa using h.parens
  unfold source
  split_ifs with hc hp hr ho
  · exact ⟨t, fun _ => hchain hc, by simpa using h⟩
  · exact ⟨20, fun _ => by omega, hparens⟩
  · exact ⟨20, fun _ => by omega, hparens⟩
  · obtain ⟨rfl, rfl⟩ := hoperand (Bool.eq_false_iff.2 hc)
    exact ⟨18, fun _ => Nat.le_refl _, h.receiver_links⟩
  · obtain ⟨rfl, rfl⟩ := hoperand (Bool.eq_false_iff.2 hc)
    exact ⟨0, fun h => absurd h hr, h.slot (Nat.zero_le _)⟩

/-! ## Callbacks -/

/-- A parameter as it is printed in a callback. -/
def printedParam : Param → Except Fault String
  | .name p => .ok p
  | .pattern p => settle defaultLimit (slot 0 p (pieces none p))

theorem pieces_chain (op : Combinator) (x : Node) (param : Param) (body : Node) :
    pieces (some style) (.chain op x param body) =
      link style op (source style x (pieces (some style) x))
        (callback style param.isPattern (printedParam param)
          (arrowBody body (pieces (some style) body))) := by
  cases param <;> rw [pieces] <;> rfl

theorem reads_callback {param : Param} {body : Node} (hp : Chain.Binds param)
    (hd : ∀ p, param = .pattern p → p.PlainDefaults) (hbody : Reads t (chars ps) body)
    (hclean : Clean (callback style param.isPattern (printedParam param) ps)) :
    ∃ s, Reads s (chars (callback style param.isPattern (printedParam param) ps))
      (style.dialect.callback [param.node] body) := by
  obtain ⟨dialect, parenthesize⟩ := style
  cases hp with
  | @name text h =>
    have hnode : Param.node (.name text) = .bindingName (token .name text.toList) := by
      rw [token_toList, Param.node]
    rw [hnode]
    cases dialect with
    | es5 =>
      have hfunction := reads_function (.cons h.target.element .nil) hbody
      exact ⟨_, hfunction.of_eq (by simp [callback, printedParam, Param.isPattern, functionTail,
        commas])⟩
    | es2019 | lodash =>
      have harrow := h.reads_arrow hbody
      exact ⟨_, harrow.of_eq (by simp [callback, printedParam, Param.isPattern, infixed])⟩
  | @pattern p h =>
    cases hprinted : printedParam (.pattern p) with
    | error fault =>
      rw [hprinted] at hclean
      exact absurd List.mem_cons_self (hclean fault)
    | ok printed =>
      have htext : printed.toList = text none p := toList_of_settle hprinted
      have hpart : ReadsPart patternElement printed.toList p := htext ▸ h.readsBack (hd p rfl)
      rw [hprinted] at hclean
      cases dialect with
      | es5 => exact absurd List.mem_cons_self (hclean _)
      | es2019 | lodash =>
        have harrow := reads_arrow_list (.cons hpart .nil) hbody
        exact ⟨_, harrow.of_eq (by
          simp [callback, Param.isPattern, Dialect.supportsPatterns, commas, infixed])⟩

end

/-! ## Whole chains -/

namespace Node

/-- The trees that a chain puts together: sources, patterns, conditions and the yield. -/
def operands : Node → List Node
  | .chain _ source (.name _) body => operands source ++ operands body
  | .chain _ source (.pattern p) body => operands source ++ p :: operands body
  | x => [x]

/-- No operand of a chain has an arrow function for a default. -/
def PlainOperands (x : Node) : Prop := ∀ y ∈ x.operands, y.PlainDefaults

theorem plainOperands_of_operand {x : Node} (hx : x.isChain = false) (h : x.PlainOperands) :
    x.PlainDefaults := h x (by cases x <;> simp_all [operands, isChain])

theorem PlainOperands.link {op : Combinator} {source body : Node} {param : Param}
    (h : (Node.chain op source param body).PlainOperands) :
    source.PlainOperands ∧ (∀ p, param = .pattern p → p.PlainDefaults) ∧ body.PlainOperands := by
  cases param with
  | name text =>
    refine ⟨fun y hy => h y (by simp [operands, hy]), fun p' hp => ?_,
      fun y hy => h y (by simp [operands, hy])⟩
    cases hp
  | pattern p =>
    refine ⟨fun y hy => h y (by simp [operands, hy]), fun p' hp => ?_,
      fun y hy => h y (by simp [operands, hy])⟩
    cases hp
    exact h p (by simp [operands])

end Node

theorem Parser.Formed.isChain_eq_false {x : Node} (h : Formed .expression x) : x.isChain = false := by
  cases h <;> rfl

namespace Layout

theorem refuse_mem_link {style : ChainStyle} {op : Combinator} {ps qs : List Piece} {fault : Fault} :
    .refuse fault ∈ link style op ps qs ↔ .refuse fault ∈ ps ∨ .refuse fault ∈ qs := by
  unfold link methodCall
  split <;> simp

@[simp] theorem refuse_mem_source {style : ChainStyle} {x : Node} {ps : List Piece} {fault : Fault} :
    .refuse fault ∈ source style x ps ↔ .refuse fault ∈ ps := by
  unfold source
  split_ifs <;> simp

theorem clean_link {style : ChainStyle} {op : Combinator} {ps qs : List Piece} :
    Clean (link style op ps qs) ↔ Clean ps ∧ Clean qs := by
  simp only [Clean, refuse_mem_link, not_or, forall_and]

@[simp] theorem clean_source {style : ChainStyle} {x : Node} {ps : List Piece} :
    Clean (source style x ps) ↔ Clean ps := by
  simp [Clean]

theorem Clean.callback {style : ChainStyle} {isPattern : Bool} {param : Except Fault String}
    {ps : List Piece} (h : Clean (callback style isPattern param ps)) : Clean ps := by
  unfold Layout.callback at h
  split at h
  · exact absurd List.mem_cons_self (h _)
  · split at h
    · exact absurd List.mem_cons_self (h _)
    · split at h <;> simpa using h

end Layout

/-- The source of a link and its callback, each as it is printed. -/
theorem reads_parts {style : ChainStyle} {source body : Node} {param : Param}
    (hp : Chain.Binds param) (hd : ∀ p, param = .pattern p → p.PlainDefaults)
    (hclean : Clean (callback style param.isPattern (printedParam param)
      (arrowBody body (pieces (some style) body))))
    (hsource : Reads (if source.isChain then 18 else source.level) (text (some style) source)
      (source.spelled style.dialect.spell))
    (hbody : Reads (if body.isChain then 18 else body.level) (text (some style) body)
      (body.spelled style.dialect.spell)) :
    ∃ s t, (style.dialect.hasReceivers = true → 18 ≤ s) ∧
      Reads s (chars (Layout.source style source (pieces (some style) source)))
        (source.spelled style.dialect.spell) ∧
      Reads t (chars (callback style param.isPattern (printedParam param)
        (arrowBody body (pieces (some style) body))))
        (style.dialect.callback [param.node] (body.spelled style.dialect.spell)) := by
  obtain ⟨s, hreceiver, hs⟩ := reads_source style (x := source) hsource
    (fun h => by rw [if_pos h]) fun h =>
      ⟨Node.spelled_eq_self h, if_neg (Bool.eq_false_iff.1 h)⟩
  obtain ⟨t, hbody⟩ := Reads.arrowBody (x := body) hbody
  obtain ⟨t', hcallback⟩ := reads_callback hp hd hbody hclean
  exact ⟨s, t', hreceiver, hs, hcallback⟩

/-- The text of a chain is read as the chain spelled in its dialect. -/
theorem Chain.Generated.reads {style : ChainStyle} {x : Node} (h : Generated x)
    (hd : x.PlainOperands) (hclean : Clean (pieces (some style) x)) :
    Reads (if x.isChain then 18 else x.level) (text (some style) x)
      (x.spelled style.dialect.spell) := by
  induction h with
  | operand hx =>
    have hx' := hx.isChain_eq_false
    rw [hx', Node.spelled_eq_self hx']
    exact hx.readsBack (Node.plainOperands_of_operand hx' hd)
  | @link op source body param hs hp hb ihs ihb =>
    obtain ⟨hds, hdp, hdb⟩ := hd.link
    rw [pieces_chain, clean_link, clean_source] at hclean
    obtain ⟨s, t, hreceiver, hsource, hcallback⟩ := reads_parts hp hdp hclean.2 (ihs hds hclean.1)
      (ihb hdb (clean_arrowBody.1 hclean.2.callback))
    have hlink := reads_link op hsource hreceiver hcallback
    rw [text, pieces_chain]
    exact hlink

theorem Chain.Generated.parseExpression {limit : Int} {style : ChainStyle} {x : Node}
    {printed : String} (h : Generated x) (hd : x.PlainOperands)
    (hp : printChain limit style x = .ok printed) :
    parseExpression printed = .ok (x.spelled style.dialect.spell) := by
  have hreads := h.reads hd (clean_slot.1 (clean_of_settleFrom hp))
  rw [text, ← chars_slot_zero x] at hreads
  rw [settle_ok hp]
  simpa [chars] using parseExpression_of_reads hreads

/-- A printed chain is read as the chain spelled in its dialect, with every operand as it was. In
the newest dialect that is the lowered chain, but for the class of the method names. -/
theorem parseExpression_printChain {settings : Settings} {raw : String} {c : Comprehension} {g : Node}
    {limit : Int} {style : ChainStyle} {printed : String} (hr : settings.reader = .script)
    (hg : Comprehension.generate settings raw = .ok (c, g)) (hd : g.PlainOperands)
    (h : printChain limit style g = .ok printed) :
    parseExpression printed = .ok (g.spelled style.dialect.spell) ∧
      (style.dialect = .es2019 →
        parseExpression printed = .ok (g.spelled (Node.methodCall .propertyName .arrow))) ∧
      g.lower = g.spelled (Node.methodCall .name .arrow) := by
  have hread := (Chain.generated_of_generate hr hg).parseExpression hd h
  refine ⟨hread, fun hs => ?_, Node.lower_eq_spelled g⟩
  rw [hread, hs]
  rfl

/-- The chain of a comprehension over a sum of lists, with a pattern in its second loop. -/
def sumOfLists : Node :=
  let items : Node := .arrayPattern [.bindingName ⟨.name, "y"⟩]
  let name (text : String) : Node := .leaf .name ⟨.name, text⟩
  .chain .flatMap (.binary .additive "+" (name "a") (name "b")) (.name "x")
    (.chain .map (.chain .filter (name "x") (.pattern items) (name "y")) (.pattern items) (name "y"))

theorem generate_sumOfLists : ∃ c,
    Comprehension.generate .standard "y for (x of a + b) for ([y] of x) if (y)" =
      .ok (c, sumOfLists) := by
  let c : Comprehension := ⟨"y", [⟨"x", "a + b", none⟩, ⟨"[y]", "x", some "y"⟩], []⟩
  have hx : parseExpression "x" = .ok (.leaf .name ⟨.name, "x"⟩) := rfl
  have hy : parseExpression "y" = .ok (.leaf .name ⟨.name, "y"⟩) := rfl
  have hsum : parseExpression "a + b" = .ok (.binary .additive "+" (.leaf .name ⟨.name, "a"⟩)
    (.leaf .name ⟨.name, "b"⟩)) := rfl
  have hitems : parsePattern "[y]" = .ok (.arrayPattern [.bindingName ⟨.name, "y"⟩]) := rfl
  have houter : Chain.binding ⟨parseExpression, parsePattern⟩ ⟨"x", "a + b", none⟩ = .ok (.name "x") := rfl
  have hinner : Chain.binding ⟨parseExpression, parsePattern⟩ ⟨"[y]", "x", some "y"⟩ =
      .ok (.pattern (.arrayPattern [.bindingName ⟨.name, "y"⟩])) := by
    rw [Chain.binding, if_pos (by decide)]
    simp only [hitems]
    rfl
  refine ⟨c, Comprehension.generate_eq_ok.2 ⟨by decide +kernel, ?_⟩⟩
  simp only [Comprehension.chain, c, Settings.standard, Chain.build, Chain.fold, Chain.level, OperandReader.script,
    hx, hy, hsum, houter, hinner]
  rfl

theorem sumOfLists_plainOperands : sumOfLists.PlainOperands := by
  have hoperands : sumOfLists.operands =
      [.binary .additive "+" (.leaf .name ⟨.name, "a"⟩) (.leaf .name ⟨.name, "b"⟩),
        .leaf .name ⟨.name, "x"⟩, .arrayPattern [.bindingName ⟨.name, "y"⟩], .leaf .name ⟨.name, "y"⟩,
        .arrayPattern [.bindingName ⟨.name, "y"⟩], .leaf .name ⟨.name, "y"⟩] := rfl
  have hsum (group : OperatorGroup) (x y : Node) (hx : x.PlainDefaults) (hy : y.PlainDefaults) :
      (Node.binary group "+" x y).PlainDefaults :=
    .of_children (by simp) (by simp [Node.children, Node.PlainDefaults.token, hx, hy])
  have hitems (t : Token) : (Node.arrayPattern [.bindingName t]).PlainDefaults := by
    have hname : (Node.bindingName t).PlainDefaults :=
      .of_children (by simp) (by simp [Node.children, Node.PlainDefaults.token])
    exact .of_children (by simp) (by simp [Node.children, hname])
  intro x hx
  rw [hoperands] at hx
  simp only [List.mem_cons, List.not_mem_nil, or_false] at hx
  rcases hx with rfl | rfl | rfl | rfl | rfl | rfl
  exacts [hsum _ _ _ (.leaf _ _) (.leaf _ _), .leaf _ _, hitems _, .leaf _ _, hitems _, .leaf _ _]

theorem parseExpression_printChain_sumOfLists :
    parseExpression "(a + b).flatMap(x => x.filter(([y]) => y).map(([y]) => y))" =
      .ok (sumOfLists.spelled Dialect.es2019.spell) := by
  obtain ⟨_, hg⟩ := generate_sumOfLists
  have hprint : printChain defaultLimit ⟨.es2019, false⟩ sumOfLists =
      .ok "(a + b).flatMap(x => x.filter(([y]) => y).map(([y]) => y))" := by
    decide +kernel
  exact (parseExpression_printChain rfl hg sumOfLists_plainOperands hprint).1

end Comprehend
