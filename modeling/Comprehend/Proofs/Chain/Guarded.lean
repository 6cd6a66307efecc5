import Comprehend.Proofs.Chain.Lowered
import Comprehend.Proofs.Clause.Placed

/-! # Chains of guarded texts

A comprehension whose text is guarded has guarded operands. Its chain then has no template in it,
lowered or printed, and the text that it is printed as is guarded in its turn. -/

namespace Comprehend

open Comprehend.Text Comprehend.Lexeme Comprehend.Parser Comprehend.Layout

theorem Node.operands_of_operand {x : Node} (h : x.isChain = false) : x.operands = [x] := by
  cases x <;> simp_all [operands, isChain]

/-! ## Printed pieces -/

namespace Layout

/-- Pieces whose texts are guarded. -/
def Guarded (ps : List Piece) : Prop := ∀ s, Piece.text s ∈ ps → Lexeme.Guarded s.toList

section

variable {x : Node} {ps qs : List Piece}

@[simp] theorem guarded_nil : Guarded [] := fun _ h => absurd h List.not_mem_nil

@[simp] theorem guarded_append : Guarded (ps ++ qs) ↔ Guarded ps ∧ Guarded qs := by
  simp only [Guarded, List.mem_append, or_imp, forall_and]

@[simp] theorem guarded_text {s : String} :
    Guarded (.text s :: ps) ↔ Lexeme.Guarded s.toList ∧ Guarded ps := by
  simp [Guarded, or_imp, forall_and]

@[simp] theorem guarded_checkpoint : Guarded (.checkpoint :: ps) ↔ Guarded ps := by
  simp [Guarded]

@[simp] theorem guarded_refuse {fault : Fault} : Guarded (.refuse fault :: ps) ↔ Guarded ps := by
  simp [Guarded]

theorem Guarded.chars (h : Guarded ps) : Lexeme.Guarded (chars ps) := by
  induction ps with
  | nil => exact guarded_of_not_mem List.not_mem_nil
  | cons p ps ih =>
    cases p with
    | text s =>
      obtain ⟨hs, hps⟩ := guarded_text.1 h
      rw [chars_text]
      exact hs.append (ih hps)
    | checkpoint => exact ih (guarded_checkpoint.1 h)
    | refuse fault => exact ih (guarded_refuse.1 h)

attribute [local simp] Lexeme.guarded_nil Lexeme.guarded_append_cons Lexeme.guarded_cons

@[simp] theorem guarded_parenthesized : Guarded (parenthesized ps) ↔ Guarded ps := by
  simp [parenthesized]

@[simp] theorem guarded_slot {p : Nat} : Guarded (slot p x ps) ↔ Guarded ps := by
  unfold slot
  split_ifs <;> simp

@[simp] theorem guarded_receiver : Guarded (receiver x ps) ↔ Guarded ps := by
  unfold receiver
  split_ifs <;> simp

@[simp] theorem guarded_constructed : Guarded (constructed x ps) ↔ Guarded ps := by
  unfold constructed
  split_ifs <;> simp

@[simp] theorem guarded_arrowBody : Guarded (arrowBody x ps) ↔ Guarded ps := by
  unfold arrowBody
  split_ifs <;> simp

@[simp] theorem guarded_source {style : ChainStyle} : Guarded (source style x ps) ↔ Guarded ps := by
  unfold source
  split_ifs <;> simp

theorem guarded_braced {xs : List Node} (h : Guarded ps) : Guarded (braced xs ps) := by
  unfold braced
  split_ifs <;> simp [h]

theorem guarded_parameters {xs : List Node} (hxs : ∀ x ∈ xs, x.Guarded) (h : Guarded ps) :
    Guarded (parameters xs ps) := by
  unfold parameters
  split
  · next t =>
    have ht : Lexeme.Guarded t.text.toList :=
      hxs _ List.mem_cons_self t (.child (.self _) List.mem_cons_self)
    simp [ht]
  · simpa using h

theorem guarded_link {style : ChainStyle} {op : Combinator} (hps : Guarded ps) (hqs : Guarded qs) :
    Guarded (link style op ps qs) := by
  have hmethod : Lexeme.Guarded op.method.toList := by
    cases op <;> exact guarded_of_not_mem (by decide)
  unfold link
  split <;> simp [methodCall, hps, hqs, hmethod]

theorem guarded_callback {style : ChainStyle} {isPattern : Bool} {param : Except Fault String}
    (hparam : ∀ p, param = .ok p → Lexeme.Guarded p.toList) (h : Guarded ps) :
    Guarded (callback style isPattern param ps) := by
  unfold callback
  split
  · simp
  · next p =>
    have hp := hparam p rfl
    split
    · simp
    · split
      · simp [h, hp]
      · cases isPattern <;> simp [h, hp]

theorem exists_chars_link (style : ChainStyle) (op : Combinator) (ps qs : List Piece) :
    ∃ w, chars (link style op ps qs) = w ++ [')'] := by
  unfold link methodCall
  split <;> exact ⟨_, chars_append _ [.text ")"]⟩

mutual

/-- A guarded tree is printed as guarded pieces. -/
theorem guarded_pieces (x : Node) (h : x.Guarded) : Guarded (pieces none x) := by
  have htoken (t : Token) (ht : .token t ∈ x.children) : Lexeme.Guarded t.text.toList :=
    h t (.child (.self _) ht)
  cases x with
  | array xs | object xs | arrayPattern xs | objectPattern xs =>
    have hxs := guarded_listed xs (fun y hy => h.child hy) true
    simp [pieces, hxs, guarded_braced]
  | params xs =>
    have hitems : ∀ y ∈ xs, y.Guarded := fun y hy => h.child hy
    rw [pieces]
    exact guarded_parameters hitems (guarded_listed xs hitems true)
  | unary op y =>
    have hy := guarded_pieces y (h.child (by simp [Node.children]))
    have hop := htoken op (by simp [Node.children])
    rw [pieces]
    have hgap : signGap op y = " " ∨ signGap op y = "" := ite_eq_or_eq _ _ _
    rcases hgap with hgap | hgap <;> simp [hgap, hop, hy]
  | spread y | patternRest y =>
    have hy := guarded_pieces y (h.child (by simp [Node.children]))
    simp [pieces, hy]
  | prefixUpdate op y | postfixUpdate y op | property op y | propertyPattern op y =>
    have hy := guarded_pieces y (h.child (by simp [Node.children]))
    have hop := htoken op (by simp [Node.children])
    simp [pieces, hy, hop]
  | member optional y name =>
    have hy := guarded_pieces y (h.child (by simp [Node.children]))
    have hname := htoken name (by simp [Node.children])
    cases optional <;> simp [pieces, hy, hname]
  | tagged y template =>
    have hy := guarded_pieces y (h.child (by simp [Node.children]))
    have htemplate := htoken template (by simp [Node.children])
    simp [pieces, hy, htemplate]
  | binary group op y z =>
    have hy := guarded_pieces y (h.child (by simp [Node.children]))
    have hz := guarded_pieces z (h.child (by simp [Node.children]))
    have hop := htoken ⟨.other group.label, op⟩ (by simp [Node.children])
    simp [pieces, hy, hz, hop]
  | logical op y z =>
    have hy := guarded_pieces y (h.child (by simp [Node.children]))
    have hz := guarded_pieces z (h.child (by simp [Node.children]))
    cases op <;> simp [pieces, hy, hz, LogicalOp.text]
  | power y z | patternDefault y z =>
    have hy := guarded_pieces y (h.child (by simp [Node.children]))
    have hz := guarded_pieces z (h.child (by simp [Node.children]))
    simp [pieces, hy, hz]
  | index optional y z =>
    have hy := guarded_pieces y (h.child (by simp [Node.children]))
    have hz := guarded_pieces z (h.child (by simp [Node.children]))
    cases optional <;> simp [pieces, hy, hz]
  | arrow xs y =>
    have hparams : (Node.params xs).Guarded := h.child (by simp [Node.children])
    have hitems : ∀ z ∈ xs, z.Guarded := fun z hz => hparams.child hz
    have hxs := guarded_parameters hitems (guarded_listed xs hitems true)
    have hy := guarded_pieces y (h.child (by simp [Node.children]))
    simp [pieces, hxs, hy]
  | function xs y =>
    have hparams : (Node.params xs).Guarded := h.child (by simp [Node.children])
    have hxs := guarded_listed xs (fun z hz => hparams.child hz) true
    have hy := guarded_pieces y (h.child (by simp [Node.children]))
    simp [pieces, hxs, hy]
  | call optional y xs =>
    have hy := guarded_pieces y (h.child (by simp [Node.children]))
    have hxs := guarded_listed xs (fun z hz => h.child (by simp [Node.children, hz])) true
    cases optional <;> simp [pieces, hy, hxs]
  | construct y xs =>
    have hy := guarded_pieces y (h.child (by simp [Node.children]))
    have hxs := guarded_listed xs (fun z hz => h.child (by simp [Node.children, hz])) true
    simp [pieces, hy, hxs]
  | ternary y z w =>
    have hy := guarded_pieces y (h.child (by simp [Node.children]))
    have hz := guarded_pieces z (h.child (by simp [Node.children]))
    have hw := guarded_pieces w (h.child (by simp [Node.children]))
    simp [pieces, hy, hz, hw]
  | leaf kind t | shorthand t | bindingName t =>
    have ht := htoken t (by simp [Node.children])
    simp [pieces, ht]
  | token t => simp [pieces, h t (.self _)]
  | constant value => cases value <;> simp [pieces, Constant.text]
  | chain op source param body => cases param <;> simp [pieces]
  | datum | other => simp [pieces]

theorem guarded_listed (xs : List Node) (h : ∀ x ∈ xs, x.Guarded) (first : Bool) :
    Guarded (listed none first xs) := by
  cases xs with
  | nil => simp [listed]
  | cons x xs =>
    obtain ⟨hx, hxs⟩ := List.forall_mem_cons.1 h
    have hrest := guarded_listed xs hxs false
    cases first <;> simp [listed, guarded_pieces x hx, hrest]

end

end

end Layout

namespace Chain

/-- A property of the trees of a level. -/
structure Level.All (P : Node → Prop) (l : Level) : Prop where
  source : P l.source
  param : ∀ p, l.param = .pattern p → P p
  condition : ∀ test, l.condition = some test → P test

section

variable {P : Node → Prop} {op : Combinator} {source body yield : Node} {param : Param} {l : Level}
  {ls : List Level}

theorem forall_operands_chain : (∀ y ∈ (Node.chain op source param body).operands, P y) ↔
    (∀ y ∈ source.operands, P y) ∧ (∀ p, param = .pattern p → P p) ∧
      ∀ y ∈ body.operands, P y := by
  cases param with
  | name text => simp [Node.operands, or_imp, forall_and]
  | pattern p => simp [Node.operands, or_imp, forall_and]

theorem Level.Generated.forall_operands (h : l.Generated) (hl : l.All P) :
    ∀ y ∈ l.filtered.operands, P y := by
  have hsource : ∀ y ∈ l.source.operands, P y := by
    rw [Node.operands_of_operand h.source.isChain_eq_false]
    exact List.forall_mem_singleton.2 hl.source
  unfold Level.filtered
  split
  · exact hsource
  · next test ht =>
    refine forall_operands_chain.2 ⟨hsource, hl.param, ?_⟩
    rw [Node.operands_of_operand (h.condition test ht).isChain_eq_false]
    exact List.forall_mem_singleton.2 (hl.condition test ht)

/-- What holds of the trees of all levels and of the yield holds of the operands of the nest. -/
theorem forall_operands_nest (hy : yield.isChain = false) (hP : P yield)
    (hls : ∀ l ∈ ls, l.Generated ∧ l.All P) : ∀ y ∈ (nest yield ls).operands, P y := by
  have hyield : ∀ y ∈ yield.operands, P y := by
    rw [Node.operands_of_operand hy]
    exact List.forall_mem_singleton.2 hP
  induction ls with
  | nil => exact hyield
  | cons l ls ih =>
    obtain ⟨⟨hl, hall⟩, hls⟩ := List.forall_mem_cons.1 hls
    have hfiltered := hl.forall_operands hall
    cases ls with
    | nil => exact forall_operands_chain.2 ⟨hfiltered, hall.param, hyield⟩
    | cons l' ls => exact forall_operands_chain.2 ⟨hfiltered, hall.param, ih hls⟩

end

theorem Level.Reads.guarded {cs : List Char} {c : Clause} {l : Level} (h : Level.Reads .script c l)
    (hc : c.StandsIn cs) (hcs : Lexeme.Guarded cs) : l.All Node.Guarded where
  source := guarded_of_parseExpression h.source (hcs.stands hc.iterable)
  param p hp := by
    have hparam := h.param
    unfold binding at hparam
    split at hparam
    · obtain ⟨q, hq, heq⟩ := ClauseToken.map_eq_ok hparam
      cases heq.trans hp
      exact guarded_of_parsePattern hq (hcs.stands hc.pattern)
    · obtain ⟨u, -, heq⟩ := ClauseToken.map_eq_ok hparam
      cases heq.trans hp
  condition test ht := by
    have hcondition := h.condition
    rw [ht] at hcondition
    generalize htext : c.condition = text at hcondition
    cases hcondition with
    | some htest => exact guarded_of_parseExpression htest (hcs.stands (hc.condition _ htext))

/-- The operands of a chain that is generated from a guarded text are guarded. -/
theorem guarded_of_generate {settings : Settings} {raw : String} {c : Comprehension} {g : Node}
    (hr : settings.reader = .script) (h : Comprehension.generate settings raw = .ok (c, g))
    (hraw : Lexeme.Guarded raw.toList) : ∀ y ∈ g.operands, y.Guarded := by
  obtain ⟨yield, l, ls, hy, hls, rfl⟩ := Comprehension.generate_ok h
  rw [hr] at hy hls
  have hparse := (Comprehension.generate_eq_ok.1 h).1
  obtain ⟨hyield, hclauses⟩ := Comprehension.stands_of_parse hparse
  have hlevels := generated_of_reads hls (Comprehension.endsSolid_pattern hparse)
  refine forall_operands_nest (formed_of_parseExpression hy).isChain_eq_false
    (guarded_of_parseExpression hy (hraw.stands hyield)) fun k hk => ⟨hlevels k hk, ?_⟩
  obtain ⟨i, hi, rfl⟩ := List.getElem_of_mem hk
  have hreads := (List.forall₂_iff_get.1 hls).2 i (hls.length_eq ▸ hi) hi
  exact hreads.guarded (hclauses _ (List.getElem_mem _)) hraw

/-! ## Lowered chains -/

section

variable {g x : Node} {phrase : Phrase}

theorem untagged_token (t : Token) : (Node.token t).Untagged := .of_children nofun nofun

theorem Binds.untagged {param : Param} (h : Binds param) (hp : ∀ p, param = .pattern p → p.Guarded) :
    param.node.Untagged := by
  cases h with
  | name =>
    exact .of_children nofun (List.forall_mem_singleton.2 (untagged_token _))
  | pattern h => exact h.untagged (hp _ rfl)

/-- Lowering a chain of guarded operands leaves no tagged template. -/
theorem Generated.untagged_lower (h : Generated g) (hg : ∀ y ∈ g.operands, y.Guarded) :
    g.lower.Untagged := by
  induction h with
  | @operand x hx =>
    have hchain := hx.isChain_eq_false
    rw [Node.operands_of_operand hchain, List.forall_mem_singleton] at hg
    rw [Node.lower_eq_self hchain]
    exact hx.untagged hg
  | @link op source body param hs hp hb ihs ihb =>
    obtain ⟨hsource, hpattern, hbody⟩ := forall_operands_chain.1 hg
    have hparam := hp.untagged hpattern
    have hmember : (Node.member false source.lower ⟨.name, op.method⟩).Untagged :=
      .of_children (by simp) (by simp [Node.children, ihs hsource, untagged_token])
    have hparams : (Node.params [param.node]).Untagged :=
      .of_children (by simp) (List.forall_mem_singleton.2 hparam)
    have harrow : (Node.arrow [param.node] body.lower).Untagged :=
      .of_children (by simp) (by simp [Node.children, hparams, ihb hbody])
    rw [Node.lower, Node.linkCall]
    exact .of_children (by simp) (by simp [Node.children, hmember, harrow])

end

/-! ## Printed chains -/

section

variable {style : ChainStyle} {g : Node}

theorem Binds.guarded_printed {param : Param} {printed : String} (h : Binds param)
    (hp : ∀ p, param = .pattern p → p.Guarded) (hprinted : printedParam param = .ok printed) :
    Lexeme.Guarded printed.toList := by
  cases h with
  | name h =>
    cases hprinted
    obtain ⟨c, t, hw, hc, ht⟩ := word_eq_some h.word
    refine guarded_of_not_mem fun hmem => ?_
    rcases List.mem_cons.1 (hw ▸ hmem) with rfl | hmem
    · cases hc
    · cases ht _ hmem
  | @pattern p h =>
    rw [settle_ok hprinted]
    exact (guarded_slot.2 (guarded_pieces p (hp p rfl))).chars

/-- A chain of guarded operands is printed as guarded pieces. -/
theorem Generated.guarded_pieces (h : Generated g) (hg : ∀ y ∈ g.operands, y.Guarded) :
    Layout.Guarded (pieces (some style) g) := by
  induction h with
  | @operand x hx =>
    rw [Node.operands_of_operand hx.isChain_eq_false, List.forall_mem_singleton] at hg
    rw [hx.pieces_eq]
    exact Layout.guarded_pieces x hg
  | @link op source body param hs hp hb ihs ihb =>
    obtain ⟨hsource, hpattern, hbody⟩ := forall_operands_chain.1 hg
    rw [pieces_chain]
    refine guarded_link (guarded_source.2 (ihs hsource)) ?_
    exact guarded_callback (fun printed hprinted => hp.guarded_printed hpattern hprinted)
      (guarded_arrowBody.2 (ihb hbody))

/-- A chain ends with the parenthesis that closes its last call. -/
theorem exists_text_of_isChain (h : g.isChain = true) :
    ∃ w, text (some style) g = w ++ [')'] := by
  cases g with
  | chain op source param body =>
    rw [text, pieces_chain]
    exact exists_chars_link _ _ _ _
  | _ => cases h

end

end Chain

end Comprehend
