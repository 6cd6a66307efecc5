import Comprehend.Proofs.Clause.Passes
import Comprehend.Proofs.Syntax.Printed

/-! # What an expression passes over

An outcome of a reader is put together from tokens, which are passed over, and from outcomes of
other readers, so every reader passes over what it takes. A tree keeps no sign, keyword or bracket of
its text; of the tokens that it keeps only words and regular expressions can matter to a
comprehension, and they are what is asked of the tree. -/

namespace Comprehend

open Comprehend.Text Comprehend.Lexeme Comprehend.Parser ClauseToken

/-- The tokens of a tree that matter to a comprehension do no harm there: its regular expressions
and, where it has to be calm, its words. -/
structure Node.Embeds (calm : Prop) (x : Node) : Prop where
  regexes : ∀ t, Within (.leaf .regex t) x → Harmless calm t.text.toList
  words : calm → ∀ t, Within (.token t) x → t.text ≠ "for"

namespace Node.Embeds

variable {calm : Prop} {x y : Node}

theorem child (h : x.Embeds calm) (hy : y ∈ x.children) : y.Embeds calm where
  regexes t ht := h.regexes t (.child ht hy)
  words hcalm t ht := h.words hcalm t (.child ht hy)

/-- A tree does no harm if its children do none and it is itself no token that does. -/
theorem of_children (hregex : ∀ t, x = .leaf .regex t → Harmless calm t.text.toList)
    (hword : calm → ∀ t, x = .token t → t.text ≠ "for") (h : ∀ y ∈ x.children, y.Embeds calm) :
    x.Embeds calm where
  regexes t ht := by
    cases ht with
    | self => exact hregex t rfl
    | child ht hy => exact (h _ hy).regexes t ht
  words hcalm t ht := by
    cases ht with
    | self => exact hword hcalm t rfl
    | child ht hy => exact (h _ hy).words hcalm t ht

theorem token {t : Token} (h : calm → t.text ≠ "for") : (Node.token t).Embeds calm :=
  .of_children nofun (fun hcalm _ ht => Node.token.inj ht ▸ h hcalm) nofun

/-- A token on its own, if it is no regular expression. -/
theorem leaf {kind : LeafKind} {t : Token} (hkind : kind ≠ .regex) (h : calm → t.text ≠ "for") :
    (Node.leaf kind t).Embeds calm :=
  .of_children (fun _ ht => absurd (Node.leaf.inj ht).1 hkind) nofun
    (List.forall_mem_singleton.2 (.token h))

theorem word (h : x.Embeds calm) {cls : TokenClass} {w : List Char}
    (hw : .token (Lexeme.token cls w) ∈ x.children) : calm → w ≠ "for".toList := by
  rintro hcalm rfl
  exact h.words hcalm _ (.child (.self _) hw) rfl

theorem regex {t : List Char} (h : (Node.leaf .regex (Lexeme.token .regex t)).Embeds calm) :
    Harmless calm t := by
  have hharmless := h.regexes _ (.self _)
  rwa [Lexeme.token, String.toList_ofList] at hharmless

end Node.Embeds

namespace Parser

/-- All of these trees do no harm. -/
abbrev AllEmbed (calm : Prop) (xs : List Node) : Prop := ∀ x ∈ xs, x.Embeds calm

/-- A reader of trees passes over what it takes for one that does no harm. -/
abbrev NodePasses (calm : Prop) (item : List Char → Outcomes Node) : Prop :=
  ItemPasses calm (Node.Embeds calm) item

/-- A tree that does no harm was grown from such a tree, by what stands between two rests of a
text. -/
def Grows (calm : Prop) (x : Node) (cs : List Char) (y : Node) (r : List Char) : Prop :=
  y.Embeds calm → x.Embeds calm ∧ Passes calm cs r

section

variable {calm : Prop} {cs r r' t u w : List Char} {x y z : Node}

theorem Grows.refl (x : Node) (cs : List Char) : Grows calm x cs x cs := fun hx => ⟨hx, .refl cs⟩

theorem Grows.trans (h : Grows calm x cs y r) (h' : Grows calm y r z r') : Grows calm x cs z r' :=
  fun hz =>
    have ⟨hy, hafter⟩ := h' hz
    have ⟨hx, hbefore⟩ := h hy
    ⟨hx, hbefore.trans hafter⟩

theorem mem_leafOutcomes {kind : LeafKind} {cls : TokenClass} {s : Scan}
    (h : (x, r) ∈ leafOutcomes kind cls s) : ∃ t, s = some (t, r) ∧ x = .leaf kind (token cls t) := by
  unfold leafOutcomes at h
  split at h
  · next t u =>
    cases List.mem_singleton.1 h
    exact ⟨t, rfl, rfl⟩
  · cases h

theorem passes_plainName (h : plainName cs = some (w, r)) (hw : calm → w ≠ "for".toList) :
    Passes calm cs r := passes_word (plainName_eq_some h).1 hw

/-- A constant is no loop keyword and does not start like one. -/
theorem passes_constant {c : String × Constant} (hc : c ∈ constants)
    (hw : word (skipBlanks cs) = some (c.1.toList ++ w, r)) : Passes calm cs (w ++ r) := by
  have hplain : ∀ c ∈ constants, c.1.toList.all isPlain = true ∧ 3 < c.1.toList.length := by decide
  obtain ⟨hc, hlength⟩ := hplain c hc
  have hskip : Passes calm cs (skipBlanks cs) := by
    refine passes_skipBlanks fun _ ⟨v, hv, _⟩ => ?_
    rw [hw] at hv
    simp only [Option.some.injEq, Prod.mk.injEq] at hv
    have hshort := congrArg List.length hv.1
    have hfor : "for".toList.length = 3 := rfl
    rw [List.length_append, hfor] at hshort
    omega
  refine hskip.trans ?_
  rw [← append_of_word hw, List.append_assoc]
  exact passes_plain (List.all_eq_true.1 hc) _

theorem passes_wordOutcomes (hw : word (skipBlanks cs) = some (w, u))
    (h : (x, r) ∈ wordOutcomes w u) (hx : x.Embeds calm) : Passes calm cs r := by
  unfold wordOutcomes at h
  split at h
  · next c hc =>
    cases List.mem_singleton.1 h
    have hspelled := List.find?_some hc
    refine passes_constant (w := []) (List.mem_of_find?_eq_some hc) ?_
    rw [List.append_nil, beq_iff_eq.1 hspelled]
    exact hw
  · split at h
    · cases h
    · rcases List.mem_cons.1 h with h | h
      · cases h
        exact passes_word hw (hx.word (.head _))
      · obtain ⟨c, hc, h⟩ := List.mem_filterMap.1 h
        obtain ⟨w', hw', h⟩ := Option.bind_eq_some_iff.1 h
        split at h
        · cases h
          exact passes_constant hc (append_of_after hw' ▸ hw)
        · cases h

end

/-! ## The readers -/

/-- What the readers pass over from some fuel. -/
structure ReadersPass (calm : Prop) (fuel : Nat) : Prop where
  expression : NodePasses calm (expression fuel)
  arrowHead : ItemPasses calm (AllEmbed calm) (arrowHead fuel)
  ternary : NodePasses calm (ternary fuel)
  joined : ∀ level, NodePasses calm (joined fuel level)
  joinedTail : ∀ {level x cs y r}, (y, r) ∈ joinedTail fuel level x cs → Grows calm x cs y r
  power : NodePasses calm (power fuel)
  unary : NodePasses calm (unary fuel)
  update : NodePasses calm (update fuel)
  operand : NodePasses calm (operand fuel)
  construction : ItemPasses calm (fun x => x.1.Embeds calm) (construction fuel)
  memberLinks : ∀ {x cs y r}, (y, r) ∈ memberLinks fuel x cs → Grows calm x cs y r
  links : ∀ {x cs y r}, (y, r) ∈ links fuel x cs → Grows calm x cs y r
  optionalLink : ∀ {x cs y r}, (y, r) ∈ optionalLink fuel x cs → Grows calm x cs y r
  element : NodePasses calm (element fuel)
  objectMember : NodePasses calm (objectMember fuel)
  primary : NodePasses calm (primary fuel)
  functionRest : NodePasses calm (functionRest fuel)
  patternElement : NodePasses calm (patternElement fuel)
  defaulted : ∀ {x cs y r}, (y, r) ∈ defaulted fuel x cs → Grows calm x cs y r
  bindingTarget : NodePasses calm (bindingTarget fuel)
  objectPatternItem : NodePasses calm (objectPatternItem fuel)

namespace ReadersPass

variable {calm : Prop} {fuel : Nat} {cs r r' w t : List Char} {x y key : Node} {args : List Node}

/-! ### Operators -/

theorem expression_succ (ih : ReadersPass calm fuel) :
    NodePasses calm (Parser.expression (fuel + 1)) := by
  intro cs r x h hx
  rw [Parser.expression] at h
  split at h
  · exact ih.ternary h hx
  · obtain ⟨ps, u, hps, h⟩ := mem_andThen.1 h
    obtain ⟨body, hbody, rfl⟩ := mem_giving.1 h
    have hparams : (Node.params ps).Embeds calm := hx.child (.head _)
    have hhead : Passes calm cs u := ih.arrowHead hps fun p hp => hparams.child hp
    exact hhead.trans (ih.expression hbody (hx.child (.tail _ (.head _))))

theorem arrowHead_succ (ih : ReadersPass calm fuel) :
    ItemPasses calm (AllEmbed calm) (Parser.arrowHead (fuel + 1)) := by
  intro cs r ps h hps
  rw [Parser.arrowHead] at h
  split at h
  · next u hopen =>
    obtain ⟨v, hitems, harrow⟩ := mem_closedBy.1 h
    have hlist : Passes calm cs v := ItemPasses.itemsTo ih.patternElement round_mem hopen hitems hps
    exact hlist.trans (passes_sign (by decide) harrow)
  · split at h
    · next w u hw =>
      obtain ⟨v, hone, harrow⟩ := mem_closedBy.1 h
      cases List.mem_singleton.1 hone
      have hname : calm → w ≠ "for".toList := (hps _ List.mem_cons_self).word (.head _)
      exact (passes_plainName hw hname).trans (passes_sign (by decide) harrow)
    · cases h

theorem ternary_succ (ih : ReadersPass calm fuel) : NodePasses calm (Parser.ternary (fuel + 1)) := by
  intro cs r x h hx
  rw [Parser.ternary] at h
  obtain ⟨test, u, htest, h⟩ := mem_andThen.1 h
  split at h
  · cases List.mem_singleton.1 h
    exact ih.joined 0 htest hx
  · next v hquestion =>
    obtain ⟨yes, p, hyes, h⟩ := mem_andThen.1 h
    obtain ⟨q, hyes, hcolon⟩ := mem_closedBy.1 hyes
    obtain ⟨no, hno, rfl⟩ := mem_giving.1 h
    have hbefore : Passes calm cs u := ih.joined 0 htest (hx.child (.head _))
    have hthen : Passes calm v q := ih.expression hyes (hx.child (.tail _ (.head _)))
    have helse : Passes calm p r := ih.expression hno (hx.child (.tail _ (.tail _ (.head _))))
    have hmiddle : Passes calm u p :=
      ((passes_sign (by decide) hquestion).trans hthen).trans (passes_sign (by decide) hcolon)
    exact (hbefore.trans hmiddle).trans helse

theorem joined_succ (ih : ReadersPass calm fuel) (level : Nat) :
    NodePasses calm (Parser.joined (fuel + 1) level) := by
  intro cs r x h hx
  rw [Parser.joined] at h
  split at h
  · obtain ⟨lhs, u, hlhs, h⟩ := mem_andThen.1 h
    obtain ⟨hl, htail⟩ := ih.joinedTail h hx
    exact (ih.joined _ hlhs hl).trans htail
  · exact ih.power h hx

theorem joinedTail_succ (ih : ReadersPass calm fuel) {level : Nat}
    (h : (y, r) ∈ Parser.joinedTail (fuel + 1) level x cs) : Grows calm x cs y r := by
  rw [Parser.joinedTail] at h
  split at h
  · cases List.mem_singleton.1 h
    exact .refl x cs
  · next joint u hjoint =>
    obtain ⟨rhs, v, hrhs, h⟩ := mem_andThen.1 h
    refine Grows.trans (fun hbuilt => ?_) (ih.joinedTail h)
    have hoperands : x.Embeds calm ∧ rhs.Embeds calm := by
      cases joint with
      | logical op => exact ⟨hbuilt.child (.head _), hbuilt.child (.tail _ (.head _))⟩
      | binary group op =>
        exact ⟨hbuilt.child (.head _), hbuilt.child (.tail _ (.tail _ (.head _)))⟩
    exact ⟨hoperands.1, (passes_jointAt hjoint).trans (ih.joined _ hrhs hoperands.2)⟩

theorem power_succ (ih : ReadersPass calm fuel) : NodePasses calm (Parser.power (fuel + 1)) := by
  intro cs r x h hx
  rw [Parser.power] at h
  split at h
  · exact ih.unary h hx
  · obtain ⟨base, u, hbase, h⟩ := mem_andThen.1 h
    split at h
    · cases List.mem_singleton.1 h
      exact ih.update hbase hx
    · next v hstars =>
      obtain ⟨exponent, hexponent, rfl⟩ := mem_giving.1 h
      have hbefore : Passes calm cs u := ih.update hbase (hx.child (.head _))
      have hafter : Passes calm v r := ih.power hexponent (hx.child (.tail _ (.head _)))
      exact (hbefore.trans (passes_sign (by decide) hstars)).trans hafter

theorem unary_succ (ih : ReadersPass calm fuel) : NodePasses calm (Parser.unary (fuel + 1)) := by
  intro cs r x h hx
  rw [Parser.unary] at h
  split at h
  · next op u hop =>
    obtain ⟨operand, hoperand, rfl⟩ := mem_giving.1 h
    exact (passes_unaryAt hop).trans (ih.unary hoperand (hx.child (.tail _ (.head _))))
  · exact ih.update h hx

theorem update_succ (ih : ReadersPass calm fuel) : NodePasses calm (Parser.update (fuel + 1)) := by
  intro cs r x h hx
  rw [Parser.update] at h
  split at h
  · next op u hop =>
    obtain ⟨operand, hoperand, rfl⟩ := mem_giving.1 h
    exact (passes_updateAt hop).trans (ih.unary hoperand (hx.child (.tail _ (.head _))))
  · obtain ⟨operand, u, hoperand, h⟩ := mem_andThen.1 h
    split at h
    · next op v hop =>
      simp only [List.mem_cons, Prod.mk.injEq, List.not_mem_nil, or_false] at h
      rcases h with ⟨rfl, rfl⟩ | ⟨rfl, rfl⟩
      · exact (ih.operand hoperand (hx.child (.head _))).trans (passes_updateAt hop)
      · exact ih.operand hoperand hx
    · cases List.mem_singleton.1 h
      exact ih.operand hoperand hx

/-! ### Operands and links -/

theorem operand_succ (ih : ReadersPass calm fuel) : NodePasses calm (Parser.operand (fuel + 1)) := by
  intro cs r x h hx
  rw [Parser.operand] at h
  split at h
  · next u hnew =>
    obtain ⟨made, v, hmade, h⟩ := mem_andThen.1 h
    have hkeyword : Passes calm cs u := passes_keyword (by decide) hnew
    split at h
    · obtain ⟨hstart, hlinks⟩ := ih.links h hx
      exact (hkeyword.trans (ih.construction hmade hstart)).trans hlinks
    · cases List.mem_singleton.1 h
      exact hkeyword.trans (ih.construction hmade hx)
  · obtain ⟨start, u, hstart, h⟩ := mem_andThen.1 h
    obtain ⟨hx, hlinks⟩ := ih.links h hx
    exact (ih.primary hstart hx).trans hlinks

theorem grows_dot (optional : Bool)
    (h : ((mark "." cs).bind fun r => word (skipBlanks r)) = some (w, r)) :
    Grows calm x cs (.member optional x (token .propertyName w)) r := by
  intro hlink
  obtain ⟨u, hdot, hw⟩ := Option.bind_eq_some_iff.1 h
  have hname : calm → w ≠ "for".toList := hlink.word (.tail _ (.head _))
  exact ⟨hlink.child (.head _), (passes_sign (by decide) hdot).trans (passes_word hw hname)⟩

theorem grows_index (ih : ReadersPass calm fuel) (optional : Bool) (hopen : mark "[" cs = some r)
    (h : (key, r') ∈ (Parser.expression fuel r).closedBy "]") :
    Grows calm x cs (.index optional x key) r' := by
  intro hlink
  obtain ⟨u, hkey, hclose⟩ := mem_closedBy.1 h
  have hinside : Passes calm r u := ih.expression hkey (hlink.child (.tail _ (.head _)))
  exact ⟨hlink.child (.head _), hinside.enclosed square_mem hopen hclose⟩

theorem grows_call (ih : ReadersPass calm fuel) (optional : Bool) (hopen : mark "(" cs = some r)
    (h : (args, r') ∈ itemsTo ")" (Parser.element fuel) r) :
    Grows calm x cs (.call optional x args) r' := by
  intro hlink
  have hargs : Passes calm cs r' :=
    ItemPasses.itemsTo ih.element round_mem hopen h fun a ha => hlink.child (.tail _ ha)
  exact ⟨hlink.child (.head _), hargs⟩

theorem grows_tagged (h : template (skipBlanks cs) = some (t, r)) :
    Grows calm x cs (.tagged x (token .template t)) r :=
  fun hlink => ⟨hlink.child (.head _), passes_quoted (.inl h)⟩

theorem construction_succ (ih : ReadersPass calm fuel) :
    ItemPasses calm (fun x => x.1.Embeds calm) (Parser.construction (fuel + 1)) := by
  intro cs r x h hx
  rw [Parser.construction_succ] at h
  obtain ⟨made, u, hmade, h⟩ := mem_andThen.1 h
  have hhead (hmade' : made.1.Embeds calm) : Passes calm cs u := by
    rw [heads] at hmade
    split at hmade
    · next v hnew => exact (passes_keyword (by decide) hnew).trans (ih.construction hmade hmade')
    · obtain ⟨start, hstart, rfl⟩ := mem_giving.1 hmade
      exact ih.primary hstart hmade'
  split at h
  · obtain ⟨callee, v, hcallee, h⟩ := mem_andThen.1 h
    split at h
    · next p hopen =>
      obtain ⟨args, hargs, rfl⟩ := mem_giving.1 h
      have hlist : Passes calm v r :=
        ItemPasses.itemsTo ih.element round_mem hopen hargs fun a ha => hx.child (.tail _ ha)
      obtain ⟨hstart, hlinks⟩ := ih.memberLinks hcallee (hx.child (.head _))
      exact ((hhead hstart).trans hlinks).trans hlist
    · cases List.mem_singleton.1 h
      obtain ⟨hstart, hlinks⟩ := ih.memberLinks hcallee (hx.child (.head _))
      exact (hhead hstart).trans hlinks
  · cases List.mem_singleton.1 h
    exact hhead (hx.child (.head _))

theorem memberLinks_succ (ih : ReadersPass calm fuel)
    (h : (y, r) ∈ Parser.memberLinks (fuel + 1) x cs) : Grows calm x cs y r := by
  rw [Parser.memberLinks] at h
  split at h
  · next w u hw => exact (grows_dot false hw).trans (ih.memberLinks h)
  · split at h
    · next u hopen =>
      obtain ⟨key, v, hkey, h⟩ := mem_andThen.1 h
      exact (grows_index ih false hopen hkey).trans (ih.memberLinks h)
    · split at h
      · next t u ht => exact (grows_tagged ht).trans (ih.memberLinks h)
      · cases List.mem_singleton.1 h
        exact .refl x cs

theorem links_succ (ih : ReadersPass calm fuel) (h : (y, r) ∈ Parser.links (fuel + 1) x cs) :
    Grows calm x cs y r := by
  rw [Parser.links] at h
  split at h
  · next w u hw => exact (grows_dot false hw).trans (ih.links h)
  · split at h
    · next u hopen =>
      obtain ⟨key, v, hkey, h⟩ := mem_andThen.1 h
      exact (grows_index ih false hopen hkey).trans (ih.links h)
    · split at h
      · next u hopen =>
        obtain ⟨args, v, hargs, h⟩ := mem_andThen.1 h
        exact (grows_call ih false hopen hargs).trans (ih.links h)
      · split at h
        · next t u ht => exact (grows_tagged ht).trans (ih.links h)
        · split at h
          · next u hmark =>
            have hlink : Grows calm x u y r := ih.optionalLink h
            exact fun hy => ⟨(hlink hy).1, (passes_optionalAt hmark).trans (hlink hy).2⟩
          · cases List.mem_singleton.1 h
            exact .refl x cs

theorem optionalLink_succ (ih : ReadersPass calm fuel)
    (h : (y, r) ∈ Parser.optionalLink (fuel + 1) x cs) : Grows calm x cs y r := by
  rw [Parser.optionalLink] at h
  split at h
  · next u hopen =>
    obtain ⟨key, v, hkey, h⟩ := mem_andThen.1 h
    exact (grows_index ih true hopen hkey).trans (ih.links h)
  · split at h
    · next u hopen =>
      obtain ⟨args, v, hargs, h⟩ := mem_andThen.1 h
      exact (grows_call ih true hopen hargs).trans (ih.links h)
    · split at h
      · next w u hw =>
        refine Grows.trans (fun hlink => ?_) (ih.links h)
        exact ⟨hlink.child (.head _), passes_word hw (hlink.word (.tail _ (.head _)))⟩
      · cases h

/-! ### Primary expressions -/

theorem element_succ (ih : ReadersPass calm fuel) : NodePasses calm (Parser.element (fuel + 1)) := by
  intro cs r x h hx
  rw [Parser.element] at h
  split at h
  · next u hdots =>
    obtain ⟨value, hvalue, rfl⟩ := mem_giving.1 h
    exact (passes_sign (by decide) hdots).trans (ih.expression hvalue (hx.child (.head _)))
  · exact ih.expression h hx

theorem objectMember_succ (ih : ReadersPass calm fuel) :
    NodePasses calm (Parser.objectMember (fuel + 1)) := by
  intro cs r x h hx
  rw [Parser.objectMember] at h
  split at h
  · next u hdots =>
    obtain ⟨value, hvalue, rfl⟩ := mem_giving.1 h
    exact (passes_sign (by decide) hdots).trans (ih.expression hvalue (hx.child (.head _)))
  · split at h
    · next t u ht =>
      split at h
      · next v hcolon =>
        obtain ⟨value, hvalue, rfl⟩ := mem_giving.1 h
        have hkey : Passes calm cs v := (passes_quoted (.inr ht)).trans (passes_sign (by decide) hcolon)
        exact hkey.trans (ih.expression hvalue (hx.child (.tail _ (.head _))))
      · cases h
    · split at h
      · next w u hw =>
        split at h
        · next v hcolon =>
          obtain ⟨value, hvalue, rfl⟩ := mem_giving.1 h
          have hkey : Passes calm cs v :=
            (passes_word hw (hx.word (.head _))).trans (passes_sign (by decide) hcolon)
          exact hkey.trans (ih.expression hvalue (hx.child (.tail _ (.head _))))
        · split at h
          · cases h
          · cases List.mem_singleton.1 h
            exact passes_word hw (hx.word (.head _))
      · cases h

theorem primary_succ (ih : ReadersPass calm fuel) : NodePasses calm (Parser.primary (fuel + 1)) := by
  intro cs r x h hx
  have hmark {s : String} {c : Char} {u : List Char} (hs : s.toList = [c])
      (hskip : skipBlanks cs = c :: u) : mark s cs = some u := by
    simp [mark, Lexeme.after, hs, hskip, List.isPrefixOf?]
  rw [Parser.primary] at h
  split at h
  · cases h
  · next u hskip =>
    obtain ⟨v, hinside, hclose⟩ := mem_closedBy.1 h
    have hread : Passes calm u v := ih.expression hinside hx
    exact hread.enclosed round_mem (hmark rfl hskip) hclose
  · next u hskip =>
    obtain ⟨xs, hxs, rfl⟩ := mem_giving.1 h
    exact ItemPasses.itemsToSpare ih.element square_mem (hmark rfl hskip) hxs fun x hx' =>
      hx.child hx'
  · next u hskip =>
    obtain ⟨xs, hxs, rfl⟩ := mem_giving.1 h
    exact ItemPasses.itemsToSpare ih.objectMember curly_mem (hmark rfl hskip) hxs fun x hx' =>
      hx.child hx'
  · next u hskip =>
    obtain ⟨t, ht, rfl⟩ := mem_leafOutcomes h
    exact passes_regex (hskip ▸ ht) hx.regex
  · next u hskip =>
    obtain ⟨t, ht, rfl⟩ := mem_leafOutcomes h
    exact passes_quoted (.inl (hskip ▸ ht))
  · next u hskip =>
    obtain ⟨t, ht, rfl⟩ := mem_leafOutcomes h
    exact passes_quoted (.inr (hskip ▸ ht))
  · next u hskip =>
    obtain ⟨t, ht, rfl⟩ := mem_leafOutcomes h
    exact passes_quoted (.inr (hskip ▸ ht))
  · split at h
    · next w u hw =>
      split at h
      · next hfunction =>
        have hword : Passes calm cs u := by
          refine passes_word hw fun _ => ?_
          rw [beq_iff_eq.1 hfunction]
          decide
        exact hword.trans (ih.functionRest h hx)
      · exact passes_wordOutcomes hw h hx
    · obtain ⟨t, ht, rfl⟩ := mem_leafOutcomes h
      exact passes_number ht

theorem functionRest_succ (ih : ReadersPass calm fuel) :
    NodePasses calm (Parser.functionRest (fuel + 1)) := by
  intro cs r x h hx
  rw [Parser.functionRest] at h
  split at h
  · cases h
  · next u hopen =>
    obtain ⟨ps, v, hps, h⟩ := mem_andThen.1 h
    split at h
    · cases h
    · next p hreturn =>
      obtain ⟨q, hbrace, hreturn⟩ := Option.bind_eq_some_iff.1 hreturn
      obtain ⟨body, z, hbody, h⟩ := mem_andThen.1 h
      split at h
      · next s hclose =>
        cases List.mem_singleton.1 h
        have hparams : (Node.params ps).Embeds calm := hx.child (.head _)
        have hlist : Passes calm cs v :=
          ItemPasses.itemsTo ih.patternElement round_mem hopen hps fun x hx' => hparams.child hx'
        have hresult : Passes calm q z := (passes_sign (by decide) hreturn).trans
          (ih.expression hbody (hx.child (.tail _ (.head _))))
        have hbody : Passes calm v r :=
          (hresult.trans (passes_spare (by decide))).enclosed curly_mem hbrace hclose
        exact hlist.trans hbody
      · cases h

/-! ### Patterns -/

theorem patternElement_succ (ih : ReadersPass calm fuel) :
    NodePasses calm (Parser.patternElement (fuel + 1)) := by
  intro cs r x h hx
  rw [Parser.patternElement] at h
  split at h
  · next u hdots =>
    obtain ⟨target, htarget, rfl⟩ := mem_giving.1 h
    exact (passes_sign (by decide) hdots).trans (ih.bindingTarget htarget (hx.child (.head _)))
  · obtain ⟨target, u, htarget, h⟩ := mem_andThen.1 h
    obtain ⟨ht, hdefault⟩ := ih.defaulted h hx
    exact (ih.bindingTarget htarget ht).trans hdefault

theorem defaulted_succ (ih : ReadersPass calm fuel)
    (h : (y, r) ∈ Parser.defaulted (fuel + 1) x cs) : Grows calm x cs y r := by
  rw [Parser.defaulted] at h
  split at h
  · next u hequal =>
    obtain ⟨value, hvalue, rfl⟩ := mem_giving.1 h
    intro hy
    have hafter : Passes calm u r := ih.ternary hvalue (hy.child (.tail _ (.head _)))
    exact ⟨hy.child (.head _), (passes_sign (by decide) hequal).trans hafter⟩
  · cases List.mem_singleton.1 h
    exact .refl x cs

theorem bindingTarget_succ (ih : ReadersPass calm fuel) :
    NodePasses calm (Parser.bindingTarget (fuel + 1)) := by
  intro cs r x h hx
  rw [Parser.bindingTarget] at h
  split at h
  · next u hopen =>
    obtain ⟨ps, hps, rfl⟩ := mem_giving.1 h
    exact ItemPasses.itemsTo ih.patternElement square_mem hopen hps fun p hp => hx.child hp
  · split at h
    · next u hopen =>
      obtain ⟨ps, hps, rfl⟩ := mem_giving.1 h
      exact ItemPasses.itemsTo ih.objectPatternItem curly_mem hopen hps fun p hp => hx.child hp
    · split at h
      · next w u hw =>
        cases List.mem_singleton.1 h
        exact passes_plainName hw (hx.word (.head _))
      · cases h

theorem objectPatternItem_succ (ih : ReadersPass calm fuel) :
    NodePasses calm (Parser.objectPatternItem (fuel + 1)) := by
  intro cs r x h hx
  rw [Parser.objectPatternItem] at h
  split at h
  · next u hdots =>
    split at h
    · next w v hw =>
      cases List.mem_singleton.1 h
      have hname : calm → w ≠ "for".toList := (hx.child (.head _)).word (.head _)
      exact (passes_sign (by decide) hdots).trans (passes_plainName hw hname)
    · cases h
  · split at h
    · cases h
    · next w u hw =>
      split at h
      · next v hcolon =>
        obtain ⟨target, htarget, rfl⟩ := mem_giving.1 h
        have hkey : Passes calm cs v :=
          (passes_word hw (hx.word (.head _))).trans (passes_sign (by decide) hcolon)
        exact hkey.trans (ih.patternElement htarget (hx.child (.tail _ (.head _))))
      · split at h
        · cases h
        · obtain ⟨hname, hdefault⟩ := ih.defaulted h hx
          exact (passes_word hw (hname.word (.head _))).trans hdefault

end ReadersPass

theorem readersPass (calm : Prop) (fuel : Nat) : ReadersPass calm fuel := by
  induction fuel with
  | zero =>
    constructor <;> intros <;> first | contradiction | apply ItemPasses.of_eq_nil
    all_goals exact fun _ => rfl
  | succ fuel ih =>
    exact
      { expression := ih.expression_succ
        arrowHead := ih.arrowHead_succ
        ternary := ih.ternary_succ
        joined := ih.joined_succ
        joinedTail := ih.joinedTail_succ
        power := ih.power_succ
        unary := ih.unary_succ
        update := ih.update_succ
        operand := ih.operand_succ
        construction := ih.construction_succ
        memberLinks := ih.memberLinks_succ
        links := ih.links_succ
        optionalLink := ih.optionalLink_succ
        element := ih.element_succ
        objectMember := ih.objectMember_succ
        primary := ih.primary_succ
        functionRest := ih.functionRest_succ
        patternElement := ih.patternElement_succ
        defaulted := ih.defaulted_succ
        bindingTarget := ih.bindingTarget_succ
        objectPatternItem := ih.objectPatternItem_succ }

/-- A text that is an expression is passed over to its end. -/
theorem passes_of_parseExpression {calm : Prop} {text : String} {x : Node}
    (h : parseExpression text = .ok x) (hx : x.Embeds calm) : Passes calm text.toList [] := by
  unfold parseExpression at h
  split at h
  · cases h
  · split at h
    · next y hy =>
      cases h
      obtain ⟨⟨y, r⟩, ho, rfl⟩ := Option.map_eq_some_iff.1 hy
      have hread : Passes calm text.toList r :=
        (readersPass calm _).expression (List.mem_of_find?_eq_some ho) hx
      have hend : skipBlanks r = [] := by
        have hempty := List.find?_some ho
        exact List.isEmpty_iff.1 hempty
      have hblanks : Passes calm r (skipBlanks r) := passes_skipBlanks fun _ ⟨v, hv, _⟩ => by
        rw [hend] at hv
        cases hv
      rw [hend] at hblanks
      exact hread.trans hblanks
    · cases h

end Parser

end Comprehend
