import Comprehend.Proofs.Chain.Lowered
import Comprehend.Proofs.Syntax.Guarded

/-! # Bodies of arrow functions

A brace right behind an arrow opens a block. An object that is the body of an arrow function is
printed in parentheses for that reason, and one in front of a link is in parentheses anyway. But an
object may also stand leftmost in a body that it is not the whole of, in front of an operator. There
it is printed as it stands, and the body starts with its brace. -/

namespace Comprehend

open Comprehend.Text Comprehend.Parser Comprehend.Layout Comprehend.Lexeme

namespace Node

/-- The innermost tree that the text of a tree starts with. What is printed in parentheses is not
entered. -/
def leftmost : Node → Node
  | x@(.ternary test _ _) => if test.precedence < Precedence.conditional then x else leftmost test
  | x@(.logical op lhs _) =>
    if lhs.precedence < (if lhs.mixesWith op then Precedence.primary else op.precedence) then x
    else leftmost lhs
  | x@(.binary group _ lhs _) => if lhs.precedence < group.precedence then x else leftmost lhs
  | x@(.power base _) => if base.precedence < Precedence.postfixUpdate then x else leftmost base
  | x@(.postfixUpdate operand _) =>
    if operand.precedence < Precedence.link then x else leftmost operand
  | x@(.member _ target _) =>
    if target.needsParens || target.precedence < Precedence.link then x else leftmost target
  | x@(.index _ target _) =>
    if target.needsParens || target.precedence < Precedence.link then x else leftmost target
  | x@(.call _ callee _) =>
    if callee.needsParens || callee.precedence < Precedence.link then x else leftmost callee
  | x@(.tagged tag _) =>
    if tag.needsParens || tag.precedence < Precedence.link then x else leftmost tag
  | x => x

/-- What a link follows as it stands does not start with an object. -/
theorem isObject_leftmost_of_receiver {x : Node}
    (h : ¬ (x.needsParens || x.precedence < Precedence.link) = true) :
    x.leftmost.isObject = false := by
  fun_induction leftmost x with
  | case2 | case8 | case10 => exact absurd rfl h
  | case4 op => cases op <;> exact absurd rfl h
  | case6 group => cases group <;> exact absurd rfl h
  | case12 _ _ _ hplace ih | case14 _ _ _ hplace ih => exact ih hplace
  | case16 _ _ _ hplace ih | case18 _ _ hplace ih => exact ih hplace
  | case19 x =>
    cases x with
    | object members => exact absurd rfl h
    | _ => rfl
  | _ => rfl

/-- The body of an arrow function that is printed where a tree or a chain is. -/
inductive ArrowBody : Node → Node → Prop
  | arrow {ps : List Node} {body x : Node} (h : Within (.arrow ps body) x) : ArrowBody body x
  | callback (op : Combinator) (source : Node) (param : Param) (body : Node) :
    ArrowBody body (.chain op source param body)
  | source {op : Combinator} {source x : Node} {param : Param} {body : Node}
    (h : ArrowBody x source) : ArrowBody x (.chain op source param body)
  | pattern {op : Combinator} {source p x body : Node} (h : ArrowBody x p) :
    ArrowBody x (.chain op source (.pattern p) body)
  | body {op : Combinator} {source x : Node} {param : Param} {body : Node}
    (h : ArrowBody x body) : ArrowBody x (.chain op source param body)

end Node

/-! ## How a body starts -/

/-- A text that is a block where an arrow stands right in front of it. -/
def OpensBlock (u : List Char) : Prop := u.head? = some '\x7b'

section

variable {u v : List Char} {x : Node} {ps qs : List Piece}

theorem opensBlock_append {c : Char} (hc : c ≠ '\x7b') :
    OpensBlock (u ++ c :: v) ↔ OpensBlock u := by
  cases u <;> simp [OpensBlock, hc]

theorem not_opensBlock_parens : ¬ OpensBlock (parens u) := by simp [OpensBlock, parens]

theorem opensBlock_slot {p : Nat} :
    OpensBlock (chars (slot p x ps)) ↔ ¬ x.precedence < p ∧ OpensBlock (chars ps) := by
  rw [chars_slot]
  split_ifs with hp <;> simp [hp, not_opensBlock_parens]

theorem opensBlock_receiver : OpensBlock (chars (receiver x ps)) ↔
    ¬ (x.needsParens || x.precedence < Precedence.link) = true ∧ OpensBlock (chars ps) := by
  unfold receiver
  split_ifs with hn
  · simp [hn, not_opensBlock_parens]
  · simp [hn, opensBlock_slot]

theorem opensBlock_arrowBody :
    OpensBlock (chars (arrowBody x ps)) ↔ x.isObject = false ∧ OpensBlock (chars ps) := by
  rw [chars_arrowBody]
  split_ifs with ho <;> simp [ho, not_opensBlock_parens]

/-- Behind other pieces, a text that starts with no brace does not matter. -/
theorem opensBlock_append_text {s : String} {c : Char} (hs : s.toList.head? = some c)
    (hc : c ≠ '\x7b') : OpensBlock (chars (ps ++ .text s :: qs)) ↔ OpensBlock (chars ps) := by
  obtain ⟨t, ht⟩ := List.head?_eq_some_iff.1 hs
  rw [chars_append, chars_text, ht, List.cons_append, opensBlock_append hc]

end

/-- A tree that starts with an operand of its own opens a block where the operand does and stands
without parentheses. -/
theorem opensBlock_operand {x y : Node} {p : Prop} [Decidable p] {ps qs : List Piece} {s : String}
    {c : Char} (hs : s.toList.head? = some c) (hc : c ≠ '\x7b') (hx : x.isObject = false)
    (hplace : OpensBlock (chars ps) ↔ ¬ p ∧ OpensBlock (text none y))
    (hy : OpensBlock (text none y) ↔ y.leftmost.isObject = true) :
    OpensBlock (chars (ps ++ .text s :: qs)) ↔ (if p then x else y.leftmost).isObject = true := by
  rw [opensBlock_append_text hs hc, hplace, hy]
  split_ifs with hp <;> simp [hp, hx]

theorem opensBlock_self {x : Node} {c : Char} (hx : x.leftmost.isObject = false) (hc : c ≠ '\x7b')
    (hhead : (text none x).head? = some c) :
    OpensBlock (text none x) ↔ x.leftmost.isObject = true := by
  rw [OpensBlock, hhead, hx]
  exact iff_of_false (fun h => hc (Option.some.inj h)) Bool.false_ne_true

theorem head?_leaf (kind : LeafKind) (cls : TokenClass) (c : Char) (t : List Char) :
    (text none (.leaf kind (token cls (c :: t)))).head? = some c := by
  simp [text, pieces, token]

theorem not_opensBlock_parameters {ps : List Node} {qs : List Piece}
    (h : ∀ p ∈ ps, Formed .pattern p) : ¬ OpensBlock (chars (parameters ps qs)) := by
  by_cases hname : ∃ name, ps = [.bindingName name]
  · obtain ⟨name, rfl⟩ := hname
    obtain ⟨w, hw, rfl⟩ := (h _ List.mem_cons_self).isName_of_pattern
    obtain ⟨c, t, rfl, hc, -⟩ := word_eq_some hw.word
    have hne : c ≠ '\x7b' := by rintro rfl; cases hc
    simpa [parameters, token, OpensBlock] using hne
  · rw [parameters_of_ne fun name hps => hname ⟨name, hps⟩, chars_parenthesized]
    exact not_opensBlock_parens

/-- A tree that was read is printed with a brace in front where its leftmost node is an object. -/
theorem Parser.Formed.opensBlock_iff {x : Node} (h : Formed .expression x) :
    OpensBlock (text none x) ↔ x.leftmost.isObject = true := by
  -- Nothing is said of the other phrases: an object pattern starts with a brace and is no object.
  generalize hphrase : Phrase.expression = phrase at h
  induction h with
  | name h =>
    obtain ⟨c, t, rfl, hc, -⟩ := word_eq_some h.word
    exact opensBlock_self rfl (by rintro rfl; cases hc) (head?_leaf ..)
  | number h =>
    obtain ⟨c, t, rfl, hc⟩ := number_eq_some h
    exact opensBlock_self rfl (by rintro rfl; rcases hc with hc | hc <;> cases hc) (head?_leaf ..)
  | string h =>
    obtain ⟨c, t, rfl, hc⟩ := string_eq_some h
    exact opensBlock_self rfl (by rintro rfl; rcases hc with hc | hc <;> cases hc) (head?_leaf ..)
  | template h =>
    obtain ⟨t, rfl⟩ := template_eq_some h
    exact opensBlock_self rfl (by decide) (head?_leaf ..)
  | regex h =>
    obtain ⟨t, rfl⟩ := regex_eq_some h
    exact opensBlock_self rfl (by decide) (head?_leaf ..)
  | constant value =>
    cases value <;> exact opensBlock_self rfl (by decide) rfl
  | array h => exact opensBlock_self (c := '[') rfl (by decide) (by simp [text, pieces])
  | object h =>
    simp [text, pieces, chars_braced, braces, OpensBlock, Node.leftmost, Node.isObject]
  | arrow hp hx =>
    rw [text, pieces, opensBlock_append_text (c := ' ') rfl (by decide)]
    exact iff_of_false (not_opensBlock_parameters hp) Bool.false_ne_true
  | function hp hx => exact opensBlock_self (c := 'f') rfl (by decide) (by simp [text, pieces])
  | construct hx h => exact opensBlock_self (c := 'n') rfl (by decide) (by simp [text, pieces])
  | @sign c x hc hx =>
    refine opensBlock_self (c := c) rfl ?_ (by simp [text, pieces, token])
    rintro rfl
    exact absurd hc (by decide)
  | signWord hop hx =>
    simp only [List.mem_cons, List.not_mem_nil, or_false] at hop
    rcases hop with rfl | rfl | rfl
    · exact opensBlock_self (c := 't') rfl (by decide) (by simp [text, pieces])
    · exact opensBlock_self (c := 'v') rfl (by decide) (by simp [text, pieces])
    · exact opensBlock_self (c := 'd') rfl (by decide) (by simp [text, pieces])
  | prefixUpdate hop hx =>
    rcases hop with rfl | rfl
    · exact opensBlock_self (c := '+') rfl (by decide) (by simp [text, pieces])
    · exact opensBlock_self (c := '-') rfl (by decide) (by simp [text, pieces])
  | ternary hx hy hz ihx =>
    rw [text, pieces, List.append_assoc, Node.leftmost]
    exact opensBlock_operand rfl (by decide) rfl opensBlock_slot (ihx rfl)
  | logical op hx hy ihx =>
    rw [text, pieces, Node.leftmost]
    exact opensBlock_operand (c := ' ') (by simp [String.toList_append]) (by decide) rfl
      opensBlock_slot (ihx rfl)
  | binary hop hx hy ihx =>
    rw [text, pieces, Node.leftmost]
    exact opensBlock_operand (c := ' ') (by simp [String.toList_append]) (by decide) rfl
      opensBlock_slot (ihx rfl)
  | power hx hy ihx =>
    rw [text, pieces, Node.leftmost]
    exact opensBlock_operand rfl (by decide) rfl opensBlock_slot (ihx rfl)
  | postfixUpdate hop hx ihx =>
    rw [text, pieces, Node.leftmost]
    rcases hop with rfl | rfl
    · exact opensBlock_operand rfl (by decide) rfl opensBlock_slot (ihx rfl)
    · exact opensBlock_operand rfl (by decide) rfl opensBlock_slot (ihx rfl)
  | link optional hx hw ihx =>
    rw [text, pieces, Node.leftmost]
    cases optional with
    | true =>
      exact opensBlock_operand (c := '?') (by simp) (by decide) rfl opensBlock_receiver (ihx rfl)
    | false =>
      exact opensBlock_operand (c := '.') (by simp) (by decide) rfl opensBlock_receiver (ihx rfl)
  | index optional hx hy ihx =>
    rw [text, pieces, List.append_assoc, Node.leftmost]
    cases optional with
    | true => exact opensBlock_operand rfl (by decide) rfl opensBlock_receiver (ihx rfl)
    | false => exact opensBlock_operand rfl (by decide) rfl opensBlock_receiver (ihx rfl)
  | call optional hx h ihx =>
    rw [text, pieces, List.append_assoc, Node.leftmost]
    cases optional with
    | true => exact opensBlock_operand rfl (by decide) rfl opensBlock_receiver (ihx rfl)
    | false => exact opensBlock_operand rfl (by decide) rfl opensBlock_receiver (ihx rfl)
  | tagged hx ht ihx =>
    obtain ⟨t, rfl⟩ := template_eq_some ht
    rw [text, pieces, Node.leftmost]
    exact opensBlock_operand (c := '\x60') (by simp [token]) (by decide) rfl opensBlock_receiver
      (ihx rfl)
  | _ => cases hphrase

/-! ## What a chain starts with -/

theorem Parser.Formed.not_opensBlock_receiver {x : Node} (h : Formed .expression x) :
    ¬ OpensBlock (chars (receiver x (pieces none x))) := by
  rw [opensBlock_receiver, ← text, h.opensBlock_iff]
  rintro ⟨hplace, hobject⟩
  rw [Node.isObject_leftmost_of_receiver hplace] at hobject
  cases hobject

section

variable {style : ChainStyle} {op : Combinator} {x : Node} {ps qs : List Piece}

/-- A source stands as it is only where it is a chain or in front of a link. -/
theorem not_opensBlock_source (hd : style.dialect.hasReceivers = true)
    (hchain : x.isChain = true → ¬ OpensBlock (chars ps))
    (hoperand : x.isChain = false → ¬ OpensBlock (chars (receiver x ps))) :
    ¬ OpensBlock (chars (source style x ps)) := by
  unfold source
  split_ifs with hc hp ho
  · simpa using hchain hc
  · simp [not_opensBlock_parens]
  · simp [not_opensBlock_parens]
  · exact hoperand (Bool.eq_false_iff.2 hc)

theorem not_opensBlock_link (hd : style.dialect ≠ .es5)
    (h : style.dialect.hasReceivers = true → ¬ OpensBlock (chars ps)) :
    ¬ OpensBlock (chars (link style op ps qs)) := by
  obtain ⟨dialect, parenthesize⟩ := style
  cases dialect with
  | es5 => exact absurd rfl hd
  | lodash => simp [link, OpensBlock]
  | es2019 =>
    rw [link_es2019, methodCall, List.append_assoc]
    exact mt (opensBlock_append_text (c := '.') (by simp) (by decide)).1 (h rfl)

end

namespace Chain

variable {style : ChainStyle} {g x : Node}

/-- Where callbacks are arrow functions, no chain starts with a brace. -/
theorem Generated.opensBlock_iff (hd : style.dialect ≠ .es5) (h : Generated g) :
    OpensBlock (text (some style) g) ↔ g.leftmost.isObject = true := by
  induction h with
  | operand hx => rw [text, hx.pieces_eq, ← text, hx.opensBlock_iff]
  | @link op source body param hs hp hb ihs ihb =>
    refine iff_of_false ?_ Bool.false_ne_true
    rw [text, pieces_chain]
    refine not_opensBlock_link hd fun hr =>
      not_opensBlock_source hr (fun hchain => ?_) (fun hchain => ?_)
    · rw [← text, ihs]
      cases hs with
      | operand hx => rw [hx.isChain_eq_false] at hchain; cases hchain
      | link => exact Bool.false_ne_true
    · cases hs with
      | operand hx => rw [hx.pieces_eq]; exact hx.not_opensBlock_receiver
      | link => cases hchain

end Chain

/-! ## Where a body is printed -/

/-- The text of the body of an arrow function. -/
def bodyText (style : Option ChainStyle) (body : Node) : List Char :=
  chars (arrowBody body (pieces style body))

/-- Some pieces write a text, whatever they write around it. -/
def Prints (ps : List Piece) (u : List Char) : Prop := u <:+: chars ps

section

variable {style : Option ChainStyle} {u v : List Char} {x y : Node} {xs : List Node}
variable {ps qs : List Piece} {s t : String}

theorem prints_pieces (x : Node) : Prints (pieces style x) (text style x) := List.infix_rfl

theorem infix_append_text (h : u <:+: s.toList ∨ u <:+: t.toList) : u <:+: (s ++ t).toList := by
  rw [String.toList_append]
  exact h.elim List.infix_append_of_infix_left List.infix_append_of_infix_right

theorem prints_append (h : Prints ps u ∨ Prints qs u) : Prints (ps ++ qs) u := by
  rw [Prints, chars_append]
  exact h.elim List.infix_append_of_infix_left List.infix_append_of_infix_right

theorem prints_text (h : u <:+: s.toList ∨ Prints ps u) : Prints (.text s :: ps) u := by
  rw [Prints, chars_text]
  exact h.elim List.infix_append_of_infix_left List.infix_append_of_infix_right

theorem prints_parenthesized (h : Prints ps u) : Prints (parenthesized ps) u :=
  prints_text (.inr (prints_append (.inl h)))

theorem prints_slot {p : Nat} (h : Prints ps u) : Prints (slot p x ps) u := by
  unfold slot
  split_ifs
  · exact prints_append (.inl (prints_parenthesized h))
  · exact prints_append (.inl h)

theorem prints_receiver (h : Prints ps u) : Prints (receiver x ps) u := by
  unfold receiver
  split_ifs
  · exact prints_parenthesized (prints_slot h)
  · exact prints_slot h

theorem prints_constructed (h : Prints ps u) : Prints (constructed x ps) u := by
  unfold constructed
  split_ifs
  · exact prints_parenthesized (prints_slot h)
  · exact prints_slot h

theorem prints_arrowBody (h : Prints ps u) : Prints (arrowBody x ps) u := by
  unfold arrowBody
  split_ifs
  · exact prints_parenthesized (prints_slot h)
  · exact prints_slot h

theorem prints_listed (first : Bool) (h : x ∈ xs) :
    Prints (listed style first xs) (text style x) := by
  induction xs generalizing first with
  | nil => cases h
  | cons y ys ih =>
    rw [listed]
    rcases List.mem_cons.1 h with rfl | h
    · exact prints_append (.inl (prints_append (.inr (prints_slot (prints_pieces x)))))
    · exact prints_append (.inr (ih false h))

theorem prints_parameters (h : x ∈ xs) :
    Prints (parameters xs (listed style true xs)) (text style x) := by
  by_cases hname : ∃ name, xs = [.bindingName name]
  · obtain ⟨name, rfl⟩ := hname
    rw [List.mem_singleton.1 h, parameters, text, pieces]
    exact List.infix_rfl
  · rw [parameters_of_ne fun name hps => hname ⟨name, hps⟩]
    exact prints_parenthesized (prints_listed true h)

theorem prints_braced (h : x ∈ xs) : Prints (braced xs (listed style true xs)) (text style x) := by
  rw [braced, if_neg (by simpa using List.ne_nil_of_mem h)]
  exact prints_text (.inr (prints_append (.inl (prints_listed true h))))

attribute [local grind ←] prints_pieces prints_append prints_text prints_slot prints_receiver
  prints_constructed prints_arrowBody prints_listed prints_parameters prints_braced
  infix_append_text List.infix_rfl

/-- A child of a node is printed with it, save where the node is of an unknown kind. -/
theorem prints_child (hx : ∀ label ys, x ≠ .other label ys) (hy : y ∈ x.children) :
    Prints (pieces none x) (text none y) := by
  have htoken (t : Token) : text none (.token t) = t.text.toList := by simp [text, pieces]
  have hparams (ps : List Node) :
      Prints (parameters ps (listed none true ps)) (text none (.params ps)) := by
    rw [text, pieces]
    exact List.infix_rfl
  cases x with
  | other label ys => exact absurd rfl (hx label ys)
  | array xs | arrayPattern xs | object xs | objectPattern xs | params xs =>
    rw [Node.children] at hy
    rw [pieces]
    grind
  | leaf kind t | shorthand t | bindingName t | spread x | patternRest x =>
    rw [List.mem_singleton.1 hy, pieces]
    grind
  | power | logical | index | patternDefault | property | propertyPattern | unary | prefixUpdate
    | postfixUpdate | member | tagged =>
    rw [pieces]
    rcases List.mem_pair.1 hy with rfl | rfl <;> grind
  | binary | ternary =>
    simp only [Node.children, List.mem_cons, List.not_mem_nil, or_false] at hy
    rw [pieces]
    rcases hy with rfl | rfl | rfl <;> grind
  | call optional x xs | construct x xs =>
    rw [pieces]
    rcases List.mem_cons.1 hy with rfl | hy <;> grind
  | arrow ps x =>
    rw [pieces]
    rcases List.mem_pair.1 hy with rfl | rfl <;> grind
  | function ps x =>
    rcases List.mem_pair.1 hy with rfl | rfl
    -- Both brackets of the parameters are parts of longer pieces, so the text has to be cut anew.
    · by_cases hname : ∃ name, ps = [.bindingName name]
      · obtain ⟨name, rfl⟩ := hname
        refine ⟨"function (".toList, ") \x7b return ".toList ++ chars (slot Precedence.assignment x
          (pieces none x)) ++ "; \x7d".toList, ?_⟩
        simp [text, pieces, parameters, commas]
      · refine ⟨"function ".toList, " \x7b return ".toList ++ chars (slot Precedence.assignment x
          (pieces none x)) ++ "; \x7d".toList, ?_⟩
        have hlist := parameters_of_ne (fun name hps => hname ⟨name, hps⟩) (listed none true ps)
        simp [text, pieces, hlist, parens]
    · rw [pieces]
      grind
  | _ => cases hy

theorem prints_arrow (params : List Node) (body : Node) :
    Prints (pieces none (.arrow params body)) ("=> ".toList ++ bodyText none body) := by
  rw [pieces]
  exact ⟨chars (parameters params (listed none true params)) ++ [' '], [], by simp [bodyText]⟩

namespace Parser

theorem Formed.ne_other {phrase : Phrase} (h : Formed phrase x) :
    ∀ label ys, x ≠ .other label ys := by
  induction h with
  | element _ ih | pattern _ ih => exact ih
  | _ => nofun

theorem Part.ne_other (h : Part x) : ∀ label ys, x ≠ .other label ys := by
  cases h with
  | formed h => exact h.ne_other
  | params | token => nofun

/-- A part of a tree is printed where the tree is. -/
theorem Part.prints_within (h : Part x) (hw : y.Within x) :
    Prints (pieces none x) (text none y) := by
  induction hw with
  | self => exact prints_pieces _
  | child _ hz ih => exact (ih (h.child hz)).trans (prints_child h.ne_other hz)

/-- The body of an arrow function is an expression. -/
theorem Formed.body_of_arrow {phrase : Phrase} {params : List Node} {body : Node}
    (h : Formed phrase (.arrow params body)) : Formed .expression body := by
  cases h with
  | arrow _ hbody => exact hbody
  | element h =>
    cases h with
    | arrow _ hbody => exact hbody
  | pattern h => cases h

theorem Formed.isChain_of_phrase {phrase : Phrase} (h : Formed phrase x) : x.isChain = false := by
  induction h with
  | element _ ih | pattern _ ih => exact ih
  | _ => rfl

/-- The body of an arrow function in a tree is an expression and is printed behind the arrow. -/
theorem Formed.arrowBody {phrase : Phrase} {body : Node} (h : Formed phrase x)
    (hb : body.ArrowBody x) : Formed .expression body ∧
      Prints (pieces none x) ("=> ".toList ++ bodyText none body) := by
  cases hb with
  | @arrow ps body x hw =>
    have hpart := (Part.formed h).within hw
    refine ⟨?_, (prints_arrow ps body).trans ((Part.formed h).prints_within hw)⟩
    cases hpart with
    | formed h => exact h.body_of_arrow
  | _ => cases h.isChain_of_phrase

end Parser

end

section

variable {style : ChainStyle} {op : Combinator} {x : Node} {ps qs : List Piece} {u : List Char}

theorem prints_source (h : Prints ps u) : Prints (source style x ps) u := by
  unfold source
  split_ifs
  · exact prints_slot h
  · exact prints_parenthesized (prints_slot h)
  · exact prints_parenthesized (prints_slot h)
  · exact prints_receiver h
  · exact prints_slot h

theorem prints_link (h : Prints ps u ∨ Prints qs u) : Prints (link style op ps qs) u := by
  have hcall (method : String) : Prints (methodCall method ps qs) u := by
    rw [methodCall, List.append_assoc]
    refine prints_append (h.imp id fun h => ?_)
    exact prints_text (.inr (prints_append (.inl h)))
  unfold link
  split
  · refine prints_append (.inl (prints_text (.inr (prints_append (h.imp id fun h => ?_)))))
    exact prints_text (.inr h)
  · exact prints_append (.inl (prints_text (.inr (hcall "map"))))
  · exact hcall _

/-- A callback that is an arrow function is its parameter, the arrow and its body. -/
theorem callback_eq {isPattern : Bool} {param : Except Fault String} (hd : style.dialect ≠ .es5)
    (h : Clean (callback style isPattern param ps)) : ∃ p, param = .ok p ∧
      callback style isPattern param ps =
        .text ((if isPattern then "(" ++ p ++ ")" else p) ++ " => ") :: ps := by
  obtain ⟨dialect, parenthesize⟩ := style
  cases param with
  | error fault => exact absurd List.mem_cons_self (h fault)
  | ok p =>
    cases dialect with
    | es5 => exact absurd rfl hd
    | es2019 | lodash => exact ⟨p, rfl, by simp [callback, Dialect.supportsPatterns]⟩

end

namespace Chain

variable {style : ChainStyle} {g body : Node}

/-- The bodies of the arrow functions of a chain are chains and expressions, and each is printed
behind its arrow. -/
theorem Generated.arrowBody (hd : style.dialect ≠ .es5) (h : Generated g)
    (hclean : Clean (pieces (some style) g)) (hb : body.ArrowBody g) : Generated body ∧
      Prints (pieces (some style) g) ("=> ".toList ++ bodyText (some style) body) := by
  induction h generalizing body with
  | operand hx =>
    obtain ⟨hbody, hprints⟩ := hx.arrowBody hb
    rw [hx.pieces_eq, bodyText, hbody.pieces_eq]
    exact ⟨.operand hbody, hprints⟩
  | @link op source body' param hs hp hb' ihs ihb =>
    rw [pieces_chain, clean_link, clean_source] at hclean
    rw [pieces_chain]
    obtain ⟨printed, hprinted, hcallback⟩ := callback_eq hd hclean.2
    rw [hcallback]
    cases hb with
    | arrow hw =>
      cases hw with
      | child _ hz => cases hz
    | callback =>
      refine ⟨hb', prints_link (.inr ⟨(if param.isPattern then "(" ++ printed ++ ")" else
        printed).toList ++ [' '], [], ?_⟩)⟩
      simp [bodyText]
    | source hb =>
      obtain ⟨hbody, hprints⟩ := ihs hclean.1 hb
      exact ⟨hbody, prints_link (.inl (prints_source hprints))⟩
    | @pattern _ _ p _ _ hb =>
      cases hp with
      | pattern hp =>
        obtain ⟨hbody, hprints⟩ := hp.arrowBody hb
        rw [Prints, ← text, ← toList_of_settle hprinted] at hprints
        refine ⟨.operand hbody, prints_link (.inr (prints_text (.inl ?_)))⟩
        rw [Param.isPattern, if_pos rfl, bodyText, hbody.pieces_eq]
        exact infix_append_text (.inl (infix_append_text (.inl (infix_append_text (.inr hprints)))))
    | body hb =>
      obtain ⟨hbody, hprints⟩ := ihb (clean_arrowBody.1 hclean.2.callback) hb
      exact ⟨hbody, prints_link (.inr (prints_text (.inr (prints_arrowBody hprints))))⟩

end Chain

/-- A text that is printed of an expression that was read, or of a chain that was generated, in a
dialect that has arrow functions. -/
inductive IsPrinted : Option ChainStyle → Node → String → Prop
  | expression {source out : String} {x : Node} {limit : Int}
    (hparse : parseExpression source = .ok x) (hprint : printTree limit x = .ok out) :
    IsPrinted none x out
  | chain {settings : Settings} {raw out : String} {c : Comprehension} {g : Node} {limit : Int}
    {style : ChainStyle} (hr : settings.reader = .script)
    (hg : Comprehension.generate settings raw = .ok (c, g)) (hd : style.dialect ≠ .es5)
    (hprint : printChain limit style g = .ok out) : IsPrinted (some style) g out

/-- A body is printed behind its arrow. There it opens a block where it is no object but starts with
one. -/
structure PrintsBody (style : Option ChainStyle) (out : String) (body : Node) : Prop where
  printed : "=> ".toList ++ bodyText style body <:+: out.toList
  opensBlock : OpensBlock (bodyText style body) ↔
    body.isObject = false ∧ body.leftmost.isObject = true

/-- The body of an arrow function opens a block in the printed text where an object stands leftmost
in it that is not all of it, and nowhere else. -/
theorem printed_arrowBody {style : Option ChainStyle} {x body : Node} {out : String}
    (h : IsPrinted style x out) (hb : body.ArrowBody x) : PrintsBody style out body := by
  cases h with
  | expression hparse hprint =>
    obtain ⟨hbody, hprints⟩ := (formed_of_parseExpression hparse).arrowBody hb
    refine ⟨?_, ?_⟩
    · rw [toList_of_settle hprint]
      exact hprints
    · rw [bodyText, opensBlock_arrowBody, ← text, hbody.opensBlock_iff]
  | chain hr hg hd hprint =>
    have hclean := clean_slot.1 (clean_of_settleFrom hprint)
    obtain ⟨hbody, hprints⟩ := (Chain.generated_of_generate hr hg).arrowBody hd hclean hb
    refine ⟨?_, ?_⟩
    · rw [toList_of_settle hprint]
      exact hprints
    · rw [bodyText, opensBlock_arrowBody, ← text, hbody.opensBlock_iff hd]

/-- The tree of an object in front of an operator. -/
def objectInSum : Node :=
  .binary .additive "+" (.object [.shorthand ⟨.name, "a"⟩]) (.leaf .name ⟨.name, "x"⟩)

theorem parseExpression_objectInSum : parseExpression "x => (\x7b a \x7d + x)" =
    .ok (.arrow [.bindingName ⟨.name, "x"⟩] objectInSum) := by
  have hmember : Formed .member (.shorthand ⟨.name, "a"⟩) := .shorthand (w := ['a']) ⟨rfl, rfl⟩
  have hname : IsName ['x'] := ⟨rfl, rfl⟩
  have hobject : Formed .expression objectInSum :=
    .binary (by decide) (.object (List.forall_mem_singleton.2 hmember)) (.name hname)
  have hshorthand : (Node.shorthand ⟨.name, "a"⟩).PlainDefaults :=
    .of_children (by simp) (by simp [Node.children, Node.PlainDefaults.token])
  have hmembers : (Node.object [.shorthand ⟨.name, "a"⟩]).PlainDefaults :=
    .of_children (by simp) (by simp [Node.children, hshorthand])
  have hplain : objectInSum.PlainDefaults := .of_children (by simp [objectInSum]) (by
    simp [Node.children, objectInSum, Node.PlainDefaults.token, Node.PlainDefaults.leaf, hmembers])
  have hreads : Reads _ (text none objectInSum) objectInSum := hobject.readsBack hplain
  have hparse := parseExpression_of_reads (hname.reads_arrow hreads.parens)
  have htext : String.ofList (['x'] ++ infixed "=>" (parens (text none objectInSum))) =
      "x => (\x7b a \x7d + x)" := by decide +kernel
  exact (congrArg parseExpression htext).symm.trans hparse

/-- An object in front of an operator is printed as it stands, right behind the arrow. -/
theorem printed_arrowBody_objectInSum :
    PrintsBody none "x => \x7b a \x7d + x" objectInSum ∧
      OpensBlock (bodyText none objectInSum) := by
  have hprint : printTree defaultLimit (.arrow [.bindingName ⟨.name, "x"⟩] objectInSum) =
      .ok "x => \x7b a \x7d + x" := by
    decide +kernel
  have hprints := printed_arrowBody (.expression parseExpression_objectInSum hprint)
    (.arrow (.self _))
  exact ⟨hprints, hprints.opensBlock.2 (by decide)⟩

end Comprehend
