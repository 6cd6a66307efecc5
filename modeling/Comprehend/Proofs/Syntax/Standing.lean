import Comprehend.Proofs.Syntax.Replace

/-! # Texts that stand for a tree

What a node prints is read as the node whenever what its parts print is read as the parts. The parts
may be printed as one tree and read as another, so long as both are laid out alike: there is one
lemma for each kind of node. -/

namespace Comprehend

open Comprehend.Parser Comprehend.Layout Comprehend.Lexeme

/-- The text of a tree is read as another tree, wherever such a tree stands. -/
def ReadsAs (style : Option ChainStyle) : Phrase → Node → Node → Prop
  | .expression, x, y => Reads y.level (text style x) y
  | .element, x, y => ReadsOver element patternElement (text style x) y
  | .member, x, y => ReadsOver objectMember objectPatternItem (text style x) y
  | .pattern, x, y => ReadsPart patternElement (text style x) y
  | .target, x, y => ReadsTarget (text style x) y
  | .item, x, y => ReadsPart objectPatternItem (text style x) y

/-- The text of a tree is read as the tree, wherever such a tree stands. -/
def ReadsBack (style : Option ChainStyle) (phrase : Phrase) (x : Node) : Prop :=
  ReadsAs style phrase x x

/-- An expression whose text is read as another one, which is laid out alike. -/
structure StandsFor (style : Option ChainStyle) (x y : Node) : Prop where
  alike : x.Alike y
  reads : Reads y.level (text style x) y

namespace StandsFor

variable {style : Option ChainStyle} {x y : Node} {p t : Nat}

theorem slot (h : StandsFor style x y) (ht : t ≤ Node.slotLevel p) :
    Reads t (chars (Layout.slot p x (pieces style x))) y :=
  h.alike.slot p _ ▸ Reads.slot h.reads ht

theorem receiver (h : StandsFor style x y) :
    Reads (if y.startsFromCall then 18 else 19) (chars (Layout.receiver x (pieces style x))) y :=
  h.alike.receiver _ ▸ Reads.receiver h.reads

theorem receiver_links (h : StandsFor style x y) :
    Reads 18 (chars (Layout.receiver x (pieces style x))) y :=
  h.alike.receiver _ ▸ Reads.receiver_links h.reads

end StandsFor

theorem forall₂_map_text (style : Option ChainStyle) {R : List Char → Node → Prop} {f g : Node → Node}
    (xs : List Node) (h : ∀ x ∈ xs, R (text style (f x)) (g x)) :
    List.Forall₂ R ((xs.map f).map (text style)) (xs.map g) := by
  induction xs with
  | nil => exact .nil
  | cons x xs ih => exact .cons (h x (by simp)) (ih fun y hy => h y (by simp [hy]))

theorem reads_of_text {style : Option ChainStyle} {x y : Node} {u : List Char}
    (h : Reads y.level u y) (hu : text style x = u) : Reads y.level (text style x) y := hu ▸ h

theorem infixed_eq (op : String) (u : List Char) :
    (" " ++ op ++ " ").toList ++ u = infixed op u := by
  simp [infixed]

/-! ## Operators and functions -/

section

variable {style : Option ChainStyle} {x x' y y' z z' : Node}

theorem readsAs_binary {group : OperatorGroup} {op : String} (hop : op ∈ spellings group)
    (hx : StandsFor style x x') (hy : StandsFor style y y') :
    ReadsAs style .expression (.binary group op x y) (.binary group op x' y') := by
  have hslot : group.precedence ≤ Node.slotLevel group.precedence ∧
      group.precedence + 1 ≤ Node.slotLevel (group.precedence + 1) := by
    cases group <;> decide
  refine reads_of_text (Reads.binary hop (hx.slot hslot.1) (Nat.le_refl _)
    (hy.slot hslot.2) (Nat.le_refl _)) ?_
  simp only [text, pieces, chars_append, chars_text, infixed_eq]

theorem precedence_of_mixesWith {op : LogicalOp} (h : x.mixesWith op = true) :
    x.precedence < Precedence.primary := by
  cases x with
  | logical op' lhs rhs => cases op' <;> exact Nat.le_of_ble_eq_true rfl
  | _ => cases h

/-- An operand beside a logical operator. -/
theorem reads_beside (op : LogicalOp) {p t : Nat} {ps : List Piece} (hx : Reads x.level (chars ps) x)
    (ht : t ≤ 20) (h : x.mixesWith op = false → p ≤ x.precedence → t ≤ x.level) :
    Reads t (chars (slot (if x.mixesWith op then Precedence.primary else p) x ps)) x := by
  rw [chars_slot]
  cases hm : x.mixesWith op with
  | true =>
    rw [if_pos rfl, if_pos (precedence_of_mixesWith hm)]
    exact hx.parens.mono ht
  | false =>
    rw [if_neg Bool.false_ne_true]
    by_cases hp : x.precedence < p
    · rw [if_pos hp]
      exact hx.parens.mono ht
    · rw [if_neg hp]
      exact hx.mono (h hm (Nat.not_lt.1 hp))

theorem StandsFor.beside (op : LogicalOp) {p t : Nat} (hx : StandsFor style x x') (ht : t ≤ 20)
    (h : x'.mixesWith op = false → p ≤ x'.precedence → t ≤ x'.level) :
    Reads t (chars (Layout.slot (if x.mixesWith op then Precedence.primary else p) x
      (pieces style x))) x' := by
  rw [hx.alike.mixesWith, hx.alike.slot]
  exact reads_beside op hx.reads ht h

theorem level_beside (op : LogicalOp) (hm : x.mixesWith op = false)
    (hp : op.precedence ≤ x.precedence) : 2 + logicalLevel op ≤ x.level := by
  cases op with
  | coalesce => exact Node.slotLevel_le hp
  | and => exact Node.slotLevel_le hp
  | or =>
    by_cases h4 : 4 ≤ x.precedence
    · exact le_trans (by decide : 3 ≤ Node.slotLevel 4) (Node.slotLevel_le h4)
    · cases x with
      | logical op' lhs rhs => cases op' <;> simp_all [Node.mixesWith, Node.level, logicalLevel,
          Node.precedence, LogicalOp.precedence]
      | binary group op' lhs rhs => cases group <;> simp_all [Node.precedence, OperatorGroup.precedence]
      | _ => simp_all [Node.precedence, LogicalOp.precedence, Precedence.assignment, Precedence.power,
          Precedence.unary, Precedence.postfixUpdate, Precedence.link, Precedence.primary]

theorem readsAs_logical {op : LogicalOp} (hx : StandsFor style x x') (hy : StandsFor style y y') :
    ReadsAs style .expression (.logical op x y) (.logical op x' y') := by
  have hle : 2 + logicalLevel op ≤ 20 ∧ 3 + logicalLevel op ≤ 20 := by cases op <;> decide
  have hslot : 3 + logicalLevel op ≤ Node.slotLevel (op.precedence + 1) := by cases op <;> decide
  have hl := hx.beside op hle.1 (level_beside op)
  have hr := hy.beside op (p := op.precedence + 1) hle.2
    fun _ hp => hslot.trans (Node.slotLevel_le hp)
  refine reads_of_text (hl.logical (Nat.le_refl _) hr (Nat.le_refl _)) ?_
  simp only [text, pieces, chars_append, chars_text, infixed_eq]

theorem readsAs_power (hx : StandsFor style x x') (hy : StandsFor style y y') :
    ReadsAs style .expression (.power x y) (.power x' y') := by
  have hbase := hx.slot (p := Precedence.postfixUpdate) (t := 16) (by decide)
  have hexponent := hy.slot (p := Precedence.power) (t := 14) (by decide)
  refine reads_of_text (hbase.power (Nat.le_refl _) hexponent (Nat.le_refl _)) ?_
  simp [text, pieces, infixed]

theorem readsAs_ternary (hx : StandsFor style x x') (hy : StandsFor style y y')
    (hz : StandsFor style z z') :
    ReadsAs style .expression (.ternary x y z) (.ternary x' y' z') := by
  have htest := hx.slot (p := Precedence.conditional) (t := 2) (by decide)
  refine reads_of_text (htest.ternary (Nat.le_refl _) hy.reads hz.reads) ?_
  simp [text, pieces, infixed]

/-- The parameters of a function, as they are printed and as they are read. -/
abbrev ReadsParams (style : Option ChainStyle) (ps qs : List Node) : Prop :=
  List.Forall₂ (ReadsPart patternElement) (ps.map (text style)) qs

theorem Parser.Formed.isName_of_pattern {name : Token} (h : Formed .pattern (.bindingName name)) :
    ∃ w, IsName w ∧ name = token .name w := by
  cases h with
  | pattern htarget =>
    cases htarget with
    | bindingName hw => exact ⟨_, hw, rfl⟩

theorem readsAs_arrow_name {w : List Char} (hw : IsName w) (hx : StandsFor style x x') :
    ReadsAs style .expression (.arrow [.bindingName (token .name w)] x)
      (.arrow [.bindingName (token .name w)] x') := by
  obtain ⟨t, hbody⟩ := Reads.arrowBody (x := x) hx.reads
  refine reads_of_text (hw.reads_arrow hbody) ?_
  simp [text, pieces, parameters, infixed, token]

theorem parameters_of_ne {ps : List Node} (hn : ∀ name, ps ≠ [.bindingName name])
    (qs : List Piece) : parameters ps qs = parenthesized qs := by
  unfold parameters
  split
  · exact absurd rfl (hn _)
  · rfl

theorem readsAs_arrow {ps qs : List Node} (hn : ∀ name, ps ≠ [.bindingName name])
    (hps : ReadsParams style ps qs) (hx : StandsFor style x x') :
    ReadsAs style .expression (.arrow ps x) (.arrow qs x') := by
  obtain ⟨t, hbody⟩ := Reads.arrowBody (x := x) hx.reads
  refine reads_of_text (reads_arrow_list hps hbody) ?_
  simp [text, pieces, parameters_of_ne hn, infixed, parens]

theorem readsAs_function {ps qs : List Node} (hps : ReadsParams style ps qs)
    (hx : StandsFor style x x') : ReadsAs style .expression (.function ps x) (.function qs x') := by
  refine reads_of_text (reads_function hps hx.reads) ?_
  simp [text, pieces, functionTail]

theorem readsAs_prefixUpdate {op : String} (hop : op = "++" ∨ op = "--")
    (hx : StandsFor style x x') :
    ReadsAs style .expression (.prefixUpdate ⟨.updateOp, op⟩ x) (.prefixUpdate ⟨.updateOp, op⟩ x') := by
  have hoperand := hx.slot (p := Precedence.unary) (t := 15) (by decide)
  refine reads_of_text (hoperand.prefixUpdate hop (Nat.le_refl _)) ?_
  simp [text, pieces]

theorem readsAs_postfixUpdate {op : String} (hop : op = "++" ∨ op = "--")
    (hx : StandsFor style x x') :
    ReadsAs style .expression (.postfixUpdate x ⟨.updateOp, op⟩)
      (.postfixUpdate x' ⟨.updateOp, op⟩) := by
  have hoperand := hx.slot (p := Precedence.link) (t := 17) (by decide)
  refine reads_of_text (hoperand.postfixUpdate hop (Nat.le_refl _)) ?_
  simp [text, pieces]

theorem readsAs_signWord {op : String} (hop : op ∈ ["typeof", "void", "delete"])
    (hx : StandsFor style x x') :
    ReadsAs style .expression (.unary ⟨.unaryKeyword, op⟩ x) (.unary ⟨.unaryKeyword, op⟩ x') := by
  have hoperand := hx.slot (p := Precedence.unary) (t := 15) (by decide)
  refine reads_of_text (hoperand.signWord hop (Nat.le_refl _)) ?_
  simp [text, pieces, signGap]

/-- Nothing that binds tighter than a signed operand starts with a sign. -/
theorem unsigned {level : Nat} {u : List Char} (h : Opens level u) (hl : 16 ≤ level) {c : Char}
    (hc : c ∈ ['-', '+']) (rest : List Char) : startsWith (· == c) (u ++ rest) = false := by
  obtain ⟨d, t, rfl, -⟩ := h.item
  refine Bool.eq_false_iff.2 fun hd => ?_
  obtain rfl : d = c := by simpa [startsWith] using hd
  have hsign := h.noSign hl free_nil
  rw [List.append_nil] at hsign
  have hunary : unaryAt (d :: t) = if startsWith (· == d) t then none else
      some (⟨.unaryOp, String.ofList [d]⟩, t) := by
    simp only [List.mem_cons, List.not_mem_nil, or_false] at hc
    rcases hc with rfl | rfl <;> rfl
  cases t with
  | nil =>
    rw [hunary] at hsign
    cases hsign.1
  | cons e t =>
    by_cases he : e = d
    · subst he
      simp only [List.mem_cons, List.not_mem_nil, or_false] at hc
      rcases hc with rfl | rfl <;> cases hsign.2
    · rw [hunary, if_neg (by simpa [startsWith] using he)] at hsign
      cases hsign.1

theorem signGap_eq (op : Token) (x : Node) : signGap op x = "" ∨ signGap op x = " " :=
  (ite_eq_or_eq _ _ _).symm

/-- An operand that needs no blank after a sign does not start with one. -/
theorem unsigned_of_formed {r : Token → Option Node} (hr : Node.Fits r) {c : Char} (hc : c ∈ ['-', '+'])
    (hf : Formed .expression z) (hx : StandsFor style (z.replaced r) y)
    (hp : Precedence.unary ≤ y.precedence) (hgap : signGap (token .unaryOp [c]) y = "")
    (rest : List Char) : startsWith (· == c) (text style (z.replaced r) ++ rest) = false := by
  by_cases hl : Precedence.postfixUpdate ≤ y.precedence
  · exact unsigned hx.reads.toOpens (Node.slotLevel_le hl) hc rest
  · have halike := (Node.alike_replaced hr z).trans hx.alike
    have hz : z.precedence = Precedence.unary := by
      rw [halike.precedence]
      simp only [Precedence.postfixUpdate, Precedence.unary] at hl hp ⊢
      omega
    rw [← halike.signGap] at hgap
    cases hf with
    | @sign d x hd hx =>
      simp only [List.mem_cons, List.not_mem_nil, or_false] at hc hd
      rcases hd with rfl | rfl | rfl | rfl
      · rcases hc with rfl | rfl <;> simp [signGap, token] at hgap
      · rcases hc with rfl | rfl <;> simp [signGap, token] at hgap
      · rcases hc with rfl | rfl <;> simp [Node.replaced, text, pieces, token, startsWith]
      · rcases hc with rfl | rfl <;> simp [Node.replaced, text, pieces, token, startsWith]
    | @signWord op x hop hx =>
      simp only [List.mem_cons, List.not_mem_nil, or_false] at hc hop
      rcases hop with rfl | rfl | rfl <;> rcases hc with rfl | rfl <;>
        simp [Node.replaced, text, pieces, startsWith]
    | prefixUpdate hop hx =>
      simp only [List.mem_cons, List.not_mem_nil, or_false] at hc
      rcases hc with rfl | rfl <;> simp [signGap, token] at hgap
    | @logical op x y hx hy => cases op <;> cases hz
    | @binary group op x y hop hx hy => cases group <;> cases hz
    | _ => cases hz

theorem readsAs_sign {r : Token → Option Node} (hr : Node.Fits r) {c : Char}
    (hc : c ∈ ['-', '+', '!', '~']) (hf : Formed .expression z) (hx : StandsFor style (z.replaced r) y) :
    ReadsAs style .expression (.unary (token .unaryOp [c]) (z.replaced r))
      (.unary (token .unaryOp [c]) y) := by
  have hoperand := hx.slot (p := Precedence.unary) (t := 15) (by decide)
  have hgap : Gap (signGap (token .unaryOp [c]) (z.replaced r)).toList := by
    rcases signGap_eq (token .unaryOp [c]) (z.replaced r) with h | h <;> rw [h]
    · exact .inl rfl
    · exact .inr rfl
  refine reads_of_text (hoperand.sign hc hgap (fun hnone hc rest => ?_) (Nat.le_refl _)) ?_
  · rw [chars_slot]
    by_cases hp : (z.replaced r).precedence < Precedence.unary
    · rw [if_pos hp]
      simp only [List.mem_cons, List.not_mem_nil, or_false] at hc
      rcases hc with rfl | rfl <;> rfl
    · rw [if_neg hp]
      refine unsigned_of_formed hr hc hf hx ?_ ?_ rest
      · exact hx.alike.precedence ▸ Nat.not_lt.1 hp
      · exact hx.alike.signGap _ ▸ String.toList_inj.1 hnone
  · simp [text, pieces, token]

end

/-! ## Links -/

section

variable {style : Option ChainStyle} {x x' y y' : Node}

theorem link_bounds (b : Bool) : 18 ≤ (if b then 18 else 19) ∧ (if b then 18 else 19) ≤ 19 := by
  cases b <;> decide

theorem readsAs_link (optional : Bool) {w : List Char} (hx : StandsFor style x x')
    (hw : word w = some (w, [])) :
    ReadsAs style .expression (.member optional x (token .propertyName w))
      (.member optional x' (token .propertyName w)) := by
  cases optional with
  | true =>
    refine reads_of_text (Reads.optionalMember hx.receiver_links (Nat.le_refl _) hw) ?_
    simp [text, pieces, token]
  | false =>
    have hb := link_bounds x'.startsFromCall
    refine reads_of_text (u := chars (receiver x (pieces style x)) ++ '.' :: w) ?_ ?_
    · exact Reads.member hx.receiver (Nat.le_refl _) hb.1 hb.2 hw
    · simp [text, pieces, token]

theorem readsAs_index (optional : Bool) (hx : StandsFor style x x') (hy : StandsFor style y y') :
    ReadsAs style .expression (.index optional x y) (.index optional x' y') := by
  cases optional with
  | true =>
    refine reads_of_text (Reads.optionalIndex hx.receiver_links (Nat.le_refl _) hy.reads) ?_
    simp [text, pieces]
  | false =>
    have hb := link_bounds x'.startsFromCall
    refine reads_of_text (u := chars (receiver x (pieces style x)) ++ '[' :: (text style y ++ [']'])) ?_ ?_
    · exact Reads.index hx.receiver (Nat.le_refl _) hb.1 hb.2 hy.reads
    · simp [text, pieces]

theorem readsAs_tagged {t : List Char} (hx : StandsFor style x x')
    (ht : template t = some (t, [])) :
    ReadsAs style .expression (.tagged x (token .template t)) (.tagged x' (token .template t)) := by
  have hb := link_bounds x'.startsFromCall
  refine reads_of_text (Reads.tagged hx.receiver (Nat.le_refl _) hb.1 hb.2 ht) ?_
  simp [text, pieces, token]

variable {xs ys : List Node}

theorem readsAs_call (optional : Bool) (hx : StandsFor style x x')
    (hxs : List.Forall₂ (ReadsPart element) (xs.map (text style)) ys) :
    ReadsAs style .expression (.call optional x xs) (.call optional x' ys) := by
  cases optional with
  | true =>
    refine reads_of_text (Reads.optionalCall hx.receiver_links (Nat.le_refl _) hxs) ?_
    simp [text, pieces]
  | false =>
    refine reads_of_text (Reads.call hx.receiver_links (Nat.le_refl _) hxs) ?_
    simp [text, pieces]

theorem readsAs_construct (hx : StandsFor style x x') (hc : x.startsFromCall = x'.startsFromCall)
    (hn : ∀ t, x' = .leaf .number t → Formed .expression x' ∧ x = x')
    (hxs : List.Forall₂ (ReadsPart element) (xs.map (text style)) ys) :
    ReadsAs style .expression (.construct x xs) (.construct x' ys) := by
  have hcallee : Constructs (chars (constructed x (pieces style x))) x' := by
    by_cases hnumber : ∃ t, x' = .leaf .number t
    · obtain ⟨t, rfl⟩ := hnumber
      obtain ⟨hf, rfl⟩ := hn t rfl
      cases hf with
      | number ht =>
        have := constructs_number ht
        simpa [constructed, Node.startsFromCall, Node.precedence, pieces, token, Precedence.primary,
          Precedence.link] using this
    · rw [hx.alike.constructed hc]
      exact Reads.constructed hx.reads fun t ht => hnumber ⟨t, ht⟩
  refine reads_of_text (hcallee.reads hxs) ?_
  simp [text, pieces, constructTail]

end

end Comprehend
