import Comprehend.Proofs.Syntax.Links

/-! # Texts of operators and functions -/

namespace Comprehend.Parser

open Comprehend.Text Comprehend.Lexeme

theorem infixed_append (op : String) (u v : List Char) : infixed op u ++ v = infixed op (u ++ v) := by
  simp [infixed]

theorem length_infixed (op : String) (u : List Char) :
    (infixed op u).length = op.toList.length + u.length + 2 := by
  simp only [infixed, List.length_cons, List.length_append]
  omega

section

variable {s s' : Nat} {u v w : List Char} {x y z : Node}

/-! ## Operators between operands -/

/-- Two operands joined by an operator that groups to the left. -/
theorem Reads.joined {k : Nat} (hk : k ≤ 10) {op : String} {joint : Joint}
    (hjoint : ∀ v, jointAt k (infixed op v) = some (joint, ' ' :: v))
    (hends : ∀ v, Ends (3 + k) (infixed op v)) (hgoes : ∀ v, GoesOn (infixed op v))
    (hx : Reads s u x) (hs : 2 + k ≤ s) (hy : Reads s' v y) (hs' : 3 + k ≤ s') :
    Reads (2 + k) (u ++ infixed op v) (joint.build x y) := by
  have ho : Opens (2 + k) (u ++ infixed op v) :=
    hx.toOpens.append (fun rest => by rw [infixed_append]; exact hgoes _) hs (by omega)
  refine .of_joins ho hk fun fuel rest r z he hf hw => ?_
  simp only [List.length_append, length_infixed] at hf hw
  rw [List.append_assoc, infixed_append]
  refine hx.joins k hk hs (hends _) (by omega) fun f hf' => ?_
  obtain ⟨f, rfl⟩ : ∃ g, f = g + 1 := ⟨f - 1, by omega⟩
  rw [joinedTail, hjoint]
  simp only [(skipsBlanks _ _).joined]
  have hright := hy.at' (3 + k) hs' (by omega) (f := f) he (by omega)
  rw [show 3 + k = 2 + (k + 1) by omega, reader_joined (by omega)] at hright
  exact hright.andThen (hw f (by omega))

theorem Reads.binary {group : OperatorGroup} {op : String} (hop : op ∈ spellings group)
    (hx : Reads s u x) (hs : group.precedence ≤ s) (hy : Reads s' v y)
    (hs' : group.precedence + 1 ≤ s') :
    Reads group.precedence (u ++ infixed op v) (.binary group op x y) := by
  obtain ⟨k, hk, hprec⟩ : ∃ k, k ≤ 10 ∧ group.precedence = 2 + k :=
    ⟨group.precedence - 2, by cases group <;> decide, by cases group <;> rfl⟩
  have hjoint (v : List Char) := jointAt_infixed hop v
  have hends (v : List Char) := Ends.binary hop v
  rw [hprec] at hjoint hends hs hs' ⊢
  rw [Nat.add_sub_cancel_left] at hjoint
  exact .joined hk hjoint (fun v => (hends v).mono (by omega)) (GoesOn.binary hop) hx hs hy
    (by omega)

theorem Reads.logical {op : LogicalOp} (hx : Reads s u x) (hs : 2 + logicalLevel op ≤ s)
    (hy : Reads s' v y) (hs' : 3 + logicalLevel op ≤ s') :
    Reads (2 + logicalLevel op) (u ++ infixed op.text v) (.logical op x y) :=
  .joined (by cases op <;> decide) (jointAt_logical op) (Ends.logical op) (GoesOn.logical op) hx hs
    hy hs'

theorem goesOn_infixed {op : String} {c : Char} {cs : List Char} (hop : op.toList = c :: cs)
    (hb : isBlank c = false) (hc : c ∉ [',', ')', ']', '\x7d', '=']) (v : List Char) :
    GoesOn (infixed op v) := by
  have hmark {spelling : String} {a : Char} {as : List Char} (hs : spelling.toList = a :: as)
      (ha : c ≠ a) : mark spelling (infixed op v) = none := by
    rw [infixed, mark_space, hop]
    exact mark_cons_of_ne hs hb (Ne.symm ha)
  simp only [List.mem_cons, List.not_mem_nil, or_false, not_or] at hc
  exact ⟨rfl, .of_mark (hmark rfl hc.1) (hmark rfl hc.2.1) (hmark rfl hc.2.2.1)
    (hmark rfl hc.2.2.2.1) (hmark rfl hc.2.2.2.2), hmark rfl hc.2.2.2.2⟩

theorem Reads.power (hx : Reads s u x) (hs : 16 ≤ s) (hy : Reads s' v y) (hs' : 14 ≤ s') :
    Reads 14 (u ++ infixed "**" v) (.power x y) := by
  have ho : Opens 14 (u ++ infixed "**" v) := hx.toOpens.append (fun rest => by
    rw [infixed_append]
    exact goesOn_infixed rfl rfl (by decide) _) (by omega) (by omega)
  refine .of_readsAt ho (Nat.le_refl _) (fun fuel rest he hf => ?_) fun k hk h => by omega
  rw [List.length_append, length_infixed] at hf
  obtain ⟨fuel, rfl⟩ : ∃ f, fuel = f + 1 := ⟨fuel - 1, by omega⟩
  have hu := hx.length_pos
  have hfree : Free (infixed "**" (v ++ rest)) := rfl
  have hm : mark "**" (infixed "**" (v ++ rest)) = some (' ' :: (v ++ rest)) := rfl
  rw [List.append_assoc, infixed_append]
  change Leads (Parser.power (fuel + 1) (u ++ infixed "**" (v ++ rest))) _ rest
  rw [Parser.power, (hx.noSign hs hfree).1]
  have hbase := hx.at' 16 hs (by omega) (f := fuel) (Ends.power_mark (v ++ rest)) (by omega)
  refine Leads.andThen hbase ?_
  rw [hm]
  simp only [(skipsBlanks _ _).power]
  exact Leads.giving (hy.at' 14 hs' (by omega) he (by omega)) _

theorem Reads.ternary {t : Nat} (hx : Reads s u x) (hs : 2 ≤ s) (hy : Reads s' v y)
    (hz : Reads t w z) :
    Reads 1 (u ++ infixed "?" (v ++ infixed ":" w)) (.ternary x y z) := by
  have ho : Opens 1 (u ++ infixed "?" (v ++ infixed ":" w)) := hx.toOpens.append (fun rest => by
    rw [infixed_append]
    exact goesOn_infixed rfl rfl (by decide) _) (by omega) (by omega)
  refine .of_readsAt ho (by omega) (fun fuel rest he hf => ?_) fun k hk h => by omega
  simp only [List.length_append, length_infixed] at hf
  obtain ⟨fuel, rfl⟩ : ∃ f, fuel = f + 1 := ⟨fuel - 1, by omega⟩
  have hu := hx.length_pos
  have hquestion (v : List Char) : mark "?" (infixed "?" v) = some (' ' :: v) := rfl
  have hcolon (v : List Char) : mark ":" (infixed ":" v) = some (' ' :: v) := rfl
  rw [List.append_assoc, infixed_append, List.append_assoc, infixed_append]
  change Leads (Parser.ternary (fuel + 1) (u ++ infixed "?" (v ++ infixed ":" (w ++ rest)))) _ rest
  rw [Parser.ternary]
  have htest := hx.at' 2 hs (by omega) (f := fuel)
    (Ends.question_mark (v ++ infixed ":" (w ++ rest))) (by omega)
  refine Leads.andThen htest ?_
  simp only [hquestion]
  have hstop : Ends 0 (infixed ":" (w ++ rest)) := .of_stops (.inr ⟨':', _, rfl, rfl⟩)
  have hyes : Leads (Parser.expression fuel (' ' :: (v ++ infixed ":" (w ++ rest)))) y
      (infixed ":" (w ++ rest)) := hy.expression_space hstop (by omega)
  refine (hyes.closedBy (hcolon (w ++ rest))).andThen ?_
  exact (hz.expression_space he.loosest (by omega)).giving _

/-! ## Operators before and after an operand -/

theorem reads_unary {op : Token} {t : List Char} (ho : Opens 15 t) (hlen : u.length < t.length)
    (hop : ∀ rest, Free rest → ∃ gap, Gap gap ∧ unaryAt (t ++ rest) = some (op, gap ++ (u ++ rest)))
    (hx : Reads s u x) (hs : 15 ≤ s) : Reads 15 t (.unary op x) := by
  have hunary {fuel : Nat} {rest gap : List Char} (hg : Gap gap) (he : Ends 15 rest)
      (hf : 32 * u.length ≤ fuel + 15) : Leads (unary fuel (gap ++ (u ++ rest))) x rest := by
    have := hx.at' 15 hs (by omega) he hf
    rcases hg with rfl | rfl
    · exact this
    · rw [List.singleton_append, (skipsBlanks _ _).unary]
      exact this
  have h15 : ReadsAt 15 t (.unary op x) := by
    intro fuel rest he hf
    obtain ⟨fuel, rfl⟩ : ∃ f, fuel = f + 1 := ⟨fuel - 1, by omega⟩
    obtain ⟨gap, hg, hat⟩ := hop rest he.free
    change Leads (Parser.unary (fuel + 1) (t ++ rest)) _ rest
    rw [Parser.unary, hat]
    exact (hunary hg he (by omega)).giving _
  refine .of_unary ho (fun fuel rest he hf => ?_) h15
  obtain ⟨fuel, rfl⟩ : ∃ f, fuel = f + 1 := ⟨fuel - 1, by omega⟩
  obtain ⟨gap, -, hat⟩ := hop rest he.free
  change Leads (Parser.power (fuel + 1) (t ++ rest)) _ rest
  rw [Parser.power, hat]
  exact h15 (f := fuel) (he.mono (by omega)) (by omega)

/-- A sign, set off from an operand that starts with the same one. -/
theorem Reads.sign {c : Char} (hc : c ∈ ['-', '+', '!', '~']) {gap : List Char} (hg : Gap gap)
    (hsame : gap = [] → c ∈ ['-', '+'] → ∀ rest, startsWith (· == c) (u ++ rest) = false)
    (hx : Reads s u x) (hs : 15 ≤ s) :
    Reads 15 (c :: (gap ++ u)) (.unary (token .unaryOp [c]) x) := by
  have ho : Opens 15 (c :: (gap ++ u)) := by
    simp only [List.mem_cons, List.not_mem_nil, or_false] at hc
    rcases hc with rfl | rfl | rfl | rfl <;>
      exact .of_symbol rfl rfl (by decide) (fun rest => rfl) (fun h => by omega) fun h => by omega
  refine reads_unary ho (by simp only [List.length_cons, List.length_append]; omega) (fun rest _ => ?_)
    hx hs
  refine ⟨gap, hg, ?_⟩
  have hstart (hd : c ∈ ['-', '+']) : startsWith (· == c) (gap ++ (u ++ rest)) = false := by
    rcases hg with rfl | rfl
    · exact hsame rfl hd rest
    · simp only [List.mem_cons, List.not_mem_nil, or_false] at hd
      rcases hd with rfl | rfl <;> rfl
  rw [List.cons_append, List.append_assoc]
  simp only [List.mem_cons, List.not_mem_nil, or_false] at hc
  rcases hc with rfl | rfl | rfl | rfl
  · have := hstart (by decide)
    change (if startsWith (· == '-') (gap ++ (u ++ rest)) then _ else _) = _
    rw [this]
    rfl
  · have := hstart (by decide)
    change (if startsWith (· == '+') (gap ++ (u ++ rest)) then _ else _) = _
    rw [this]
    rfl
  · rfl
  · rfl

theorem Reads.signWord {op : String} (hop : op ∈ ["typeof", "void", "delete"]) (hx : Reads s u x)
    (hs : 15 ≤ s) : Reads 15 (op.toList ++ ' ' :: u) (.unary ⟨.unaryKeyword, op⟩ x) := by
  have ho : Opens 15 (op.toList ++ ' ' :: u) := by
    simp only [List.mem_cons, List.not_mem_nil, or_false] at hop
    rcases hop with rfl | rfl | rfl <;>
      exact .of_word rfl (fun rest _ => rfl) (.inl rfl) (fun h => by omega) fun h => by omega
  refine reads_unary ho (by simp only [List.length_cons, List.length_append]; omega) (fun rest _ => ?_)
    hx hs
  refine ⟨[' '], .inr rfl, ?_⟩
  rw [List.append_assoc]
  simp only [List.mem_cons, List.not_mem_nil, or_false] at hop
  rcases hop with rfl | rfl | rfl <;> rfl

theorem Reads.prefixUpdate {op : String} (hop : op = "++" ∨ op = "--") (hx : Reads s u x)
    (hs : 15 ≤ s) : Reads 15 (op.toList ++ u) (.prefixUpdate ⟨.updateOp, op⟩ x) := by
  have hunary (rest : List Char) : unaryAt (op.toList ++ (u ++ rest)) = none := by
    rcases hop with rfl | rfl <;> rfl
  have hupdate (rest : List Char) :
      updateAt (op.toList ++ (u ++ rest)) = some (⟨.updateOp, op⟩, u ++ rest) := by
    rcases hop with rfl | rfl <;> rfl
  have hlen : op.toList.length = 2 := by rcases hop with rfl | rfl <;> rfl
  have ho : Opens 15 (op.toList ++ u) := by
    rcases hop with rfl | rfl <;>
      exact .of_symbol rfl rfl (by decide) (fun rest => rfl) (fun h => by omega) fun h => by omega
  have hread {fuel : Nat} {rest : List Char} (he : Ends 15 rest) (hf : 32 * u.length ≤ fuel + 15) :
      Leads (update (fuel + 1) (op.toList ++ (u ++ rest))) (.prefixUpdate ⟨.updateOp, op⟩ x) rest := by
    rw [update, hupdate]
    exact Leads.giving (hx.at' 15 hs (by omega) he hf) _
  refine .of_unary ho (fun fuel rest he hf => ?_) fun fuel rest he hf => ?_ <;>
    rw [List.length_append, hlen] at hf <;>
    obtain ⟨fuel, rfl⟩ : ∃ f, fuel = f + 2 := ⟨fuel - 2, by omega⟩ <;> rw [List.append_assoc]
  · change Leads (Parser.power (fuel + 2) (op.toList ++ (u ++ rest))) _ rest
    rw [Parser.power, hunary]
    refine (hread (he.mono (by omega)) (by omega)).andThen ?_
    rw [he.power (by omega)]
    exact .one _ _
  · change Leads (Parser.unary (fuel + 2) (op.toList ++ (u ++ rest))) _ rest
    rw [Parser.unary, hunary]
    exact hread he (by omega)

theorem Reads.postfixUpdate {op : String} (hop : op = "++" ∨ op = "--") (hx : Reads s u x)
    (hs : 17 ≤ s) : Reads 16 (u ++ op.toList) (.postfixUpdate x ⟨.updateOp, op⟩) := by
  have hupdate (rest : List Char) : updateAt (op.toList ++ rest) = some (⟨.updateOp, op⟩, rest) := by
    rcases hop with rfl | rfl <;> rfl
  have ho : Opens 16 (u ++ op.toList) := hx.toOpens.append (fun rest => by
    rcases hop with rfl | rfl <;> exact .of_cons rfl rfl (by decide) _) (by omega) (by omega)
  refine .of_update ho (Nat.le_refl _) (fun fuel rest he hf => ?_) (fun h => by omega)
    (fun h => by omega) fun h => by omega
  have hu := hx.length_pos
  rw [List.length_append] at hf
  obtain ⟨fuel, rfl⟩ : ∃ f, fuel = f + 1 := ⟨fuel - 1, by omega⟩
  have hends := Ends.update_mark hop rest
  rw [List.append_assoc]
  change Leads (Parser.update (fuel + 1) (u ++ (op.toList ++ rest))) _ rest
  rw [Parser.update, (hx.noSign (by omega) hends.free).2]
  have hoperand := hx.at' 17 hs (by omega) (f := fuel) hends (by omega)
  refine Leads.andThen hoperand ?_
  rw [hupdate]
  exact .cons _ _ _

/-! ## Arrow functions -/

theorem reads_arrow {t : List Char} {ps : List Node} (ho : Opens 0 (t ++ infixed "=>" u)) (ht : 0 < t.length)
    (hp : ∀ ⦃fuel rest⦄, 32 * t.length ≤ fuel + 1 →
      Leads (arrowHead fuel (t ++ infixed "=>" rest)) ps (' ' :: rest))
    (hx : Reads s u x) : Reads 0 (t ++ infixed "=>" u) (.arrow ps x) := by
  refine .of_readsAt ho (by omega) (fun fuel rest he hf => ?_) fun k hk h => by omega
  rw [List.length_append, length_infixed] at hf
  obtain ⟨fuel, rfl⟩ : ∃ f, fuel = f + 1 := ⟨fuel - 1, by omega⟩
  rw [List.append_assoc, infixed_append]
  have hhead : Leads (arrowHead fuel (t ++ infixed "=>" (u ++ rest))) ps (' ' :: (u ++ rest)) :=
    hp (by omega)
  have hbody : Leads (Parser.expression fuel (' ' :: (u ++ rest))) x rest :=
    hx.expression_space he (by omega)
  change Leads (Parser.expression (fuel + 1) (t ++ infixed "=>" (u ++ rest))) _ rest
  rw [Parser.expression]
  split
  · next hnil => exact absurd hnil hhead.ne_nil
  · exact hhead.andThen (hbody.giving _)

theorem IsName.reads_arrow (hw : IsName w) (hx : Reads s u x) :
    Reads 0 (w ++ infixed "=>" u) (.arrow [.bindingName (token .name w)] x) := by
  have hstuck (rest : List Char) : Stuck (infixed "=>" u ++ rest) := .of_equal rfl (.inr rfl)
  have hpos := hw.reads.length_pos
  refine Parser.reads_arrow ⟨hw.key.opens.append _, fun rest => ?_, fun {fuel rest} hr o ho => ?_,
    fun h => by omega, fun h => by omega, fun h => by omega, fun h => by omega⟩ hpos (fun fuel rest hf => ?_) hx
  · rw [List.append_assoc]
    exact hw.key.spread _
  · have hfree : Free (infixed "=>" u ++ rest) := rfl
    rw [List.append_assoc] at ho
    rcases hw.reads.cover hfree o ho with h | h
    · exact .inr (h ▸ hstuck rest)
    · exact .inr h
  · obtain ⟨fuel, rfl⟩ : ∃ f, fuel = f + 1 := ⟨fuel - 1, by omega⟩
    have hfree : Free (infixed "=>" rest) := rfl
    have hword := hw.append hfree
    have hm : mark "=>" (infixed "=>" rest) = some (' ' :: rest) := rfl
    rw [arrowHead, mark_of_word hword rfl rfl]
    simp only [plainName_of_word hword, hw.free, Bool.false_eq_true, if_false]
    exact (Leads.one _ _).closedBy hm

theorem reads_arrow_list {us : List (List Char)} {ps : List Node}
    (h : List.Forall₂ (ReadsPart patternElement) us ps) (hx : Reads s u x) :
    Reads 0 ('(' :: (commas us ++ [')']) ++ infixed "=>" u) (.arrow ps x) := by
  refine reads_arrow ⟨⟨'(', _, rfl, rfl⟩, fun rest => rfl, fun {fuel rest} _ o ho => ?_,
    fun h => by omega, fun h => by omega, fun h => by omega, fun h => by omega⟩ (Nat.succ_pos _)
    (fun fuel rest hf => ?_) hx
  · rw [List.cons_append, List.cons_append,
      bindingTarget_of_ne rfl rfl (by decide) (by decide)] at ho
    cases ho
  · simp only [List.length_cons, List.length_append, List.length_nil] at hf
    obtain ⟨fuel, rfl⟩ : ∃ f, fuel = f + 1 := ⟨fuel - 1, by omega⟩
    have hopen : mark "(" ('(' :: (commas us ++ [')']) ++ infixed "=>" rest) =
        some (commas us ++ ')' :: infixed "=>" rest) := by
      simp [mark, skipBlanks, after, isBlank, List.isPrefixOf?]
    have hm : mark "=>" (infixed "=>" rest) = some (' ' :: rest) := rfl
    rw [arrowHead, hopen]
    exact (Leads.partsTo (show ")" ∈ _ by simp) .nil
      (fun fuel cs => (skipsBlanks fuel cs).patternElement) h (by omega) rfl rfl rfl).closedBy hm

end

end Comprehend.Parser
