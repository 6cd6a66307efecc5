import Comprehend.Proofs.Syntax.Bracket

/-! # Texts of links and constructions -/

namespace Comprehend.Parser

open Comprehend.Text Comprehend.Lexeme

/-- A reader of links, as far as both readers of links agree. -/
structure Walks (walk : Nat → Node → List Char → Outcomes Node) : Prop where
  member : ∀ {w rest : List Char} (fuel : Nat) (x : Node), word w = some (w, []) → Free rest →
    walk (fuel + 1) x ('.' :: (w ++ rest)) =
      walk fuel (.member false x (token .propertyName w)) rest
  index : ∀ (fuel : Nat) (x : Node) (cs : List Char), walk (fuel + 1) x ('[' :: cs) =
    ((expression fuel cs).closedBy "]").andThen fun key r => walk fuel (.index false x key) r
  tagged : ∀ {t : List Char} (fuel : Nat) (x : Node) (rest : List Char),
    template t = some (t, []) →
      walk (fuel + 1) x (t ++ rest) = walk fuel (.tagged x (token .template t)) rest

theorem dot_of_word {w rest : List Char} (hw : word w = some (w, [])) (hr : Free rest) :
    ((mark "." ('.' :: (w ++ rest))).bind fun r => word (skipBlanks r)) = some (w, rest) := by
  have hword := word_append hw hr
  have hm : mark "." ('.' :: (w ++ rest)) = some (w ++ rest) := rfl
  rw [hm, Option.bind_some, skipBlanks_of_word hword, hword]

theorem marks_of_template (cs : List Char) : mark "." ('\x60' :: cs) = none ∧
    mark "[" ('\x60' :: cs) = none ∧ mark "(" ('\x60' :: cs) = none ∧
    skipBlanks ('\x60' :: cs) = '\x60' :: cs :=
  ⟨rfl, rfl, rfl, rfl⟩

theorem walks_links : Walks links where
  member fuel x hw hr := by
    rw [links, dot_of_word hw hr]
  index fuel x cs := by rw [links]; rfl
  tagged fuel x rest ht := by
    have happ := template_append ht rest
    obtain ⟨t, rfl⟩ := template_eq_some ht
    obtain ⟨hdot, hsquare, hround, hskip⟩ := marks_of_template (t ++ rest)
    rw [links, List.cons_append, hdot, hsquare, hround, hskip, ← List.cons_append, happ]
    rfl

theorem walks_memberLinks : Walks memberLinks where
  member fuel x hw hr := by
    rw [memberLinks, dot_of_word hw hr]
  index fuel x cs := by rw [memberLinks]; rfl
  tagged fuel x rest ht := by
    have happ := template_append ht rest
    obtain ⟨t, rfl⟩ := template_eq_some ht
    obtain ⟨hdot, hsquare, -, hskip⟩ := marks_of_template (t ++ rest)
    rw [memberLinks, List.cons_append, hdot, hsquare, hskip, ← List.cons_append, happ]
    rfl

section

variable {walk : Nat → Node → List Char → Outcomes Node} {u v w t : List Char} {x y : Node}
  {level : Nat}

/-- A text goes on with a link that the reader of links takes from any fuel but the last. -/
theorem StartsBefore.extend {P Q : List Char → Prop} (k : Nat) (hk : k ≤ 32 * v.length)
    (h : StartsBefore P walk u x) (hrest : ∀ ⦃rest⦄, Q rest → P (v ++ rest))
    (hstep : ∀ ⦃fuel rest⦄, Q rest → 32 * v.length < fuel + k →
      walk fuel y rest <+: walk (fuel + k) x (v ++ rest)) : StartsBefore Q walk (u ++ v) y := by
  intro fuel rest hr hf
  simp only [List.length_append] at hf ⊢
  obtain ⟨f, x₀, r₀, hf', hx₀, hwalk⟩ := h (hrest hr) (f := fuel) (by omega)
  obtain ⟨f, rfl⟩ : ∃ g, f = g + k := ⟨f - k, by omega⟩
  rw [List.append_assoc]
  exact ⟨f, x₀, r₀, by omega, hx₀, (hstep hr (by omega)).trans hwalk⟩

/-- What the first outcome leads to comes before what the others lead to. -/
theorem Leads.prefix_andThen {os : Outcomes α} {x : α} {r : List Char} (h : Leads os x r)
    (f : α → List Char → Outcomes β) : f x r <+: os.andThen f := by
  obtain ⟨more, rfl⟩ := h
  exact ⟨Outcomes.andThen more f, by simp [Outcomes.andThen]⟩

theorem Starts.member (hwalk : Walks walk) (h : Starts walk u x) (hw : word w = some (w, [])) :
    Starts walk (u ++ '.' :: w) (.member false x (token .propertyName w)) := by
  refine h.extend 1 (by simp only [List.length_cons]; omega) (fun _ _ => rfl)
    fun fuel rest hr _ => ?_
  exact hwalk.member fuel x hw hr ▸ List.prefix_refl _

theorem Starts.index (hwalk : Walks walk) (h : Starts walk u x) (hv : Reads level v y) :
    Starts walk (u ++ '[' :: (v ++ [']'])) (.index false x y) := by
  refine h.extend 1 (by simp only [List.length_cons]; omega) (fun _ _ => rfl)
    fun fuel rest hr hf => ?_
  simp only [List.length_cons, List.length_append, List.length_nil] at hf
  rw [List.cons_append, hwalk.index, List.append_assoc]
  have hkey : Leads (expression fuel (v ++ (']' :: rest))) y (']' :: rest) :=
    hv.expression (.of_closes rfl) (by omega)
  exact (hkey.closedBy (t := rest) rfl).prefix_andThen fun key r =>
    walk fuel (.index false x key) r

theorem Starts.tagged (hwalk : Walks walk) (h : Starts walk u x) (ht : template t = some (t, [])) :
    Starts walk (u ++ t) (.tagged x (token .template t)) := by
  obtain ⟨t', ht'⟩ := template_eq_some ht
  refine h.extend 1 (by rw [ht']; simp only [List.length_cons]; omega)
    (fun _ _ => by rw [ht']; rfl) fun fuel rest hr _ => ?_
  exact hwalk.tagged fuel x rest ht ▸ List.prefix_refl _

variable {us : List (List Char)} {xs : List Node}

/-- A call ends with its parenthesis, whatever stands behind it. -/
theorem StartsBefore.call {P Q : List Char → Prop} (h : StartsBefore P links u x)
    (hP : ∀ cs, P ('(' :: cs)) (ha : List.Forall₂ (ReadsPart element) us xs) :
    StartsBefore Q links (u ++ '(' :: (commas us ++ [')'])) (.call false x xs) := by
  refine h.extend 1 (by simp only [List.length_cons]; omega) (fun _ _ => hP _)
    fun fuel rest hr hf => ?_
  simp only [List.length_cons, List.length_append, List.length_nil] at hf
  have hstep (cs : List Char) : links (fuel + 1) x ('(' :: cs) =
      (itemsTo ")" (element fuel) cs).andThen fun args r => links fuel (.call false x args) r := by
    rw [links]
    rfl
  rw [List.cons_append, hstep, List.append_assoc]
  have hargs : Leads (itemsTo ")" (element fuel) (commas us ++ (')' :: rest))) xs rest :=
    Leads.arguments ha (by omega) rest
  exact hargs.prefix_andThen fun args r => links fuel (.call false x args) r

theorem Starts.call (h : Starts links u x) (ha : List.Forall₂ (ReadsPart element) us xs) :
    Starts links (u ++ '(' :: (commas us ++ [')'])) (.call false x xs) :=
  StartsBefore.call h (fun _ => rfl) ha

theorem links_optional (fuel : Nat) (x : Node) {c : Char} (hc : c.isDigit = false) (cs : List Char) :
    links (fuel + 1) x ('?' :: '.' :: c :: cs) = optionalLink fuel x (c :: cs) := by
  have ho : optionalAt ('?' :: '.' :: c :: cs) = some (c :: cs) := by
    have hm : mark "?." ('?' :: '.' :: c :: cs) = some (c :: cs) := rfl
    rw [optionalAt, hm]
    simp [startsWith, hc]
  have hdot : mark "." ('?' :: '.' :: c :: cs) = none := rfl
  have hsquare : mark "[" ('?' :: '.' :: c :: cs) = none := rfl
  have hround : mark "(" ('?' :: '.' :: c :: cs) = none := rfl
  have htemplate : template (skipBlanks ('?' :: '.' :: c :: cs)) = none := rfl
  rw [links, hdot, hsquare, hround, htemplate, ho]
  rfl

theorem Starts.optionalMember (h : Starts links u x) (hw : word w = some (w, [])) :
    Starts links (u ++ '?' :: '.' :: w) (.member true x (token .propertyName w)) := by
  refine h.extend 2 (by simp only [List.length_cons]; omega) (fun _ _ => rfl)
    fun fuel rest hr _ => ?_
  have hword := word_append hw hr
  obtain ⟨c, t, rfl, hc, -⟩ := word_eq_some hw
  have hdigit : c.isDigit = false := Bool.eq_false_iff.2 fun hd => by
    rw [isNameStart_of_isDigit hd] at hc
    cases hc
  rw [List.cons_append] at hword
  rw [List.cons_append, List.cons_append, List.cons_append, links_optional _ _ hdigit, optionalLink,
    mark_of_word hword rfl rfl]
  simp only [mark_of_word hword (s := "(") rfl rfl, skipBlanks_of_word hword, hword]
  exact List.prefix_refl _

theorem Starts.optionalIndex (h : Starts links u x) (hv : Reads level v y) :
    Starts links (u ++ '?' :: '.' :: '[' :: (v ++ [']'])) (.index true x y) := by
  refine h.extend 2 (by simp only [List.length_cons]; omega) (fun _ _ => rfl)
    fun fuel rest hr hf => ?_
  simp only [List.length_cons, List.length_append, List.length_nil] at hf
  have hstep (cs : List Char) : links (fuel + 2) x ('?' :: '.' :: '[' :: cs) =
      ((expression fuel cs).closedBy "]").andThen fun key r => links fuel (.index true x key) r := by
    rw [links_optional _ _ rfl, optionalLink]
    rfl
  rw [List.cons_append, List.cons_append, List.cons_append, hstep, List.append_assoc]
  have hkey : Leads (expression fuel (v ++ (']' :: rest))) y (']' :: rest) :=
    hv.expression (.of_closes rfl) (by omega)
  exact (hkey.closedBy (t := rest) rfl).prefix_andThen fun key r =>
    links fuel (.index true x key) r

theorem Starts.optionalCall (h : Starts links u x) (ha : List.Forall₂ (ReadsPart element) us xs) :
    Starts links (u ++ '?' :: '.' :: '(' :: (commas us ++ [')'])) (.call true x xs) := by
  refine h.extend 2 (by simp only [List.length_cons]; omega) (fun _ _ => rfl)
    fun fuel rest hr hf => ?_
  simp only [List.length_cons, List.length_append, List.length_nil] at hf
  have hstep (cs : List Char) : links (fuel + 2) x ('?' :: '.' :: '(' :: cs) =
      (itemsTo ")" (element fuel) cs).andThen fun args r => links fuel (.call true x args) r := by
    rw [links_optional _ _ rfl, optionalLink]
    rfl
  rw [List.cons_append, List.cons_append, List.cons_append, hstep, List.append_assoc]
  have hargs : Leads (itemsTo ")" (element fuel) (commas us ++ (')' :: rest))) xs rest :=
    Leads.arguments ha (by omega) rest
  exact hargs.prefix_andThen fun args r => links fuel (.call true x args) r

/-! ## Linked texts -/

theorem GoesOn.of_cons {c : Char} (hf : isNamePart c = false) (hb : isBlank c = false)
    (hc : c ∉ [',', ')', ']', '\x7d', '=']) (cs : List Char) : GoesOn (c :: cs) := by
  simp only [List.mem_cons, List.not_mem_nil, or_false, not_or] at hc
  have hmark {spelling : String} {a : Char} {as : List Char} (hs : spelling.toList = a :: as)
      (ha : c ≠ a) : mark spelling (c :: cs) = none := mark_cons_of_ne hs hb (Ne.symm ha)
  exact ⟨hf, .of_mark (hmark rfl hc.1) (hmark rfl hc.2.1) (hmark rfl hc.2.2.1)
    (hmark rfl hc.2.2.2.1) (hmark rfl hc.2.2.2.2), hmark rfl hc.2.2.2.2⟩

/-- A text with a link is read as tightly as the text before it, but for the readers of links. -/
theorem Reads.linked {s t : Nat} (h : Reads s u x) (hts : t ≤ s) (ht : 18 ≤ t) (ht' : t ≤ 19)
    (hv : ∀ rest, GoesOn (v ++ rest)) (hl : Starts Parser.links u x → Starts Parser.links (u ++ v) y)
    (hm : 19 ≤ t → Starts Parser.memberLinks u x → Starts Parser.memberLinks (u ++ v) y) : Reads t (u ++ v) y :=
  .of_memberLinks (h.toOpens.append hv hts ht') ht (hl (h.links (by omega)))
    fun h19 => hm h19 (h.memberLinks (by omega))

theorem Reads.member {s t : Nat} (h : Reads s u x) (hts : t ≤ s) (ht : 18 ≤ t) (ht' : t ≤ 19)
    (hw : word w = some (w, [])) :
    Reads t (u ++ '.' :: w) (.member false x (token .propertyName w)) :=
  h.linked hts ht ht' (fun rest => .of_cons rfl rfl (by decide) _) (·.member walks_links hw)
    fun _ hm => hm.member walks_memberLinks hw

theorem Reads.optionalMember {s : Nat} (h : Reads s u x) (hs : 18 ≤ s) (hw : word w = some (w, [])) :
    Reads 18 (u ++ '?' :: '.' :: w) (.member true x (token .propertyName w)) :=
  h.linked hs (by omega) (by omega) (fun rest => .of_cons rfl rfl (by decide) _) (·.optionalMember hw)
    fun h19 => by omega

theorem Reads.index {s t : Nat} (h : Reads s u x) (hts : t ≤ s) (ht : 18 ≤ t) (ht' : t ≤ 19)
    (hv : Reads level v y) : Reads t (u ++ '[' :: (v ++ [']'])) (.index false x y) :=
  h.linked hts ht ht' (fun rest => .of_cons rfl rfl (by decide) _) (·.index walks_links hv)
    fun _ hm => hm.index walks_memberLinks hv

theorem Reads.optionalIndex {s : Nat} (h : Reads s u x) (hs : 18 ≤ s) (hv : Reads level v y) :
    Reads 18 (u ++ '?' :: '.' :: '[' :: (v ++ [']'])) (.index true x y) :=
  h.linked hs (by omega) (by omega) (fun rest => .of_cons rfl rfl (by decide) _) (·.optionalIndex hv)
    fun h19 => by omega

theorem Reads.tagged {s t' : Nat} (h : Reads s u x) (hts : t' ≤ s) (ht : 18 ≤ t') (ht' : t' ≤ 19)
    (htemplate : template t = some (t, [])) :
    Reads t' (u ++ t) (.tagged x (token .template t)) := by
  obtain ⟨r, hr⟩ := template_eq_some htemplate
  exact h.linked hts ht ht' (fun rest => by rw [hr]; exact .of_cons rfl rfl (by decide) _)
    (·.tagged walks_links htemplate) fun _ hm => hm.tagged walks_memberLinks htemplate

theorem Reads.call {s : Nat} (h : Reads s u x) (hs : 18 ≤ s)
    (ha : List.Forall₂ (ReadsPart Parser.element) us xs) :
    Reads 18 (u ++ '(' :: (commas us ++ [')'])) (.call false x xs) :=
  h.linked hs (by omega) (by omega) (fun rest => .of_cons rfl rfl (by decide) _) (·.call ha)
    fun h19 => by omega

theorem Reads.optionalCall {s : Nat} (h : Reads s u x) (hs : 18 ≤ s)
    (ha : List.Forall₂ (ReadsPart Parser.element) us xs) :
    Reads 18 (u ++ '?' :: '.' :: '(' :: (commas us ++ [')'])) (.call true x xs) :=
  h.linked hs (by omega) (by omega) (fun rest => .of_cons rfl rfl (by decide) _) (·.optionalCall ha)
    fun h19 => by omega

end

/-! ## Constructions -/

/-- A text that is read as the callee of a construction, up to its arguments. -/
def Constructs (u : List Char) (x : Node) : Prop :=
  ∀ ⦃f : Nat⦄ (rest : List Char), 32 * u.length ≤ f + 18 →
    ∃ x₀ r₀, Leads (heads f (u ++ '(' :: rest)) (x₀, true) r₀ ∧
      Leads (memberLinks f x₀ r₀) x ('(' :: rest)

theorem memberLinks_paren (fuel : Nat) (x : Node) (rest : List Char) :
    memberLinks (fuel + 1) x ('(' :: rest) = one x ('(' :: rest) := by
  rw [memberLinks]
  rfl

theorem Reads.constructs {level : Nat} {u : List Char} {x : Node} (h : Reads level u x)
    (hl : 19 ≤ level) : Constructs u x := by
  intro fuel rest hf
  have hfree : Free ('(' :: rest) := rfl
  obtain ⟨f, x₀, r₀, hf', hx₀, hwalk⟩ := h.memberLinks hl hfree hf
  obtain ⟨f, rfl⟩ : ∃ g, f = g + 1 := ⟨f - 1, by omega⟩
  rw [memberLinks_paren] at hwalk
  exact ⟨x₀, r₀, hx₀, (Leads.one _ _).of_isPrefix hwalk⟩

theorem constructs_number {t : List Char} (h : number t = some (t, [])) :
    Constructs t (.leaf .number (token .number t)) := by
  intro fuel rest hf
  have hu := (opens_number h (Nat.zero_le _)).length_pos
  obtain ⟨fuel, rfl⟩ : ∃ f, fuel = f + 1 := ⟨fuel - 1, by omega⟩
  refine ⟨.leaf .number (token .number t), '(' :: rest, ?_, ?_⟩
  · have hfree : Free ('(' :: rest) := rfl
    rw [heads_of_number h hfree rfl]
    exact .one _ _
  · rw [memberLinks_paren]
    exact .one _ _

theorem construction_succ (fuel : Nat) (cs : List Char) :
    construction (fuel + 1) cs = (heads fuel cs).andThen fun x r =>
      if x.2 then
        (memberLinks fuel x.1 r).andThen fun callee r =>
          match mark "(" r with
          | some r => (itemsTo ")" (element fuel) r).giving fun args => (.construct callee args, true)
          | none => one (.construct callee [], false) r
      else one (.construct x.1 [], false) r := by
  unfold construction heads
  rfl

theorem heads_space (fuel : Nat) (cs : List Char) : heads fuel (' ' :: cs) = heads fuel cs := by
  rw [heads, heads, skipBlanks_space, (skipsBlanks fuel cs).primary]

/-- What stands after the keyword of a construction. -/
def constructTail (u : List Char) (us : List (List Char)) : List Char :=
  ' ' :: (u ++ '(' :: (commas us ++ [')']))

theorem Constructs.reads {u : List Char} {x : Node} (h : Constructs u x) {us : List (List Char)}
    {xs : List Node} (ha : List.Forall₂ (ReadsPart element) us xs) :
    Reads 19 ("new".toList ++ constructTail u us) (.construct x xs) := by
  have hword : word "new".toList = some ("new".toList, []) := rfl
  have ho : Opens 19 ("new".toList ++ constructTail u us) :=
    .of_word hword (fun rest _ => rfl) (.inl rfl) (fun _ => by decide) fun h => by omega
  have hlen : ("new".toList ++ constructTail u us).length = u.length + (commas us).length + 6 := by
    simp only [constructTail, List.length_append, List.length_cons, List.length_nil,
      String.reduceToList]
    omega
  have hstarts (walk : Nat → Node → List Char → Outcomes Node) :
      Starts walk ("new".toList ++ constructTail u us) (.construct x xs) := by
    intro fuel rest hr hf
    rw [hlen] at hf ⊢
    refine ⟨fuel, .construct x xs, rest, by omega, ?_, List.prefix_refl _⟩
    obtain ⟨fuel, rfl⟩ : ∃ f, fuel = f + 1 := ⟨fuel - 1, by omega⟩
    have hnew : heads (fuel + 1) ("new".toList ++ constructTail u us ++ rest) =
        construction (fuel + 1) (' ' :: (u ++ '(' :: (commas us ++ ')' :: rest))) := by
      simp only [constructTail, List.append_assoc, List.cons_append, List.nil_append]
      rfl
    obtain ⟨x₀, r₀, hx₀, hx⟩ := h (f := fuel) (commas us ++ ')' :: rest) (by omega)
    rw [hnew, construction_succ, heads_space]
    refine hx₀.andThen ?_
    rw [if_pos rfl]
    refine hx.andThen ?_
    have hm : mark "(" ('(' :: (commas us ++ ')' :: rest)) = some (commas us ++ ')' :: rest) := rfl
    simp only [hm]
    exact (Leads.arguments ha (by omega) rest).giving _
  exact .of_memberLinks ho (by omega) (hstarts _) fun _ => hstarts _

end Comprehend.Parser
