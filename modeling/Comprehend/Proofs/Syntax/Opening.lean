import Comprehend.Proofs.Syntax.Reads

/-! # How expressions start

Whether a text is tried as something else first, an arrow function, a construction or an operand
with a sign, depends on how it starts: on a word, on some other character, or on a bracket. A text
that is a longer text's start passes all of this on to it. -/

namespace Comprehend.Parser

open Comprehend.Text Comprehend.Lexeme

/-! ## Words -/

theorem isSpace_eq_false_of_isNamePart {c : Char} (h : isNamePart c = true) : isSpace c = false := by
  rcases isNamePart_iff_toNat.1 h with h | h | rfl | rfl
  iterate 2
    simp only [isSpace, Bool.or_eq_false_iff, Bool.and_eq_false_imp, decide_eq_true_eq,
      decide_eq_false_iff_not, beq_eq_false_iff_ne]
    omega
  · rfl
  · rfl

theorem isBlank_eq_false_of_isSpace {c : Char} (h : isSpace c = false) : isBlank c = false :=
  Bool.eq_false_iff.2 fun hb => by rw [isSpace_of_isBlank hb] at h; cases h

theorem isNamePart_of_isNameStart {c : Char} (h : isNameStart c = true) : isNamePart c = true := by
  simp only [isNameStart, isNamePart, Char.isAlphanum, Bool.or_eq_true] at h ⊢
  tauto

theorem skipBlanks_of_word {cs w r : List Char} (h : word cs = some (w, r)) : skipBlanks cs = cs := by
  obtain ⟨c, t, rfl, hc, -⟩ := word_eq_some h
  rw [← append_of_word h]
  exact skipBlanks_of_ne
    (isBlank_eq_false_of_isSpace (isSpace_eq_false_of_isNamePart (isNamePart_of_isNameStart hc))) _

/-- A mark that is no name does not stand in front of a word. -/
theorem mark_of_word {cs w r : List Char} (h : word cs = some (w, r)) {s : String} {a : Char}
    {as : List Char} (hs : s.toList = a :: as) (ha : isNameStart a = false) :
    mark s cs = none := by
  obtain ⟨c, t, rfl, hc, -⟩ := word_eq_some h
  rw [mark, skipBlanks_of_word h, ← append_of_word h, after, hs]
  have : a ≠ c := by
    rintro rfl
    rw [ha] at hc
    cases hc
  simp [List.isPrefixOf?, this]

theorem append_of_after {spelling : String} {cs r : List Char} (h : after spelling cs = some r) :
    cs = spelling.toList ++ r := by
  unfold after at h
  generalize spelling.toList = s at h
  induction s generalizing cs with
  | nil => simpa [List.isPrefixOf?] using h
  | cons a s ih =>
    cases cs with
    | nil => cases h
    | cons c cs =>
      simp only [List.isPrefixOf?] at h
      split at h
      · next hac => rw [List.cons_append, ← ih h, beq_iff_eq.1 hac]
      · cases h

/-- A keyword is the whole of a word. -/
theorem word_of_keyword {spelling : String} {cs r : List Char}
    (hs : word spelling.toList = some (spelling.toList, [])) (h : keyword spelling cs = some r) :
    word cs = some (spelling.toList, r) := by
  rw [keyword, Option.filter_eq_some_iff] at h
  obtain ⟨hafter, hfree⟩ := h
  rw [append_of_after hafter]
  exact word_append hs (by simpa [Free] using hfree)

theorem keyword_of_word {cs w r : List Char} (h : word cs = some (w, r)) {spelling : String}
    (hs : word spelling.toList = some (spelling.toList, [])) (hne : w ≠ spelling.toList) :
    keyword spelling cs = none := by
  cases hk : keyword spelling cs with
  | none => rfl
  | some k =>
    rw [word_of_keyword hs hk] at h
    cases h
    exact absurd rfl hne

theorem plainName_of_word {cs w r : List Char} (h : word cs = some (w, r)) :
    plainName cs = if isReserved w then none else some (w, r) := by
  rw [plainName, skipBlanks_of_word h, h, Option.filter_some]
  cases isReserved w <;> rfl

theorem isNameStart_of_isDigit {c : Char} (h : c.isDigit = true) : isNameStart c = false := by
  refine Bool.eq_false_iff.2 fun hc => ?_
  have h : 48 ≤ c.toNat ∧ c.toNat ≤ 57 := Char.isDigit_iff_toNat.1 h
  rw [isNameStart, Bool.or_eq_true, Bool.or_eq_true, isAlpha_iff_toNat, beq_iff_eq, beq_iff_eq] at hc
  rcases hc with (hc | rfl) | rfl
  · omega
  · exact absurd h (by decide)
  · exact absurd h (by decide)

theorem opensItem_of_isNamePart {c : Char} (h : isNamePart c = true) : opensItem c = true := by
  rw [opensItem, isSpace_eq_false_of_isNamePart h, Bool.not_false, Bool.true_and, Bool.not_eq_true']
  by_contra hc
  simp only [Bool.not_eq_false, List.contains_iff_mem, String.reduceToList, List.mem_cons,
    List.not_mem_nil, or_false] at hc
  rcases hc with rfl | rfl | rfl | rfl <;> cases h

theorem opensItem_of_isNameStart {c : Char} (h : isNameStart c = true) : opensItem c = true :=
  opensItem_of_isNamePart (isNamePart_of_isNameStart h)

/-- Words that are operators. -/
def signWords : List (List Char) := ["typeof".toList, "void".toList, "delete".toList]

theorem unaryAt_of_word {cs w r : List Char} (h : word cs = some (w, r)) (hw : w ∉ signWords) :
    unaryAt cs = none := by
  obtain ⟨c, t, rfl, hc, -⟩ := word_eq_some h
  have hkey {s : String} (hs : s.toList ∈ signWords) (hself : word s.toList = some (s.toList, [])) :
      keyword s cs = none := keyword_of_word h hself fun he => hw (he ▸ hs)
  have hstart := append_of_word h
  rw [unaryAt, skipBlanks_of_word h]
  split
  · cases hstart; cases hc
  · cases hstart; cases hc
  · cases hstart; cases hc
  · cases hstart; cases hc
  · simp only [List.findSome?_cons, List.findSome?_nil,
      hkey (s := "typeof") (by decide) rfl, hkey (s := "void") (by decide) rfl,
      hkey (s := "delete") (by decide) rfl, Option.map_none]

theorem updateAt_of_word {cs w r : List Char} (h : word cs = some (w, r)) : updateAt cs = none := by
  obtain ⟨c, t, rfl, hc, -⟩ := word_eq_some h
  have hstart := append_of_word h
  have hafter {s : String} {a : Char} {as : List Char} (hs : s.toList = a :: as)
      (ha : isNameStart a = false) : after s cs = none := by
    simpa [mark, skipBlanks_of_word h] using mark_of_word h hs ha
  rw [updateAt, skipBlanks_of_word h, anyOf]
  simp only [List.findSome?_cons, List.findSome?_nil, hafter (s := "++") rfl rfl,
    hafter (s := "--") rfl rfl, Option.map_none]

/-- A text that starts with a word. Where the word is no keyword, it is all of the text. -/
theorem Opens.of_word {level : Nat} {w t : List Char} (hw : word w = some (w, []))
    (ht : ∀ ⦃rest⦄, Free rest → Free (t ++ rest)) (hname : isReserved w = true ∨ t = [])
    (hsign : 16 ≤ level → w ∉ signWords) (hnew : 20 ≤ level → w ≠ "new".toList) :
    Opens level (w ++ t) := by
  have hword {rest : List Char} (hr : Free rest) : word (w ++ t ++ rest) = some (w, t ++ rest) := by
    rw [List.append_assoc]
    exact word_append hw (ht hr)
  obtain ⟨c, v, hcv, hc, -⟩ := word_eq_some hw
  have hitem := opensItem_of_isNameStart hc
  have hblank := isBlank_eq_false_of_isSpace
    (isSpace_eq_false_of_isNamePart (isNamePart_of_isNameStart hc))
  refine ⟨⟨c, v ++ t, by rw [hcv]; rfl, hitem⟩, fun rest => ?_, ?_, ?_, ?_, ?_, fun _ => ?_⟩
  · rw [hcv]
    refine mark_cons_of_ne rfl hblank ?_
    rintro rfl
    cases hc
  · intro fuel rest hr o ho
    cases fuel with
    | zero => cases ho
    | succ fuel =>
      rw [bindingTarget, mark_of_word (hword hr) rfl rfl] at ho
      simp only [mark_of_word (hword hr) (s := "\x7b") rfl rfl,
        plainName_of_word (hword hr)] at ho
      rcases hname with hres | rfl
      · rw [if_pos hres] at ho
        cases ho
      · split at ho
        · next heq =>
          split at heq
          · cases heq
          · cases heq
            obtain rfl := List.mem_singleton.1 ho
            exact .inl rfl
        · cases ho
  · intro _ fuel rest hr harrow
    cases fuel with
    | zero => rfl
    | succ fuel =>
      rw [arrowHead, mark_of_word (hword hr) rfl rfl]
      simp only [plainName_of_word (hword hr)]
      rcases hname with hres | rfl
      · rw [if_pos hres]
      · split
        · next heq =>
          split at heq
          · cases heq
          · cases heq
            rw [Outcomes.closedBy, andThen_one, List.nil_append, harrow]
        · rfl
  · intro hl rest hr
    exact ⟨unaryAt_of_word (hword hr) (hsign hl), updateAt_of_word (hword hr)⟩
  · intro hl rest hr
    rw [skipBlanks_of_word (hword hr)]
    exact keyword_of_word (hword hr) rfl (hnew hl)
  · rw [hcv]
    refine beq_eq_false_iff_ne.2 ?_
    rintro rfl
    cases hc

/-! ## Other characters -/

theorem word_of_ne {c : Char} (hc : isNameStart c = false) (cs : List Char) : word (c :: cs) = none := by
  simp [word, hc]

/-- A number starts with a digit or with its point. -/
theorem number_of_ne {c : Char} (hd : c.isDigit = false) (hdot : c ≠ '.') (cs : List Char) :
    number (c :: cs) = none := by
  have hdecimal : decimal (c :: cs) = none := by simp [decimal, hd, hdot]
  unfold number
  split
  · next heq =>
    cases heq
    cases hd
  · exact hdecimal

theorem plainName_of_ne {c : Char} (hc : isNameStart c = false) (hb : isBlank c = false)
    (cs : List Char) : plainName (c :: cs) = none := by
  rw [plainName, skipBlanks_of_ne hb, word_of_ne hc]
  rfl

theorem after_of_ne {s : String} {a c : Char} {as : List Char} (hs : s.toList = a :: as)
    (hne : a ≠ c) (cs : List Char) : after s (c :: cs) = none := by
  rw [after, hs]
  simp [List.isPrefixOf?, hne]

theorem keyword_of_ne {spelling : String} {a c : Char} {as : List Char}
    (hs : spelling.toList = a :: as) (hne : a ≠ c) (cs : List Char) :
    keyword spelling (c :: cs) = none := by
  rw [keyword, after_of_ne hs hne]
  rfl

theorem unaryAt_of_ne {c : Char} (hc : isNameStart c = false) (hb : isBlank c = false)
    (hs : c ∉ ['-', '+', '!', '~']) (cs : List Char) :
    unaryAt (c :: cs) = none ∧ updateAt (c :: cs) = none := by
  have hkey {s : String} {a : Char} {as : List Char} (h : s.toList = a :: as)
      (ha : isNameStart a = true) : keyword s (c :: cs) = none := by
    refine keyword_of_ne h ?_ cs
    rintro rfl
    rw [hc] at ha
    cases ha
  simp only [List.mem_cons, List.not_mem_nil, or_false, not_or] at hs
  constructor
  · rw [unaryAt, skipBlanks_of_ne hb]
    split
    · exact absurd (by assumption) (fun h => hs.1 (List.cons.inj h).1)
    · exact absurd (by assumption) (fun h => hs.2.1 (List.cons.inj h).1)
    · exact absurd (by assumption) (fun h => hs.2.2.1 (List.cons.inj h).1)
    · exact absurd (by assumption) (fun h => hs.2.2.2 (List.cons.inj h).1)
    · simp only [List.findSome?_cons, List.findSome?_nil, hkey (s := "typeof") rfl rfl,
        hkey (s := "void") rfl rfl, hkey (s := "delete") rfl rfl, Option.map_none]
  · rw [updateAt, skipBlanks_of_ne hb, anyOf]
    simp only [List.findSome?_cons, List.findSome?_nil,
      after_of_ne (s := "++") rfl (Ne.symm hs.2.1), after_of_ne (s := "--") rfl (Ne.symm hs.1),
      Option.map_none]

theorem isBlank_of_opensItem {c : Char} (h : opensItem c = true) : isBlank c = false := by
  simp only [opensItem, Bool.and_eq_true, Bool.not_eq_true'] at h
  exact isBlank_eq_false_of_isSpace h.1

section

variable {level : Nat} {c : Char} {t : List Char}

theorem Opens.of_char (hc : isNameStart c = false) (ho : opensItem c = true)
    (hspread : ∀ rest, mark "..." (c :: t ++ rest) = none)
    (hs : 16 ≤ level → c ∉ ['-', '+', '!', '~']) (hdot : 18 ≤ level → c ≠ '.')
    (hcover : ∀ ⦃fuel rest⦄, Free rest → ∀ o ∈ bindingTarget fuel (c :: t ++ rest),
      o.2 = rest ∨ Stuck o.2)
    (hhead : ∀ ⦃fuel rest⦄, Free rest → mark "=>" rest = none → arrowHead fuel (c :: t ++ rest) = []) :
    Opens level (c :: t) where
  item := ⟨c, t, rfl, ho⟩
  spread := hspread
  cover hr := hcover hr
  noHead _ _ _ hr ha := hhead hr ha
  noSign hl _ _ := unaryAt_of_ne hc (isBlank_of_opensItem ho) (hs hl) _
  noNew hl rest _ := by
    rw [List.cons_append, skipBlanks_of_ne (isBlank_of_opensItem ho)]
    refine keyword_of_ne rfl ?_ _
    rintro rfl
    cases hc
  noDot hl := beq_eq_false_iff_ne.2 (hdot hl)

theorem bindingTarget_of_ne (hc : isNameStart c = false) (ho : opensItem c = true) (hb : '[' ≠ c)
    (hb' : '\x7b' ≠ c) (fuel : Nat) (cs : List Char) : bindingTarget fuel (c :: cs) = [] := by
  have hblank := isBlank_of_opensItem ho
  cases fuel with
  | zero => rfl
  | succ fuel =>
    rw [bindingTarget, mark_cons_of_ne rfl hblank hb]
    simp only [mark_cons_of_ne (s := "\x7b") rfl hblank hb', plainName_of_ne hc hblank]

theorem arrowHead_of_ne (hc : isNameStart c = false) (ho : opensItem c = true) (hp : '(' ≠ c)
    (fuel : Nat) (cs : List Char) : arrowHead fuel (c :: cs) = [] := by
  have hblank := isBlank_of_opensItem ho
  cases fuel with
  | zero => rfl
  | succ fuel =>
    rw [arrowHead, mark_cons_of_ne rfl hblank hp]
    simp only [plainName_of_ne hc hblank]

/-- A text that starts with a character of its own, neither a bracket nor part of a word. -/
theorem Opens.of_symbol (hc : isNameStart c = false) (ho : opensItem c = true)
    (hb : c ∉ ['[', '\x7b', '(']) (hspread : ∀ rest, mark "..." (c :: t ++ rest) = none)
    (hs : 16 ≤ level → c ∉ ['-', '+', '!', '~']) (hdot : 18 ≤ level → c ≠ '.') :
    Opens level (c :: t) := by
  simp only [List.mem_cons, List.not_mem_nil, or_false, not_or] at hb
  refine .of_char hc ho hspread hs hdot (fun fuel rest _ o h => ?_) fun fuel rest _ _ => ?_
  · rw [List.cons_append, bindingTarget_of_ne hc ho (Ne.symm hb.1) (Ne.symm hb.2.1)] at h
    cases h
  · exact arrowHead_of_ne hc ho (Ne.symm hb.2.2) fuel _

end

/-- A text goes on as far as its start does. -/
theorem Opens.append {s t : Nat} {u v : List Char} (h : Opens t u) (hv : ∀ rest, GoesOn (v ++ rest))
    (hst : s ≤ t) (hs : s ≤ 19) : Opens s (u ++ v) where
  item := h.item.append v
  spread rest := by
    rw [List.append_assoc]
    exact h.spread _
  cover {fuel rest} hr o ho := by
    rw [List.append_assoc] at ho
    rcases h.cover (hv rest).free o ho with h | h
    · exact .inr (h ▸ (hv rest).stuck)
    · exact .inr h
  noHead hl {fuel rest} hr _ := by
    rw [List.append_assoc]
    exact h.noHead (hl.trans hst) (hv rest).free (hv rest).arrow
  noSign hl rest hr := by
    rw [List.append_assoc]
    exact h.noSign (hl.trans hst) (hv rest).free
  noNew hl := by omega
  noDot hl := by
    obtain ⟨c, cs, rfl, -⟩ := h.item
    exact h.noDot (hl.trans hst)

/-! ## Lists read as patterns -/

/-- An item is taken to its end or left in front of something that no item goes on with. -/
def CoversItem (item : List Char → Outcomes α) (u : List Char) : Prop :=
  ∀ ⦃rest⦄, closes rest = true → ∀ o ∈ item (u ++ rest), o.2 = rest ∨ Stuck o.2

theorem mem_andThen {os : Outcomes α} {f : α → List Char → Outcomes β} {o : β × List Char} :
    o ∈ os.andThen f ↔ ∃ x r, (x, r) ∈ os ∧ o ∈ f x r := by
  simp [Outcomes.andThen, List.mem_flatMap]

theorem mem_giving {os : Outcomes α} {f : α → β} {o : β × List Char} :
    o ∈ os.giving f ↔ ∃ x, (x, o.2) ∈ os ∧ f x = o.1 := by
  obtain ⟨y, r⟩ := o
  simp [Outcomes.giving]

theorem mem_closedBy {os : Outcomes α} {spelling : String} {o : α × List Char} :
    o ∈ os.closedBy spelling ↔ ∃ r, (o.1, r) ∈ os ∧ mark spelling r = some o.2 := by
  obtain ⟨y, r⟩ := o
  simp only [Outcomes.closedBy, mem_andThen]
  constructor
  · rintro ⟨x, r', hx, h⟩
    split at h
    · next hm =>
      cases List.mem_singleton.1 h
      exact ⟨r', hx, hm⟩
    · cases h
  · rintro ⟨r', hx, hm⟩
    refine ⟨y, r', hx, ?_⟩
    rw [hm]
    exact List.mem_singleton.2 rfl

section

variable {item : List Char → Outcomes α} {us : List (List Char)} {close : String}
  {gap rest k : List Char}

theorem Stuck.closing (h : Stuck rest) (hclose : close ∈ [")", "]", "\x7d"]) :
    mark close rest = none := by
  simp only [List.mem_cons, List.not_mem_nil, or_false] at hclose
  rcases hclose with rfl | rfl | rfl
  · exact h.paren
  · exact h.bracket
  · exact h.brace

theorem items_cover (hclose : close ∈ [")", "]", "\x7d"]) (hb : ∀ cs, item (' ' :: cs) = item cs)
    {u : List Char} (h : ∀ v ∈ u :: us, CoversItem item v) (hr : closes rest = true)
    (hc : mark "," rest = none) {more : Nat} :
    ∀ o ∈ items item more (commas (u :: us) ++ rest), o.2 = rest ∨ mark close o.2 = none := by
  induction us generalizing u more with
  | nil =>
    intro o ho
    cases more with
    | zero => cases ho
    | succ more =>
      rw [items, mem_andThen] at ho
      obtain ⟨x, r, hx, ho⟩ := ho
      have hr := h u (by simp) hr _ hx
      have hcomma : mark "," r = none := by
        rcases hr with rfl | hr
        · exact hc
        · exact hr.comma
      rw [hcomma] at ho
      obtain rfl := List.mem_singleton.1 ho
      exact hr.imp_right (·.closing hclose)
  | cons v us ih =>
    intro o ho
    cases more with
    | zero => cases ho
    | succ more =>
      rw [commas_cons_cons, List.append_assoc, items, mem_andThen] at ho
      obtain ⟨x, r, hx, ho⟩ := ho
      rcases h u (by simp) (closes_comma _) _ hx with hnext | hr
      · simp only at hnext
        have hmark : mark "," r = some (' ' :: (commas (v :: us) ++ rest)) := by
          rw [hnext]
          rfl
        simp only [hmark, items_space hb] at ho
        split at ho
        · obtain rfl := List.mem_singleton.1 ho
          refine .inr ?_
          simp only [List.mem_cons, List.not_mem_nil, or_false] at hclose
          rw [hnext]
          rcases hclose with rfl | rfl | rfl <;> rfl
        · obtain ⟨y, hy, -⟩ := mem_giving.1 ho
          exact ih (fun v hv => h v (by simp [hv])) (y, o.2) hy
      · rw [hr.comma] at ho
        obtain rfl := List.mem_singleton.1 ho
        exact .inr (hr.closing hclose)

theorem itemsTo_cover (hclose : close ∈ [")", "]", "\x7d"]) (hg : Gap gap)
    (hb : ∀ cs, item (' ' :: cs) = item cs) (h : ∀ v ∈ us, CoversItem item v)
    (ho : ∀ u ∈ us, OpensItem u) (hr : closes rest = true) (hc : mark "," rest = none)
    (hk : mark close rest = some k) :
    ∀ o ∈ itemsTo close item (gap ++ (commas us ++ rest)), o.2 = k := by
  intro o hmem
  rw [itemsTo, hg.mark] at hmem
  cases us with
  | nil =>
    rw [commas, List.nil_append, hk] at hmem
    obtain rfl := List.mem_singleton.1 hmem
    rfl
  | cons u us =>
    have opens : OpensItem (commas (u :: us) ++ rest) :=
      (opensItem_commas (ho u (by simp))).append rest
    rw [opens.mark_eq_none (List.mem_cons_of_mem _ hclose)] at hmem
    obtain ⟨r, hmem, hm⟩ := mem_closedBy.1 hmem
    rw [items_gap hg hb] at hmem
    rcases items_cover hclose hb h hr hc _ hmem with rfl | hnone
    · rw [hk] at hm
      exact (Option.some.inj hm).symm
    · rw [hm] at hnone
      cases hnone

end

end Comprehend.Parser
