import Comprehend.Proofs.Graft.Scan
import Comprehend.Proofs.Syntax.Default

/-! # Tokens of a text with templates replaced

The scanners of the grammar, run at two places that come to one another. Where a replaced template
comes next they find the tag in the one text, and in the other one what an operand starts with.
Elsewhere they find the same, but for a literal that a tag stands in. -/

namespace Comprehend

open Comprehend.Text Comprehend.Lexeme Comprehend.Parser

namespace Grafting

variable {G : Grafting} {front b t w cs cs' r r' u u' v : List Char} {gs : List Graft} {c : Char}
  {s : String} {F F' : List Char → Prop}

/-! ## Kinds of places -/

/-- A place in both texts whose front part is of some kind. -/
def Place (G : Grafting) (F : List Char → Prop) (gs : List Graft) (cs cs' : List Char) : Prop :=
  ∃ front, F front ∧ G.At front gs cs cs'

/-- Such a place where no replaced template comes next. -/
def Plains (G : Grafting) (F : List Char → Prop) (gs : List Graft) (cs cs' : List Char) : Prop :=
  ∃ front, F front ∧ G.At front gs cs cs' ∧ G.Plain front gs cs cs'

/-- A front part of any kind. -/
abbrev Anywhere : List Char → Prop := fun _ => True

theorem Place.mono (h : G.Place F gs cs cs') (hF : ∀ front, F front → F' front) :
    G.Place F' gs cs cs' := by
  obtain ⟨front, hfront, hat⟩ := h
  exact ⟨front, hF front hfront, hat⟩

theorem Place.anywhere (h : G.Place F gs cs cs') : G.Place Anywhere gs cs cs' :=
  h.mono fun _ _ => trivial

theorem Plains.place (h : G.Plains F gs cs cs') : G.Place F gs cs cs' := by
  obtain ⟨front, hfront, hat, -⟩ := h
  exact ⟨front, hfront, hat⟩

theorem Place.plains_or_tagged (h : G.Place F gs cs cs') :
    G.Plains F gs cs cs' ∨ ∃ front, F front ∧ G.Tagged front gs cs cs' := by
  obtain ⟨front, hfront, hat⟩ := h
  exact hat.plain_or_tagged.imp (fun hp => ⟨front, hfront, hat, hp⟩) fun ht => ⟨front, hfront, ht⟩

/-- A scanner of marks that comes from places of one kind to places of another one, or nowhere. -/
def Alike (K K' : List Graft → List Char → List Char → Prop)
    (scan : List Char → Option (List Char)) : Prop :=
  ∀ ⦃gs cs cs'⦄, K gs cs cs' → Option.Rel (K' gs) (scan cs) (scan cs')

/-- The same of a scanner of tokens. -/
def AlikeTokens (K K' : List Graft → List Char → List Char → Prop)
    (scan : List Char → Option (α × List Char)) : Prop :=
  ∀ ⦃gs cs cs'⦄, K gs cs cs' →
    Option.Rel (fun p p' => p'.1 = p.1 ∧ K' gs p.2 p'.2) (scan cs) (scan cs')

section

variable {K K' K'' : List Graft → List Char → List Char → Prop}
  {mark next : List Char → Option (List Char)} {scan other : List Char → Option (α × List Char)}

theorem Alike.from (h : Alike K K' mark) (hK : ∀ gs cs cs', K'' gs cs cs' → K gs cs cs') :
    Alike K'' K' mark := fun _ _ _ hp => h (hK _ _ _ hp)

/-- A mark is found in both texts or in none. -/
theorem Alike.eq_none_iff (h : Alike K K' mark) (hp : K gs cs cs') :
    mark cs = none ↔ mark cs' = none := by
  have hm := h hp
  generalize mark cs = m, mark cs' = m' at hm
  cases hm <;> simp

theorem Alike.bind (h : Alike K K' mark) (hn : Alike K' K'' next) :
    Alike K K'' fun r => (mark r).bind next := by
  intro gs cs cs' hp
  have hm := h hp
  change Option.Rel _ ((mark cs).bind next) ((mark cs').bind next)
  generalize mark cs = m, mark cs' = m' at hm
  cases hm with
  | none => exact .none
  | some hr => exact hn hr

/-- A mark that may be left out, in front of one that may not. -/
theorem Alike.spare (h : Alike K K'' mark) (hn : Alike K K' next) (hn' : Alike K'' K' next) :
    Alike K K' fun r => next ((mark r).getD r) := by
  intro gs cs cs' hp
  have hm := h hp
  change Option.Rel _ (next ((mark cs).getD cs)) (next ((mark cs').getD cs'))
  generalize mark cs = m, mark cs' = m' at hm
  cases hm with
  | none => exact hn hp
  | some hr => exact hn' hr

theorem Alike.filter {p : List Char → Bool} (h : Alike K K' mark)
    (hp : ∀ gs r r', K' gs r r' → p r' = p r) : Alike K K' fun r => (mark r).filter p := by
  intro gs cs cs' hplace
  have hm := h hplace
  change Option.Rel _ ((mark cs).filter p) ((mark cs').filter p)
  generalize mark cs = m, mark cs' = m' at hm
  cases hm with
  | none => exact .none
  | some hr =>
    rw [Option.filter_some, Option.filter_some, hp _ _ _ hr]
    split
    · exact .some hr
    · exact .none

theorem AlikeTokens.eq_none_iff (h : AlikeTokens K K' scan) (hp : K gs cs cs') :
    scan cs = none ↔ scan cs' = none := by
  have hm := h hp
  generalize scan cs = m, scan cs' = m' at hm
  cases hm <;> simp

theorem Alike.token (h : Alike K K' mark) (x : α) : AlikeTokens K K' fun r => (mark r).map (x, ·) := by
  intro gs cs cs' hp
  have hm := h hp
  change Option.Rel _ ((mark cs).map (x, ·)) ((mark cs').map (x, ·))
  generalize mark cs = m, mark cs' = m' at hm
  cases hm with
  | none => exact .none
  | some hr => exact .some ⟨rfl, hr⟩

theorem Alike.andScan (h : Alike K K' mark) (hs : AlikeTokens K' K'' scan) :
    AlikeTokens K K'' fun r => (mark r).bind scan := by
  intro gs cs cs' hp
  have hm := h hp
  change Option.Rel _ ((mark cs).bind scan) ((mark cs').bind scan)
  generalize mark cs = m, mark cs' = m' at hm
  cases hm with
  | none => exact .none
  | some hr => exact hs hr

theorem AlikeTokens.map (h : AlikeTokens K K' scan) (f : α → β) :
    AlikeTokens K K' fun r => (scan r).map fun p => (f p.1, p.2) := by
  intro gs cs cs' hp
  have hm := h hp
  change Option.Rel _ ((scan cs).map _) ((scan cs').map _)
  generalize scan cs = m, scan cs' = m' at hm
  cases hm with
  | none => exact .none
  | some hr => exact .some ⟨congrArg f hr.1, hr.2⟩

theorem AlikeTokens.filter {p : α × List Char → Bool} (h : AlikeTokens K K' scan)
    (hp : ∀ x gs r r', K' gs r r' → p (x, r') = p (x, r)) :
    AlikeTokens K K' fun r => (scan r).filter p := by
  intro gs cs cs' hplace
  have hm := h hplace
  change Option.Rel _ ((scan cs).filter p) ((scan cs').filter p)
  generalize scan cs = m, scan cs' = m' at hm
  cases hm with
  | none => exact .none
  | @some q q' hr =>
    have heq : p q' = p q := by
      obtain ⟨x', r'⟩ := q'
      obtain ⟨rfl, hplace⟩ := hr
      exact hp _ _ _ _ hplace
    rw [Option.filter_some, Option.filter_some, heq]
    split
    · exact .some hr
    · exact .none

theorem AlikeTokens.or (h : AlikeTokens K K' scan) (ho : AlikeTokens K K' other) :
    AlikeTokens K K' fun r => (scan r).or (other r) := by
  intro gs cs cs' hp
  have hm := h hp
  change Option.Rel _ ((scan cs).or (other cs)) ((scan cs').or (other cs'))
  generalize scan cs = m, scan cs' = m' at hm
  cases hm with
  | none => exact ho hp
  | some hr => exact .some hr

theorem AlikeTokens.findSome {spellings : List β} {scan : β → List Char → Option (α × List Char)}
    (h : ∀ s ∈ spellings, AlikeTokens K K' (scan s)) :
    AlikeTokens K K' fun r => spellings.findSome? fun s => scan s r := by
  intro gs cs cs' hp
  induction spellings with
  | nil => exact .none
  | cons s spellings ih =>
    obtain ⟨hs, hrest⟩ := List.forall_mem_cons.1 h
    have hm := hs hp
    change Option.Rel _ ((s :: spellings).findSome? fun s => scan s cs)
      ((s :: spellings).findSome? fun s => scan s cs')
    rw [List.findSome?_cons, List.findSome?_cons]
    generalize scan s cs = m, scan s cs' = m' at hm
    cases hm with
    | none => exact ih hrest
    | some hr => exact .some hr

end

/-! ## Marks -/

theorem Plain.scan_mark (h : G.Plain front gs cs cs') (hs : isCoherent s.toList = true)
    (hF : ∀ v, F (v ++ s.toList)) : Option.Rel (G.Place F gs) (mark s cs) (mark s cs') := by
  obtain ⟨b, -, -, h⟩ := h
  have hafter := h.scan_after hs
  rw [mark, mark]
  generalize after s (skipBlanks cs) = a, after s (skipBlanks cs') = a' at hafter
  cases hafter with
  | none => exact .none
  | some hr => exact .some ⟨_, hF _, hr⟩

theorem alike_mark (hs : isCoherent s.toList = true) (hF : ∀ v, F' (v ++ s.toList)) :
    Alike (G.Plains F) (G.Place F') (mark s) := by
  intro gs cs cs' hp
  obtain ⟨front, -, -, hp⟩ := hp
  exact hp.scan_mark hs hF

theorem alike_mark_anywhere (hs : isCoherent s.toList = true) :
    Alike (G.Plains F) (G.Place Anywhere) (mark s) :=
  alike_mark hs fun _ => trivial

/-- A mark that what is put in does not start with. -/
def isAverse (s : String) : Bool :=
  isCoherent s.toList && s.toList.head?.any fun c => markTails.contains c || ",)]\x7d".toList.contains c

theorem Tagged.mark_eq_none (h : G.Tagged front gs cs cs') (hs : isAverse s = true) :
    mark s cs = none ∧ mark s cs' = none := by
  obtain ⟨b, -, h⟩ := h
  rw [isAverse, Bool.and_eq_true] at hs
  cases hl : s.toList with
  | nil =>
    rw [hl] at hs
    cases hs.2
  | cons a as =>
    rw [hl] at hs
    have ha : a ∈ markTails ∨ a ∈ ",)]\x7d".toList := by simpa using hs.2
    have hne : a ≠ 'l' := by
      rintro rfl
      revert ha
      decide
    obtain ⟨e, q, he, hitem, htail⟩ : ∃ e q, skipBlanks cs' = e :: q ∧ opensItem e = true ∧
        e ∉ markTails := by
      generalize skipBlanks cs = q, skipBlanks cs' = q' at h
      cases h with
      | @intro g gs r r' hg h =>
        obtain ⟨e, q, he, hitem⟩ := hg.code.item
        have htail := hg.code.tail
        rw [he] at htail
        exact ⟨e, q ++ r', by rw [he]; rfl, hitem, by simpa [startsWith] using htail⟩
    have hne' : a ≠ e := by
      rintro rfl
      rcases ha with ha | ha
      · exact htail ha
      · simp only [opensItem, Bool.and_eq_true, Bool.not_eq_true'] at hitem
        rw [List.contains_iff_mem.2 ha] at hitem
        cases hitem.2
    obtain ⟨q', hq'⟩ := h.tag
    rw [mark, mark, hq', he]
    exact ⟨after_of_ne hl hne _, after_of_ne hl hne' _⟩

theorem alike_averse (hs : isAverse s = true) (hF : ∀ v, F' (v ++ s.toList)) :
    Alike (G.Place F) (G.Place F') (mark s) := by
  intro gs cs cs' hp
  rcases hp.plains_or_tagged with hp | ⟨front, -, ht⟩
  · exact alike_mark (Bool.and_eq_true_iff.1 hs).1 hF hp
  · rw [(ht.mark_eq_none hs).1, (ht.mark_eq_none hs).2]
    exact .none

theorem alike_averse_anywhere (hs : isAverse s = true) :
    Alike (G.Place F) (G.Place Anywhere) (mark s) :=
  alike_averse hs fun _ => trivial

theorem alike_keyword (hs : isCoherent s.toList = true) (hend : ∀ v, Shut (v ++ s.toList))
    (hF : ∀ v, F' (v ++ s.toList)) :
    Alike (G.Plains F) (G.Place F') fun cs => keyword s (skipBlanks cs) := by
  intro gs cs cs' hp
  obtain ⟨front, -, -, b, -, -, hp⟩ := hp
  have hkey := hp.scan_keyword hs hend
  change Option.Rel _ (keyword s (skipBlanks cs)) (keyword s (skipBlanks cs'))
  generalize keyword s (skipBlanks cs) = a, keyword s (skipBlanks cs') = a' at hkey
  cases hkey with
  | none => exact .none
  | some hr => exact .some ⟨_, hF _, hr⟩

/-- The mark of an optional link, right behind which a digit is told apart alike. -/
theorem alike_optionalAt : Alike (G.Plains F) (G.Place Sealed) optionalAt := by
  intro gs cs cs' hp
  have hmark : Alike (G.Plains F) (G.Place fun front => Sealed front ∧ Shut front) (mark "?.") :=
    alike_mark (by decide) fun v => ⟨sealed_optional v, by simp [Shut, Surface.mayPrecedeTag]⟩
  have hm : Option.Rel (G.Place (fun front => Sealed front ∧ Shut front) gs) (optionalAt cs)
      (optionalAt cs') := hmark.filter (fun gs r r' h => by
    obtain ⟨front, hfront, hat⟩ := h
    rw [hat.startsWith_eq (.inl hfront.2)]) hp
  generalize optionalAt cs = a, optionalAt cs' = a' at hm
  cases hm with
  | none => exact .none
  | some hr => exact .some (hr.mono fun _ h => h.1)

/-! ## Operators -/

/-- A front part in front of an operand. -/
theorem anywhere (front : List Char) : Anywhere front := trivial

theorem alike_after (hs : isCoherent s.toList = true) :
    Alike (G.Plains F) (G.Place Anywhere) fun cs => after s (skipBlanks cs) :=
  alike_mark hs fun _ => trivial

theorem alike_anyOf {spellings : List String}
    (hs : spellings.all (fun s => isCoherent s.toList) = true) :
    AlikeTokens (G.Plains F) (G.Place Anywhere) fun cs => anyOf spellings (skipBlanks cs) :=
  .findSome fun s hmem => (alike_after (List.all_eq_true.1 hs s hmem)).token s

theorem alike_keywords {spellings : List String} (f : String → α)
    (hs : spellings.all (fun s => isCoherent s.toList &&
      s.toList.getLast?.any fun c => !Surface.mayPrecedeTag c) = true) :
    AlikeTokens (G.Plains F) (G.Place Anywhere) fun cs =>
      spellings.findSome? fun s => (keyword s (skipBlanks cs)).map (f s, ·) := by
  refine .findSome fun s hmem => (Alike.token ?_ (f s))
  have h := List.all_eq_true.1 hs s hmem
  rw [Bool.and_eq_true] at h
  refine alike_keyword h.1 (fun v => ?_) fun _ => trivial
  cases hl : s.toList.getLast? with
  | none =>
    rw [hl] at h
    cases h.2
  | some c => simpa [Shut, List.getLast?_append, hl] using h.2

theorem alike_updateAt (hF : ∀ v, F' (v ++ "++".toList) ∧ F' (v ++ "--".toList)) :
    AlikeTokens (G.Place F) (G.Place F') updateAt := by
  refine AlikeTokens.map (f := Token.mk .updateOp) (.findSome fun s hmem => Alike.token ?_ s)
  simp only [List.mem_cons, List.not_mem_nil, or_false] at hmem
  rcases hmem with rfl | rfl
  · exact alike_averse (by decide) fun v => (hF v).1
  · exact alike_averse (by decide) fun v => (hF v).2

theorem alike_updateAt_anywhere : AlikeTokens (G.Place F) (G.Place Anywhere) updateAt :=
  alike_updateAt fun _ => ⟨trivial, trivial⟩

/-- A sign that is no part of a longer one. -/
theorem alike_unlike {c : Char} (hc : c ∈ markTails) {spellings : List String}
    (hs : spellings.all (fun s => isCoherent s.toList) = true) :
    AlikeTokens (G.Plains F) (G.Place Anywhere) fun cs =>
      (anyOf spellings (skipBlanks cs)).filter fun p => !startsWith (· == c) p.2 := by
  refine (alike_anyOf hs).filter fun x gs r r' hp => ?_
  obtain ⟨front, -, hat⟩ := hp
  have hstart : startsWith (· == c) r' = startsWith (· == c) r :=
    hat.startsWith_eq (.inr fun d hd => by rwa [beq_iff_eq.1 hd])
  simp only [hstart]

theorem alike_jointAt (level : Nat) : AlikeTokens (G.Plains F) (G.Place Anywhere) (jointAt level) := by
  have hlogical {op : LogicalOp} {s : String} (hs : isCoherent s.toList = true) :
      AlikeTokens (G.Plains F) (G.Place Anywhere) fun cs => logicalAt op s (skipBlanks cs) :=
    (alike_after hs).token _
  have hbinary (group : OperatorGroup) :
      AlikeTokens (G.Plains F) (G.Place Anywhere) fun cs => binaryAt group (skipBlanks cs) := by
    cases group with
    | bitOr => exact (alike_unlike (by decide) (by decide)).map _
    | bitAnd => exact (alike_unlike (by decide) (by decide)).map _
    | relational => exact ((alike_keywords id (by decide)).or (alike_anyOf (by decide))).map _
    | bitXor => exact (alike_anyOf (by decide)).map _
    | equality => exact (alike_anyOf (by decide)).map _
    | shift => exact (alike_anyOf (by decide)).map _
    | additive => exact (alike_anyOf (by decide)).map _
    | multiplicative => exact (alike_anyOf (by decide)).map _
  match level with
  | 0 => exact hlogical (by decide)
  | 1 => exact hlogical (by decide)
  | 2 => exact hlogical (by decide)
  | 3 => exact hbinary .bitOr
  | 4 => exact hbinary .bitXor
  | 5 => exact hbinary .bitAnd
  | 6 => exact hbinary .equality
  | 7 => exact hbinary .relational
  | 8 => exact hbinary .shift
  | 9 => exact hbinary .additive
  | 10 => exact hbinary .multiplicative
  | level + 11 => exact fun _ _ _ _ => .none

/-! ## Words -/

theorem solid_of_not_mem (hne : t ≠ []) (ht : '.' ∉ t) (v : List Char) : Solid (v ++ t) := by
  refine solid_append ?_ v
  rw [List.getLast?_eq_some_getLast hne, Option.any_some, bne_iff_ne]
  intro hlast
  exact ht (hlast ▸ List.getLast_mem hne)

theorem solid_word (h : word cs = some (w, r)) (v : List Char) : Solid (v ++ w) := by
  obtain ⟨c, t, hw, -⟩ := word_eq_some h
  refine solid_of_not_mem (by simp [hw]) (fun hmem => ?_) v
  have hpart := isNamePart_of_word h _ hmem
  cases hpart

theorem Plain.scan_word (h : G.Plain front gs cs cs') :
    Option.Rel (fun p p' => p'.1 = p.1 ∧ G.Place Solid gs p.2 p'.2) (word (skipBlanks cs))
      (word (skipBlanks cs')) := by
  obtain ⟨b, -, -, h⟩ := h
  have hw := h.scan_word
  cases hown : word (skipBlanks cs) with
  | none =>
    rw [hown] at hw
    generalize word (skipBlanks cs') = a' at hw
    cases hw
    exact .none
  | some p =>
    obtain ⟨w, r⟩ := p
    rw [hown] at hw
    cases hother : word (skipBlanks cs') with
    | none =>
      rw [hother] at hw
      cases hw
    | some p' =>
      rw [hother] at hw
      cases hw with
      | some hr => exact .some ⟨hr.1, _, solid_word hown _, hr.2.1⟩

theorem alike_word : AlikeTokens (G.Plains F) (G.Place Solid) fun cs => word (skipBlanks cs) := by
  intro gs cs cs' hp
  obtain ⟨front, -, -, hp⟩ := hp
  exact hp.scan_word

theorem alike_plainName : AlikeTokens (G.Plains F) (G.Place Solid) plainName :=
  alike_word.filter fun _ _ _ _ _ => rfl

/-- A name behind a dot, which is no tag. -/
theorem alike_dotWord : AlikeTokens (G.Plains Solid) (G.Place Solid) fun cs =>
    (mark "." cs).bind fun r => word (skipBlanks r) := by
  intro gs cs cs' hp
  obtain ⟨front, hfront, -, b, hb, -, hp⟩ := hp
  have hdot := hp.scan_after (s := ".") (by decide)
  change Option.Rel _ ((mark "." cs).bind _) ((mark "." cs').bind _)
  rw [mark, mark]
  generalize after "." (skipBlanks cs) = a, after "." (skipBlanks cs') = a' at hdot
  cases hdot with
  | none => exact .none
  | some hr => exact (hr.plain_of_sealed (hfront.sealed_dot hb)).scan_word

/-! ## Tags -/

theorem skipBlanks_skipBlanks (cs : List Char) : skipBlanks (skipBlanks cs) = skipBlanks cs :=
  skipBlanks_eq_self (startsWith_skipBlanks cs)

/-- What stands between a tag and its template is skipped, or nothing goes on there. -/
theorem blank_or_stray (h : ∀ c ∈ b, isSpace c = true) :
    (∀ c ∈ b, isBlank c = true) ∨ ∀ q, Stray (b ++ q) := by
  induction b with
  | nil => exact .inl nofun
  | cons c b ih =>
    obtain ⟨hc, h⟩ := List.forall_mem_cons.1 h
    cases hblank : isBlank c with
    | false =>
      refine .inr fun q => ?_
      unfold Stray
      rw [List.cons_append, skipBlanks_of_ne hblank]
      simp [startsWith, strays, hc]
    | true =>
      refine (ih h).imp (fun h => List.forall_mem_cons.2 ⟨hblank, h⟩) fun h q => ?_
      have hskip : skipBlanks (c :: (b ++ q)) = skipBlanks (b ++ q) := by
        rw [skipBlanks, List.dropWhile_cons, if_pos hblank]
        rfl
      have hq := h q
      unfold Stray at hq ⊢
      rwa [List.cons_append, hskip]

theorem Fits.scan_word {g : Graft} (hg : G.Fits front g) (r : List Char) :
    word (g.matched ++ r) = some (listTag.toList, g.gap ++ (g.template ++ r)) := by
  obtain ⟨t, ht⟩ := template_eq_some hg.template
  have hfree : Free (g.gap ++ (g.template ++ r)) := by
    rw [ht]
    cases hgap : g.gap with
    | nil => rfl
    | cons c gap =>
      have hc : isSpace c = true := hg.gap c (by simp [hgap])
      refine Bool.eq_false_iff.2 fun hpart => ?_
      have hspace := isSpace_eq_false_of_isNamePart (c := c) hpart
      rw [hc] at hspace
      cases hspace
  rw [Graft.matched, List.append_assoc, List.append_assoc]
  exact word_append (by rfl : word listTag.toList = some (listTag.toList, [])) hfree

theorem Grafted.scan_word (h : G.Grafted front gs u u') :
    ∃ q, word u = some (listTag.toList, q) ∧ Dull q := by
  cases h with
  | @intro g gs r r' hg h =>
    refine ⟨_, hg.scan_word r, ?_⟩
    obtain ⟨t, ht⟩ := template_eq_some hg.template
    rcases blank_or_stray hg.gap with hblank | hstray
    · refine dull_of_template (u := t ++ r) ?_
      rw [skipBlanks_append hblank, ht]
      rfl
    · exact (hstray _).dull

/-- The tag, and what follows it. -/
theorem Tagged.scan_word (h : G.Tagged front gs cs cs') :
    ∃ q, word (skipBlanks cs) = some (listTag.toList, q) ∧ Dull q := by
  obtain ⟨b, -, h⟩ := h
  exact h.scan_word

theorem Tagged.stray (h : G.Tagged front gs cs cs') : Stray cs := by
  obtain ⟨b, -, h⟩ := h
  obtain ⟨q, hq⟩ := h.tag
  unfold Stray
  rw [hq]
  rfl

theorem unaryAt_skipBlanks (cs : List Char) : unaryAt (skipBlanks cs) = unaryAt cs := by
  rw [unaryAt, unaryAt, skipBlanks_skipBlanks]

theorem updateAt_skipBlanks (cs : List Char) : updateAt (skipBlanks cs) = updateAt cs := by
  rw [updateAt, updateAt, skipBlanks_skipBlanks]

theorem mark_skipBlanks (s : String) (cs : List Char) : mark s (skipBlanks cs) = mark s cs := by
  rw [mark, mark, skipBlanks_skipBlanks]

theorem arrowHead_skipBlanks (fuel : Nat) (cs : List Char) :
    arrowHead fuel (skipBlanks cs) = arrowHead fuel cs := by
  cases fuel with
  | zero => rfl
  | succ fuel => rw [arrowHead, arrowHead, mark_skipBlanks, plainName, plainName, skipBlanks_skipBlanks]

/-- No operator stands in front of a tag or of what is put in for it. -/
theorem Tagged.unsigned (h : G.Tagged front gs cs cs') :
    (unaryAt cs = none ∧ updateAt cs = none) ∧ unaryAt cs' = none ∧ updateAt cs' = none := by
  obtain ⟨b, -, h⟩ := h
  rw [← unaryAt_skipBlanks cs, ← unaryAt_skipBlanks cs', ← updateAt_skipBlanks cs,
    ← updateAt_skipBlanks cs']
  obtain ⟨q, hq, -⟩ := h.scan_word
  refine ⟨⟨unaryAt_of_word hq (by decide), updateAt_of_word hq⟩, ?_⟩
  generalize skipBlanks cs = u, skipBlanks cs' = u' at h
  cases h with
  | intro hg => exact hg.code.sign _

/-- Neither is tried as the parameters of an arrow function. -/
theorem Tagged.headless (h : G.Tagged front gs cs cs') (fuel fuel' : Nat) :
    arrowHead fuel cs = [] ∧ arrowHead fuel' cs' = [] := by
  obtain ⟨b, -, h⟩ := h
  rw [← arrowHead_skipBlanks fuel cs, ← arrowHead_skipBlanks fuel' cs']
  obtain ⟨q, hq, hdull⟩ := h.scan_word
  constructor
  · cases fuel with
    | zero => rfl
    | succ fuel =>
      have hname : plainName (skipBlanks cs) = some (listTag.toList, q) := by
        rw [plainName_of_word hq, if_neg (by decide)]
      have hmark : mark "=>" q = none := hdull.mark_eq_none rfl (by decide)
      rw [arrowHead, mark_of_word hq rfl rfl]
      simp only [hname, Outcomes.closedBy, andThen_one, hmark]
  · generalize skipBlanks cs = u, skipBlanks cs' = u' at h
    cases h with
    | intro hg => exact hg.code.head fuel' _

theorem alike_unaryAt : AlikeTokens (G.Place F) (G.Place Anywhere) unaryAt := by
  intro gs cs cs' hp
  rcases hp.plains_or_tagged with ⟨front, -, hfront, b, hb, hat, hc⟩ | ⟨front, -, ht⟩
  · have hkeys : AlikeTokens (G.Plains Anywhere) (G.Place Anywhere) fun cs =>
        ["typeof", "void", "delete"].findSome? fun s =>
          (keyword s (skipBlanks cs)).map (Token.mk .unaryKeyword s, ·) :=
      alike_keywords (Token.mk .unaryKeyword) (by decide)
    have hwords := hkeys ⟨front, trivial, hfront, b, hb, hat, hc⟩
    clear hat
    generalize hu : skipBlanks cs = u, hu' : skipBlanks cs' = u' at hc
    simp only [hu, hu'] at hwords
    cases hc with
    | nil =>
      rw [unaryAt, unaryAt, hu, hu']
      exact .none
    | @cons c v v' h =>
      by_cases hsign : c ∈ ['-', '+', '!', '~']
      · have hsame {d : Char} (hd : d ∈ markTails) :
            startsWith (· == d) v' = startsWith (· == d) v :=
          h.startsWith_eq (.inr fun e he => by rwa [beq_iff_eq.1 he])
        have hplace : G.Place Anywhere gs v v' := ⟨_, trivial, h⟩
        rw [unaryAt, unaryAt, hu, hu']
        simp only [List.mem_cons, List.not_mem_nil, or_false] at hsign
        rcases hsign with rfl | rfl | rfl | rfl
        · simp only [hsame (d := '-') (by decide)]
          split
          · exact .none
          · exact .some ⟨rfl, hplace⟩
        · simp only [hsame (d := '+') (by decide)]
          split
          · exact .none
          · exact .some ⟨rfl, hplace⟩
        · exact .some ⟨rfl, hplace⟩
        · exact .some ⟨rfl, hplace⟩
      · rw [unaryAt_of_unsigned hu hsign, unaryAt_of_unsigned hu' hsign]
        exact hwords
  · rw [ht.unsigned.1.1, ht.unsigned.2.1]
    exact .none

/-! ## Literals -/

/-- A text that stands somewhere with a tag in it. -/
def Covered (G : Grafting) (t : List Char) : Prop :=
  ∃ a b n, G.text = a ++ (t ++ b) ∧ G.starts n ∧ a.length ≤ n ∧ n < a.length + t.length

theorem At.covered (h : G.At front gs (t ++ r) u') :
    G.Covered t ∨ ∃ r', u' = t ++ r' ∧ G.At (front ++ t) gs r r' := by
  refine h.covered_or_copied.imp (fun hn => ?_) id
  obtain ⟨n, hn, hle, hlt⟩ := hn
  exact ⟨front, r, n, h.text, hn, hle, hlt⟩

/-- A scanner of literals finds the same in both texts, unless it is a literal of some kind or nothing
goes on with it. -/
def AlikeLiterals (G : Grafting) (L : List Char → Prop) (scan : List Char → Scan) : Prop :=
  ∀ ⦃front gs cs cs'⦄, G.Plain front gs cs cs' → ∀ ⦃t r⦄, scan (skipBlanks cs) = some (t, r) →
    (L t ∨ Stray r) ∨ ∃ r', scan (skipBlanks cs') = some (t, r') ∧ G.Place Solid gs r r'

theorem AlikeLiterals.of_closed {scan : List Char → Scan}
    (happend : ∀ {cs t r}, scan cs = some (t, r) → t ++ r = cs)
    (hself : ∀ {cs t r}, scan cs = some (t, r) → ∀ r', scan (t ++ r') = some (t, r'))
    (hend : ∀ {cs t r}, scan cs = some (t, r) → ∀ v, Solid (v ++ t)) : G.AlikeLiterals G.Covered scan := by
  intro front gs cs cs' hp t r hscan
  obtain ⟨b, -, hat, -⟩ := hp
  rw [← happend hscan] at hat
  rcases hat.covered with hc | ⟨r', hr', hat⟩
  · exact .inl (.inl hc)
  · rw [hr']
    exact .inr ⟨r', hself hscan r', _, hend hscan _, hat⟩

theorem solid_concat (hc : c ≠ '.') (v : List Char) : Solid (v ++ [c]) :=
  solid_append (by simpa using hc) v

theorem solid_quotedRest {quote : Char} {overLines : Bool} (hq : quote ≠ '.')
    (h : quotedRest quote overLines cs = some (t, r)) (v : List Char) :
    Solid (v ++ quote :: t) := by
  obtain ⟨w, rfl⟩ := exists_of_quotedRest h
  rw [List.append_cons, ← List.append_assoc]
  exact solid_concat hq _

theorem alikeLiterals_string : G.AlikeLiterals G.Covered string := by
  refine .of_closed append_of_string string_append fun {cs t r} h v => ?_
  unfold string at h
  split at h
  · obtain ⟨t', h', rfl⟩ := cons_eq_some.1 h
    exact solid_quotedRest (by decide) h' v
  · obtain ⟨t', h', rfl⟩ := cons_eq_some.1 h
    exact solid_quotedRest (by decide) h' v
  · cases h

theorem solid_template (h : template cs = some (t, r)) (v : List Char) : Solid (v ++ t) := by
  unfold template at h
  split at h
  · obtain ⟨t', h', rfl⟩ := cons_eq_some.1 h
    exact solid_quotedRest (by decide) h' v
  · cases h

theorem alikeLiterals_template : G.AlikeLiterals G.Covered template :=
  .of_closed append_of_template template_append solid_template

/-- A token that is read again in front of any rest that does not go on with it, and that is left
where no rest does. -/
theorem AlikeLiterals.of_stop {L : List Char → Prop} {scan : List Char → Scan} {p : Char → Bool}
    (happend : ∀ {cs t r}, scan cs = some (t, r) → t ++ r = cs)
    (hcopy : ∀ {cs t r front gs u'}, scan cs = some (t, r) → G.At front gs (t ++ r) u' →
      L t ∨ ∃ r', u' = t ++ r' ∧ G.At (front ++ t) gs r r')
    (hself : ∀ {cs t r}, scan cs = some (t, r) → ∀ r', startsWith p r' = false →
      (∀ q, startsWith q r' = true → startsWith q r = true) → scan (t ++ r') = some (t, r'))
    (hend : ∀ {cs t r}, scan cs = some (t, r) → ∀ v, Solid (v ++ t))
    (hstray : ∀ {cs t r}, scan cs = some (t, r) → startsWith p r = true → Stray r) :
    G.AlikeLiterals L scan := by
  intro front gs cs cs' hp t r hscan
  obtain ⟨b, -, hat, -⟩ := hp
  rw [← happend hscan] at hat
  rcases hcopy hscan hat with hc | ⟨r', hr', hat⟩
  · exact .inl (.inl hc)
  · rcases hat.copied_or_grafted with hcopied | hgrafted
    · have hsame := hcopied.startsWith_eq
      cases hstop : startsWith p r with
      | true => exact .inl (.inr (hstray hscan hstop))
      | false =>
        rw [hr']
        exact .inr ⟨r', hself hscan r' ((hsame p).trans hstop) fun q hq => (hsame q).symm.trans hq, _,
          hend hscan _, hat⟩
    · obtain ⟨w, rfl⟩ := hgrafted.tag
      exact .inl (.inr rfl)

theorem stray_of_startsWith {p : Char → Bool} (hp : ∀ c, p c = true → isNamePart c = true ∧ c ≠ 'i')
    (h : startsWith p r = true) : Stray r := by
  cases r with
  | nil => cases h
  | cons c r =>
    obtain ⟨hpart, hne⟩ := hp c h
    have hblank := isBlank_eq_false_of_isSpace (isSpace_eq_false_of_isNamePart hpart)
    unfold Stray
    rw [skipBlanks_of_ne hblank]
    simp [startsWith, strays, hpart, hne]

/-- Behind the flags of a regular expression comes no other flag. -/
theorem startsWith_of_regex (h : regex cs = some (t, r)) : startsWith isRegexFlag r = false := by
  unfold regex at h
  split at h
  · split at h
    · cases h
    · obtain ⟨⟨p, q⟩, -, h⟩ := Option.map_eq_some_iff.1 h
      cases h
      cases hd : q.dropWhile isRegexFlag with
      | nil => rfl
      | cons c w => simpa [startsWith, hd] using List.head_dropWhile_not isRegexFlag (l := q) (by simp [hd])
  · cases h

theorem alikeLiterals_regex : G.AlikeLiterals G.Covered regex := by
  refine .of_stop (p := isNamePart) (fun h => (regex_pieces h).1) (fun _ hat => hat.covered)
    (fun h r' hr' _ => regex_append h hr') (fun h v => ?_) fun {cs t r} h hr => ?_
  · obtain ⟨-, w, flags, rfl, hflags⟩ := regex_pieces h
    rw [← List.append_assoc]
    refine solid_of_not_mem (List.cons_ne_nil _ _) (fun hmem => ?_) _
    rcases List.mem_cons.1 hmem with hmem | hmem
    · cases hmem
    · have hpart := hflags _ hmem
      cases hpart
  · have hflag := startsWith_of_regex h
    refine stray_of_startsWith (p := fun c => isNamePart c && !isRegexFlag c) (fun c hc => ?_) ?_
    · rw [Bool.and_eq_true, Bool.not_eq_true'] at hc
      refine ⟨hc.1, ?_⟩
      rintro rfl
      cases hc.2
    · cases r with
      | nil => cases hr
      | cons c r =>
        have hr : isNamePart c = true := hr
        have hflag : isRegexFlag c = false := hflag
        simp [startsWith, hr, hflag]

theorem not_mem_exponentPart (cs : List Char) : '.' ∉ (exponentPart cs).1 := by
  rcases exponentPart_cases cs with hnone | ⟨e, sign, ds, rfl, he, hsign, hd⟩
  · rw [hnone]
    exact List.not_mem_nil
  · rw [exponentPart_digits he hsign hd]
    intro hmem
    simp only [List.cons_append, List.mem_cons, List.mem_append] at hmem
    rcases hmem with rfl | hmem | hmem
    · cases he
    · rcases hsign with rfl | rfl | rfl
      · cases hmem
      · cases List.mem_singleton.1 hmem
      · cases List.mem_singleton.1 hmem
    · have hdigit : Char.isDigit '.' = true := List.mem_takeWhile_imp hmem
      cases hdigit

theorem not_mem_digits {ds : List Char} (h : ∀ c ∈ ds, c.isDigit = true) : '.' ∉ ds := fun hmem => by
  have hdigit := h _ hmem
  cases hdigit

/-- The point that a numeral ends with stands behind a digit. -/
theorem solid_decimal (h : decimal cs = some (t, r)) (v : List Char) : Solid (v ++ t) := by
  obtain ⟨whole, hw, ⟨ds, rfl, hd⟩ | ⟨rest, rfl, hne, hr, hdot⟩⟩ := decimal_cases h
  · rw [decimal_point hw hd] at h
    cases h
    have hnone : '.' ∉ ds.takeWhile Char.isDigit ++ (exponentPart (ds.dropWhile Char.isDigit)).1 := by
      intro hmem
      rcases List.mem_append.1 hmem with hmem | hmem
      · exact not_mem_digits (fun c hc => List.mem_takeWhile_imp hc) hmem
      · exact not_mem_exponentPart _ hmem
    generalize htail : ds.takeWhile Char.isDigit ++ _ = tail at hnone ⊢
    rcases eq_or_ne tail [] with rfl | hne
    · have hwhole : whole ≠ [] := hd.resolve_right fun hd => by
        cases ds with
        | nil => cases hd
        | cons d ds =>
          have hd : d.isDigit = true := hd
          simp [hd] at htail
      obtain ⟨w, d, hcon⟩ := (List.eq_nil_or_concat whole).resolve_left hwhole
      rw [List.concat_eq_append] at hcon
      subst hcon
      intro hdots
      obtain ⟨z, hz⟩ := hdots
      have hz : z ++ ['.'] ++ ['.'] = v ++ w ++ [d] ++ ['.'] := by simpa using hz
      cases List.append_inj_right' (List.append_cancel_right hz) rfl
      exact not_mem_digits hw (by simp)
    · rw [← List.append_assoc, List.append_cons]
      exact solid_of_not_mem hne hnone _
  · rw [decimal_whole hw hne hr hdot] at h
    cases h
    refine solid_of_not_mem (by simp [hne]) (fun hmem => ?_) v
    rcases List.mem_append.1 hmem with hmem | hmem
    · exact not_mem_digits hw hmem
    · exact not_mem_exponentPart rest hmem

theorem solid_number (h : number cs = some (t, r)) (v : List Char) : Solid (v ++ t) := by
  unfold number at h
  split at h
  · next x ds =>
    split at h
    · next hx =>
      cases h
      refine solid_of_not_mem (List.cons_ne_nil _ _) (fun hmem => ?_) v
      simp only [Bool.and_eq_true, Bool.or_eq_true, beq_iff_eq] at hx
      simp only [List.mem_cons] at hmem
      rcases hmem with hmem | rfl | hmem
      · cases hmem
      · rcases hx.1 with hx | hx <;> cases hx
      · have hhex : isHexDigit '.' = true := List.mem_takeWhile_imp hmem
        cases hhex
    · exact solid_decimal h v
  · exact solid_decimal h v

theorem alikeLiterals_number : G.AlikeLiterals (fun _ => False) number :=
  .of_stop (p := isNumberPart) (fun h => (number_pieces h).1)
    (fun h hat => .inr (hat.of_not_mem fun hl => by
      have hnumeral := (number_pieces h).2 _ hl
      cases hnumeral))
    (fun h r' hr' hsame => number_append h hr' (hsame _)) solid_number fun _ hr =>
      stray_of_startsWith (fun c hc => ⟨isNamePart_of_isNumberPart c hc, by rintro rfl; cases hc⟩) hr

end Grafting

end Comprehend
