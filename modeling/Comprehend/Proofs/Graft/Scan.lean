import Comprehend.Proofs.Graft.Lost
import Comprehend.Proofs.Graft.Site
import Comprehend.Proofs.Source.Scan

/-! # Scanning a text with templates replaced

Where no replaced template comes next, a mark or a word is scanned alike in the text and in the text
with pieces put in, and the scan comes to the same place in both. No word runs into a template, and
no mark that a template breaks off is made whole by what is put in for it. -/

namespace Comprehend

open Comprehend.Text Comprehend.Lexeme Comprehend.Parser

namespace Grafting

variable {G : Grafting} {front b t cs cs' r r' u u' v v' : List Char} {gs : List Graft} {c : Char}
  {s : String} {F : List Char → Prop}

/-! ## Front parts -/

/-- Right behind the front part no tag may start. -/
def Shut (front : List Char) : Prop := front.getLast?.all Surface.mayPrecedeTag = false

/-- The front part does not end with the dots of a spread, nor would it with one more dot. -/
def Solid (front : List Char) : Prop := ¬ "..".toList <:+ front

/-- No tag stands behind the front part, nor behind blanks that follow it. -/
def Sealed (front : List Char) : Prop := ∀ b, (∀ c ∈ b, isBlank c = true) → ¬ MayStand (front ++ b)

theorem shut_concat (hc : Surface.mayPrecedeTag c = false) (front : List Char) :
    Shut (front ++ [c]) := by
  simp [Shut, hc]

theorem solid_append (ht : t.getLast?.any (· != '.') = true) (v : List Char) : Solid (v ++ t) := by
  intro hdots
  obtain ⟨w, hw⟩ := hdots
  have hlast := congrArg List.getLast? hw
  rw [List.getLast?_append, List.getLast?_append] at hlast
  cases hc : t.getLast? with
  | none =>
    rw [hc] at ht
    cases ht
  | some c =>
    rw [hc] at hlast ht
    cases hlast
    cases ht

theorem rdropWhile_blanks (hb : ∀ c ∈ b, isBlank c = true) (v : List Char) :
    (v ++ b).rdropWhile isBlank = v.rdropWhile isBlank := by
  rw [List.rdropWhile, List.rdropWhile, List.reverse_append,
    List.dropWhile_append_of_pos fun c hc => hb c (List.mem_reverse.1 hc)]

theorem rdropWhile_concat (hc : isBlank c = false) (v : List Char) :
    (v ++ [c]).rdropWhile isBlank = v ++ [c] :=
  List.rdropWhile_concat_neg isBlank v c (by simp [hc])

theorem sealed_new (v : List Char) : Sealed (v ++ "new".toList) := by
  intro b hb hstands
  have hsuffix := hstands.1
  rw [rdropWhile_blanks hb, show v ++ "new".toList = (v ++ ['n', 'e']) ++ ['w'] by simp,
    rdropWhile_concat rfl] at hsuffix
  exact hsuffix ⟨v, by simp⟩

theorem sealed_dot (h : ¬ "..".toList <:+ v) : Sealed (v ++ ['.']) := by
  intro b hb hstands
  have hspread := hstands.2
  rw [rdropWhile_blanks hb, rdropWhile_concat rfl] at hspread
  obtain ⟨w, hw⟩ := hspread ⟨v, rfl⟩
  have hw : (w ++ ['.', '.']) ++ ['.'] = v ++ ['.'] := by simpa using hw
  exact h ⟨w, List.append_cancel_right hw⟩

theorem sealed_optional (v : List Char) : Sealed (v ++ "?.".toList) := by
  rw [show v ++ "?.".toList = (v ++ ['?']) ++ ['.'] by simp]
  refine sealed_dot (solid_append ?_ v)
  rfl

theorem Solid.sealed_dot (h : Solid front) (hb : ∀ c ∈ b, isBlank c = true) :
    Sealed (front ++ b ++ ['.']) := by
  refine Grafting.sealed_dot ?_
  rcases List.eq_nil_or_concat b with rfl | ⟨b, c, rfl⟩
  · rwa [List.append_nil]
  · rw [List.concat_eq_append, ← List.append_assoc]
    refine solid_append ?_ _
    have hc := hb c (by simp)
    simp only [List.getLast?_singleton, Option.any_some, bne_iff_ne]
    rintro rfl
    cases hc

/-! ## Characters that are copied -/

theorem Grafted.not_shut (h : G.Grafted front gs cs cs') : ¬ Shut front := by
  cases h with
  | intro hg =>
    intro hs
    have := hg.precedes
    rw [hs] at this
    cases this

theorem At.copied_of_shut (hs : Shut front) (h : G.At front gs cs cs') : G.Copied front gs cs cs' :=
  h.copied_or_grafted.resolve_right fun hg => hg.not_shut hs

/-- Characters behind which no tag stands are copied, as many as there are. -/
theorem At.span {p : Char → Bool} (hp : ∀ c, p c = true → Surface.mayPrecedeTag c = false)
    (hs : Shut front) (h : G.At front gs cs cs') :
    cs'.takeWhile p = cs.takeWhile p ∧
      G.At (front ++ cs.takeWhile p) gs (cs.dropWhile p) (cs'.dropWhile p) ∧
      Shut (front ++ cs.takeWhile p) := by
  induction cs generalizing front cs' with
  | nil =>
    cases h.copied_of_shut hs with
    | nil hgs => exact ⟨rfl, by simpa using h, by simpa using hs⟩
  | cons c cs ih =>
    cases h.copied_of_shut hs with
    | cons c hc =>
      cases hpc : p c with
      | false =>
        simp only [List.takeWhile_cons, List.dropWhile_cons, hpc]
        exact ⟨rfl, by simpa using h, by simpa using hs⟩
      | true =>
        obtain ⟨htake, hdrop, hshut⟩ := ih (shut_concat (hp c hpc) front) hc
        simp only [List.takeWhile_cons, List.dropWhile_cons, hpc, if_true]
        exact ⟨by rw [htake], by simpa using hdrop, by simpa using hshut⟩

/-- A text is copied, or a tag stands in it. -/
theorem At.covered_or_copied (h : G.At front gs (t ++ r) cs') :
    (∃ n, G.starts n ∧ front.length ≤ n ∧ n < front.length + t.length) ∨
      ∃ r', cs' = t ++ r' ∧ G.At (front ++ t) gs r r' := by
  induction t generalizing front cs' with
  | nil => exact .inr ⟨cs', rfl, by simpa using h⟩
  | cons c t ih =>
    generalize hcs : c :: t ++ r = cs at h
    rcases h.copied_or_grafted with hc | hg
    · cases hc with
      | nil => cases hcs
      | cons d hd =>
        cases hcs
        rcases ih hd with ⟨n, hn, hle, hlt⟩ | ⟨r', rfl, hr'⟩
        · simp only [List.length_append, List.length_cons, List.length_nil] at hle hlt
          exact .inl ⟨n, hn, by omega, by simp only [List.length_cons]; omega⟩
        · exact .inr ⟨r', rfl, by simpa using hr'⟩
    · cases hg with
      | intro hg => exact .inl ⟨front.length, hg.starts, Nat.le_refl _, by simp⟩

/-- A text that no tag stands in from its second character on. -/
theorem Copied.inside (h : G.Copied front gs (c :: t ++ r) u')
    (ht : ∀ d ∈ c :: t, Surface.mayPrecedeTag d = false) :
    ∃ r', u' = c :: t ++ r' ∧ G.At (front ++ c :: t) gs r r' := by
  induction t generalizing front c u' with
  | nil =>
    cases h with
    | cons c h => exact ⟨_, rfl, h⟩
  | cons d t ih =>
    obtain ⟨hc, ht⟩ := List.forall_mem_cons.1 ht
    cases h with
    | cons c h =>
      obtain ⟨r', rfl, hr'⟩ := ih (h.copied_of_shut (shut_concat hc front)) ht
      exact ⟨r', rfl, by simpa using hr'⟩

/-- What is put in starts with no character that a mark may go on with. -/
theorem Grafted.tail (h : G.Grafted front gs cs cs') : ∃ e w, cs' = e :: w ∧ e ∉ markTails := by
  cases h with
  | intro hg =>
    obtain ⟨e, w, he, -⟩ := hg.code.item
    have htail := hg.code.tail
    rw [he] at htail
    exact ⟨e, w ++ _, by rw [he]; rfl, by simpa [startsWith] using htail⟩

theorem Grafted.tag (h : G.Grafted front gs cs cs') : ∃ w, cs = 'l' :: w := by
  cases h with
  | intro hg => exact ⟨_, Graft.matched_cons _ _⟩

/-- The next characters are told apart alike. -/
theorem At.startsWith_eq (h : G.At front gs r r') {p : Char → Bool}
    (hp : Shut front ∨ ∀ c, p c = true → c ∈ markTails) : startsWith p r' = startsWith p r := by
  rcases h.copied_or_grafted with hc | hg
  · cases hc with
    | nil => rfl
    | cons c _ => rfl
  · have hp := hp.resolve_left hg.not_shut
    obtain ⟨e, w, rfl, he⟩ := hg.tail
    obtain ⟨w', rfl⟩ := hg.tag
    have hpe : p e = false := Bool.eq_false_iff.2 fun hpe => he (hp e hpe)
    have hpl : p 'l' = false := Bool.eq_false_iff.2 fun hpl => by
      have hmem := hp 'l' hpl
      revert hmem
      decide
    exact hpe.trans hpl.symm

theorem Copied.startsWith_eq (h : G.Copied front gs u u') (p : Char → Bool) :
    startsWith p u' = startsWith p u := by
  cases h with
  | nil => rfl
  | cons c _ => rfl

/-! ## Marks -/

/-- A spelling that no tag breaks off unless what is put in cannot go on with it. -/
def isCoherent : List Char → Bool
  | c :: d :: cs => (!Surface.mayPrecedeTag c || markTails.contains d) && isCoherent (d :: cs)
  | cs => !cs.isEmpty

theorem At.scan_isPrefix {as : List Char} (hs : isCoherent (c :: as) = true)
    (h : G.At (front ++ [c]) gs v v') :
    Option.Rel (fun r r' => G.At (front ++ c :: as) gs r r') (as.isPrefixOf? v)
      (as.isPrefixOf? v') := by
  induction as generalizing front c v v' with
  | nil => exact .some h
  | cons d as ih =>
    simp only [isCoherent, Bool.and_eq_true, Bool.or_eq_true, Bool.not_eq_true',
      List.contains_iff_mem] at hs
    obtain ⟨hd, hs⟩ := hs
    rcases h.copied_or_grafted with hc | hg
    · cases hc with
      | nil => exact .none
      | cons e he =>
        rw [List.isPrefixOf?, List.isPrefixOf?]
        by_cases hde : d = e
        · subst hde
          rw [if_pos (beq_self_eq_true d), if_pos (beq_self_eq_true d)]
          have hrest := ih hs he
          rwa [List.append_assoc] at hrest
        · have hne : (d == e) = false := beq_eq_false_iff_ne.2 hde
          rw [if_neg (by simp [hne]), if_neg (by simp [hne])]
          exact .none
    · have hd := hd.resolve_left fun hshut => hg.not_shut (shut_concat hshut front)
      obtain ⟨e, w, rfl, he⟩ := hg.tail
      obtain ⟨w', rfl⟩ := hg.tag
      have hl : d ≠ 'l' := by
        rintro rfl
        revert hd
        decide
      have hde : d ≠ e := by
        rintro rfl
        exact he hd
      rw [List.isPrefixOf?, List.isPrefixOf?, if_neg (by simpa using hl), if_neg (by simpa using hde)]
      exact .none

theorem Copied.scan_after (h : G.Copied front gs u u') (hs : isCoherent s.toList = true) :
    Option.Rel (fun r r' => G.At (front ++ s.toList) gs r r') (after s u) (after s u') := by
  rw [after, after]
  cases hl : s.toList with
  | nil =>
    rw [hl] at hs
    cases hs
  | cons a as =>
    rw [hl] at hs
    cases h with
    | nil => exact .none
    | cons c h =>
      rw [List.isPrefixOf?, List.isPrefixOf?]
      by_cases hac : a = c
      · subst hac
        rw [if_pos (beq_self_eq_true a), if_pos (beq_self_eq_true a)]
        exact h.scan_isPrefix hs
      · have hne : (a == c) = false := beq_eq_false_iff_ne.2 hac
        rw [if_neg (by simp [hne]), if_neg (by simp [hne])]
        exact .none

/-! ## Behind blanks -/

/-- No replaced template comes next, blanks before it skipped. -/
def Plain (G : Grafting) (front : List Char) (gs : List Graft) (cs cs' : List Char) : Prop :=
  ∃ b, (∀ c ∈ b, isBlank c = true) ∧ G.At (front ++ b) gs (skipBlanks cs) (skipBlanks cs') ∧
    G.Copied (front ++ b) gs (skipBlanks cs) (skipBlanks cs')

/-- A replaced template comes next. -/
def Tagged (G : Grafting) (front : List Char) (gs : List Graft) (cs cs' : List Char) : Prop :=
  ∃ b, (∀ c ∈ b, isBlank c = true) ∧ G.Grafted (front ++ b) gs (skipBlanks cs) (skipBlanks cs')

theorem skipBlanks_append (hb : ∀ c ∈ b, isBlank c = true) (cs : List Char) :
    skipBlanks (b ++ cs) = skipBlanks cs :=
  List.dropWhile_append_of_pos hb

theorem skipBlanks_eq_self (h : startsWith isBlank cs = false) : skipBlanks cs = cs := by
  cases cs with
  | nil => rfl
  | cons c cs => exact skipBlanks_of_ne h cs

theorem startsWith_skipBlanks (cs : List Char) : startsWith isBlank (skipBlanks cs) = false := by
  rw [skipBlanks]
  cases hd : cs.dropWhile isBlank with
  | nil => rfl
  | cons c r => simpa [startsWith, hd] using List.head_dropWhile_not isBlank (l := cs) (by simp [hd])

theorem At.plain_or_tagged (h : G.At front gs cs cs') :
    G.Plain front gs cs cs' ∨ G.Tagged front gs cs cs' := by
  have hb : ∀ c ∈ cs.takeWhile isBlank, isBlank c = true := fun c hc => List.mem_takeWhile_imp hc
  have hl : 'l' ∉ cs.takeWhile isBlank := fun hl => by
    have := hb _ hl
    cases this
  have hcs : cs = cs.takeWhile isBlank ++ skipBlanks cs := List.takeWhile_append_dropWhile.symm
  have hstart := startsWith_skipBlanks cs
  generalize cs.takeWhile isBlank = b at hb hl hcs
  rw [hcs] at h
  obtain ⟨r', rfl, hr'⟩ := h.of_not_mem hl
  have hself : startsWith isBlank r' = false := by
    rcases hr'.copied_or_grafted with hc | hg
    · rw [hc.startsWith_eq]
      exact hstart
    · generalize skipBlanks cs = q at hg
      cases hg with
      | intro hg =>
        obtain ⟨e, w, he, hitem⟩ := hg.code.item
        rw [he]
        exact isBlank_of_opensItem hitem
  have hskip : skipBlanks (b ++ r') = r' := by
    rw [skipBlanks_append hb, skipBlanks_eq_self hself]
  rw [← hskip] at hr'
  rcases hr'.copied_or_grafted with hc | hg
  · exact .inl ⟨b, hb, hr', hc⟩
  · exact .inr ⟨b, hb, hg⟩

theorem Tagged.stands (h : G.Tagged front gs cs cs') :
    ∃ b, (∀ c ∈ b, isBlank c = true) ∧ MayStand (front ++ b) := by
  obtain ⟨b, hb, h⟩ := h
  generalize skipBlanks cs = q, skipBlanks cs' = q' at h
  cases h with
  | intro hg => exact ⟨b, hb, hg.stands⟩

theorem At.plain_of_sealed (hs : Sealed front) (h : G.At front gs cs cs') :
    G.Plain front gs cs cs' :=
  h.plain_or_tagged.resolve_right fun ht => by
    obtain ⟨b, hb, hstands⟩ := ht.stands
    exact hs b hb hstands

/-! ## Words -/

theorem isNamePart_of_word {w : List Char} (hw : word cs = some (w, r)) :
    ∀ d ∈ w, isNamePart d = true := by
  obtain ⟨c, t, rfl, hc, ht⟩ := word_eq_some hw
  exact List.forall_mem_cons.2 ⟨isNamePart_of_isNameStart hc, ht⟩

theorem Copied.scan_word (h : G.Copied front gs u u') :
    Option.Rel (fun p p' => p'.1 = p.1 ∧ G.At (front ++ p.1) gs p.2 p'.2 ∧ Shut (front ++ p.1))
      (word u) (word u') := by
  cases h with
  | nil => exact .none
  | cons c h =>
    rw [word, word]
    by_cases hc : isNameStart c = true
    · rw [if_pos hc, if_pos hc]
      have hshut := shut_concat
        (Surface.mayPrecedeTag_of_isNamePart (isNamePart_of_isNameStart hc)) front
      obtain ⟨htake, hat, hend⟩ := h.span (fun d => Surface.mayPrecedeTag_of_isNamePart) hshut
      refine .some ⟨by rw [htake], by simpa using hat, by simpa using hend⟩
    · rw [if_neg hc, if_neg hc]
      exact .none

/-- A keyword ends with a part of a name. -/
theorem Copied.scan_keyword (h : G.Copied front gs u u') (hs : isCoherent s.toList = true)
    (hend : ∀ v, Shut (v ++ s.toList)) :
    Option.Rel (fun r r' => G.At (front ++ s.toList) gs r r') (keyword s u) (keyword s u') := by
  have hafter := h.scan_after hs
  rw [keyword, keyword]
  generalize after s u = a, after s u' = a' at hafter
  cases hafter with
  | none => exact .none
  | some hr =>
    rw [Option.filter_some, Option.filter_some, hr.startsWith_eq (.inl (hend front))]
    split
    · exact .some hr
    · exact .none

end Grafting

end Comprehend
