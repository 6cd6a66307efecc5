import Comprehend.Proofs.Clause.Canonical
import Comprehend.Proofs.Clause.Operand

/-! # Expressions as operands

An expression is passed over to its end, so by itself it has tokens whose brackets match, and none of
its words is a loop keyword where nothing is open. Its tokens are the same wherever it stands: as the
yield in front of the loop, in the group behind `of`, or in the group of the condition. -/

namespace Comprehend

open Comprehend.Text Comprehend.Lexeme Comprehend.Parser ClauseToken

namespace Text

/-- A text that starts and ends with no white space. -/
structure Tight (s : List Char) : Prop where
  head : ∃ c u, s = c :: u ∧ isSpace c = false
  last : ∃ u c, s = u ++ [c] ∧ isSpace c = false

theorem Tight.append {s t : List Char} (hs : Tight s) (ht : Tight t) (g : List Char) :
    Tight (s ++ (g ++ t)) := by
  obtain ⟨c, u, rfl, hc⟩ := hs.head
  obtain ⟨v, d, rfl, hd⟩ := ht.last
  exact ⟨⟨c, u ++ (g ++ (v ++ [d])), rfl, hc⟩, ⟨c :: u ++ (g ++ v), d, by simp, hd⟩⟩

/-- White space around a text is what trimming removes. -/
theorem Tight.trim_eq {s b a : List Char} (hs : Tight s) (hb : ∀ c ∈ b, isSpace c = true)
    (ha : ∀ c ∈ a, isSpace c = true) : trim (b ++ (s ++ a)) = s := by
  have hleft : trimLeft (b ++ (s ++ a)) = s ++ a := by
    obtain ⟨c, u, rfl, hc⟩ := hs.head
    exact (takeWhile_append_of_stop hb (show startsWith isSpace (c :: u ++ a) = false from hc)).2
  have hright : trimRight (s ++ a) = s := by
    obtain ⟨u, c, rfl, hc⟩ := hs.last
    have hstop : startsWith isSpace ([c] ++ u.reverse) = false := hc
    have hdrop := (takeWhile_append_of_stop (t := a.reverse) (by simpa using ha) hstop).2
    rw [trimRight, List.reverse_append, List.reverse_append, List.reverse_singleton, hdrop]
    simp
  rw [trim, hleft, hright]

theorem trim_append {b : List Char} (cs : List Char) (hb : ∀ c ∈ b, isSpace c = true) :
    trim (cs ++ b) = trim cs := by
  have hright (u : List Char) : trimRight (u ++ b) = trimRight u := by
    rw [trimRight, List.reverse_append, List.dropWhile_append_of_pos (by simpa using hb), trimRight]
  rw [trim, trim, trimLeft, trimLeft, List.dropWhile_append]
  split
  · next hnil =>
    have hb : b.dropWhile isSpace = [] := List.dropWhile_eq_nil_iff.2 hb
    rw [List.isEmpty_iff.1 hnil, hb]
  · exact hright _

/-- A text that trimming leaves alone ends in no white space. -/
theorem not_isSpace_last {u : List Char} {c : Char} (h : trim (u ++ [c]) = u ++ [c]) :
    isSpace c = false := by
  refine Bool.eq_false_iff.2 fun hc => ?_
  have hshort : (trim u).length ≤ u.length := by
    rw [trim, trimRight, List.length_reverse]
    refine (List.dropWhile_sublist _).length_le.trans ?_
    rw [List.length_reverse]
    exact (List.dropWhile_sublist _).length_le
  rw [trim_append u (List.forall_mem_singleton.2 hc)] at h
  rw [h, List.length_append, List.length_singleton] at hshort
  omega

end Text

namespace ClauseToken

section

variable {calm : Prop} {b a cs r t u : List Char} {ts us : List ClauseToken} {s : ClauseToken}
  {kind : ClauseTokenKind}

/-! ## Tokens of a text and its white space -/

theorem isSpace_of_isPlain {c : Char} (h : isPlain c = true) : isSpace c = false := by
  rcases Bool.or_eq_true _ _ |>.mp h with h | h
  · exact isSpace_eq_false_of_isNamePart h
  · simp only [isPunctuation, Bool.and_eq_true, Bool.not_eq_true'] at h
    exact h.1.1.1.1

theorem Quoted.tight (h : Quoted cs t r) : Tight t := by
  have hquote {q : Char} {l : Bool} {v p w : List Char} (hq : isSpace q = false)
      (hv : quotedRest q l v = some (p, w)) : Tight (q :: p) := by
    obtain ⟨u, rfl⟩ := exists_of_quotedRest hv
    exact ⟨⟨q, u ++ [q], rfl, hq⟩, ⟨q :: u, q, rfl, hq⟩⟩
  rcases h with h | h
  · unfold template at h
    split at h
    · obtain ⟨p, hp, rfl⟩ := cons_eq_some.1 h
      exact hquote (by decide) hp
    · cases h
  · unfold string at h
    split at h
    · obtain ⟨p, hp, rfl⟩ := cons_eq_some.1 h
      exact hquote (by decide) hp
    · obtain ⟨p, hp, rfl⟩ := cons_eq_some.1 h
      exact hquote (by decide) hp
    · cases h

theorem tight_scan (h : scan cs = some (kind, t, r)) : Tight t := by
  rcases scan_cases h with ⟨hq, -⟩ | ⟨-, c, rfl, hc⟩ | ⟨-, c, rfl, hc⟩ | ⟨ht, -⟩
  · exact hq.tight
  · have hspace : isSpace c = false := by
      rcases isOpening_cases hc with rfl | rfl | rfl <;> decide
    exact ⟨⟨c, [], rfl, hspace⟩, ⟨[], c, rfl, hspace⟩⟩
  · have hspace : isSpace c = false := by
      rcases isClosing_cases hc with rfl | rfl | rfl <;> decide
    exact ⟨⟨c, [], rfl, hspace⟩, ⟨[], c, rfl, hspace⟩⟩
  · obtain ⟨c, u, rfl⟩ := List.exists_cons_of_ne_nil (ne_nil_of_scan h)
    have hlast := List.dropLast_append_getLast (List.cons_ne_nil c u)
    refine ⟨⟨c, u, rfl, isSpace_of_isPlain (ht c List.mem_cons_self)⟩, ⟨_, _, hlast.symm, ?_⟩⟩
    exact isSpace_of_isPlain (ht _ (List.getLast_mem _))

/-- A text is its tokens with the blanks in front of the first and behind the last. -/
theorem Lexes.exists_spanned (h : Lexes cs (s :: ts)) :
    ∃ a, cs = s.before ++ (spanned (s :: ts) ++ a) ∧ Tight (spanned (s :: ts)) ∧
      (∀ c ∈ s.before, isBlank c = true) ∧ (∀ c ∈ a, isBlank c = true) ∧
      ∀ t ∈ (s :: ts).getLast?, t.after = a := by
  induction ts generalizing cs s with
  | nil =>
    cases h with
    | @token _ text r kind _ hscan hr =>
      have hsplit : cs.takeWhile isBlank ++ skipBlanks cs = cs := List.takeWhile_append_dropWhile
      have hend : skipBlanks r = [] := by
        cases hr with
        | done hend => exact hend
      have hall : ∀ c ∈ r, isBlank c = true := List.dropWhile_eq_nil_iff.1 hend
      refine ⟨r, ?_, ?_, fun c hc => List.mem_takeWhile_imp hc, hall, ?_⟩
      · simp only [spanned, List.flatMap_nil, List.append_nil]
        rw [append_of_scan hscan, hsplit]
      · simpa [spanned] using tight_scan hscan
      · intro t ht
        cases ht
        exact List.takeWhile_eq_self_iff.2 hall
  | cons u ts ih =>
    cases h with
    | @token _ text r kind _ hscan hr =>
      have hsplit : cs.takeWhile isBlank ++ skipBlanks cs = cs := List.takeWhile_append_dropWhile
      obtain ⟨a, hcs, htight, -, ha, hlast⟩ := ih hr
      have hspanned : spanned (⟨cs.takeWhile isBlank, kind, text, r.takeWhile isBlank⟩ :: u :: ts) =
          text ++ (u.before ++ spanned (u :: ts)) := by
        simp [spanned]
      refine ⟨a, ?_, ?_, fun c hc => List.mem_takeWhile_imp hc, ha, ?_⟩
      · rw [hspanned, List.append_assoc, List.append_assoc, ← hcs, append_of_scan hscan, hsplit]
      · rw [hspanned]
        exact (tight_scan hscan).append htight u.before
      · intro t ht
        exact hlast t (by rwa [List.getLast?_cons_cons] at ht)

/-- What the tokens of a text span is the text without the white space around it. -/
theorem Lexes.spannedText_eq (h : Lexes cs (s :: ts)) :
    spannedText (s :: ts) = String.ofList (trim cs) := by
  obtain ⟨a, hcs, htight, hb, ha, -⟩ := h.exists_spanned
  rw [spannedText]
  conv => rhs; rw [hcs]
  rw [htight.trim_eq (fun c hc => isSpace_of_isBlank (hb c hc)) fun c hc => isSpace_of_isBlank (ha c hc)]

theorem breaks_blank {c : Char} (hc : isBlank c = true) (cs : List Char) : Breaks (c :: cs) := by
  intro p hp
  simp only [continuations, List.mem_cons, List.not_mem_nil, or_false] at hp
  rcases isBlank_cases hc with rfl | rfl | rfl | rfl | rfl <;> rcases hp with rfl | rfl | rfl <;> rfl

/-- The tokens of a text in front of a closing bracket. -/
theorem Lexes.exists_closed (h : Lexes cs ts) (hne : ts ≠ []) (hb : ∀ c ∈ b, isBlank c = true)
    (hu : Lexes u us) : ∃ p q c, spelling c = (.closing, [')']) ∧
      Lexes (b ++ (cs ++ ')' :: u)) (moved p q ts ++ c :: us) := by
  obtain ⟨s, ts, rfl⟩ := List.exists_cons_of_ne_nil hne
  obtain ⟨a, hcs, -, hbefore, ha, -⟩ := h.exists_spanned
  obtain ⟨c, hc, hclosed⟩ := exists_closing_behind ha hu
  have hblanks : ∀ c ∈ b ++ s.before, isBlank c = true :=
    fun c hc => (List.mem_append.1 hc).elim (hb c) (hbefore c)
  have hbreaks : Breaks (a ++ ')' :: u) := by
    cases a with
    | nil => exact breaks_cons (.inr (.inr rfl)) u
    | cons d a => exact breaks_blank (ha d List.mem_cons_self) _
  have hlexes := h.isRun.lexes hblanks hclosed hbreaks
  have htext : b ++ s.before ++ (spanned (s :: ts) ++ (a ++ ')' :: u)) = b ++ (cs ++ ')' :: u) := by
    rw [hcs]
    simp
  rw [htext] at hlexes
  exact ⟨_, _, c, hc, hlexes⟩

/-- A word that stands right behind a bracket, in front of a blank. -/
theorem exists_word (hw : word cs = some (cs, [])) (hu : Lexes (' ' :: u) us) :
    ∃ t, t.before = [] ∧ spelling t = (.word, cs) ∧ Lexes (cs ++ ' ' :: u) (t :: us) := by
  have hscan : scan cs = some (.word, cs, []) := scan_of_word hw
  have hagain : scan (cs ++ ' ' :: u) = some (.word, cs, ' ' :: u) :=
    scan_append hscan ((breaks_cons (.inl rfl) u).endsLike [])
  exact ⟨_, rfl, rfl, lexes_token isBlank_of_mem_nil hscan hagain hu⟩

/-- The tokens of a text that ends in a blank, in front of a keyword. They stay what they are. -/
theorem Lexes.exists_before_keyword {w : String} (h : Lexes (cs ++ [' ']) ts) (hne : ts ≠ [])
    (hw : scan w.toList = some (.word, w.toList, [])) (hu : Lexes (' ' :: u) us) :
    ∃ p q k, k.isKeyword w = true ∧ List.Forall₂ (Quieter w) ts (moved p q ts) ∧
      Lexes (cs ++ ' ' :: (w.toList ++ ' ' :: u)) (moved p q ts ++ k :: us) := by
  obtain ⟨s, ts, rfl⟩ := List.exists_cons_of_ne_nil hne
  obtain ⟨a, hcs, htight, hbefore, ha, hlast⟩ := h.exists_spanned
  have hane : a ≠ [] := by
    rintro rfl
    obtain ⟨v, c, hv, hc⟩ := htight.last
    rw [List.append_nil, hv, ← List.append_assoc] at hcs
    obtain ⟨-, hlast⟩ := List.append_inj' hcs rfl
    cases hlast
    cases hc
  obtain ⟨k, hk, hkeyword⟩ := exists_keyword_behind ha hane hw hu
  have hbreaks : Breaks (a ++ (w.toList ++ ' ' :: u)) := by
    obtain ⟨c, a, rfl⟩ := List.exists_cons_of_ne_nil hane
    exact breaks_blank (ha c List.mem_cons_self) _
  have hlexes := h.isRun.lexes hbefore hkeyword hbreaks
  have htext : s.before ++ (spanned (s :: ts) ++ (a ++ (w.toList ++ ' ' :: u))) =
      cs ++ ' ' :: (w.toList ++ ' ' :: u) := by
    rw [← List.append_assoc (spanned _), ← List.append_assoc, ← hcs]
    simp
  rw [htext] at hlexes
  refine ⟨_, _, k, hk, quieter_moved (fun t ht hnil => ?_) (fun t ht hnil => ?_) w, hlexes⟩
  · cases ht
    exact hnil
  · exact absurd ((hlast t ht).symm.trans hnil) hane

end

end ClauseToken

/-! ## The operands of a comprehension -/

section

variable {calm : Prop} {y v i c : String} {ty ti tc : Node} {b : List Char}

/-- An expression has tokens whose brackets match. -/
theorem exists_tokens_of_parseExpression {text : String} {x : Node}
    (h : parseExpression text = .ok x) (hx : x.Embeds calm) (hb : ∀ c ∈ b, isBlank c = true) :
    ∃ ts, Lexes (text.toList ++ b) ts ∧ ts ≠ [] ∧ IsBalanced ts ∧
      (calm → cutAt "for" 0 ts = none) ∧ spannedText ts = String.ofList (trim text.toList) := by
  have hwalk : Walk calm [] (text.toList ++ b) [] [] := by
    have hpasses := (passes_of_parseExpression h hx []).append_blanks hb
    have hend : Walk calm [] (b ++ []) [] [] :=
      walk_blanks hb fun _ _ _ hfor => by
        obtain ⟨v, hv, -⟩ := hfor
        cases hv
    rw [List.append_nil] at hend
    exact hpasses.trans hend
  obtain ⟨ts, hts, hpending, hcut⟩ := hwalk.exists_lexes
  have hne : ts ≠ [] := by
    rintro rfl
    have hskip : skipBlanks (text.toList ++ b) = [] := by
      cases hts with
      | done hskip => exact hskip
    have hblank : isBlankText text = true := by
      refine List.all_eq_true.2 fun c hc => isSpace_of_isBlank ?_
      exact List.dropWhile_eq_nil_iff.1 hskip c (List.mem_append_left b hc)
    rw [parseExpression, if_pos hblank] at h
    cases h
  refine ⟨ts, hts, hne, hpending, hcut, ?_⟩
  obtain ⟨s, ts, rfl⟩ := List.exists_cons_of_ne_nil hne
  rw [hts.spannedText_eq, trim_append _ fun c hc => isSpace_of_isBlank (hb c hc)]

/-- A loop variable with no white space around it is a word. -/
theorem word_of_validate (hv : Variable.validate v = .ok ()) (htrim : trim v.toList = v.toList) :
    word v.toList = some (v.toList, []) := by
  refine (Variable.isName_of_validate hv ?_).word
  rcases List.eq_nil_or_concat v.toList with hnil | ⟨u, d, hsplit⟩
  · obtain ⟨-, hline, -⟩ := Variable.validate_eq_ok_iff.1 hv
    rw [hnil] at hline
    cases hline
  · rw [List.concat_eq_append] at hsplit
    rw [hsplit] at htrim
    exact ⟨u, d, hsplit, isBlank_eq_false_of_isSpace (not_isSpace_last htrim)⟩

/-- What stands behind the loop keyword. -/
def loopText (v i c : String) : List Char :=
  ' ' :: '(' :: (v.toList ++ ' ' :: ("of".toList ++ ' ' :: (i.toList ++ ')' :: ' ' ::
    ("if".toList ++ ' ' :: '(' :: (c.toList ++ [')'])))))

/-- Two expressions are the iterable and the condition of a clause. -/
theorem exists_clause_of_operands (hi : parseExpression i = .ok ti) (hc : parseExpression c = .ok tc)
    (hv : word v.toList = some (v.toList, [])) (hti : ti.Embeds False) (htc : tc.Embeds False) :
    ∃ segment p, Lexes (loopText v i c) segment ∧ Splits segment p ∧ p.remainder = [] ∧
      p.clause = ⟨v, String.ofList (trim i.toList), some (String.ofList (trim c.toList))⟩ := by
  obtain ⟨is, his, hine, hibalanced, -, hitext⟩ :=
    exists_tokens_of_parseExpression hi hti isBlank_of_mem_nil
  obtain ⟨cs, hcs, hcne, hcbalanced, -, hctext⟩ :=
    exists_tokens_of_parseExpression hc htc isBlank_of_mem_nil
  rw [List.append_nil] at his hcs
  have hnil : Lexes [] [] := .done rfl
  -- from the end of the text to its start
  obtain ⟨p₁, q₁, c₁, hc₁, hcondition⟩ := hcs.exists_closed hcne isBlank_of_mem_nil hnil
  obtain ⟨o₁, ho₁, hopen₁⟩ := exists_opening hcondition
  obtain ⟨k₁, hk₁, hif⟩ := exists_keyword (w := "if") rfl hopen₁
  obtain ⟨p₂, q₂, c₂, hc₂, hiterable⟩ := his.exists_closed hine isBlank_of_mem_blank hif
  obtain ⟨k₂, hk₂, hof⟩ := exists_keyword (w := "of") rfl hiterable
  obtain ⟨t, hbefore, ht, hpattern⟩ := exists_word hv hof
  obtain ⟨o₂, ho₂, hopen₂⟩ := exists_opening hpattern
  have hbalanced : IsBalanced [t] := by simp [IsBalanced, pending, kind_eq ht]
  have hquiet : cutAt "of" 0 [t] = none := by simp [cutAt, kind_eq ht, isKeyword, hbefore]
  have htail : Condition (k₁ :: o₁ :: (moved p₁ q₁ cs ++ [c₁])) (some (moved p₁ q₁ cs)) [] :=
    .present hk₁ ho₁ hc₁ (hcbalanced.moved p₁ q₁) (moved_ne_nil hcne p₁ q₁)
  refine ⟨_, _, hopen₂, .intro ho₂ hbalanced (List.cons_ne_nil t []) hquiet hk₂
    (hibalanced.moved p₂ q₂) (moved_ne_nil hine p₂ q₂) hc₂ htail, rfl, ?_⟩
  have htext : spannedText [t] = v := by simp [spannedText, spanned, text_eq ht]
  simp only [Parts.clause, Option.map_some, spannedText_moved, htext, hitext, hctext]

/-- An expression can stand anywhere in a comprehension: as the yield if none of its words is the
loop keyword, and as iterable and as condition whatever its words are. Strings and templates in it
are never brackets, quotes or keywords; only a regular expression has to have brackets that match
and quotes that close. -/
theorem Comprehension.parse_operands (hy : parseExpression y = .ok ty)
    (hi : parseExpression i = .ok ti) (hc : parseExpression c = .ok tc)
    (hv : Variable.validate v = .ok ()) (htrim : trim v.toList = v.toList) (hty : ty.Embeds True)
    (hti : ti.Embeds False) (htc : tc.Embeds False) :
    Comprehension.parse true (y ++ " for (" ++ v ++ " of " ++ i ++ ") if (" ++ c ++ ")") =
      ⟨[], .ok ⟨String.ofList (trim y.toList), [⟨v, String.ofList (trim i.toList),
        some (String.ofList (trim c.toList))⟩], []⟩⟩ := by
  obtain ⟨ys, hys, hne, hbalanced, hcut, hytext⟩ :=
    exists_tokens_of_parseExpression hy hty isBlank_of_mem_blank
  obtain ⟨segment, p, hlexes, hsplits, hnil, hclause⟩ :=
    exists_clause_of_operands hi hc (word_of_validate hv htrim) hti htc
  obtain ⟨b, a, k, hk, hquieter, hts⟩ := hys.exists_before_keyword (w := "for") hne rfl hlexes
  have hhead : IsSegment (moved b a ys) := ⟨hbalanced.moved b a, cutAt_quieter hquieter (hcut trivial)⟩
  have hloops : ∀ p ∈ [(k, segment)], IsLoop p :=
    List.forall_mem_singleton.2 ⟨hk, hsplits.isSegment hnil⟩
  have htext : (y ++ " for (" ++ v ++ " of " ++ i ++ ") if (" ++ c ++ ")").toList =
      y.toList ++ ' ' :: ("for".toList ++ loopText v i c) := by
    simp [loopText]
  have htokens : tokens? (y ++ " for (" ++ v ++ " of " ++ i ++ ") if (" ++ c ++ ")").toList =
      some (moved b a ys ++ loopTokens [(k, segment)]) := by
    rw [tokens?_eq_some, htext]
    simpa [loopTokens, loopText] using hts
  rw [parse_of_loops htokens (moved_ne_nil hne b a) (List.cons_ne_nil _ _) hhead hloops,
    spannedText_moved, hytext]
  have hsegment (d : Comprehension) : addSegment true d segment =
      ⟨[], .ok { d with clauses := d.clauses ++ [p.clause] }⟩ := by
    simp [addSegment, Clause.ofSegment_of_splits hsplits, hnil]
  simp [addSegments, hsegment, hclause, bind, Noted.bind, pure, Noted.pure, Noted.of]

end

/-! ## Literals as operands -/

/-- A string with the start of a loop in it. -/
def loopString : Node := .leaf .string ⟨.string, "\" for (\""⟩

/-- A template with a bracket in it. -/
def closingTemplate : Node := .leaf .template ⟨.template, "`)`"⟩

/-- A regular expression with neither. -/
def plainRegex : Node := .leaf .regex ⟨.regex, "/a/i"⟩

theorem plainRegex_embeds : plainRegex.Embeds False :=
  .of_children (fun _ ht => (Node.leaf.inj ht).2 ▸ ⟨_, rfl, rfl, nofun⟩) nofun
    (List.forall_mem_singleton.2 (.token nofun))

theorem Comprehension.parse_operands_literals :
    Comprehension.parse true "\" for (\" for (x of `)`) if (/a/i)" =
      ⟨[], .ok ⟨"\" for (\"", [⟨"x", "`)`", some "/a/i"⟩], []⟩⟩ := by
  have hy : parseExpression "\" for (\"" = .ok loopString := rfl
  have hi : parseExpression "`)`" = .ok closingTemplate := rfl
  have hc : parseExpression "/a/i" = .ok plainRegex := rfl
  have hv : Variable.validate "x" = .ok () := rfl
  have hloop : loopString.Embeds True := .leaf nofun (by decide)
  have hparse := parse_operands hy hi hc hv rfl hloop (.leaf nofun nofun) plainRegex_embeds
  exact hparse

/-- A bracket in a regular expression counts as one. -/
example :
    let raw := "x for (x of xs) if (/\\(/)"
    (Comprehension.parse true raw).result = .error (.missingClose ")" raw) := by
  decide +kernel

end Comprehend
