import Comprehend.Proofs.Clause.Lexing
import Comprehend.Proofs.Clause.Reading

/-! # Canonical notation

A comprehension that was read can be written out again, each clause with one blank around its words
and with its brackets. The parts are at other places than in the text they were cut out of, so
blanks at their ends may be new, but no word becomes a keyword by that: a pattern and the yield
already stood in front of a keyword, and nothing counts inside the brackets of a group. The written
text is therefore read without a notice, as the comprehension it was written from. -/

namespace Comprehend

open ClauseToken

/-! ## Writing -/

def canonicalCondition : Option String → String
  | none => ""
  | some condition => " if (" ++ condition ++ ")"

def Clause.canonical (c : Clause) : String :=
  " for (" ++ c.pattern ++ " of " ++ c.iterable ++ ")" ++ canonicalCondition c.condition

/-- A comprehension in canonical notation. -/
def Comprehension.canonical (c : Comprehension) : String :=
  c.yield ++ String.join (c.clauses.map Clause.canonical)

namespace ClauseToken

open Comprehend.Text

/-! ## Moved tokens -/

section

variable {stack : List (List Char)} {b a : List Char} {w : String} {depth : Nat} {k t : ClauseToken}
  {ts us : List ClauseToken}

/-- Only what tokens are matters to brackets. -/
theorem pending_congr (h : ts.map spelling = us.map spelling) (stack : List (List Char)) :
    pending stack ts = pending stack us := by
  induction ts generalizing us stack with
  | nil =>
    rw [List.map_eq_nil_iff.1 h.symm]
  | cons t ts ih =>
    obtain ⟨u, us, rfl, hu, hus⟩ := List.map_eq_cons_iff.1 h.symm
    have hkind : u.kind = t.kind := congrArg Prod.fst hu
    have htext : u.text = t.text := congrArg Prod.snd hu
    simp only [pending, closer, hkind, htext, ih hus.symm]

theorem IsBalanced.moved (h : IsBalanced ts) (b a : List Char) :
    IsBalanced (ClauseToken.moved b a ts) := by
  rw [IsBalanced, pending_congr (spelling_moved b a ts)]
  exact h

theorem spannedText_moved (b a : List Char) (ts : List ClauseToken) :
    spannedText (moved b a ts) = spannedText ts := congrArg String.ofList (spanned_moved b a ts)

theorem moved_ne_nil (h : ts ≠ []) (b a : List Char) : moved b a ts ≠ [] := by
  intro hnil
  have hmap := spelling_moved b a ts
  rw [hnil] at hmap
  exact h (List.map_eq_nil_iff.1 hmap.symm)

/-- The second token is the first at another place, where it is a keyword only if it was one. -/
def Quieter (w : String) (t u : ClauseToken) : Prop :=
  spelling u = spelling t ∧ (u.isKeyword w = true → t.isKeyword w = true)

theorem cutAt_quieter (h : List.Forall₂ (Quieter w) ts us) (hcut : cutAt w depth ts = none) :
    cutAt w depth us = none := by
  induction h generalizing depth with
  | nil => rfl
  | @cons t u ts us hu _ ih =>
    obtain ⟨hspell, hkeyword⟩ := hu
    have hkind : u.kind = t.kind := congrArg Prod.fst hspell
    cases hk : t.kind with
    | opening =>
      simp only [cutAt, hk, hkind, Option.map_eq_none_iff] at hcut ⊢
      exact ih hcut
    | closing =>
      simp only [cutAt, hk, hkind, Option.map_eq_none_iff] at hcut ⊢
      exact ih hcut
    | _ =>
      obtain ⟨hpass, hrest⟩ := cutAt_other (by simp [hk]) (by simp [hk]) hcut
      have hpass' : ¬(depth == 0 && u.isKeyword w) = true := by
        intro hboth
        obtain ⟨hdepth, hu⟩ := Bool.and_eq_true_iff.1 hboth
        rw [hdepth, hkeyword hu] at hpass
        cases hpass
      simp only [cutAt, hkind, hk]
      rw [if_neg hpass', ih hrest, Option.map_none]

theorem isKeyword_of_blanks (hb : t.before = [] → b = []) (ha : t.after = [] → a = [])
    (h : isKeyword w { t with before := b, after := a } = true) : t.isKeyword w = true := by
  simp only [isKeyword, Bool.and_eq_true, Bool.not_eq_true', List.isEmpty_eq_false_iff] at h ⊢
  exact ⟨⟨h.1.1, mt hb h.1.2⟩, mt ha h.2⟩

/-- Tokens are quieter at a place where the blanks at their ends, if there are any, were there
before. -/
theorem quieter_moved (hb : ∀ t ∈ ts.head?, t.before = [] → b = [])
    (ha : ∀ t ∈ ts.getLast?, t.after = [] → a = []) (w : String) :
    List.Forall₂ (Quieter w) ts (moved b a ts) := by
  fun_induction moved b a ts with
  | case1 => exact .nil
  | case2 b t =>
    exact .cons ⟨rfl, isKeyword_of_blanks (hb t rfl) (ha t rfl)⟩ .nil
  | case3 b t u ts ih =>
    refine .cons ⟨rfl, isKeyword_of_blanks (hb t rfl) id⟩ (ih (fun v hv => ?_) fun v hv => ?_)
    · cases hv
      exact id
    · exact ha v (by rwa [List.getLast?_cons_cons])

/-- What stands in front of a keyword has a blank behind it. -/
theorem IsRun.after_ne_nil (h : IsRun (ts ++ k :: us)) (hk : k.isKeyword w = true) :
    ∀ t ∈ ts.getLast?, t.after ≠ [] := by
  intro t ht
  obtain ⟨vs, rfl⟩ := List.getLast?_eq_some_iff.1 ht
  rw [List.append_assoc, List.singleton_append] at h
  rw [h.after_eq]
  simp only [isKeyword, Bool.and_eq_true, Bool.not_eq_true', List.isEmpty_eq_false_iff] at hk
  exact hk.1.2

end

/-! ## Tokens of what is written -/

section

variable {b u : List Char} {w : String} {t : ClauseToken}
  {ts us segment tail rest : List ClauseToken} {condition : Option (List ClauseToken)} {p : Parts}

theorem isBlank_of_mem_blank : ∀ c ∈ [' '], isBlank c = true := List.forall_mem_singleton.2 rfl

theorem isBlank_of_mem_nil : ∀ c ∈ ([] : List Char), isBlank c = true := nofun

/-- A word between blanks is a keyword. -/
theorem exists_keyword_behind (hb : ∀ c ∈ b, isBlank c = true) (hne : b ≠ [])
    (hw : scan w.toList = some (.word, w.toList, [])) (hu : Lexes (' ' :: u) us) :
    ∃ k, k.isKeyword w = true ∧ Lexes (b ++ (w.toList ++ ' ' :: u)) (k :: us) := by
  have hbreaks : Breaks (' ' :: u) := breaks_cons (.inl rfl) u
  have hscan := scan_append hw (hbreaks.endsLike [])
  refine ⟨⟨b, .word, w.toList, (' ' :: u).takeWhile isBlank⟩, ?_, ?_⟩
  · simp [isKeyword, isBlank, hne]
  · exact lexes_token hb hw hscan hu

theorem exists_keyword (hw : scan w.toList = some (.word, w.toList, [])) (hu : Lexes (' ' :: u) us) :
    ∃ k, k.isKeyword w = true ∧ Lexes (' ' :: (w.toList ++ ' ' :: u)) (k :: us) :=
  exists_keyword_behind isBlank_of_mem_blank (List.cons_ne_nil _ _) hw hu

theorem exists_opening (hu : Lexes u us) :
    ∃ o, spelling o = (.opening, ['(']) ∧ Lexes (' ' :: '(' :: u) (o :: us) :=
  ⟨⟨[' '], .opening, ['('], u.takeWhile isBlank⟩, rfl,
    lexes_token (show ∀ c ∈ [' '], isBlank c = true from isBlank_of_mem_blank)
      (show scan ['('] = some (.opening, ['('], []) from rfl) rfl hu⟩

theorem exists_closing_behind (hb : ∀ c ∈ b, isBlank c = true) (hu : Lexes u us) :
    ∃ c, spelling c = (.closing, [')']) ∧ Lexes (b ++ ')' :: u) (c :: us) :=
  ⟨⟨b, .closing, [')'], u.takeWhile isBlank⟩, rfl,
    lexes_token hb (show scan [')'] = some (.closing, [')'], []) from rfl) rfl hu⟩

theorem exists_closing (hu : Lexes u us) :
    ∃ c, spelling c = (.closing, [')']) ∧ Lexes (')' :: u) (c :: us) :=
  exists_closing_behind isBlank_of_mem_nil hu

/-- A run in front of a blank or a bracket. -/
theorem IsRun.lexes_spannedText {b : List Char} {c : Char} (h : IsRun ts) (hne : ts ≠ [])
    (hb : ∀ c ∈ b, isBlank c = true) (hc : c = ' ' ∨ c = '(' ∨ c = ')') (hu : Lexes (c :: u) us) :
    Lexes (b ++ ((spannedText ts).toList ++ c :: u))
      (moved b ((c :: u).takeWhile isBlank) ts ++ us) := by
  obtain ⟨t, ts, rfl⟩ := List.exists_cons_of_ne_nil hne
  rw [spannedText, String.toList_ofList]
  exact h.lexes hb hu (breaks_cons hc u)

/-- A condition with nothing behind it has no loop keyword that counts. -/
theorem Condition.isSegment (h : Condition tail condition []) : IsSegment tail := by
  cases h with
  | absent => exact ⟨rfl, rfl⟩
  | @present k o c inside _ hk ho hc hinside hne =>
    constructor
    · rw [IsBalanced, pending_keyword hk]
      exact pending_group (kind_eq ho) (kind_eq hc) (by simp [closer, text_eq ho, text_eq hc]) hinside [] []
    · have hword : k.isKeyword "for" = false := by simp [isKeyword, text_of_isKeyword hk]
      have hpass := cutAt_group (kind_eq ho) (kind_eq hc) hinside "for" []
      simpa [cutAt, kind_of_isKeyword hk, hword] using hpass

/-- The tokens of a clause with nothing behind it are a segment. -/
theorem Splits.isSegment (h : Splits segment p) (hp : p.remainder = []) : IsSegment segment := by
  cases h with
  | @intro o k c pattern iterable tail remainder condition ho hpattern hpne hquiet hk hiterable hine
      hc hcondition =>
    cases hp
    have htail : IsSegment tail := hcondition.isSegment
    have hgroup : IsBalanced (pattern ++ k :: iterable) :=
      hpattern.append (by rwa [IsBalanced, pending_keyword hk])
    have hcloser : c.text = o.closer := by simp [closer, text_eq ho, text_eq hc]
    constructor
    · have hpending := pending_group (kind_eq ho) (kind_eq hc) hcloser hgroup [] tail
      rw [IsBalanced]
      simpa using hpending.trans htail.balanced
    · have hpass := cutAt_group (kind_eq ho) (kind_eq hc) hgroup "for" tail
      rw [htail.whole] at hpass
      simpa using hpass

/-- A condition is written as one of the same text, and nothing behind it. -/
theorem Condition.exists_canonical (h : Condition tail condition rest) (hrun : IsRun tail)
    (hu : Lexes u us) :
    ∃ tail' condition', Lexes ((canonicalCondition (condition.map spannedText)).toList ++ u)
        (tail' ++ us) ∧ Condition tail' condition' [] ∧
      condition'.map spannedText = condition.map spannedText := by
  cases h with
  | absent => exact ⟨[], none, hu, .absent rfl, rfl⟩
  | @present k o c inside _ hk ho hc hinside hne =>
    obtain ⟨c, hc, hlexes⟩ := exists_closing hu
    have hbody : Lexes ([] ++ ((spannedText inside).toList ++ ')' :: u))
        (moved [] [] inside ++ c :: us) :=
      hrun.tail.tail.left.lexes_spannedText hne isBlank_of_mem_nil (.inr (.inr rfl)) hlexes
    obtain ⟨o, ho, hgroup⟩ := exists_opening hbody
    obtain ⟨k, hk, hcondition⟩ := exists_keyword (w := "if") rfl hgroup
    refine ⟨k :: o :: (moved [] [] inside ++ [c]), some (moved [] [] inside), ?_,
      .present hk ho hc (hinside.moved [] []) (moved_ne_nil hne [] []), ?_⟩
    · simpa [canonicalCondition] using hcondition
    · rw [Option.map_some, Option.map_some, spannedText_moved]

/-- A clause is written as a loop of the same clause, and nothing behind it. -/
theorem Splits.exists_canonical (h : Splits segment p) (hrun : IsRun segment) (hu : Lexes u us) :
    ∃ (q : Loop) (p' : Parts), Lexes (p.clause.canonical.toList ++ u) (q.1 :: (q.2 ++ us)) ∧
      IsLoop q ∧ Splits q.2 p' ∧ p'.clause = p.clause ∧ p'.remainder = [] := by
  cases h with
  | @intro o k c pattern iterable tail remainder condition ho hpattern hpne hquiet hk hiterable hine
      hc hcondition =>
    have hinside : IsRun (pattern ++ k :: iterable) := hrun.tail.left
    obtain ⟨tail', condition', htail, hcondition', hsame⟩ :=
      hcondition.exists_canonical hrun.tail.right.tail hu
    obtain ⟨c', hc', hclose⟩ := exists_closing htail
    have hbehind : Lexes ([' '] ++ ((spannedText iterable).toList ++ ')' :: _))
        (moved [' '] [] iterable ++ c' :: (tail' ++ us)) :=
      hinside.right.tail.lexes_spannedText hine isBlank_of_mem_blank (.inr (.inr rfl)) hclose
    obtain ⟨k', hk', hof⟩ := exists_keyword (w := "of") rfl hbehind
    have hbefore : Lexes ([] ++ ((spannedText pattern).toList ++ ' ' :: ("of".toList ++ ' ' :: _)))
        (moved [] [' '] pattern ++ k' :: (moved [' '] [] iterable ++ c' :: (tail' ++ us))) :=
      hinside.left.lexes_spannedText hpne isBlank_of_mem_nil (.inl rfl) hof
    obtain ⟨o', ho', hopen⟩ := exists_opening hbefore
    obtain ⟨f, hf, hfor⟩ := exists_keyword (w := "for") rfl hopen
    have hpattern' := hpattern.moved [] [' ']
    have hiterable' := hiterable.moved [' '] []
    have hquiet' : cutAt "of" 0 (moved [] [' '] pattern) = none :=
      cutAt_quieter (quieter_moved (fun _ _ _ => rfl)
        (fun t ht hnil => absurd hnil (hinside.after_ne_nil hk t ht)) "of") hquiet
    have hsplits := Splits.intro ho' hpattern' (moved_ne_nil hpne _ _) hquiet' hk' hiterable'
      (moved_ne_nil hine _ _) hc' hcondition'
    refine ⟨(f, o' :: (moved [] [' '] pattern ++ k' :: moved [' '] [] iterable ++ c' :: tail')), _,
      ?_, ⟨hf, hsplits.isSegment rfl⟩, hsplits, ?_, rfl⟩
    · simpa [Clause.canonical, Parts.clause] using hfor
    · simp only [Parts.clause, spannedText_moved, hsame]

end

end ClauseToken

open ClauseToken

/-! ## Reading what is written -/

/-- A clause that was read from some segment. -/
def Clause.IsRead (c : Clause) : Prop := ∃ segment p, IsRun segment ∧ Splits segment p ∧ p.clause = c

section

variable {strict : Bool} {segment : List ClauseToken} {clause : Clause} {clauses : List Clause}
  {raw : String} {c : Comprehension}

theorem Clause.exists_splits (hrun : IsRun segment) (hb : IsBalanced segment)
    (h : (Clause.ofSegment strict segment).result = .ok clause) :
    ∃ p, Splits segment p ∧ p.clause = clause := by
  rcases splits_or_fault hrun hb with ⟨p, hp⟩ | ⟨cause, hcause⟩
  · refine ⟨p, hp, ?_⟩
    rw [ofSegment_of_splits hp] at h
    split_ifs at h <;> cases h <;> rfl
  · rw [hcause] at h
    cases h

theorem Clause.isRead_of_ofSegment (hrun : IsRun segment) (hb : IsBalanced segment)
    (h : (Clause.ofSegment strict segment).result = .ok clause) : clause.IsRead := by
  obtain ⟨p, hp, hclause⟩ := exists_splits hrun hb h
  exact ⟨segment, p, hrun, hp, hclause⟩

theorem Comprehension.isRead_of_parse (h : (Comprehension.parse strict raw).result = .ok c) :
    ∀ clause ∈ c.clauses, clause.IsRead := by
  obtain ⟨head, ps, hts, hne, hpsne, hhead, hps⟩ := exists_loops h
  have hrun : IsRun (head ++ loopTokens ps) := (tokens?_eq_some.1 hts).isRun
  rw [parse_of_loops hts hne hpsne hhead hps] at h
  refine forall_addSegments (List.forall_mem_map.2 fun p hp clause hclause => ?_)
    (fun _ hmem => absurd hmem List.not_mem_nil) h
  exact Clause.isRead_of_ofSegment (hrun.right.segment_isRun p hp) (hps p hp).segment.balanced hclause

theorem Comprehension.yield_of_addSegments {segments : List (List ClauseToken)} {c c' : Comprehension}
    (h : (addSegments strict c segments).result = .ok c') : c'.yield = c.yield := by
  induction segments generalizing c with
  | nil =>
    cases h
    rfl
  | cons s segments ih =>
    rw [addSegments, Noted.result_bind] at h
    obtain ⟨d, hd, h⟩ := Chain.bind_eq_ok h
    rw [ih h]
    simp only [addSegment] at hd
    split at hd
    · cases hd
      rfl
    · split at hd
      · cases hd
      · cases hd
        rfl

/-- Written clauses are loops, and adding their segments adds these clauses. -/
theorem Comprehension.exists_canonical_loops (h : ∀ clause ∈ clauses, clause.IsRead) :
    ∃ ps : List Loop, Lexes (clauses.flatMap (·.canonical.toList)) (loopTokens ps) ∧
      (∀ p ∈ ps, IsLoop p) ∧ ps.length = clauses.length ∧
      ∀ c, addSegments true c (ps.map (·.2)) =
        ⟨[], .ok { c with clauses := c.clauses ++ clauses }⟩ := by
  induction clauses with
  | nil => exact ⟨[], .done rfl, nofun, rfl, fun c => by simp [addSegments, pure, Noted.pure, Noted.of]⟩
  | cons clause clauses ih =>
    obtain ⟨⟨segment, p, hrun, hsplits, rfl⟩, hclauses⟩ := List.forall_mem_cons.1 h
    obtain ⟨ps, hlexes, hps, hlength, hadd⟩ := ih hclauses
    obtain ⟨q, p', hqlexes, hq, hsplits', hclause, hnil⟩ := hsplits.exists_canonical hrun hlexes
    refine ⟨q :: ps, hqlexes, List.forall_mem_cons.2 ⟨hq, hps⟩, by simp [hlength], fun c => ?_⟩
    have hsegment : addSegment true c q.2 =
        ⟨[], .ok { c with clauses := c.clauses ++ [p.clause] }⟩ := by
      simp [addSegment, Clause.ofSegment_of_splits hsplits', hclause, hnil]
    rw [List.map_cons, addSegments, hsegment]
    simp [bind, Noted.bind, hadd]

/-- Canonical notation is a fixed point: what was read leniently and is written out is read strictly
as the same yield and the same clauses, without a notice and with nothing dropped. -/
theorem Comprehension.parse_canonical (h : (Comprehension.parse false raw).result = .ok c)
    (hne : c.clauses ≠ []) :
    Comprehension.parse true c.canonical = ⟨[], .ok ⟨c.yield, c.clauses, []⟩⟩ := by
  obtain ⟨head, ps, hts, hheadne, hpsne, hhead, hps⟩ := exists_loops h
  have hrun : IsRun (head ++ loopTokens ps) := (tokens?_eq_some.1 hts).isRun
  obtain ⟨qs, hlexes, hqs, hlength, hadd⟩ := exists_canonical_loops (isRead_of_parse h)
  have hyield : c.yield = spannedText head := by
    rw [parse_of_loops hts hheadne hpsne hhead hps] at h
    exact yield_of_addSegments h
  -- the yield stood in front of a loop keyword, so it has a blank behind it in both texts
  have hbehind : ∀ t ∈ head.getLast?, t.after = [] → [' '] = [] := by
    obtain ⟨p, ps, rfl⟩ := List.exists_cons_of_ne_nil hpsne
    obtain ⟨hp, -⟩ := List.forall_mem_cons.1 hps
    exact fun t ht hnil => absurd hnil (hrun.after_ne_nil hp.keyword t ht)
  have hquieter := quieter_moved (b := []) (fun _ _ _ => rfl) hbehind "for"
  have hmoved : IsSegment (moved [] [' '] head) :=
    ⟨hhead.balanced.moved [] [' '], cutAt_quieter hquieter hhead.whole⟩
  have htokens : tokens? c.canonical.toList = some (moved [] [' '] head ++ loopTokens qs) := by
    obtain ⟨clause, clauses, heq⟩ := List.exists_cons_of_ne_nil hne
    have hchars : c.canonical.toList = [] ++ ((spannedText head).toList ++
        ' ' :: ("for (".toList ++ (clause.pattern ++ " of " ++ clause.iterable ++ ")" ++
          canonicalCondition clause.condition).toList ++
          clauses.flatMap (·.canonical.toList))) := by
      simp [Comprehension.canonical, heq, hyield, Clause.canonical, List.flatMap_map]
    rw [tokens?_eq_some, hchars]
    exact hrun.left.lexes_spannedText hheadne isBlank_of_mem_nil (.inl rfl)
      (by simpa [heq, Clause.canonical] using hlexes)
  have hqsne : qs ≠ [] := by
    rintro rfl
    exact hne (List.length_eq_zero_iff.1 hlength.symm)
  rw [parse_of_loops htokens (moved_ne_nil hheadne _ _) hqsne hmoved hqs, hadd, spannedText_moved,
    ← hyield, List.nil_append]

end

/-- Words of the notation as operands: the first `for` and the first `of` have no blank in front. -/
def wordyText : String := "for (x) for (of of  xs) if ( x ) y for z"

def wordy : Comprehension := ⟨"for (x)", [⟨"of", "xs", some "x"⟩], ["z"]⟩

theorem parse_wordy : (Comprehension.parse false wordyText).result = .ok wordy := by
  decide +kernel

theorem Comprehension.parse_canonical_wordy :
    wordy.canonical = "for (x) for (of of xs) if (x)" ∧
      Comprehension.parse true wordy.canonical =
        ⟨[], .ok ⟨"for (x)", [⟨"of", "xs", some "x"⟩], []⟩⟩ :=
  ⟨by decide +kernel, parse_canonical parse_wordy (List.cons_ne_nil _ _)⟩

end Comprehend
