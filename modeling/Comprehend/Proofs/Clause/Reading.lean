import Comprehend.Proofs.Clause.Lexing
import Comprehend.Proofs.Clause.Segment

/-! # Reading a segment

A segment is a clause when it starts with a group that has a loop keyword's `of` in it, between a
pattern and an iterable; a condition may follow, and anything else is a remainder. A segment whose
brackets match is either such a clause or at fault, and then it has no group that stays open. -/

namespace Comprehend

namespace ClauseToken

/-- The tokens of a clause and those that follow it in its segment. -/
structure Parts where
  pattern : List ClauseToken
  iterable : List ClauseToken
  condition : Option (List ClauseToken)
  remainder : List ClauseToken

/-- A condition at the start of some tokens, and those that follow it. -/
inductive Condition : List ClauseToken → Option (List ClauseToken) → List ClauseToken → Prop
  | absent {rest : List ClauseToken} (h : conditionOf rest = .ok (none, rest)) :
      Condition rest none rest
  | present {k o c : ClauseToken} {inside rest : List ClauseToken}
      (hk : k.isKeyword "if" = true) (ho : spelling o = (.opening, ['(']))
      (hc : spelling c = (.closing, [')'])) (hinside : IsBalanced inside) (hne : inside ≠ []) :
      Condition (k :: o :: (inside ++ c :: rest)) (some inside) rest

/-- A segment and its parts. -/
inductive Splits : List ClauseToken → Parts → Prop
  | intro {o k c : ClauseToken} {pattern iterable tail remainder : List ClauseToken}
      {condition : Option (List ClauseToken)} (ho : spelling o = (.opening, ['(']))
      (hpattern : IsBalanced pattern) (hpne : pattern ≠ []) (hquiet : cutAt "of" 0 pattern = none)
      (hk : k.isKeyword "of" = true) (hiterable : IsBalanced iterable) (hine : iterable ≠ [])
      (hc : spelling c = (.closing, [')'])) (hcondition : Condition tail condition remainder) :
      Splits (o :: (pattern ++ k :: iterable ++ c :: tail)) ⟨pattern, iterable, condition, remainder⟩

/-- The clause that is made of parts. -/
def Parts.clause (p : Parts) : Clause :=
  ⟨spannedText p.pattern, spannedText p.iterable, p.condition.map spannedText⟩

section

variable {o c t : ClauseToken} {ts inside tail rest segment : List ClauseToken}
  {condition : Option (List ClauseToken)} {p : Parts}

/-- A token that is an opening round bracket by its text is one. -/
theorem IsRun.spelling_open (h : IsRun (t :: ts)) (ht : t.text = ['(']) :
    spelling t = (.opening, ['(']) := by
  have hscan := h.scan_text t List.mem_cons_self
  rw [ht] at hscan
  cases hkind : t.kind <;> rw [hkind] at hscan <;> cases hscan
  rw [spelling, hkind, ht]

theorem kind_eq {kind : ClauseTokenKind} {text : List Char} (h : spelling t = (kind, text)) :
    t.kind = kind := congrArg Prod.fst h

theorem text_eq {kind : ClauseTokenKind} {text : List Char} (h : spelling t = (kind, text)) :
    t.text = text := congrArg Prod.snd h

/-- Behind an opening round bracket stands its group, if all brackets match. -/
theorem exists_group_of_balanced (ho : spelling o = (.opening, ['('])) (h : IsBalanced (o :: ts)) :
    ∃ inside c rest, group 0 ts = some (inside, rest) ∧ spelling c = (.closing, [')']) ∧
      ts = inside ++ c :: rest ∧ IsBalanced inside ∧ IsBalanced rest := by
  have hcloser : o.closer = [')'] := by simp only [closer, text_eq ho]
  have hp : pending ([] ++ [')'] :: []) ts = some [] := by
    simpa [IsBalanced, pending, kind_eq ho, hcloser] using h
  obtain ⟨⟨inside, rest⟩, hgroup⟩ := exists_group hp (Nat.le_refl _)
  obtain ⟨c, hkind, htext, hts, hinside, hrest⟩ := group_closes hp hgroup
  exact ⟨inside, c, rest, hgroup, by rw [spelling, hkind, htext], hts, hinside, hrest⟩

/-! ## Conditions -/

theorem Condition.remainder_isRun (h : Condition tail condition rest) (hrun : IsRun tail) :
    IsRun rest := by
  cases h with
  | absent => exact hrun
  | present => exact hrun.tail.tail.right.tail

theorem Condition.conditionOf_eq (h : Condition tail condition rest) :
    conditionOf tail = .ok (condition, rest) := by
  cases h with
  | absent h => exact h
  | @present k o c inside _ hk ho hc hinside hne =>
    have hgroup : group 0 (inside ++ c :: rest) = some (inside, rest) :=
      group_append (kind_eq hc) (show pending [] _ = some [] from hinside)
    obtain ⟨t, ts, rfl⟩ := List.exists_cons_of_ne_nil hne
    simp only [conditionOf, hk, text_eq ho, beq_self_eq_true, Bool.and_self, if_true, hgroup]

/-- Tokens whose brackets match have a condition in front or have none. -/
theorem exists_condition (hrun : IsRun tail) (h : IsBalanced tail) :
    ∃ condition rest, Condition tail condition rest := by
  by_cases hcondition : conditionOf tail = .ok (none, tail)
  · exact ⟨none, tail, .absent hcondition⟩
  · match tail, hrun, h, hcondition with
    | [], _, _, hcondition => exact absurd rfl hcondition
    | [_], _, _, hcondition => exact absurd rfl hcondition
    | k :: o :: ts, hrun, h, hcondition =>
      simp only [conditionOf] at hcondition
      split at hcondition
      · next hstart =>
        simp only [Bool.and_eq_true, beq_iff_eq] at hstart
        obtain ⟨hk, htext⟩ := hstart
        have ho := hrun.tail.spelling_open htext
        have hafter : IsBalanced (o :: ts) := by rwa [IsBalanced, pending_keyword hk] at h
        obtain ⟨inside, c, rest, hgroup, hc, rfl, hinside, -⟩ := exists_group_of_balanced ho hafter
        have hne : inside ≠ [] := by
          rintro rfl
          simp only [hgroup] at hcondition
          exact hcondition trivial
        exact ⟨some inside, rest, .present hk ho hc hinside hne⟩
      · exact absurd rfl hcondition

end

end ClauseToken

open ClauseToken

/-! ## Clauses -/

section

variable {segment : List ClauseToken} {p : Parts}

theorem ClauseToken.Splits.remainder_isRun (h : Splits segment p) (hrun : IsRun segment) :
    IsRun p.remainder := by
  cases h with
  | intro _ _ _ _ _ _ _ _ hcondition => exact hcondition.remainder_isRun hrun.tail.right.tail

/-- A segment that splits into parts is the clause of these parts, whatever becomes of the
remainder. -/
theorem Clause.ofSegment_of_splits (h : Splits segment p) (strict : Bool) :
    Clause.ofSegment strict segment =
      if p.remainder.isEmpty then ⟨[], .ok p.clause⟩
      else if strict then
        ⟨[], .error (.clause (.trailing (spannedText p.remainder)) (spannedText segment))⟩
      else ⟨[.ignoredText (spannedText segment) (spannedText p.remainder)], .ok p.clause⟩ := by
  cases h with
  | @intro o k c pattern iterable tail remainder condition ho hpattern hpne hquiet hk hiterable hine
      hc hcondition =>
    have hinside : IsBalanced (pattern ++ k :: iterable) :=
      hpattern.append (by rwa [IsBalanced, pending_keyword hk])
    have hgroup : group 0 (pattern ++ k :: iterable ++ c :: tail) =
        some (pattern ++ k :: iterable, tail) :=
      group_append (kind_eq hc) (show pending [] _ = some [] from hinside)
    have hcut : cutAt "of" 0 (pattern ++ k :: iterable) = some (pattern, iterable) := by
      have happend := cutAt_append (show pending [] pattern = some [] from hpattern) hquiet
        (k :: iterable)
      rw [List.length_nil, cutAt_keyword hk] at happend
      simpa using happend
    obtain ⟨t, pattern, rfl⟩ := List.exists_cons_of_ne_nil hpne
    obtain ⟨u, iterable, rfl⟩ := List.exists_cons_of_ne_nil hine
    simp only [Clause.ofSegment, text_eq ho, ne_eq, not_true, if_false, hgroup, hcut,
      hcondition.conditionOf_eq]
    cases remainder with
    | nil => rfl
    | cons v remainder => cases strict <;> rfl

/-- A segment whose brackets match splits into the parts of a clause, or there is a cause for which
it is none. -/
theorem Clause.splits_or_fault (hrun : IsRun segment) (h : IsBalanced segment) :
    (∃ p, Splits segment p) ∨ ∃ cause, ∀ strict,
      Clause.ofSegment strict segment = ⟨[], .error (.clause cause (spannedText segment))⟩ := by
  cases segment with
  | nil => exact .inr ⟨.noGroup, fun _ => rfl⟩
  | cons o ts =>
    by_cases htext : o.text = ['(']
    · have ho := hrun.spelling_open htext
      obtain ⟨inside, c, tail, hgroup, hc, rfl, hinside, htail⟩ := exists_group_of_balanced ho h
      cases hcut : cutAt "of" 0 inside with
      | none => exact .inr ⟨.noKeyword, fun _ => by
        simp only [Clause.ofSegment, htext, ne_eq, not_true, if_false, hgroup, hcut]
        rfl⟩
      | some cut =>
        obtain ⟨pattern, iterable⟩ := cut
        obtain ⟨k, hk, rfl, hpattern, hiterable, hquiet⟩ :=
          cutAt_cuts (show pending [] inside = some [] from hinside) hcut
        by_cases hpne : pattern = []
        · subst hpne
          exact .inr ⟨.emptyPattern, fun _ => by
        simp only [Clause.ofSegment, htext, ne_eq, not_true, if_false, hgroup, hcut]
        rfl⟩
        by_cases hine : iterable = []
        · subst hine
          exact .inr ⟨.emptyIterable, fun _ => by
        simp only [Clause.ofSegment, htext, ne_eq, not_true, if_false, hgroup, hcut]
        rfl⟩
        have hrest : IsRun tail := (hrun.tail.right).tail
        obtain ⟨condition, remainder, hcondition⟩ := exists_condition hrest htail
        exact .inl ⟨_, .intro ho hpattern hpne hquiet hk hiterable hine hc hcondition⟩
    · exact .inr ⟨.noGroup, fun _ => by
        simp only [Clause.ofSegment, ne_eq, htext, not_false_eq_true, if_true]
        rfl⟩

end

/-! ## Whole texts -/

section

variable {raw : String} {strict : Bool} {c : Comprehension} {head : List ClauseToken}
  {ps : List Loop}

theorem ClauseToken.IsRun.segment_isRun {ps : List Loop} (h : IsRun (loopTokens ps)) :
    ∀ p ∈ ps, IsRun p.2 := by
  induction ps with
  | nil => exact nofun
  | cons p ps ih =>
    have htail : IsRun (p.2 ++ loopTokens ps) := h.tail
    exact List.forall_mem_cons.2 ⟨htail.left, ih htail.right⟩

/-- A text that is read consists of a yield and at least one loop. -/
theorem Comprehension.exists_loops (h : (Comprehension.parse strict raw).result = .ok c) :
    ∃ head ps, tokens? raw.toList = some (head ++ loopTokens ps) ∧ head ≠ [] ∧ ps ≠ [] ∧
      IsSegment head ∧ ∀ p ∈ ps, IsLoop p := by
  unfold Comprehension.parse at h
  split at h
  · cases h
  · next tokens htokens =>
    rw [Noted.result_bind] at h
    obtain ⟨ss, hss, hadd⟩ := Chain.bind_eq_ok h
    obtain ⟨head, ps, rfl, rfl, hbalanced, hwhole, hps⟩ := segments_eq_ok hss
    refine ⟨head, ps, htokens, ?_, ?_, ⟨hbalanced, hwhole⟩, hps⟩
    · rintro rfl
      cases ps <;> cases hadd
    · rintro rfl
      cases hadd

/-- A yield and loops are read by adding the segments of the loops. -/
theorem Comprehension.parse_of_loops (hts : tokens? raw.toList = some (head ++ loopTokens ps))
    (hne : head ≠ []) (hpsne : ps ≠ []) (hhead : IsSegment head) (hps : ∀ p ∈ ps, IsLoop p) :
    Comprehension.parse strict raw =
      addSegments strict ⟨spannedText head, [], []⟩ (ps.map (·.2)) := by
  have hsegments : segments raw [] 0 (head ++ loopTokens ps) = .ok (head :: ps.map (·.2)) :=
    segments_append hhead.balanced hhead.whole (segments_loopTokens hps) 0
  obtain ⟨t, head, rfl⟩ := List.exists_cons_of_ne_nil hne
  obtain ⟨p, ps, rfl⟩ := List.exists_cons_of_ne_nil hpsne
  simp only [Comprehension.parse, hts, hsegments]
  exact Noted.pure_bind _ _

end

end Comprehend
