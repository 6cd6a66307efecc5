import Comprehend.Proofs.Clause.Swap

/-! # Literals decide nothing

With another literal in the place of one a text is read in the same way: it is refused for the same
reason, or it has as many clauses, with a condition where there was one, as many dropped segments
and as many notices, and at most one operand differs, by that literal. -/

namespace Comprehend

open ClauseToken Relation

/-- Notices of one kind. -/
inductive Notice.Alike : Notice → Notice → Prop
  | same (n : Notice) : Alike n n
  | dropped {fault fault' : Fault} (h : fault.Alike fault') :
      Alike (.droppedClause fault) (.droppedClause fault')
  | ignored (segment rest segment' rest' : String) :
      Alike (.ignoredText segment rest) (.ignoredText segment' rest')

/-- As many notices, each of the same kind, and results that are alike. -/
structure Noted.Alike {α : Type} (R : α → α → Prop) (a b : Noted α) : Prop where
  notices : List.Forall₂ Notice.Alike a.notices b.notices
  result : EndsAlike R a.result b.result

namespace Noted.Alike

section

variable {α β : Type} {R : α → α → Prop} {S : β → β → Prop} {a b : Noted α}

theorem refl (a : Noted α) : a.Alike Eq a :=
  ⟨List.forall₂_same.2 fun n _ => .same n, .refl a.result⟩

theorem of {x y : Except Fault α} (h : EndsAlike R x y) : (Noted.of x).Alike R (Noted.of y) :=
  ⟨.nil, h⟩

theorem fails {fault fault' : Fault} (h : fault.Alike fault') :
    (Noted.of (.error fault)).Alike R (Noted.of (.error fault')) :=
  .of (.error h)

theorem bind {f g : α → Noted β} (h : a.Alike R b) (hfg : ∀ x y, R x y → (f x).Alike S (g y)) :
    (a >>= f).Alike S (b >>= g) := by
  rcases a with ⟨ns, a⟩
  rcases b with ⟨ms, b⟩
  obtain ⟨hnotices, hresult⟩ := h
  cases hresult with
  | error h => exact ⟨hnotices, .error h⟩
  | ok h => exact ⟨List.rel_append hnotices (hfg _ _ h).notices, (hfg _ _ h).result⟩

end

end Noted.Alike

/-! ## Conditions -/

namespace ClauseToken

/-- A condition and what follows it, with one item replaced in one of them. -/
inductive OneCondition (R : ClauseToken → ClauseToken → Prop) :
    Option (List ClauseToken) × List ClauseToken → Option (List ClauseToken) × List ClauseToken →
      Prop
  | inside {inside inside' rest : List ClauseToken} (h : OneOf R inside inside') :
      OneCondition R (some inside, rest) (some inside', rest)
  | rest {condition : Option (List ClauseToken)} {rest rest' : List ClauseToken}
      (h : OneOf R rest rest') : OneCondition R (condition, rest) (condition, rest')

section

variable {lit lit' : List Char} {t o : ClauseToken} {ts rest rest' : List ClauseToken}

theorem IsLiteral.conditionOf_eq (h : IsLiteral t.kind lit) (ts : List ClauseToken) :
    conditionOf (t :: ts) = .ok (none, t :: ts) := by
  cases ts with
  | nil => rfl
  | cons o ts => simp [conditionOf, h.isKeyword]

theorem conditionOf_of_text_ne (ho : o.text ≠ ['(']) (k : ClauseToken) (ts : List ClauseToken) :
    conditionOf (k :: o :: ts) = .ok (none, k :: o :: ts) := by
  simp [conditionOf, ho]

theorem conditionOf_swap (h : OneOf (Replaces lit lit') rest rest') :
    EndsAlike (OneCondition (Replaces lit lit')) (conditionOf rest) (conditionOf rest') := by
  cases h with
  | head h =>
    rw [h.old.conditionOf_eq, h.new.conditionOf_eq]
    exact .ok (.rest (.head h))
  | @tail k _ _ h =>
    cases h with
    | head h =>
      rw [conditionOf_of_text_ne (h.old.text_ne h.text),
        conditionOf_of_text_ne (h.new.text_ne h.text')]
      exact .ok (.rest (.tail (.head h)))
    | @tail o ts ts' h =>
      simp only [conditionOf]
      split
      · have hgroup := group_swap h 0
        generalize group 0 ts = cut at hgroup ⊢
        generalize group 0 ts' = cut' at hgroup ⊢
        cases hgroup with
        | none => exact .error ⟨rfl, rfl⟩
        | some hcut =>
          cases hcut with
          | left hinside =>
            cases hinside with
            | head hu => exact .ok (.inside (.head hu))
            | tail hus => exact .ok (.inside (.tail hus))
          | @right inside after after' hafter =>
            cases inside with
            | nil => exact .ok (.rest (.tail (.tail h)))
            | cons u us => exact .ok (.rest hafter)
      · exact .ok (.rest (.tail (.tail h)))

end

end ClauseToken

/-! ## Clauses -/

/-- Clauses that differ in one operand, by one literal in the place of another. -/
inductive Clause.Swapped (lit lit' : List Char) : Clause → Clause → Prop
  | pattern {p p' i : String} {c : Option String} (h : TextSwap lit lit' p p') :
      Swapped lit lit' ⟨p, i, c⟩ ⟨p', i, c⟩
  | iterable {p i i' : String} {c : Option String} (h : TextSwap lit lit' i i') :
      Swapped lit lit' ⟨p, i, c⟩ ⟨p, i', c⟩
  | condition {p i c c' : String} (h : TextSwap lit lit' c c') :
      Swapped lit lit' ⟨p, i, some c⟩ ⟨p, i, some c'⟩

/-- What a strict or a lenient reading makes of a clause with a remainder. -/
def Clause.finish (strict : Bool) (text : String) (clause : Clause) (rest : List ClauseToken) :
    Noted Clause :=
  if rest.isEmpty then pure clause
  else if strict then Noted.of (.error (.clause (.trailing (spannedText rest)) text))
  else do
    Noted.note (.ignoredText text (spannedText rest))
    return clause

/-- The clause of a loop group and what follows the group. -/
def Clause.ofGroup (strict : Bool) (text : String) (inside rest : List ClauseToken) :
    Noted Clause :=
  match cutAt "of" 0 inside with
  | none => Noted.of (.error (.clause .noKeyword text))
  | some ([], _) => Noted.of (.error (.clause .emptyPattern text))
  | some (_, []) => Noted.of (.error (.clause .emptyIterable text))
  | some (pattern, iterable) => Noted.of (conditionOf rest) >>= fun q =>
      Clause.finish strict text
        ⟨spannedText pattern, spannedText iterable, q.1.map spannedText⟩ q.2

section

variable {lit lit' : List Char} {strict : Bool} {text text' : String} {t : ClauseToken}
  {ts inside inside' rest rest' segment segment' : List ClauseToken} {c c' : Clause}
  {R : Clause → Clause → Prop}

theorem Clause.ofSegment_of_ne (strict : Bool) (ht : t.text ≠ ['(']) (ts : List ClauseToken) :
    Clause.ofSegment strict (t :: ts) =
      Noted.of (.error (.clause .noGroup (spannedText (t :: ts)))) := by
  simp only [Clause.ofSegment, ne_eq, ht, not_false_eq_true, if_true]

theorem Clause.ofSegment_of_group (strict : Bool) (ht : t.text = ['(']) (ts : List ClauseToken) :
    Clause.ofSegment strict (t :: ts) =
      match group 0 ts with
      | none => Noted.of (.error (.unclosedGroup "("))
      | some (inside, rest) => Clause.ofGroup strict (spannedText (t :: ts)) inside rest := by
  simp only [Clause.ofSegment, ht, ne_eq, not_true, if_false]
  rfl

theorem Clause.finish_alike (strict : Bool) (text text' : String) (h : R c c')
    (hrest : rest.isEmpty = rest'.isEmpty) :
    (Clause.finish strict text c rest).Alike R (Clause.finish strict text' c' rest') := by
  unfold Clause.finish
  rw [hrest]
  split
  · exact .of (.ok h)
  · split
    · exact .fails ⟨rfl, rfl⟩
    · exact ⟨.cons (.ignored _ _ _ _) .nil, .ok h⟩

theorem Clause.ofGroup_swap_inside (strict : Bool) (text text' : String)
    (h : OneOf (Replaces lit lit') inside inside') (rest : List ClauseToken) :
    (Clause.ofGroup strict text inside rest).Alike (ReflGen (Clause.Swapped lit lit'))
      (Clause.ofGroup strict text' inside' rest) := by
  have hcut := cutAt_swap h "of" 0
  unfold Clause.ofGroup
  generalize cutAt "of" 0 inside = cut at hcut ⊢
  generalize cutAt "of" 0 inside' = cut' at hcut ⊢
  cases hcut with
  | none => exact .fails ⟨rfl, rfl⟩
  | some hsides =>
    cases hsides with
    | @left _ _ iterable hpattern =>
      have htext := spannedText_swap hpattern
      obtain ⟨p, pattern, rfl⟩ := List.exists_cons_of_ne_nil hpattern.ne_nil.1
      obtain ⟨p', pattern', rfl⟩ := List.exists_cons_of_ne_nil hpattern.ne_nil.2
      cases iterable with
      | nil => exact .fails ⟨rfl, rfl⟩
      | cons i iterable =>
        refine (Noted.Alike.of (.refl _)).bind fun q q' hq => ?_
        cases hq
        exact Clause.finish_alike _ _ _ (.single (.pattern htext)) rfl
    | @right pattern _ _ hiterable =>
      have htext := spannedText_swap hiterable
      obtain ⟨i, iterable, rfl⟩ := List.exists_cons_of_ne_nil hiterable.ne_nil.1
      obtain ⟨i', iterable', rfl⟩ := List.exists_cons_of_ne_nil hiterable.ne_nil.2
      cases pattern with
      | nil => exact .fails ⟨rfl, rfl⟩
      | cons p pattern =>
        refine (Noted.Alike.of (.refl _)).bind fun q q' hq => ?_
        cases hq
        exact Clause.finish_alike _ _ _ (.single (.iterable htext)) rfl

theorem Clause.ofGroup_swap_rest (strict : Bool) (text text' : String)
    (h : OneOf (Replaces lit lit') rest rest') (inside : List ClauseToken) :
    (Clause.ofGroup strict text inside rest).Alike (ReflGen (Clause.Swapped lit lit'))
      (Clause.ofGroup strict text' inside rest') := by
  unfold Clause.ofGroup
  split
  · exact .fails ⟨rfl, rfl⟩
  · exact .fails ⟨rfl, rfl⟩
  · exact .fails ⟨rfl, rfl⟩
  · refine (Noted.Alike.of (conditionOf_swap h)).bind fun q q' hq => ?_
    cases hq with
    | inside hinside =>
      exact Clause.finish_alike _ _ _ (.single (.condition (spannedText_swap hinside))) rfl
    | rest hrest =>
      refine Clause.finish_alike _ _ _ .refl ?_
      rw [List.isEmpty_eq_false_iff.2 hrest.ne_nil.1, List.isEmpty_eq_false_iff.2 hrest.ne_nil.2]

theorem Clause.ofSegment_swap (strict : Bool) (h : OneOf (Replaces lit lit') segment segment') :
    (Clause.ofSegment strict segment).Alike (ReflGen (Clause.Swapped lit lit'))
      (Clause.ofSegment strict segment') := by
  cases h with
  | head h =>
    rw [Clause.ofSegment_of_ne strict (h.old.text_ne h.text),
      Clause.ofSegment_of_ne strict (h.new.text_ne h.text')]
    exact .fails ⟨rfl, rfl⟩
  | @tail t ts ts' h =>
    by_cases ht : t.text = ['(']
    · have hgroup := group_swap h 0
      rw [Clause.ofSegment_of_group strict ht, Clause.ofSegment_of_group strict ht]
      generalize group 0 ts = cut at hgroup ⊢
      generalize group 0 ts' = cut' at hgroup ⊢
      cases hgroup with
      | none => exact .fails ⟨rfl, rfl⟩
      | some hsides =>
        cases hsides with
        | left hinside => exact Clause.ofGroup_swap_inside strict _ _ hinside _
        | right hrest => exact Clause.ofGroup_swap_rest strict _ _ hrest _
    · rw [Clause.ofSegment_of_ne strict ht, Clause.ofSegment_of_ne strict ht]
      exact .fails ⟨rfl, rfl⟩

end

/-! ## Comprehensions -/

/-- Comprehensions that differ in one of their texts, by one literal in the place of another. -/
inductive Comprehension.Swapped (lit lit' : List Char) : Comprehension → Comprehension → Prop
  | yield {y y' : String} {cs : List Clause} {ds : List String} (h : TextSwap lit lit' y y') :
      Swapped lit lit' ⟨y, cs, ds⟩ ⟨y', cs, ds⟩
  | clause {y : String} {cs cs' : List Clause} {ds : List String}
      (h : OneOf (Clause.Swapped lit lit') cs cs') : Swapped lit lit' ⟨y, cs, ds⟩ ⟨y, cs', ds⟩
  | dropped {y : String} {cs : List Clause} {ds ds' : List String}
      (h : OneOf (TextSwap lit lit') ds ds') : Swapped lit lit' ⟨y, cs, ds⟩ ⟨y, cs, ds'⟩

namespace Comprehension

section

variable {lit lit' : List Char} {strict : Bool} {c c' : Comprehension}
  {segment segment' : List ClauseToken} {ss ss' : List (List ClauseToken)}

theorem add_clause (clause : Clause) (h : ReflGen (Swapped lit lit') c c') :
    ReflGen (Swapped lit lit') { c with clauses := c.clauses ++ [clause] }
      { c' with clauses := c'.clauses ++ [clause] } := by
  cases h with
  | refl => exact .refl
  | single h =>
    cases h with
    | yield h => exact .single (.yield h)
    | clause h => exact .single (.clause (h.extend _))
    | dropped h => exact .single (.dropped h)

theorem add_dropped (text : String) (h : ReflGen (Swapped lit lit') c c') :
    ReflGen (Swapped lit lit') { c with dropped := c.dropped ++ [text] }
      { c' with dropped := c'.dropped ++ [text] } := by
  cases h with
  | refl => exact .refl
  | single h =>
    cases h with
    | yield h => exact .single (.yield h)
    | clause h => exact .single (.clause h)
    | dropped h => exact .single (.dropped (h.extend _))

/-- To add a segment makes no new difference. -/
theorem addSegment_alike (strict : Bool) (segment : List ClauseToken)
    (h : ReflGen (Swapped lit lit') c c') :
    (addSegment strict c segment).Alike (ReflGen (Swapped lit lit'))
      (addSegment strict c' segment) := by
  unfold addSegment
  generalize Clause.ofSegment strict segment = a
  have hnotices : List.Forall₂ Notice.Alike a.notices a.notices := (Noted.Alike.refl a).notices
  rcases a with ⟨ns, fault | clause⟩
  · cases strict with
    | true => exact ⟨hnotices, .error ⟨rfl, rfl⟩⟩
    | false =>
      exact ⟨List.rel_append hnotices (.cons (.same _) .nil),
        .ok (add_dropped (spannedText segment) h)⟩
  · exact ⟨hnotices, .ok (add_clause clause h)⟩

theorem addSegments_alike (strict : Bool) (ss : List (List ClauseToken))
    (h : ReflGen (Swapped lit lit') c c') :
    (addSegments strict c ss).Alike (ReflGen (Swapped lit lit')) (addSegments strict c' ss) := by
  induction ss generalizing c c' with
  | nil => exact .of (.ok h)
  | cons s ss ih => exact (addSegment_alike strict s h).bind fun _ _ => ih

/-- To add a segment with another literal in it makes at most the difference of this literal. -/
theorem addSegment_swap (strict : Bool) (c : Comprehension)
    (h : OneOf (Replaces lit lit') segment segment') :
    (addSegment strict c segment).Alike (ReflGen (Swapped lit lit'))
      (addSegment strict c segment') := by
  have hclause := Clause.ofSegment_swap strict h
  unfold addSegment
  generalize Clause.ofSegment strict segment = a at hclause ⊢
  generalize Clause.ofSegment strict segment' = b at hclause ⊢
  obtain ⟨ns, a⟩ := a
  obtain ⟨ms, b⟩ := b
  obtain ⟨hnotices, hresult⟩ := hclause
  cases hresult with
  | ok hc =>
    refine ⟨hnotices, .ok ?_⟩
    cases hc with
    | refl => exact .refl
    | single hc => exact .single (.clause ((OneOf.head hc).prepend c.clauses))
  | error hfault =>
    cases strict with
    | true => exact ⟨hnotices, .error hfault⟩
    | false =>
      exact ⟨List.rel_append hnotices (.cons (.dropped hfault) .nil),
        .ok (.single (.dropped ((OneOf.head (spannedText_swap h)).prepend c.dropped)))⟩

theorem addSegments_swap (strict : Bool) (c : Comprehension)
    (h : OneOf (OneOf (Replaces lit lit')) ss ss') :
    (addSegments strict c ss).Alike (ReflGen (Swapped lit lit')) (addSegments strict c ss') := by
  induction h generalizing c with
  | head h => exact (addSegment_swap strict c h).bind fun _ _ => addSegments_alike strict _
  | @tail s ss ss' _ ih =>
    refine (Noted.Alike.refl (addSegment strict c s)).bind fun d d' hd => ?_
    subst hd
    exact ih d

/-! ## Whole texts -/

theorem parse_alike (strict : Bool) {pre post : List Char} {kind : ClauseTokenKind}
    (h : LiteralAt pre lit post) (hlit' : IsLiteral kind lit') :
    (Comprehension.parse strict (String.ofList (pre ++ (lit ++ post)))).Alike
      (ReflGen (Swapped lit lit'))
      (Comprehension.parse strict (String.ofList (pre ++ (lit' ++ post)))) := by
  obtain ⟨ts, ts', hts, hts', hswap⟩ := h.tokens hlit'
  simp only [Comprehension.parse, String.toList_ofList, hts, hts']
  refine (Noted.Alike.of (segments_swap hswap _ _ _ _ _)).bind fun ss ss' hss => ?_
  cases hss with
  | @head s s' ss h =>
    have htext := spannedText_swap h
    obtain ⟨t, s, rfl⟩ := List.exists_cons_of_ne_nil h.ne_nil.1
    obtain ⟨t', s', rfl⟩ := List.exists_cons_of_ne_nil h.ne_nil.2
    cases ss with
    | nil => exact .fails ⟨rfl, rfl⟩
    | cons s₁ ss => exact addSegments_alike strict _ (.single (.yield htext))
  | @tail s ss ss' h =>
    obtain ⟨s₁, ss, rfl⟩ := List.exists_cons_of_ne_nil h.ne_nil.1
    obtain ⟨s₁', ss', rfl⟩ := List.exists_cons_of_ne_nil h.ne_nil.2
    cases s with
    | nil => exact .fails ⟨rfl, rfl⟩
    | cons t s => exact addSegments_swap strict _ h

theorem Swapped.same_shape (h : Swapped lit lit' c c') :
    c.clauses.map (·.condition.isSome) = c'.clauses.map (·.condition.isSome) ∧
      c.dropped.length = c'.dropped.length := by
  cases h with
  | yield _ => exact ⟨rfl, rfl⟩
  | clause h => exact ⟨h.map_eq fun _ _ hc => by cases hc <;> rfl, rfl⟩
  | dropped h => exact ⟨rfl, h.length_eq⟩

/-- A literal decides nothing: with another literal in the place of one, a text is refused as before,
or it has as many clauses, each with a condition if it had one, as many dropped segments and as many
notices, and its texts differ in no more than the literal. -/
theorem parse_literal (strict : Bool) {pre post : List Char} {kind : ClauseTokenKind}
    (h : LiteralAt pre lit post) (hlit' : IsLiteral kind lit') :
    let a := Comprehension.parse strict (String.ofList (pre ++ (lit ++ post)))
    let b := Comprehension.parse strict (String.ofList (pre ++ (lit' ++ post)))
    a.notices.length = b.notices.length ∧
    ((∃ fault fault', a.result = .error fault ∧ b.result = .error fault' ∧ fault.Alike fault') ∨
      ∃ c c', a.result = .ok c ∧ b.result = .ok c' ∧ c.clauses.length = c'.clauses.length ∧
        c.clauses.map (·.condition.isSome) = c'.clauses.map (·.condition.isSome) ∧
        c.dropped.length = c'.dropped.length ∧ (c = c' ∨ c.Swapped lit lit' c')) := by
  obtain ⟨hnotices, hresult⟩ := parse_alike strict h hlit'
  refine ⟨hnotices.length_eq, ?_⟩
  generalize (Comprehension.parse strict (String.ofList (pre ++ (lit ++ post)))).result = a
    at hresult ⊢
  generalize (Comprehension.parse strict (String.ofList (pre ++ (lit' ++ post)))).result = b
    at hresult ⊢
  cases hresult with
  | error hfault => exact .inl ⟨_, _, rfl, rfl, hfault⟩
  | ok hc =>
    refine .inr ⟨_, _, rfl, rfl, ?_⟩
    cases hc with
    | refl => exact ⟨rfl, rfl, rfl, .inl rfl⟩
    | single hc =>
      obtain ⟨hconditions, hdropped⟩ := hc.same_shape
      exact ⟨by simpa using congrArg List.length hconditions, hconditions, hdropped, .inr hc⟩

end

/-- A loop over a string. -/
theorem literalAt_loop : LiteralAt "x for (x of ".toList "\"a\"".toList ")".toList :=
  ⟨[⟨[], .word, ['x'], [' ']⟩, ⟨[' '], .word, ['f', 'o', 'r'], [' ']⟩, ⟨[' '], .opening, ['('], []⟩,
      ⟨[], .word, ['x'], [' ']⟩, ⟨[' '], .word, ['o', 'f'], [' ']⟩],
    ⟨[' '], .string, "\"a\"".toList, []⟩, [⟨[], .closing, [')'], []⟩], by decide +kernel, rfl, rfl,
    .inl rfl⟩

theorem parse_literal_loop :
    let a := Comprehension.parse true "x for (x of \"a\")"
    let b := Comprehension.parse true "x for (x of ` for (y of ys) if (`)"
    a.notices.length = b.notices.length ∧
    ((∃ fault fault', a.result = .error fault ∧ b.result = .error fault' ∧ fault.Alike fault') ∨
      ∃ c c', a.result = .ok c ∧ b.result = .ok c' ∧ c.clauses.length = c'.clauses.length ∧
        c.clauses.map (·.condition.isSome) = c'.clauses.map (·.condition.isSome) ∧
        c.dropped.length = c'.dropped.length ∧
        (c = c' ∨
          c.Swapped "\"a\"".toList "` for (y of ys) if (`".toList c')) := by
  have hold : String.ofList ("x for (x of ".toList ++ ("\"a\"".toList ++ ")".toList)) =
      "x for (x of \"a\")" := by decide +kernel
  have hnew : String.ofList ("x for (x of ".toList ++
      ("` for (y of ys) if (`".toList ++ ")".toList)) =
      "x for (x of ` for (y of ys) if (`)" := by decide +kernel
  have hlit : IsLiteral .template "` for (y of ys) if (`".toList :=
    ⟨.inr rfl, by decide +kernel⟩
  rw [← hold, ← hnew]
  exact parse_literal true literalAt_loop hlit

end Comprehension

end Comprehend
