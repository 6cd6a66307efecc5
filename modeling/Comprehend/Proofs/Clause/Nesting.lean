import Comprehend.Proofs.Chain.Stage
import Comprehend.Proofs.Clause.Canonical

/-! # Nesting

The reader that cuts a text into segments keeps a stack of what is open, and refuses a text whose
brackets are not well nested. The readers of a segment count instead: they take one kind of bracket
for another and start anew at the bracket they look at. Behind the first reader that is enough. A
group ends at the bracket with which the stack pairs off its opening one, the count is never
negative, and it is zero exactly at the tokens that no other bracket encloses. -/

namespace Comprehend

namespace ClauseToken

/-- The kinds of brackets, an opening one with what closes it. -/
def bracketKinds : List (List Char × List Char) :=
  [(['('], [')']), (['['], [']']), (['{'], ['}'])]

/-- Tokens whose brackets are well nested. -/
inductive Nested : List ClauseToken → Prop
  | nil : Nested []
  | plain {t : ClauseToken} {ts : List ClauseToken} (ho : t.kind ≠ .opening)
      (hc : t.kind ≠ .closing) (hts : Nested ts) : Nested (t :: ts)
  | group {o c : ClauseToken} {inside ts : List ClauseToken} (ho : o.kind = .opening)
      (hc : c.kind = .closing) (hkind : (o.text, c.text) ∈ bracketKinds) (hinside : Nested inside)
      (hts : Nested ts) : Nested (o :: inside ++ c :: ts)

/-- An open bracket: where it stands, and what closes it. -/
structure Opened where
  position : Nat
  close : List Char

/-- The positions of the brackets that a stack pairs off, an opening one with its closing one; none
if a token closes what is not open or a bracket stays open. -/
def pairing : (opened : List Opened) → (position : Nat) → List ClauseToken →
    Option (List (Nat × Nat))
  | opened, _, [] => if opened.isEmpty then some [] else none
  | opened, p, t :: ts =>
    match t.kind with
    | .opening => pairing (⟨p, t.closer⟩ :: opened) (p + 1) ts
    | .closing =>
      match opened with
      | [] => none
      | o :: opened =>
        if o.close = t.text then (pairing opened (p + 1) ts).map ((o.position, p) :: ·) else none
    | _ => pairing opened (p + 1) ts

/-- What a token adds to the count of open brackets. -/
def depthChange (t : ClauseToken) : Int :=
  match t.kind with
  | .opening => 1
  | .closing => -1
  | _ => 0

/-- The count of open brackets after some tokens. -/
def nesting (ts : List ClauseToken) : Int := (ts.map depthChange).sum

/-- An opening bracket and a closing one of its kind, with matching brackets in between. -/
def IsPair (ts : List ClauseToken) (i k : Nat) : Prop :=
  ∃ before o inside c after, ts = before ++ o :: (inside ++ c :: after) ∧ i = before.length ∧
    k = i + 1 + inside.length ∧ o.kind = .opening ∧ c.kind = .closing ∧ c.text = o.closer ∧
    IsBalanced inside

section

variable {stack rest : List (List Char)} {close : List Char} {opened : List Opened} {w : String}
  {pairs : List (Nat × Nat)} {i k p : Nat} {t o c : ClauseToken}
  {ts us ls rs before inside behind : List ClauseToken}

/-- What is open after a part of some tokens, if it is known after all of them. -/
theorem exists_pending_left (h : pending stack (ts ++ us) = some rest) :
    ∃ middle, pending stack ts = some middle ∧ pending middle us = some rest := by
  rw [pending_append] at h
  exact Option.bind_eq_some_iff.1 h

/-! ## Well nested tokens -/

theorem closer_of_mem_bracketKinds (h : (o.text, c.text) ∈ bracketKinds) : c.text = o.closer := by
  simp only [bracketKinds, List.mem_cons, Prod.mk.injEq, List.not_mem_nil, or_false] at h
  rcases h with ⟨ho, hc⟩ | ⟨ho, hc⟩ | ⟨ho, hc⟩ <;> simp [closer, ho, hc]

/-- An opening bracket that was scanned is one of the three kinds. -/
theorem mem_bracketKinds_of_scan (h : scan o.text = some (.opening, o.text, [])) :
    (o.text, o.closer) ∈ bracketKinds := by
  cases htext : o.text with
  | nil =>
    rw [htext] at h
    cases h
  | cons d ds =>
    rw [htext, scan] at h
    split_ifs at h with hb hq ho hc hn hd hp
    all_goals
      simp only [Option.map_eq_some_iff, Prod.mk.injEq, reduceCtorEq, false_and, and_false,
        exists_false, Option.some.injEq, List.cons.injEq, true_and] at h
    obtain ⟨rfl, -⟩ := h
    simp only [isOpening, Bool.or_eq_true, beq_iff_eq] at ho
    rcases ho with (rfl | rfl) | rfl <;> simp [bracketKinds, closer, htext]

theorem Nested.isBalanced (h : Nested ts) : IsBalanced ts := by
  induction h with
  | nil => rfl
  | plain ho hc _ ih => rwa [IsBalanced, pending_other ho hc]
  | group ho hc hkind _ _ ihinside ihts =>
    rw [IsBalanced, pending_group ho hc (closer_of_mem_bracketKinds hkind) ihinside]
    exact ihts

/-- The group behind an opening bracket, if all brackets match. -/
theorem exists_closing_of_pending (h : pending (close :: stack) ts = some []) :
    ∃ inside c after, group 0 ts = some (inside, after) ∧ c.kind = .closing ∧ c.text = close ∧
      ts = inside ++ c :: after ∧ IsBalanced inside ∧ pending stack after = some [] := by
  have hp : pending ([] ++ close :: stack) ts = some [] := h
  obtain ⟨⟨inside, after⟩, hgroup⟩ := exists_group hp (Nat.zero_le _)
  obtain ⟨c, hkind, htext, hts, hinside, hafter⟩ := group_closes hp hgroup
  exact ⟨inside, c, after, hgroup, hkind, htext, hts, hinside, hafter⟩

/-- Tokens of a text whose brackets match are well nested: the group at the front is one of the
three kinds, and both what is in it and what follows it are shorter. -/
theorem nested_of_isBalanced : ∀ {ts : List ClauseToken}, IsRun ts → IsBalanced ts → Nested ts
  | [], _, _ => .nil
  | t :: ts, hrun, h => by
    by_cases ho : t.kind = .opening
    · have hp : pending [t.closer] ts = some [] := by simpa [IsBalanced, pending, ho] using h
      obtain ⟨inside, c, after, -, hc, htext, rfl, hinside, hafter⟩ := exists_closing_of_pending hp
      have hkind : (t.text, c.text) ∈ bracketKinds := by
        rw [htext]
        exact mem_bracketKinds_of_scan
          (by simpa [ho] using hrun.scan_text t List.mem_cons_self)
      exact .group ho hc hkind (nested_of_isBalanced hrun.tail.left hinside)
        (nested_of_isBalanced hrun.tail.right.tail hafter)
    · by_cases hc : t.kind = .closing
      · simp [IsBalanced, pending, hc] at h
      · rw [IsBalanced, pending_other ho hc] at h
        exact .plain ho hc (nested_of_isBalanced hrun.tail h)
  termination_by ts => ts.length

theorem isBalanced_iff_nested (hrun : IsRun ts) : IsBalanced ts ↔ Nested ts :=
  ⟨nested_of_isBalanced hrun, Nested.isBalanced⟩

/-! ## Pairs -/

theorem IsPair.inside_of (h : IsPair us i k) (before behind : List ClauseToken) :
    IsPair (before ++ (us ++ behind)) (before.length + i) (before.length + k) := by
  obtain ⟨left, o, inside, c, after, rfl, rfl, rfl, ho, hc, htext, hinside⟩ := h
  exact ⟨before ++ left, o, inside, c, after ++ behind, by simp, by simp, by omega, ho, hc, htext,
    hinside⟩

theorem IsPair.cons (h : IsPair ts i k) (t : ClauseToken) : IsPair (t :: ts) (i + 1) (k + 1) := by
  simpa [Nat.add_comm] using h.inside_of [t] []

/-- A pair that opens behind some tokens is one of those that follow them. -/
theorem IsPair.exists_behind (h : IsPair (ts ++ us) i k) (hi : ts.length ≤ i) :
    ∃ a b, i = ts.length + a ∧ k = ts.length + b ∧ IsPair us a b := by
  obtain ⟨left, o, inside, c, after, heq, rfl, rfl, ho, hc, htext, hinside⟩ := h
  rcases List.append_eq_append_iff.1 heq with ⟨mid, rfl, rfl⟩ | ⟨mid, rfl, hmid⟩
  · exact ⟨mid.length, mid.length + 1 + inside.length, by simp, by simp; omega, mid, o, inside, c,
      after, rfl, rfl, rfl, ho, hc, htext, hinside⟩
  · obtain rfl : mid = [] := List.eq_nil_of_length_eq_zero (by
      rw [List.length_append] at hi
      omega)
    exact ⟨0, 1 + inside.length, by simp, by simp; omega, [], o, inside, c, after, hmid.symm, rfl,
      by simp, ho, hc, htext, hinside⟩

/-- A bracket that stands among tokens and closes behind them is open where they end. -/
theorem not_isBalanced_of_open (ho : o.kind = .opening) (hinside : IsBalanced inside)
    (hls : ls <+: inside) (before : List ClauseToken) : ¬IsBalanced (before ++ o :: ls) := by
  intro h
  obtain ⟨more, rfl⟩ := hls
  obtain ⟨middle, hmiddle, -⟩ := exists_pending_left hinside
  obtain ⟨below, -, hbelow⟩ := exists_pending_left h
  have habove : pending (o.closer :: below) ls = some (middle ++ o.closer :: below) :=
    pending_above hmiddle (o.closer :: below)
  simp only [pending, ho, habove, Option.some.injEq, List.append_eq_nil_iff, reduceCtorEq,
    and_false] at hbelow

/-- A pair that opens among tokens whose brackets match closes among them. -/
theorem IsPair.lt_length (h : IsPair (ts ++ us) i k) (hts : IsBalanced ts) (hi : i < ts.length) :
    k < ts.length := by
  obtain ⟨left, o, inside, c, after, heq, rfl, rfl, ho, -, -, hinside⟩ := h
  obtain ⟨mid, rfl⟩ : left ++ [o] <+: ts := by
    refine List.prefix_of_prefix_length_le ⟨inside ++ c :: after, ?_⟩ (List.prefix_append ts us) ?_
    · rw [heq, List.append_assoc, List.singleton_append]
    · simpa [Nat.succ_le_iff] using hi
  rw [List.append_assoc, List.singleton_append] at hts
  have hmid : mid ++ us = inside ++ c :: after := by simpa using heq
  have hlength : inside.length < mid.length := by
    by_contra hle
    have hprefix : mid <+: inside :=
      List.prefix_of_prefix_length_le ⟨us, hmid⟩ (List.prefix_append _ _) (Nat.not_lt.1 hle)
    exact not_isBalanced_of_open ho hinside hprefix left hts
  simp only [List.length_append, List.length_singleton]
  omega

/-- A stack without open brackets pairs off all brackets. -/
theorem exists_pairing (h : pending (opened.map Opened.close) ts = some []) (p : Nat) :
    ∃ pairs, pairing opened p ts = some pairs := by
  induction ts generalizing opened p with
  | nil =>
    obtain rfl : opened = [] := by simpa [pending] using h
    exact ⟨[], rfl⟩
  | cons t ts ih =>
    cases hk : t.kind with
    | opening =>
      simp only [pending, hk] at h
      have hp : pending ((⟨p, t.closer⟩ :: opened).map Opened.close) ts = some [] := h
      obtain ⟨pairs, hpairs⟩ := ih hp (p + 1)
      exact ⟨pairs, by simpa only [pairing, hk] using hpairs⟩
    | closing =>
      cases opened with
      | nil => simp [pending, hk] at h
      | cons o opened =>
        simp only [List.map_cons, pending, hk] at h
        split at h
        · next hclose =>
          obtain ⟨pairs, hpairs⟩ := ih h (p + 1)
          exact ⟨(o.position, p) :: pairs, by simp [pairing, hk, hclose, hpairs]⟩
        · cases h
    | _ =>
      rw [pending_other (by simp [hk]) (by simp [hk])] at h
      obtain ⟨pairs, hpairs⟩ := ih h (p + 1)
      exact ⟨pairs, by simpa only [pairing, hk] using hpairs⟩

/-- What a stack pairs off are brackets of these tokens, or one of them was open before. -/
theorem isPair_or_opened (h : pairing opened p ts = some pairs) (hmem : (i, k) ∈ pairs) :
    (∃ a b, i = p + a ∧ k = p + b ∧ IsPair ts a b) ∨
    ∃ above close below inside c after, opened = above ++ ⟨i, close⟩ :: below ∧
      ts = inside ++ c :: after ∧ k = p + inside.length ∧ c.kind = .closing ∧ c.text = close ∧
      pending (above.map Opened.close) inside = some [] := by
  fun_induction pairing opened p ts generalizing pairs with
  | case1 =>
    cases h
    cases hmem
  | case2 | case4 | case6 => cases h
  | case3 opened p t ts hk ih =>
    rcases ih h hmem with ⟨a, b, rfl, rfl, hpair⟩ |
      ⟨above, close, below, inside, c, after, hopened, rfl, rfl, hc, htext, hinside⟩
    · exact .inl ⟨a + 1, b + 1, by omega, by omega, hpair.cons t⟩
    · cases above with
      | nil =>
        cases hopened
        exact .inl ⟨0, 1 + inside.length, by omega, by omega, [], t, inside, c, after, rfl, rfl,
          by simp, hk, hc, htext, hinside⟩
      | cons o above =>
        obtain ⟨rfl, rfl⟩ := List.cons.inj hopened
        exact .inr ⟨above, close, below, t :: inside, c, after, rfl, rfl, by simp; omega, hc, htext,
          by simpa [pending, hk] using hinside⟩
  | case5 p t ts hk o opened hclose ih =>
    obtain ⟨pairs, hpairs, rfl⟩ := Option.map_eq_some_iff.1 h
    rcases List.mem_cons.1 hmem with heq | hmem
    · cases heq
      exact .inr ⟨[], o.close, opened, [], t, ts, rfl, rfl, rfl, hk, hclose.symm, rfl⟩
    · rcases ih hpairs hmem with ⟨a, b, rfl, rfl, hpair⟩ |
        ⟨above, close, below, inside, c, after, rfl, rfl, rfl, hc, htext, hinside⟩
      · exact .inl ⟨a + 1, b + 1, by omega, by omega, hpair.cons t⟩
      · exact .inr ⟨o :: above, close, below, t :: inside, c, after, rfl, rfl, by simp; omega, hc,
          htext, by simpa [pending, hk, hclose] using hinside⟩
  | case7 opened p t ts ho hc ih =>
    rcases ih h hmem with ⟨a, b, rfl, rfl, hpair⟩ |
      ⟨above, close, below, inside, c, after, rfl, rfl, rfl, hck, htext, hinside⟩
    · exact .inl ⟨a + 1, b + 1, by omega, by omega, hpair.cons t⟩
    · exact .inr ⟨above, close, below, t :: inside, c, after, rfl, rfl, by simp; omega, hck, htext,
        by rwa [pending_other ho hc]⟩

/-- Pairing off goes on behind some tokens with what is open there; where these close all that was
opened last, that is the rest of the stack. -/
theorem exists_pairing_behind (h : pairing opened p (ts ++ us) = some pairs) :
    ∃ opened' pairs', pairing opened' (p + ts.length) us = some pairs' ∧ pairs' ⊆ pairs ∧
      ∀ above below, opened = above ++ below → pending (above.map Opened.close) ts = some [] →
        opened' = below := by
  induction ts generalizing opened p pairs with
  | nil =>
    refine ⟨opened, pairs, h, List.Subset.refl _, fun above below heq hp => ?_⟩
    obtain rfl : above = [] := by simpa [pending] using hp
    exact heq
  | cons t ts ih =>
    rw [List.length_cons, Nat.add_comm ts.length, ← Nat.add_assoc]
    cases hk : t.kind with
    | opening =>
      simp only [List.cons_append, pairing, hk] at h
      obtain ⟨opened', pairs', hpairs, hsub, hbelow⟩ := ih h
      refine ⟨opened', pairs', hpairs, hsub, fun above below heq hp => ?_⟩
      simp only [pending, hk] at hp
      exact hbelow (⟨p, t.closer⟩ :: above) below (congrArg _ heq) hp
    | closing =>
      cases opened with
      | nil => simp [pairing, hk] at h
      | cons o opened =>
        simp only [List.cons_append, pairing, hk] at h
        split at h
        · next hclose =>
          obtain ⟨rest, hrest, rfl⟩ := Option.map_eq_some_iff.1 h
          obtain ⟨opened', pairs', hpairs, hsub, hbelow⟩ := ih hrest
          refine ⟨opened', pairs', hpairs, List.subset_cons_of_subset _ hsub,
            fun above below heq hp => ?_⟩
          cases above with
          | nil => simp [pending, hk] at hp
          | cons o' above =>
            obtain ⟨rfl, htail⟩ := List.cons.inj heq
            simp only [List.map_cons, pending, hk, hclose, if_true] at hp
            exact hbelow above below htail hp
        · cases h
    | _ =>
      simp only [List.cons_append, pairing, hk] at h
      obtain ⟨opened', pairs', hpairs, hsub, hbelow⟩ := ih h
      refine ⟨opened', pairs', hpairs, hsub, fun above below heq hp => ?_⟩
      rw [pending_other (by simp [hk]) (by simp [hk])] at hp
      exact hbelow above below heq hp

/-- The stack pairs off exactly the brackets with matching brackets in between. -/
theorem mem_pairing_iff (h : pairing [] 0 ts = some pairs) : (i, k) ∈ pairs ↔ IsPair ts i k := by
  constructor
  · intro hmem
    rcases isPair_or_opened h hmem with ⟨a, b, rfl, rfl, hpair⟩ |
      ⟨above, close, below, inside, c, after, hopened, -⟩
    · simpa using hpair
    · simp at hopened
  · rintro ⟨before, o, inside, c, after, rfl, rfl, rfl, ho, hc, htext, hinside⟩
    obtain ⟨opened, pairs', hpairs, hsub, -⟩ := exists_pairing_behind h
    simp only [pairing, ho] at hpairs
    obtain ⟨opened', pairs'', hpairs', hsub', hbelow⟩ := exists_pairing_behind hpairs
    obtain rfl := hbelow [] (⟨0 + before.length, o.closer⟩ :: opened) rfl hinside
    simp only [pairing, hc, htext, if_true] at hpairs'
    obtain ⟨pairs, -, rfl⟩ := Option.map_eq_some_iff.1 hpairs'
    have hmem := hsub (hsub' List.mem_cons_self)
    simpa using hmem

/-! ## Counting -/

theorem nesting_cons (t : ClauseToken) (ts : List ClauseToken) :
    nesting (t :: ts) = depthChange t + nesting ts := by
  simp [nesting]

theorem depthChange_other (ho : t.kind ≠ .opening) (hc : t.kind ≠ .closing) :
    depthChange t = 0 := by
  cases hk : t.kind <;> first | contradiction | simp only [depthChange, hk]

/-- The count of open brackets is the height of the stack. -/
theorem nesting_of_pending (h : pending stack ts = some rest) :
    stack.length + nesting ts = rest.length := by
  fun_induction pending stack ts with
  | case1 =>
    cases h
    simp [nesting]
  | case2 stack t ts hk ih =>
    have hdepth : depthChange t = 1 := by simp only [depthChange, hk]
    have hrest := ih h
    rw [nesting_cons, hdepth, ← hrest, List.length_cons]
    omega
  | case3 | case5 => cases h
  | case4 t ts hk stack ih =>
    have hdepth : depthChange t = -1 := by simp only [depthChange, hk]
    have hrest := ih h
    rw [nesting_cons, hdepth, ← hrest, List.length_cons]
    omega
  | case6 stack t ts ho hc ih =>
    rw [nesting_cons, depthChange_other ho hc, Int.zero_add, ih h]

/-- In front of every token of a part whose brackets match, the count is the number of brackets that
are open there. -/
theorem exists_pending_of_isBalanced (h : IsBalanced (ts ++ us)) :
    ∃ stack, pending [] ts = some stack ∧ nesting ts = stack.length ∧
      pending stack us = some [] := by
  obtain ⟨stack, hstack, hrest⟩ := exists_pending_left h
  have hcount := nesting_of_pending hstack
  exact ⟨stack, hstack, by simpa using hcount, hrest⟩

theorem isBalanced_left (h : IsBalanced (ts ++ us)) (hzero : nesting ts = 0) : IsBalanced ts := by
  obtain ⟨stack, hstack, hcount, -⟩ := exists_pending_of_isBalanced h
  obtain rfl : stack = [] := List.eq_nil_of_length_eq_zero (by omega)
  exact hstack

/-- The innermost open bracket stands among the tokens, with matching brackets behind it, or was
open before them. -/
theorem exists_opened (h : pending stack ts = some (close :: rest)) :
    (∃ before o inside, ts = before ++ o :: inside ∧ o.kind = .opening ∧ o.closer = close ∧
      IsBalanced inside) ∨
    ∃ above, stack = above ++ close :: rest ∧ pending above ts = some [] := by
  fun_induction pending stack ts with
  | case1 =>
    cases h
    exact .inr ⟨[], rfl, rfl⟩
  | case2 stack t ts hk ih =>
    rcases ih h with ⟨before, o, inside, rfl, hopen⟩ | ⟨above, habove, hp⟩
    · exact .inl ⟨t :: before, o, inside, rfl, hopen⟩
    · cases above with
      | nil =>
        obtain ⟨hclose, -⟩ := List.cons.inj habove
        exact .inl ⟨[], t, ts, rfl, hk, hclose, hp⟩
      | cons d above =>
        obtain ⟨rfl, rfl⟩ := List.cons.inj habove
        exact .inr ⟨above, rfl, by simpa [pending, hk] using hp⟩
  | case3 | case5 => cases h
  | case4 t ts hk stack ih =>
    rcases ih h with ⟨before, o, inside, rfl, hopen⟩ | ⟨above, rfl, hp⟩
    · exact .inl ⟨t :: before, o, inside, rfl, hopen⟩
    · exact .inr ⟨t.text :: above, rfl, by simpa [pending, hk] using hp⟩
  | case6 stack t ts ho hc ih =>
    rcases ih h with ⟨before, o, inside, rfl, hopen⟩ | ⟨above, rfl, hp⟩
    · exact .inl ⟨t :: before, o, inside, rfl, hopen⟩
    · exact .inr ⟨above, rfl, by rwa [pending_other ho hc]⟩

/-- A token in front of which something is open stands inside a pair. -/
theorem exists_isPair_around (h : IsBalanced (before ++ t :: behind)) (hc : t.kind ≠ .closing)
    (hne : nesting before ≠ 0) :
    ∃ a b, IsPair (before ++ t :: behind) a b ∧ a < before.length ∧ before.length < b := by
  obtain ⟨stack, hstack, hcount, hrest⟩ := exists_pending_of_isBalanced h
  cases stack with
  | nil => exact absurd hcount hne
  | cons close stack =>
    obtain ⟨inside, c, after, -, hck, htext, hbehind, hinside, -⟩ := exists_closing_of_pending hrest
    rcases exists_opened hstack with ⟨left, o, mid, rfl, hok, hclose, hmid⟩ | ⟨above, habove, -⟩
    · cases inside with
      | nil =>
        obtain ⟨rfl, -⟩ := List.cons.inj hbehind
        exact absurd hck hc
      | cons u inside =>
        refine ⟨left.length, left.length + 1 + (mid ++ u :: inside).length,
          ⟨left, o, mid ++ u :: inside, c, after, ?_, rfl, rfl, hok, hck, htext.trans hclose.symm,
            hmid.append hinside⟩, by simp, by simp; omega⟩
        rw [hbehind]
        simp
    · simp at habove

/-- No keyword stands where the count, from the given one on, is zero. -/
def Quiet (w : String) (depth : Int) (ts : List ClauseToken) : Prop :=
  ∀ before t behind, ts = before ++ t :: behind → t.isKeyword w = true → depth + nesting before ≠ 0

theorem quiet_cons {depth : Int} :
    Quiet w depth (t :: ts) ↔
      (t.isKeyword w = true → depth ≠ 0) ∧ Quiet w (depth + depthChange t) ts := by
  constructor
  · intro h
    refine ⟨fun hk => by simpa [nesting] using h [] t ts rfl hk, fun before u behind heq hk => ?_⟩
    have hcount := h (t :: before) u behind (congrArg _ heq) hk
    rwa [nesting_cons, ← Int.add_assoc] at hcount
  · rintro ⟨hfirst, hrest⟩ before u behind heq hk
    cases before with
    | nil =>
      obtain ⟨rfl, -⟩ := List.cons.inj heq
      simpa [nesting] using hfirst hk
    | cons v before =>
      obtain ⟨rfl, hts⟩ := List.cons.inj heq
      have hcount := hrest before u behind hts hk
      rwa [nesting_cons, ← Int.add_assoc]

theorem isKeyword_eq_false (h : t.kind ≠ .word) : t.isKeyword w = false :=
  Bool.eq_false_iff.2 fun hkey => h (kind_of_isKeyword hkey)

/-- No cut is made if no keyword stands where the count is zero. -/
theorem cutAt_eq_none_iff (hp : pending stack ts = some rest) :
    cutAt w stack.length ts = none ↔ Quiet w stack.length ts := by
  fun_induction pending stack ts with
  | case1 => simp [cutAt, Quiet]
  | case2 stack t ts hk ih =>
    have hkey : t.isKeyword w = false := isKeyword_eq_false (by simp [hk])
    have hrest := ih hp
    rw [List.length_cons, Nat.cast_succ] at hrest
    simp [quiet_cons, cutAt, hk, hkey, depthChange, hrest]
  | case3 | case5 => cases hp
  | case4 t ts hk stack ih =>
    have hkey : t.isKeyword w = false := isKeyword_eq_false (by simp [hk])
    have hrest := ih hp
    simp [quiet_cons, cutAt, hk, hkey, depthChange, hrest]
  | case6 stack t ts ho hc ih =>
    have hdepth : depthChange t = 0 := depthChange_other ho hc
    have hstep : cutAt w stack.length (t :: ts) = none ↔
        (t.isKeyword w = true → stack.length ≠ 0) ∧ cutAt w stack.length ts = none := by
      by_cases hkey : t.isKeyword w = true <;> by_cases hnil : stack = [] <;>
        cases hk : t.kind <;> first | contradiction | simp [cutAt, hk, hkey, hnil]
    rw [hstep, ih hp, quiet_cons, hdepth, Int.add_zero, Nat.cast_ne_zero]

/-- A cut is made at the first keyword where the count is zero. -/
theorem cutAt_eq_some_iff (h : IsBalanced ts) :
    cutAt w 0 ts = some (ls, rs) ↔ ∃ k : ClauseToken, k.isKeyword w = true ∧ ts = ls ++ k :: rs ∧
      nesting ls = 0 ∧ Quiet w 0 ls := by
  have quiet_iff {ls : List ClauseToken} (hls : IsBalanced ls) :
      cutAt w 0 ls = none ↔ Quiet w 0 ls := by simpa using cutAt_eq_none_iff hls
  constructor
  · intro hcut
    obtain ⟨k, hk, hts, hls, -, hnone⟩ := cutAt_cuts h hcut
    have hcount := nesting_of_pending hls
    exact ⟨k, hk, hts, by simpa using hcount, (quiet_iff hls).1 hnone⟩
  · rintro ⟨k, hk, rfl, hzero, hquiet⟩
    have hls : IsBalanced ls := isBalanced_left h hzero
    have happend := cutAt_append hls ((quiet_iff hls).2 hquiet) (k :: rs)
    rw [List.length_nil, cutAt_keyword hk] at happend
    simpa using happend

/-! ## Segments -/

/-- A group is what stands in front of the bracket that is paired off with its opening one. -/
theorem exists_group_of_isBalanced (h : IsBalanced (ls ++ o :: rs)) (ho : o.kind = .opening)
    (before behind : List ClauseToken) :
    ∃ inside c after, group 0 rs = some (inside, after) ∧ rs = inside ++ c :: after ∧
      c.kind = .closing ∧ IsBalanced inside ∧
      ∀ k, IsPair (before ++ (ls ++ o :: rs ++ behind)) (before.length + ls.length) k ↔
        k = before.length + ls.length + 1 + inside.length := by
  obtain ⟨stack, -, hrs⟩ := exists_pending_left h
  simp only [pending, ho] at hrs
  obtain ⟨inside, c, after, hgroup, hc, htext, rfl, hinside, -⟩ := exists_closing_of_pending hrs
  refine ⟨inside, c, after, hgroup, rfl, hc, hinside, fun k => ⟨?_, ?_⟩⟩
  · -- what is behind an opening bracket has only one group in front
    rintro ⟨left, o', inside', c', after', heq, hi, rfl, -, hc', -, hinside'⟩
    have hsplit : (before ++ ls) ++ o :: (inside ++ c :: (after ++ behind)) =
        left ++ o' :: (inside' ++ c' :: after') := by
      rw [← heq]
      simp
    obtain ⟨-, hrest⟩ := List.append_inj hsplit (by rw [List.length_append, hi])
    have hgroup : group 0 (inside ++ c :: (after ++ behind)) = some (inside, after ++ behind) :=
      group_append hc hinside
    have hgroup' : group 0 (inside' ++ c' :: after') = some (inside', after') :=
      group_append hc' hinside'
    rw [(List.cons.inj hrest).2, hgroup'] at hgroup
    cases hgroup
    rfl
  · rintro rfl
    exact ⟨before ++ ls, o, inside, c, after ++ behind, by simp, by simp, rfl, ho, hc, htext,
      hinside⟩

/-- In the group at the start of a segment the count is zero exactly at the tokens that no other
pair encloses. -/
theorem nesting_eq_zero_iff (hus : IsBalanced us) (hinside : IsBalanced (before ++ t :: behind))
    (hc : t.kind ≠ .closing) (o : ClauseToken) (rs : List ClauseToken) :
    nesting before = 0 ↔ ∀ i k, IsPair (us ++ o :: (before ++ t :: behind ++ rs)) i k →
      i < us.length + 1 + before.length → us.length + 1 + before.length < k → i = us.length := by
  have hgroup : us ++ o :: (before ++ t :: behind ++ rs) =
      (us ++ [o]) ++ (before ++ t :: behind ++ rs) := by simp
  constructor
  · intro hzero i k hpair hi hk
    have hbefore : IsBalanced before := isBalanced_left hinside hzero
    rcases Nat.lt_trichotomy i us.length with hlt | heq | hgt
    · have hclose := hpair.lt_length hus hlt
      omega
    · exact heq
    · rw [hgroup] at hpair
      obtain ⟨a, b, rfl, rfl, hinner⟩ := hpair.exists_behind (by
        simpa using Nat.succ_le_of_lt hgt)
      rw [List.append_assoc] at hinner
      rw [List.length_append, List.length_singleton] at hi hk
      have hclose := hinner.lt_length hbefore (by omega)
      omega
  · intro hall
    by_contra hne
    obtain ⟨a, b, hpair, ha, hb⟩ := exists_isPair_around hinside hc hne
    have hwhole := hpair.inside_of (us ++ [o]) rs
    rw [← hgroup, List.length_append, List.length_singleton] at hwhole
    have heq := hall _ _ hwhole (by omega) (by omega)
    omega

end

/-! ## Texts -/

/-- Where a segment starts, by those in front of it and the keywords between them. -/
def startAfter (front : List (List ClauseToken)) : Nat := (front.map (·.length + 1)).sum

/-- What the readers of a segment find, and the pairs of brackets of the whole text. -/
structure Agrees (tokens : List ClauseToken) (pairs : List (Nat × Nat)) (start : Nat)
    (segment : List ClauseToken) : Prop where
  stands : ∃ ahead behind, tokens = ahead ++ (segment ++ behind) ∧ ahead.length = start
  closes : ∀ before o rest, segment = before ++ o :: rest → o.kind = .opening →
    ∃ inside c after, group 0 rest = some (inside, after) ∧ rest = inside ++ c :: after ∧
      c.kind = .closing ∧ ∀ k, (start + before.length, k) ∈ pairs ↔
        k = start + before.length + 1 + inside.length
  nonneg : ∀ o rest inside after, segment = o :: rest → o.kind = .opening →
    group 0 rest = some (inside, after) →
    ∀ before behind, inside = before ++ behind → 0 ≤ nesting before
  zero : ∀ o rest inside after, segment = o :: rest → o.kind = .opening →
    group 0 rest = some (inside, after) →
    ∀ before t behind, inside = before ++ t :: behind → t.kind ≠ .opening → t.kind ≠ .closing →
      (nesting before = 0 ↔ ∀ i k, (i, k) ∈ pairs → i < start + 1 + before.length →
        start + 1 + before.length < k → i = start)
  cuts : ∀ o rest inside after, segment = o :: rest → o.kind = .opening →
    group 0 rest = some (inside, after) →
    ∀ w ls rs, cutAt w 0 inside = some (ls, rs) ↔ ∃ k : ClauseToken, k.isKeyword w = true ∧
      inside = ls ++ k :: rs ∧ nesting ls = 0 ∧ Quiet w 0 ls

/-- A text whose tokens have well nested brackets. -/
def IsNestedText (text : String) : Prop := ∃ ts, tokens? text.toList = some ts ∧ Nested ts

section

variable {raw : String} {stack : List (List Char)} {pairs : List (Nat × Nat)} {offset : Nat}
  {tokens first segment ts us behind : List ClauseToken} {front back ss : List (List ClauseToken)}
  {ps : List Loop} {fault : Fault}

theorem agrees_of_isBalanced (hpairs : pairing [] 0 (us ++ (segment ++ behind)) = some pairs)
    (hus : IsBalanced us) (h : IsBalanced segment) :
    Agrees (us ++ (segment ++ behind)) pairs us.length segment := by
  -- the group at the start, with what it encloses
  have opens {o : ClauseToken} {rest inside after : List ClauseToken} (heq : segment = o :: rest)
      (ho : o.kind = .opening) (hgroup : group 0 rest = some (inside, after)) :
      IsBalanced inside ∧ ∃ c, segment = o :: (inside ++ c :: after) := by
    subst heq
    obtain ⟨inside', c, after', hgroup', hrest, -, hinside, -⟩ :=
      exists_group_of_isBalanced (show IsBalanced ([] ++ o :: rest) from h) ho [] []
    rw [hgroup] at hgroup'
    cases hgroup'
    exact ⟨hinside, c, congrArg _ hrest⟩
  constructor
  · exact ⟨us, behind, rfl, rfl⟩
  · rintro before o rest rfl ho
    obtain ⟨inside, c, after, hgroup, hrest, hc, -, hunique⟩ :=
      exists_group_of_isBalanced h ho us behind
    exact ⟨inside, c, after, hgroup, hrest, hc, fun k => (mem_pairing_iff hpairs).trans (hunique k)⟩
  · intro o rest inside after heq ho hgroup before behind hinside
    obtain ⟨hbalanced, -⟩ := opens heq ho hgroup
    rw [hinside] at hbalanced
    obtain ⟨stack, -, hcount, -⟩ := exists_pending_of_isBalanced hbalanced
    rw [hcount]
    exact Int.natCast_nonneg _
  · intro o rest inside after heq ho hgroup before t behind' hinside hto htc
    obtain ⟨hbalanced, c, rfl⟩ := opens heq ho hgroup
    subst hinside
    rw [nesting_eq_zero_iff hus hbalanced htc o (c :: after ++ behind)]
    simp only [mem_pairing_iff hpairs, List.cons_append, List.append_assoc]
  · intro o rest inside after heq ho hgroup w ls rs
    exact cutAt_eq_some_iff (opens heq ho hgroup).1

/-- Every segment stands behind tokens whose brackets match. -/
theorem exists_ahead (hfirst : IsSegment first) (hps : ∀ p ∈ ps, IsLoop p)
    (h : first :: ps.map (·.2) = front ++ segment :: back) :
    ∃ ahead behind, first ++ loopTokens ps = ahead ++ (segment ++ behind) ∧
      ahead.length = startAfter front ∧ IsBalanced ahead ∧ IsBalanced segment := by
  induction front generalizing first ps with
  | nil =>
    obtain ⟨rfl, -⟩ := List.cons.inj h
    exact ⟨[], loopTokens ps, rfl, rfl, rfl, hfirst.balanced⟩
  | cons s front ih =>
    obtain ⟨rfl, hrest⟩ := List.cons.inj h
    obtain ⟨p, ps, rfl⟩ := List.exists_cons_of_ne_nil (show ps ≠ [] by
      rintro rfl
      simp at hrest)
    obtain ⟨hp, hps⟩ := List.forall_mem_cons.1 hps
    obtain ⟨ahead, behind, htokens, hlength, hahead, hsegment⟩ := ih hp.segment hps hrest
    refine ⟨first ++ p.1 :: ahead, behind, ?_, ?_, ?_, hsegment⟩
    · rw [loopTokens_cons, htokens]
      simp
    · rw [List.length_append, List.length_cons, hlength]
      simp only [startAfter, List.map_cons, List.sum_cons]
      omega
    · exact hfirst.balanced.append (by rwa [IsBalanced, pending_keyword hp.keyword])

theorem isBalanced_loopTokens (hps : ∀ p ∈ ps, IsLoop p) : IsBalanced (loopTokens ps) := by
  induction ps with
  | nil => rfl
  | cons p ps ih =>
    obtain ⟨hp, hps⟩ := List.forall_mem_cons.1 hps
    have hrest : IsBalanced (p.2 ++ loopTokens ps) := hp.segment.balanced.append (ih hps)
    rwa [loopTokens_cons, IsBalanced, pending_keyword hp.keyword]

/-- Tokens whose brackets match are cut into segments. -/
theorem exists_segments (raw : String) (h : pending stack ts = some []) (offset : Nat) :
    ∃ ss, segments raw stack offset ts = .ok ss := by
  induction ts generalizing stack offset with
  | nil =>
    cases h
    exact ⟨[[]], rfl⟩
  | cons t ts ih =>
    by_cases ho : t.kind = .opening
    · simp only [pending, ho] at h
      obtain ⟨ss, hss⟩ := ih h (offset + t.before.length + t.text.length)
      exact ⟨intoFirst t ss, by rw [segments_opening ho, hss]; rfl⟩
    · by_cases hc : t.kind = .closing
      · cases stack with
        | nil => simp [pending, hc] at h
        | cons close stack =>
          simp only [pending, hc] at h
          split at h
          · next hclose =>
            obtain ⟨ss, hss⟩ := ih h (offset + t.before.length + t.text.length)
            exact ⟨intoFirst t ss, by rw [hclose, segments_closing hc, hss]; rfl⟩
          · cases h
      · rw [pending_other ho hc] at h
        obtain ⟨ss, hss⟩ := ih h (offset + t.before.length + t.text.length)
        by_cases hcut : (stack.isEmpty && t.isKeyword "for") = true
        · simp only [Bool.and_eq_true, List.isEmpty_iff] at hcut
          obtain ⟨rfl, hkey⟩ := hcut
          exact ⟨[] :: ss, by rw [segments_keyword hkey, hss]; rfl⟩
        · exact ⟨intoFirst t ss, by
            rw [segments_other ho hc (Bool.eq_false_iff.2 hcut), hss]
            rfl⟩

/-- The only reason for which tokens are not cut is that their brackets do not match. -/
theorem message_of_segments (h : segments raw stack offset ts = .error fault) :
    fault.message = "comprehension has unbalanced brackets" := by
  fun_induction segments raw stack offset ts with
  | case1 => cases h
  | case2 | case4 | case6 =>
    cases h
    rfl
  | case3 | case5 | case7 | case8 =>
    rename_i ih
    exact ih (eq_error_of_map h)

theorem isNestedText_spannedText (hrun : IsRun ts) (h : IsBalanced ts) :
    IsNestedText (spannedText ts) := by
  obtain ⟨us, hus, hspell⟩ := Option.map_eq_some_iff.1 hrun.spellings
  refine ⟨us, hus, nested_of_isBalanced (tokens?_eq_some.1 hus).isRun ?_⟩
  rw [IsBalanced, pending_congr hspell]
  exact h

end

end ClauseToken

open ClauseToken

/-- A comprehension all of whose parts have well nested brackets. -/
structure Comprehension.IsNested (c : Comprehension) : Prop where
  yield : IsNestedText c.yield
  pattern : ∀ clause ∈ c.clauses, IsNestedText clause.pattern
  iterable : ∀ clause ∈ c.clauses, IsNestedText clause.iterable
  condition : ∀ clause ∈ c.clauses, ∀ condition ∈ clause.condition, IsNestedText condition

/-- What the stack finds in a text, and what the readers of its segments and its parts find. -/
structure BracketsAgree (raw : String) (tokens : List ClauseToken) : Prop where
  refused : (∃ fault, segments raw [] 0 tokens = .error fault ∧
    fault.message = "comprehension has unbalanced brackets") ↔ ¬Nested tokens
  segments : ∀ ss, segments raw [] 0 tokens = .ok ss → ∃ pairs, pairing [] 0 tokens = some pairs ∧
    ∀ front segment back, ss = front ++ segment :: back →
      Agrees tokens pairs (startAfter front) segment
  parts : ∀ strict c, (Comprehension.parse strict raw).result = .ok c → c.IsNested

theorem Comprehension.isNested_of_parse {strict : Bool} {raw : String} {c : Comprehension}
    (h : (Comprehension.parse strict raw).result = .ok c) : c.IsNested := by
  have hread (clause : Clause) (hmem : clause ∈ c.clauses) : IsNestedText clause.pattern ∧
      IsNestedText clause.iterable ∧ ∀ condition ∈ clause.condition, IsNestedText condition := by
    obtain ⟨segment, p, hrun, hsplits, rfl⟩ := isRead_of_parse h clause hmem
    cases hsplits with
    | @intro o k _ pattern iterable tail _ condition _ hpattern _ _ _ hiterable _ _ hcondition =>
      have hinside : IsRun (pattern ++ k :: iterable) := hrun.tail.left
      refine ⟨isNestedText_spannedText hinside.left hpattern,
        isNestedText_spannedText hinside.right.tail hiterable, fun text htext => ?_⟩
      cases hcondition with
      | absent => cases htext
      | present _ _ _ hbalanced _ =>
        cases htext
        exact isNestedText_spannedText hrun.tail.right.tail.tail.tail.left hbalanced
  refine ⟨?_, fun clause hmem => (hread clause hmem).1, fun clause hmem => (hread clause hmem).2.1,
    fun clause hmem => (hread clause hmem).2.2⟩
  obtain ⟨head, ps, hts, hne, hpsne, hhead, hps⟩ := exists_loops h
  rw [parse_of_loops hts hne hpsne hhead hps] at h
  rw [yield_of_addSegments h]
  exact isNestedText_spannedText (tokens?_eq_some.1 hts).isRun.left hhead.balanced

/-- The stack refuses exactly the texts that are not well nested, and where it does not the readers
that count agree with it. -/
theorem segments_agree {raw : String} {tokens : List ClauseToken}
    (h : tokens? raw.toList = some tokens) : BracketsAgree raw tokens := by
  have hrun : IsRun tokens := (tokens?_eq_some.1 h).isRun
  have hbalanced {ss : List (List ClauseToken)}
      (hss : ClauseToken.segments raw [] 0 tokens = .ok ss) : IsBalanced tokens := by
    obtain ⟨first, ps, rfl, rfl, hfirst, -, hps⟩ := segments_eq_ok hss
    exact IsBalanced.append hfirst (isBalanced_loopTokens hps)
  constructor
  · constructor
    · rintro ⟨fault, herror, -⟩ hnested
      obtain ⟨ss, hss⟩ := exists_segments raw ((isBalanced_iff_nested hrun).2 hnested) 0
      rw [hss] at herror
      cases herror
    · intro hnested
      cases hss : ClauseToken.segments raw [] 0 tokens with
      | error fault => exact ⟨fault, rfl, message_of_segments hss⟩
      | ok ss => exact absurd ((isBalanced_iff_nested hrun).1 (hbalanced hss)) hnested
  · intro ss hss
    have hp : pending (([] : List Opened).map Opened.close) tokens = some [] := hbalanced hss
    obtain ⟨pairs, hpairs⟩ := exists_pairing hp 0
    refine ⟨pairs, hpairs, fun front segment back heq => ?_⟩
    obtain ⟨first, ps, rfl, rfl, hfirst, hwhole, hps⟩ := segments_eq_ok hss
    obtain ⟨ahead, behind, htokens, hlength, hahead, hsegment⟩ :=
      exists_ahead ⟨hfirst, hwhole⟩ hps heq
    rw [htokens] at hpairs ⊢
    rw [← hlength]
    exact agrees_of_isBalanced hpairs hahead hsegment
  · exact fun strict c hc => Comprehension.isNested_of_parse hc

theorem segments_agree_nested : ∃ tokens,
    tokens? "f[0] for (x of \x7ba: [b]\x7d) if (x)".toList = some tokens ∧
      pairing [] 0 tokens = some [(1, 3), (11, 13), (8, 14), (5, 15), (17, 19)] ∧
      BracketsAgree "f[0] for (x of \x7ba: [b]\x7d) if (x)" tokens :=
  ⟨_, rfl, rfl, segments_agree rfl⟩

end Comprehend
