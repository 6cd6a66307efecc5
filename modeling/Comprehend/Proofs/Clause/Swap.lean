import Comprehend.Proofs.Clause.Placed

/-! # A literal in the place of another

What stands between the quotes of a literal is nothing to the readers of the notation: they look at
brackets, at words, and at where tokens touch. With another literal in the place of one, the text
has the same tokens but for that one, and everything that is cut out of them has the other literal
where it had the first. -/

namespace Comprehend

/-- Two lists that differ in one item. -/
inductive OneOf {α : Type} (R : α → α → Prop) : List α → List α → Prop
  | head {x y : α} {xs : List α} (h : R x y) : OneOf R (x :: xs) (y :: xs)
  | tail {x : α} {xs ys : List α} (h : OneOf R xs ys) : OneOf R (x :: xs) (x :: ys)

namespace OneOf

section

variable {α β : Type} {R : α → α → Prop} {S : β → β → Prop} {xs ys : List α}

theorem length_eq (h : OneOf R xs ys) : xs.length = ys.length := by
  induction h with
  | head => rfl
  | tail _ ih => rw [List.length_cons, List.length_cons, ih]

theorem ne_nil (h : OneOf R xs ys) : xs ≠ [] ∧ ys ≠ [] := by
  cases h <;> exact ⟨List.cons_ne_nil _ _, List.cons_ne_nil _ _⟩

theorem prepend (h : OneOf R xs ys) (zs : List α) : OneOf R (zs ++ xs) (zs ++ ys) := by
  induction zs with
  | nil => exact h
  | cons z zs ih => exact .tail ih

theorem extend (h : OneOf R xs ys) (zs : List α) : OneOf R (xs ++ zs) (ys ++ zs) := by
  induction h with
  | head h => exact .head h
  | tail _ ih => exact .tail ih

theorem map {f : α → β} (hf : ∀ x y, R x y → S (f x) (f y)) (h : OneOf R xs ys) :
    OneOf S (xs.map f) (ys.map f) := by
  induction h with
  | head h => exact .head (hf _ _ h)
  | tail _ ih => exact .tail ih

/-- What does not tell the related items apart does not tell the lists apart. -/
theorem map_eq {f : α → β} (hf : ∀ x y, R x y → f x = f y) (h : OneOf R xs ys) :
    xs.map f = ys.map f := by
  induction h with
  | head h => rw [List.map_cons, List.map_cons, hf _ _ h]
  | tail _ ih => rw [List.map_cons, List.map_cons, ih]

end

end OneOf

/-- Characters that differ by one piece in the place of another. -/
def Swap (lit lit' : List Char) (s s' : List Char) : Prop :=
  ∃ a b, s = a ++ lit ++ b ∧ s' = a ++ lit' ++ b

/-- Texts that differ by one piece in the place of another. -/
def TextSwap (lit lit' : List Char) (s s' : String) : Prop := Swap lit lit' s.toList s'.toList

section

variable {lit lit' s s' : List Char}

theorem Swap.self (lit lit' : List Char) : Swap lit lit' lit lit' := ⟨[], [], by simp, by simp⟩

theorem Swap.prepend (h : Swap lit lit' s s') (u : List Char) : Swap lit lit' (u ++ s) (u ++ s') := by
  obtain ⟨a, b, rfl, rfl⟩ := h
  exact ⟨u ++ a, b, by simp, by simp⟩

theorem Swap.extend (h : Swap lit lit' s s') (u : List Char) : Swap lit lit' (s ++ u) (s' ++ u) := by
  obtain ⟨a, b, rfl, rfl⟩ := h
  exact ⟨a, b ++ u, by simp, by simp⟩

end

/-- Faults that say the same, whatever they quote. -/
def Fault.Alike (fault fault' : Fault) : Prop :=
  fault.family = fault'.family ∧ fault.message = fault'.message

/-- Two results that are related, or two faults that say the same. -/
inductive EndsAlike {α : Type} (R : α → α → Prop) : Except Fault α → Except Fault α → Prop
  | ok {x y : α} (h : R x y) : EndsAlike R (.ok x) (.ok y)
  | error {fault fault' : Fault} (h : fault.Alike fault') : EndsAlike R (.error fault) (.error fault')

theorem EndsAlike.refl {α : Type} (a : Except Fault α) : EndsAlike Eq a a := by
  cases a with
  | error fault => exact .error ⟨rfl, rfl⟩
  | ok x => exact .ok rfl

theorem EndsAlike.map {α β : Type} {R : α → α → Prop} {S : β → β → Prop} {a b : Except Fault α}
    {f g : α → β} (h : EndsAlike R a b) (hfg : ∀ x y, R x y → S (f x) (g y)) :
    EndsAlike S (a.map f) (b.map g) := by
  cases h with
  | ok h => exact .ok (hfg _ _ h)
  | error h => exact .error h

namespace ClauseToken

open Comprehend.Text Comprehend.Lexeme

/-- A string or a template as it stands in notation text. -/
structure IsLiteral (kind : ClauseTokenKind) (text : List Char) : Prop where
  quotes : kind = .string ∨ kind = .template
  scans : scan text = some (kind, text, [])

/-- A literal token with another literal in its place. -/
structure Replaces (lit lit' : List Char) (t t' : ClauseToken) : Prop where
  before : t'.before = t.before
  after : t'.after = t.after
  text : t.text = lit
  text' : t'.text = lit'
  old : IsLiteral t.kind lit
  new : IsLiteral t'.kind lit'

/-! ## Literals -/

section

variable {kind : ClauseTokenKind} {lit lit' : List Char} {t t' : ClauseToken}

theorem IsLiteral.quote (h : IsLiteral kind lit) : ∃ q w, lit = q :: w ∧ isQuote q = true := by
  obtain ⟨hkind, hscan⟩ := h
  cases lit with
  | nil => cases hscan
  | cons c cs =>
    refine ⟨c, cs, rfl, ?_⟩
    rw [ClauseToken.scan] at hscan
    split_ifs at hscan with hb hq
    · simp only [beq_iff_eq] at hb
      rw [hb]
      rfl
    · exact hq
    all_goals
      obtain rfl := congrArg Prod.fst (Option.some.inj hscan)
      rcases hkind with h | h <;> cases h

/-- A literal is scanned as itself in front of every text. -/
theorem IsLiteral.scan_append (h : IsLiteral kind lit) (u : List Char) :
    ClauseToken.scan (lit ++ u) = some (kind, lit, u) := by
  obtain ⟨q, w, rfl, hq⟩ := h.quote
  have hscan := h.scans
  rw [ClauseToken.scan] at hscan
  rw [List.cons_append, ClauseToken.scan]
  split_ifs at hscan ⊢ with hb
  · obtain ⟨⟨t, r⟩, ht, h⟩ := Option.map_eq_some_iff.1 hscan
    cases h
    have again := template_append ht u
    rw [List.cons_append] at again
    rw [again]
    rfl
  · obtain ⟨⟨t, r⟩, ht, h⟩ := Option.map_eq_some_iff.1 hscan
    cases h
    have again := string_append ht u
    rw [List.cons_append] at again
    rw [again]
    rfl

theorem IsLiteral.breaks (h : IsLiteral kind lit) (u : List Char) : Breaks (lit ++ u) := by
  obtain ⟨q, w, rfl, hq⟩ := h.quote
  intro p hp
  simp only [continuations, List.mem_cons, List.not_mem_nil, or_false] at hp
  simp only [isQuote, Bool.or_eq_true, beq_iff_eq] at hq
  rcases hp with rfl | rfl | rfl <;> rcases hq with (rfl | rfl) | rfl <;> rfl

theorem IsLiteral.text_ne (h : IsLiteral t.kind lit) (ht : t.text = lit) : t.text ≠ ['('] := by
  obtain ⟨q, w, hlit, hq⟩ := h.quote
  rw [ht, hlit]
  rintro heq
  cases heq
  cases hq

theorem IsLiteral.isKeyword (h : IsLiteral t.kind lit) (w : String) : t.isKeyword w = false := by
  rcases h.quotes with hk | hk <;> simp [ClauseToken.isKeyword, hk]

end

/-! ## Scanning -/

/-- The characters of some tokens and of the blanks in front of each. -/
def written (ts : List ClauseToken) : List Char := ts.flatMap fun t => t.before ++ t.text

/-- A text that consists of a literal token, what stands before it and what follows. -/
def LiteralAt (pre lit post : List Char) : Prop :=
  ∃ us t vs, tokens? (pre ++ (lit ++ post)) = some (us ++ t :: vs) ∧
    pre = written us ++ t.before ∧ t.text = lit ∧ (t.kind = .string ∨ t.kind = .template)

section

variable {r r' post lit lit' : List Char} {kind : ClauseTokenKind} {t t' : ClauseToken}
  {us vs vs' : List ClauseToken}

theorem written_cons (t : ClauseToken) (us : List ClauseToken) (r : List Char) :
    written (t :: us) ++ r = t.before ++ (t.text ++ (written us ++ r)) := by
  simp [written]

theorem Lexes.before_eq (h : Lexes r (t :: vs)) : r.takeWhile isBlank = t.before := by
  cases h with
  | token _ _ => rfl

/-- The first token of a text and what stands behind it. -/
structure Heads (t : ClauseToken) (post : List Char) (vs : List ClauseToken) : Prop where
  blanks : ∀ c ∈ t.before, isBlank c = true
  scans : scan (t.text ++ post) = some (t.kind, t.text, post)
  after : t.after = post.takeWhile isBlank
  rest : Lexes post vs

theorem Lexes.heads (h : Lexes (t.before ++ (t.text ++ post)) (t :: vs)) : Heads t post vs := by
  generalize hcs : t.before ++ (t.text ++ post) = cs at h
  cases h with
  | @token _ text r kind _ hs hr =>
    have hsplit : cs.takeWhile isBlank ++ (text ++ r) = cs := by
      rw [append_of_scan hs]
      exact List.takeWhile_append_dropWhile
    obtain rfl : post = r :=
      List.append_cancel_left (List.append_cancel_left (hcs.trans hsplit.symm))
    exact ⟨fun _ hc => List.mem_takeWhile_imp hc, by rwa [append_of_scan hs], rfl, hr⟩

theorem Heads.lexes (h : Heads t post vs) : Lexes (t.before ++ (t.text ++ post)) (t :: vs) := by
  have hlexes := lexes_token h.blanks (scan_self h.scans) h.scans h.rest
  rwa [← h.after] at hlexes

theorem endsLike_literal (hlit' : IsLiteral kind lit') (b lit post : List Char) :
    EndsLike (b ++ (lit ++ post)) (b ++ (lit' ++ post)) := by
  by_cases hb : b = []
  · subst hb
    exact (hlit'.breaks post).endsLike _
  · exact endsLike_append hb _ _

/-- The tokens in front of a text are scanned again in front of one that starts with the same
blanks. -/
theorem Lexes.swap_rest (h : Lexes (written us ++ r) (us ++ t :: vs)) (hr' : Lexes r' (t' :: vs'))
    (hbefore : t'.before = t.before) (hends : EndsLike r r') :
    Lexes (written us ++ r') (us ++ t' :: vs') := by
  induction us with
  | nil => exact hr'
  | cons u us ih =>
    rw [written_cons] at h ⊢
    have hu : Heads u (written us ++ r) (us ++ t :: vs) := h.heads
    have hrest' : Lexes (written us ++ r') (us ++ t' :: vs') := ih hu.rest
    have hlike : EndsLike (written us ++ r) (written us ++ r') := by
      by_cases hnil : written us = []
      · rwa [hnil]
      · exact endsLike_append hnil _ _
    -- the token behind has kept its blanks
    have hafter : u.after = (written us ++ r').takeWhile isBlank := by
      have hrest := hu.rest
      rw [hu.after]
      cases us with
      | nil => exact hrest.before_eq.trans (hbefore.symm.trans hrest'.before_eq.symm)
      | cons v us => exact hrest.before_eq.trans hrest'.before_eq.symm
    exact Heads.lexes ⟨hu.blanks, scan_append hu.scans hlike, hafter, hrest'⟩

/-- With another literal in the place of one the text has the same tokens but for that one. -/
theorem LiteralAt.tokens {pre : List Char} (h : LiteralAt pre lit post) (hlit' : IsLiteral kind lit') :
    ∃ ts ts', tokens? (pre ++ (lit ++ post)) = some ts ∧
      tokens? (pre ++ (lit' ++ post)) = some ts' ∧ OneOf (Replaces lit lit') ts ts' := by
  obtain ⟨us, t, vs, hts, rfl, rfl, hquotes⟩ := h
  have hlexes := tokens?_eq_some.1 hts
  have hlit : IsLiteral t.kind t.text := ⟨hquotes, hlexes.scan_text t (by simp)⟩
  rw [List.append_assoc] at hlexes
  obtain ⟨r, hr, hrest⟩ := hlexes.exists_append
  obtain rfl : r = t.before ++ (t.text ++ post) := (List.append_cancel_left hr).symm
  have ht := hrest.heads
  let t' : ClauseToken := { t with kind := kind, text := lit' }
  have ht' : Heads t' post vs := ⟨ht.blanks, hlit'.scan_append post, ht.after, ht.rest⟩
  have hlexes' : Lexes (written us ++ (t.before ++ (lit' ++ post))) (us ++ t' :: vs) :=
    hlexes.swap_rest ht'.lexes rfl (endsLike_literal hlit' _ _ _)
  refine ⟨_, _, hts, ?_, (OneOf.head (y := t') ⟨rfl, rfl, rfl, rfl, hlit, hlit'⟩).prepend us⟩
  rw [List.append_assoc]
  exact tokens?_eq_some.2 hlexes'

end

/-! ## Cutting -/

/-- Two pairs of lists that differ in one item of one of them. -/
inductive OneSide (R : ClauseToken → ClauseToken → Prop) :
    List ClauseToken × List ClauseToken → List ClauseToken × List ClauseToken → Prop
  | left {ls ls' rs : List ClauseToken} (h : OneOf R ls ls') : OneSide R (ls, rs) (ls', rs)
  | right {ls rs rs' : List ClauseToken} (h : OneOf R rs rs') : OneSide R (ls, rs) (ls, rs')

section

variable {R : ClauseToken → ClauseToken → Prop} {lit lit' : List Char} {t t' : ClauseToken}
  {ts ts' : List ClauseToken} {cut cut' : Option (List ClauseToken × List ClauseToken)}

theorem oneSide_head (h : R t t') (cut : Option (List ClauseToken × List ClauseToken)) :
    Option.Rel (OneSide R) (cut.map fun p => (t :: p.1, p.2)) (cut.map fun p => (t' :: p.1, p.2)) := by
  cases cut with
  | none => exact .none
  | some p => exact .some (.left (.head h))

theorem oneSide_tail (t : ClauseToken) (h : Option.Rel (OneSide R) cut cut') :
    Option.Rel (OneSide R) (cut.map fun p => (t :: p.1, p.2)) (cut'.map fun p => (t :: p.1, p.2)) := by
  cases h with
  | none => exact .none
  | some h =>
    cases h with
    | left h => exact .some (.left (.tail h))
    | right h => exact .some (.right h)

theorem IsLiteral.group_eq (h : IsLiteral t.kind lit) (depth : Nat) (ts : List ClauseToken) :
    group depth (t :: ts) = (group depth ts).map fun p => (t :: p.1, p.2) := by
  rcases h.quotes with hk | hk <;> simp only [group, hk]

theorem IsLiteral.cutAt_eq (h : IsLiteral t.kind lit) (w : String) (depth : Nat)
    (ts : List ClauseToken) :
    cutAt w depth (t :: ts) = (cutAt w depth ts).map fun p => (t :: p.1, p.2) := by
  have hkey := h.isKeyword w
  rcases h.quotes with hk | hk <;>
    simp only [cutAt, hk, hkey, Bool.and_false, Bool.false_eq_true, if_false]

theorem group_swap (h : OneOf (Replaces lit lit') ts ts') (depth : Nat) :
    Option.Rel (OneSide (Replaces lit lit')) (group depth ts) (group depth ts') := by
  induction h generalizing depth with
  | head h =>
    rw [h.old.group_eq, h.new.group_eq]
    exact oneSide_head h _
  | @tail t ts ts' h ih =>
    cases hk : t.kind with
    | opening =>
      simp only [group, hk]
      exact oneSide_tail t (ih (depth + 1))
    | closing =>
      cases depth with
      | zero =>
        simp only [group, hk]
        exact .some (.right h)
      | succ depth =>
        simp only [group, hk]
        exact oneSide_tail t (ih depth)
    | _ =>
      simp only [group, hk]
      exact oneSide_tail t (ih depth)

theorem cutAt_swap (h : OneOf (Replaces lit lit') ts ts') (w : String) (depth : Nat) :
    Option.Rel (OneSide (Replaces lit lit')) (cutAt w depth ts) (cutAt w depth ts') := by
  induction h generalizing depth with
  | head h =>
    rw [h.old.cutAt_eq, h.new.cutAt_eq]
    exact oneSide_head h _
  | @tail t ts ts' h ih =>
    cases hk : t.kind with
    | opening =>
      simp only [cutAt, hk]
      exact oneSide_tail t (ih (depth + 1))
    | closing =>
      simp only [cutAt, hk]
      exact oneSide_tail t (ih (depth - 1))
    | _ =>
      simp only [cutAt, hk]
      split
      · exact .some (.right h)
      · exact oneSide_tail t (ih depth)

/-! ## Segments -/

section

variable {raw raw' : String} {stack : List (List Char)} {offset offset' : Nat}
  {ss ss' : List (List ClauseToken)}

/-- A token does the same in front of tokens that are cut alike. -/
theorem segments_cons {R : List (List ClauseToken) → List (List ClauseToken) → Prop}
    (hrest : ∀ stack offset offset',
      EndsAlike R (segments raw stack offset ts) (segments raw' stack offset' ts'))
    (hfirst : ∀ ss ss', R ss ss' → R (intoFirst t ss) (intoFirst t ss'))
    (hnew : ∀ ss ss', R ss ss' → R ([] :: ss) ([] :: ss')) :
    EndsAlike R (segments raw stack offset (t :: ts)) (segments raw' stack offset' (t :: ts')) := by
  cases hk : t.kind with
  | opening =>
    rw [segments_opening hk, segments_opening hk]
    exact (hrest _ _ _).map hfirst
  | closing =>
    cases stack with
    | nil =>
      simp only [segments, hk]
      exact .error ⟨rfl, rfl⟩
    | cons close stack =>
      simp only [segments, hk]
      split
      · exact (hrest _ _ _).map hfirst
      · exact .error ⟨rfl, rfl⟩
  | _ =>
    cases hcut : stack.isEmpty && t.isKeyword "for" with
    | false =>
      rw [segments_other (by simp [hk]) (by simp [hk]) hcut,
        segments_other (by simp [hk]) (by simp [hk]) hcut]
      exact (hrest _ _ _).map hfirst
    | true =>
      simp only [Bool.and_eq_true, List.isEmpty_iff] at hcut
      obtain ⟨rfl, hkey⟩ := hcut
      rw [segments_keyword hkey, segments_keyword hkey]
      exact (hrest _ _ _).map hnew

/-- How tokens are cut does not depend on where they stand. -/
theorem segments_anywhere (raw raw' : String) (stack : List (List Char)) (offset offset' : Nat)
    (ts : List ClauseToken) :
    EndsAlike Eq (segments raw stack offset ts) (segments raw' stack offset' ts) := by
  induction ts generalizing stack offset offset' with
  | nil =>
    cases stack with
    | nil => exact .ok rfl
    | cons close stack => exact .error ⟨rfl, rfl⟩
  | cons t ts ih =>
    exact segments_cons ih (fun _ _ h => congrArg _ h) fun _ _ h => congrArg _ h

theorem IsLiteral.segments_eq (h : IsLiteral t.kind lit) (raw : String)
    (stack : List (List Char)) (offset : Nat) (ts : List ClauseToken) :
    segments raw stack offset (t :: ts) =
      (segments raw stack (offset + t.before.length + t.text.length) ts).map (intoFirst t) := by
  have hcut : (stack.isEmpty && t.isKeyword "for") = false := by simp [h.isKeyword]
  rcases h.quotes with hk | hk <;> exact segments_other (by simp [hk]) (by simp [hk]) hcut

theorem intoFirst_head (h : Replaces lit lit' t t') (ss : List (List ClauseToken)) :
    OneOf (OneOf (Replaces lit lit')) (intoFirst t ss) (intoFirst t' ss) := by
  cases ss with
  | nil => exact .head (.head h)
  | cons s ss => exact .head (.head h)

theorem intoFirst_tail (t : ClauseToken) (h : OneOf (OneOf (Replaces lit lit')) ss ss') :
    OneOf (OneOf (Replaces lit lit')) (intoFirst t ss) (intoFirst t ss') := by
  cases h with
  | head h => exact .head (.tail h)
  | tail h => exact .tail h

/-- The segments are the same but for the one that the literal is in. -/
theorem segments_swap (h : OneOf (Replaces lit lit') ts ts') (raw raw' : String)
    (stack : List (List Char)) (offset offset' : Nat) :
    EndsAlike (OneOf (OneOf (Replaces lit lit'))) (segments raw stack offset ts)
      (segments raw' stack offset' ts') := by
  induction h generalizing stack offset offset' with
  | head h =>
    rw [h.old.segments_eq, h.new.segments_eq]
    refine (segments_anywhere raw raw' stack _ _ _).map fun ss ss' hss => ?_
    exact hss ▸ intoFirst_head h ss
  | @tail t ts ts' _ ih => exact segments_cons ih (fun _ _ h => intoFirst_tail t h) fun _ _ h => .tail h

end

end

/-! ## The texts of tokens -/

section

variable {lit lit' : List Char} {ts ts' : List ClauseToken}

theorem written_swap (h : OneOf (Replaces lit lit') ts ts') :
    Swap lit lit' (written ts) (written ts') := by
  induction h with
  | @head t t' ts h =>
    rw [written, written, List.flatMap_cons, List.flatMap_cons, h.text, h.text', h.before]
    exact ((Swap.self lit lit').prepend _).extend _
  | @tail t ts ts' _ ih =>
    rw [written, written, List.flatMap_cons, List.flatMap_cons]
    exact ih.prepend _

theorem spannedText_swap (h : OneOf (Replaces lit lit') ts ts') :
    TextSwap lit lit' (spannedText ts) (spannedText ts') := by
  rw [TextSwap, spannedText, spannedText, String.toList_ofList, String.toList_ofList]
  cases h with
  | head h =>
    rw [spanned, spanned, h.text, h.text']
    exact (Swap.self lit lit').extend _
  | @tail t ts ts' h => exact (written_swap h).prepend t.text

end

end ClauseToken

end Comprehend
