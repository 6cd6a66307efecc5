import Comprehend.Proofs.Source.Found
import Comprehend.Proofs.Source.Scan
import Comprehend.Proofs.Syntax.Guarded

/-! # What is matched where a text is changed

A match says where it ends, so what follows it does not matter. In front of a place where nothing
reaches over, the matches of a text are those that it has on its own; and a place where a comprehension
stands is one that something reaches over as soon as anything is left open in front of it. That is why
a text without backticks of its own can be put there and the matches around it stay what they were. -/

namespace Comprehend.Surface

open Text Lexeme

variable {surface : Surface} {before : Option Char} {cs m r u v w z : List Char}

/-! ## One match -/

/-- A text that opens a match, up to its backtick. -/
structure Opens (a : List Char) : Prop where
  ne_nil : a ≠ []
  quoteless : '\x60' ∉ a
  slashless : '\\' ∉ a
  unclosed : ')' ∉ a

theorem opens_tag {gap : List Char} (h : ∀ c ∈ gap, isSpace c = true) :
    Opens (listTag.toList ++ gap) := by
  have hnot (c : Char) (hc : c ∉ listTag.toList) (hspace : isSpace c = false) :
      c ∉ listTag.toList ++ gap := fun hmem => by
    rcases List.mem_append.1 hmem with hmem | hmem
    · exact hc hmem
    · exact absurd (h c hmem) (by rw [hspace]; decide)
  exact ⟨by simp [listTag], hnot _ (by decide) (by decide), hnot _ (by decide) (by decide),
    hnot _ (by decide) (by decide)⟩

theorem opens_marker : Opens listMarker.toList := by
  constructor <;> decide

/-- A text like a match: what opens it, and something guarded between backticks. -/
structure IsMatch (a v m : List Char) : Prop where
  eq : m = a ++ '\x60' :: (v ++ ['\x60'])
  opens : Opens a
  guarded : Guarded v

/-- What a match consists of. -/
theorem isMatch_of_matchAt (h : surface.matchAt before cs = some (m, r)) : ∃ a v, IsMatch a v m := by
  cases surface with
  | taggedTemplate =>
    obtain ⟨-, gap, t, hgap, ht, rfl, -⟩ := tagged_eq_some h
    obtain ⟨v, rfl, hv⟩ := guarded_of_template ht
    exact ⟨listTag.toList ++ gap, v, rfl, opens_tag hgap, hv⟩
  | markedLiteral =>
    obtain ⟨v, -, hquote, rfl, -⟩ := marked_eq_some h
    exact ⟨listMarker.toList, v, by simp, opens_marker, guarded_of_not_mem hquote⟩

theorem IsMatch.ne_nil {a v : List Char} (h : IsMatch a v m) : m ≠ [] := by
  rw [h.eq]
  simp

theorem IsMatch.closed {a v : List Char} (h : IsMatch a v m) : ∃ w, m = w ++ ['\x60'] :=
  ⟨a ++ '\x60' :: v, by rw [h.eq, List.append_assoc, List.cons_append]⟩

theorem IsMatch.body_eq {a v : List Char} (h : IsMatch a v m) : body m = v := by
  rw [h.eq, body_enclosed h.opens.quoteless]

theorem tagged_opened {gap : List Char} (hb : before.all mayPrecedeTag = true)
    (hgap : ∀ c ∈ gap, isSpace c = true) (cs : List Char) :
    tagged before (listTag.toList ++ gap ++ '\x60' :: cs) =
      (template ('\x60' :: cs)).map fun p => (listTag.toList ++ gap ++ p.1, p.2) := by
  have hafter : after listTag (listTag.toList ++ (gap ++ '\x60' :: cs)) = some (gap ++ '\x60' :: cs) :=
    rfl
  have hstop : startsWith isSpace ('\x60' :: cs) = false := rfl
  obtain ⟨htake, hdrop⟩ := takeWhile_append_of_stop hgap hstop
  rw [List.append_assoc, tagged, if_pos hb, hafter]
  simp only [htake, hdrop]

theorem marked_opened {body : List Char} (hne : body ≠ []) (hquote : '\x60' ∉ body)
    (r : List Char) : marked (listMarker.toList ++ '\x60' :: (body ++ '\x60' :: r)) =
      some (listMarker.toList ++ '\x60' :: body ++ ['\x60'], r) := by
  have hafter : after listMarker (listMarker.toList ++ '\x60' :: (body ++ '\x60' :: r)) =
      some ('\x60' :: (body ++ '\x60' :: r)) := rfl
  have hinside : ∀ c ∈ body, (c != '\x60') = true := fun c hc => bne_iff_ne.2 fun h => hquote (h ▸ hc)
  have hstop : startsWith (· != '\x60') ('\x60' :: r) = false := rfl
  obtain ⟨htake, hdrop⟩ := takeWhile_append_of_stop hinside hstop
  rw [marked, hafter]
  simp only [htake, hdrop]
  cases body with
  | nil => exact absurd rfl hne
  | cons c body => rfl

/-- A match does not depend on what follows it. -/
theorem matchAt_append (h : surface.matchAt before cs = some (m, r)) (rest : List Char) :
    surface.matchAt before (m ++ rest) = some (m, rest) := by
  cases surface with
  | taggedTemplate =>
    obtain ⟨hb, gap, t, hgap, ht, rfl, -⟩ := tagged_eq_some h
    have happ := template_append ht rest
    obtain ⟨t', rfl⟩ := Parser.template_eq_some ht
    rw [matchAt, List.append_assoc, List.cons_append, tagged_opened hb hgap, ← List.cons_append, happ]
    rfl
  | markedLiteral =>
    obtain ⟨body, hne, hquote, rfl, -⟩ := marked_eq_some h
    rw [matchAt]
    simpa using marked_opened hne hquote rest

theorem matchAt_append_left (h : surface.matchAt before (u ++ z) = some (m, r))
    (hlength : m.length ≤ u.length) : ∃ v, u = m ++ v ∧ surface.matchAt before u = some (m, v) := by
  obtain ⟨happ, -⟩ := matchAt_eq_some h
  rcases List.append_eq_append_iff.1 happ with ⟨w, rfl, -⟩ | ⟨v, rfl, -⟩
  · have hnil : w = [] := List.eq_nil_of_length_eq_zero (by rw [List.length_append] at hlength; omega)
    subst hnil
    rw [List.append_nil] at h ⊢
    exact ⟨[], (List.append_nil _).symm, by simpa using matchAt_append h []⟩
  · exact ⟨v, rfl, matchAt_append h v⟩

theorem matchAt_append_right (h : surface.matchAt before u = some (m, r)) (z : List Char) :
    surface.matchAt before (u ++ z) = some (m, r ++ z) := by
  obtain ⟨rfl, -⟩ := matchAt_eq_some h
  rw [List.append_assoc]
  exact matchAt_append h _

/-- Where the match at the start of a text ends in time, what is behind does not matter. -/
theorem matchAt_append_of_le
    (h : ∀ m r, surface.matchAt before (u ++ z) = some (m, r) → m.length ≤ u.length) :
    surface.matchAt before (u ++ z) = (surface.matchAt before u).map fun p => (p.1, p.2 ++ z) := by
  cases hm : surface.matchAt before u with
  | some found => exact matchAt_append_right hm z
  | none =>
    refine Option.eq_none_iff_forall_ne_some.2 fun ⟨m, r⟩ hlong => ?_
    obtain ⟨v, -, hself⟩ := matchAt_append_left hlong (h m r hlong)
    rw [hm] at hself
    cases hself

/-! ## A match that is left open -/

theorem quotedRest_close (cs : List Char) : quotedRest '\x60' true ('\x60' :: cs) = some (['\x60'], cs) := by
  cases cs <;> simp [quotedRest]

theorem quotedRest_slash (c : Char) (cs : List Char) : quotedRest '\x60' true ('\\' :: c :: cs) =
    Lexeme.cons '\\' (Lexeme.cons c (quotedRest '\x60' true cs)) := by
  simp [quotedRest]

theorem quotedRest_other {c : Char} (hquote : c ≠ '\x60') (hslash : c ≠ '\\') (hne : cs ≠ []) :
    quotedRest '\x60' true (c :: cs) = Lexeme.cons c (quotedRest '\x60' true cs) := by
  cases cs with
  | nil => exact absurd rfl hne
  | cons d cs => simp [quotedRest, hquote, hslash]

theorem isSome_cons (c : Char) (scan : Scan) : (Lexeme.cons c scan).isSome = scan.isSome := by
  cases scan <;> rfl

/-- Text without a backslash leaves the next backtick to close. -/
theorem quotedRest_isSome {a : List Char} (hquote : '\x60' ∉ a) (hslash : '\\' ∉ a) (cs : List Char) :
    (quotedRest '\x60' true (a ++ '\x60' :: cs)).isSome := by
  induction a with
  | nil =>
    rw [List.nil_append, quotedRest_close]
    rfl
  | cons c a ih =>
    simp only [List.mem_cons, not_or] at hquote hslash
    rw [List.cons_append, quotedRest_other (Ne.symm hquote.1) (Ne.symm hslash.1) (by simp),
      isSome_cons]
    exact ih hquote.2 hslash.2

/-- A literal that is left open in front of another opener is closed by it at the latest. -/
theorem quotedRest_reopened {a : List Char} (ha : Opens a) (hw : w ≠ []) (cs : List Char) :
    ∀ v, quotedRest '\x60' true (v ++ w) = some (v ++ w, []) →
      (quotedRest '\x60' true (v ++ (a ++ '\x60' :: cs))).isSome
  | [], _ => quotedRest_isSome ha.quoteless ha.slashless cs
  | c :: v, h => by
    have hquote : c ≠ '\x60' := by
      rintro rfl
      rw [List.cons_append, quotedRest_close] at h
      simp [hw] at h
    by_cases hslash : c = '\\'
    · subst hslash
      cases v with
      | nil =>
        obtain ⟨d, a', rfl⟩ := List.exists_cons_of_ne_nil ha.ne_nil
        rw [List.cons_append, List.nil_append, List.cons_append, quotedRest_slash, isSome_cons,
          isSome_cons]
        exact quotedRest_isSome (fun h => ha.quoteless (.tail _ h))
          (fun h => ha.slashless (.tail _ h)) cs
      | cons d v =>
        simp only [List.cons_append] at h ⊢
        rw [quotedRest_slash] at h ⊢
        obtain ⟨x, hx, hxs⟩ := cons_eq_some.1 h
        obtain ⟨y, hy, rfl⟩ := cons_eq_some.1 hx
        obtain rfl := (List.cons.inj (List.cons.inj hxs).2).2
        rw [isSome_cons, isSome_cons]
        exact quotedRest_reopened ha hw cs v hy
    · rw [List.cons_append, quotedRest_other hquote hslash (by simp [hw])] at h
      obtain ⟨x, hx, hxs⟩ := cons_eq_some.1 h
      obtain rfl := (List.cons.inj hxs).2
      rw [List.cons_append, quotedRest_other hquote hslash (by simp), isSome_cons]
      exact quotedRest_reopened ha hw cs v hx

/-- A match that is left open in front of another opener is closed by it at the latest. -/
theorem matchAt_reopened (h : surface.matchAt before cs = some (m, r)) :
    ∃ a b, m = a ++ '\x60' :: b ∧ Opens a ∧ ∀ u w, b = u ++ w → w ≠ [] → ∀ c t, Opens c →
      (surface.matchAt before (a ++ '\x60' :: (u ++ (c ++ '\x60' :: t)))).isSome := by
  cases surface with
  | taggedTemplate =>
    obtain ⟨hb, gap, t, hgap, ht, rfl, -⟩ := tagged_eq_some h
    obtain ⟨b, rfl⟩ := Parser.template_eq_some ht
    refine ⟨_, b, rfl, opens_tag hgap, fun u w hb' hw c t hc => ?_⟩
    obtain ⟨x, hx, hxs⟩ := cons_eq_some.1 ht
    obtain rfl := (List.cons.inj hxs).2
    subst hb'
    have hclosed := quotedRest_reopened hc hw t u hx
    rw [matchAt, tagged_opened hb hgap, Option.isSome_map, template, isSome_cons]
    exact hclosed
  | markedLiteral =>
    obtain ⟨body, hne, hquote, rfl, -⟩ := marked_eq_some h
    refine ⟨listMarker.toList, body ++ ['\x60'], by simp, opens_marker, fun u w hb hw c t hc => ?_⟩
    have hu : '\x60' ∉ u := by
      rcases List.append_eq_append_iff.1 hb with ⟨v, rfl, hv⟩ | ⟨v, rfl, hv⟩
      · cases v with
        | nil => rwa [List.append_nil]
        | cons d v => exact absurd (List.append_eq_nil_iff.1 (List.cons.inj hv).2.symm).2 hw
      · exact fun hmem => hquote (List.mem_append_left _ hmem)
    have hbody : '\x60' ∉ u ++ c := by simp [hu, hc.quoteless]
    rw [matchAt, ← List.append_assoc u, marked_opened (by simp [hc.ne_nil]) hbody]
    rfl

/-! ## Text in which nothing is matched -/

/-- A text that neither holds a match nor takes part in one. -/
structure Inert (s : List Char) : Prop where
  guarded : Guarded s
  closed : ∃ w, s = w ++ [')']

variable {s a b : List Char}

theorem Inert.ne_nil (h : Inert s) : s ≠ [] := by
  obtain ⟨w, rfl⟩ := h.closed
  simp

/-- Its parts do not open a match. -/
theorem Inert.not_opened (h : Inert s) (hs : s = u ++ v) (hv : v ≠ []) (hsplit : v ++ z = a ++ '\x60' :: b)
    (hclosed : ')' ∉ a) (hslash : '\\' ∉ a) (hopen : a ≠ [] ∨ u = []) : False := by
  have hmem : ')' ∈ v := by
    obtain ⟨w, hw⟩ := h.closed
    have hlast := congrArg List.getLast? (hs.symm.trans hw)
    rw [List.getLast?_append_of_ne_nil _ hv, List.getLast?_concat] at hlast
    exact List.mem_of_getLast? hlast
  rcases List.append_eq_append_iff.1 hsplit with ⟨w, rfl, -⟩ | ⟨w, rfl, hw⟩
  · exact hclosed (List.mem_append_left _ hmem)
  · cases w with
    | nil => exact hclosed (by simpa using hmem)
    | cons c w =>
      obtain ⟨rfl, -⟩ := List.cons.inj hw
      have hlast := h.guarded (u ++ a) w (by rw [hs, List.append_assoc])
      rcases hopen with hne | rfl
      · rw [List.getLast?_append_of_ne_nil _ hne] at hlast
        exact hslash (List.mem_of_getLast? hlast)
      · exact hslash (List.mem_of_getLast? hlast)

/-- No match starts in it. -/
theorem Inert.matchAt_eq_none (h : Inert s) (hs : s = u ++ v) (hv : v ≠ []) (z : List Char) :
    surface.matchAt before (v ++ z) = none := by
  refine Option.eq_none_iff_forall_ne_some.2 fun ⟨m, r⟩ hm => ?_
  obtain ⟨a, w, hmatch⟩ := isMatch_of_matchAt hm
  obtain ⟨happ, -⟩ := matchAt_eq_some hm
  rw [hmatch.eq, List.append_assoc, List.cons_append] at happ
  have ha := hmatch.opens
  exact h.not_opened hs hv happ ha.unclosed ha.slashless (.inl ha.ne_nil)

/-- Where a match reaches into it, one would reach into whatever opens a match. -/
theorem Inert.isSome_matchAt (h : Inert s) (hm : surface.matchAt before (u ++ (s ++ z)) = some (m, r))
    (hlength : u.length < m.length) (ha : Opens a) (t : List Char) :
    (surface.matchAt before (u ++ (a ++ '\x60' :: t))).isSome := by
  obtain ⟨c, b, rfl, hc, hreopened⟩ := matchAt_reopened hm
  obtain ⟨happ, -⟩ := matchAt_eq_some hm
  rw [List.append_assoc, List.cons_append] at happ
  rcases List.append_eq_append_iff.1 happ with ⟨v, rfl, hv⟩ | ⟨v, rfl, hv⟩
  · -- the backtick of the opener would be one of the inert text
    exact (h.not_opened (List.nil_append s).symm h.ne_nil hv (fun hmem => hc.unclosed (by simp [hmem]))
      (fun hmem => hc.slashless (by simp [hmem])) (.inr rfl)).elim
  · cases v with
    | nil =>
      exact (h.not_opened (a := []) (List.nil_append s).symm h.ne_nil hv.symm
        List.not_mem_nil List.not_mem_nil (.inr rfl)).elim
    | cons d v =>
      obtain ⟨rfl, htail⟩ := List.cons.inj hv
      rcases List.append_eq_append_iff.1 htail with ⟨w, hw, -⟩ | ⟨w, rfl, -⟩
      · subst hw
        simp at hlength
      · have hw : w ≠ [] := by
          rintro rfl
          simp at hlength
        rw [List.append_assoc, List.cons_append]
        exact hreopened v w rfl hw a t ha

/-! ## All matches -/

/-- Whether a match may start behind it is all that matters of the character in front. -/
theorem candidates_before {before' : Option Char}
    (h : before.all mayPrecedeTag = before'.all mayPrecedeTag) (offset skip : Nat) (cs : List Char) :
    candidates surface before offset skip cs = candidates surface before' offset skip cs := by
  cases cs with
  | nil => rw [candidates, candidates]
  | cons c cs =>
    have hmatch : surface.matchAt before (c :: cs) = surface.matchAt before' (c :: cs) := by
      cases surface with
      | taggedTemplate => rw [matchAt, matchAt, tagged, tagged, h]
      | markedLiteral => rfl
    cases skip with
    | succ skip => rw [candidates, candidates]
    | zero => rw [candidates, candidates, hmatch]

/-- Text in which no match starts is passed over. -/
theorem candidates_passed (h : ∀ u v, s = u ++ v → v ≠ [] → ∀ before,
    surface.matchAt before (v ++ z) = none) (before : Option Char) (offset : Nat) :
    candidates surface before offset 0 (s ++ z) =
      candidates surface (endOf before s) (offset + s.length) 0 z := by
  induction s generalizing before offset with
  | nil => rfl
  | cons c s ih =>
    have hnone := h [] (c :: s) rfl (List.cons_ne_nil _ _) before
    have hrest := ih (fun u v hs hv => h (c :: u) v (by rw [hs, List.cons_append]) hv) (some c)
      (offset + 1)
    rw [List.cons_append] at hnone ⊢
    rw [candidates, hnone, endOf_cons, List.length_cons, Nat.add_comm s.length, ← Nat.add_assoc]
    exact hrest

/-- A match that starts in a text and ends past it. -/
def Straddles (stop : Nat) (o : Occurrence) : Prop := o.start < stop ∧ stop < o.stop

theorem length_le_of_not_straddles {c : Char} {offset : Nat}
    (h : ∀ o ∈ candidates surface before offset 0 (c :: u ++ z),
      ¬ Straddles (offset + (c :: u).length) o) :
    ∀ m r, surface.matchAt before (c :: u ++ z) = some (m, r) → m.length ≤ (c :: u).length := by
  intro m r hm
  have hfirst : ¬ Straddles (offset + (c :: u).length)
      ⟨surface, offset, offset + m.length, String.ofList (body m)⟩ := by
    refine h _ ?_
    rw [List.cons_append] at hm ⊢
    rw [candidates, hm]
    exact List.mem_cons_self
  simp only [Straddles, not_and, Nat.not_lt, List.length_cons] at hfirst ⊢
  omega

/-- In front of a place where no match reaches over, the matches are those of the text on its own. -/
theorem candidates_append {offset skip : Nat} (hskip : skip ≤ u.length)
    (h : ∀ o ∈ candidates surface before offset skip (u ++ z), ¬ Straddles (offset + u.length) o) :
    candidates surface before offset skip (u ++ z) = candidates surface before offset skip u ++
      candidates surface (endOf before u) (offset + u.length) 0 z := by
  induction u generalizing before offset skip with
  | nil =>
    obtain rfl := Nat.le_zero.1 hskip
    rfl
  | cons c u ih =>
    have hlength : offset + (c :: u).length = offset + 1 + u.length := by
      rw [List.length_cons]
      omega
    rw [endOf_cons]
    cases skip with
    | succ skip =>
      rw [hlength, List.cons_append] at h ⊢
      rw [candidates] at h ⊢
      rw [candidates, ih (Nat.le_of_succ_le_succ hskip) h]
    | zero =>
      have hends := length_le_of_not_straddles h
      have hmatch := matchAt_append_of_le hends
      rw [hlength, List.cons_append] at h ⊢
      rw [List.cons_append] at hends hmatch
      rw [candidates, hmatch] at h ⊢
      rw [candidates]
      cases hm : surface.matchAt before (c :: u) with
      | none =>
        rw [hm] at h
        exact ih (Nat.zero_le _) h
      | some found =>
        rw [hm] at h hmatch
        have hle := hends _ _ hmatch
        rw [List.length_cons] at hle
        simp only [Option.map_some, List.cons_append]
        rw [ih (by omega) (List.forall_mem_cons.1 h).2]

/-- Where no match reaches over into what opens one, none reaches over into inert text either. -/
theorem not_straddles_inert {offset skip : Nat} {t : List Char} (hs : Inert s) (ha : Opens a)
    (hskip : skip ≤ u.length) (h : ∀ o ∈ candidates surface before offset skip (u ++ (a ++ '\x60' :: t)),
      ¬ Straddles (offset + u.length) o) (z : List Char) :
    ∀ o ∈ candidates surface before offset skip (u ++ (s ++ z)), ¬ Straddles (offset + u.length) o := by
  induction u generalizing before offset skip with
  | nil =>
    intro o ho hstraddles
    have := candidates_bounds surface _ _ _ _ o ho
    have hstart : o.start < offset := hstraddles.1
    omega
  | cons c u ih =>
    have hlength : offset + (c :: u).length = offset + 1 + u.length := by
      rw [List.length_cons]
      omega
    cases skip with
    | succ skip =>
      rw [hlength, List.cons_append] at h ⊢
      rw [candidates] at h ⊢
      exact ih (Nat.le_of_succ_le_succ hskip) h
    | zero =>
      have hends := length_le_of_not_straddles h
      have hmatch := matchAt_append_of_le hends
      have hends' : ∀ m r, surface.matchAt before (c :: u ++ (s ++ z)) = some (m, r) →
          m.length ≤ (c :: u).length := by
        intro m r hm
        by_contra hlong
        obtain ⟨found, hfound⟩ := Option.isSome_iff_exists.1
          (hs.isSome_matchAt hm (Nat.not_le.1 hlong) ha t)
        rw [hfound] at hmatch
        obtain ⟨p, hself, rfl⟩ := Option.map_eq_some_iff.1 hmatch.symm
        have happ := matchAt_append_right hself (s ++ z)
        rw [hm] at happ
        cases happ
        exact hlong (hends _ _ hfound)
      have hmatch' := matchAt_append_of_le hends'
      rw [hlength, List.cons_append] at h ⊢
      rw [List.cons_append] at hends' hmatch hmatch'
      rw [candidates] at h ⊢
      rw [hmatch] at h
      rw [hmatch']
      cases hm : surface.matchAt before (c :: u) with
      | none =>
        rw [hm] at h
        exact ih (Nat.zero_le _) h
      | some found =>
        rw [hm] at h hmatch'
        have hle := hends' _ _ hmatch'
        rw [List.length_cons] at hle
        refine List.forall_mem_cons.2 ⟨fun hstraddles => ?_, ih (by omega) (List.forall_mem_cons.1 h).2⟩
        have hstop : offset + 1 + u.length < offset + found.1.length := hstraddles.2
        omega

end Comprehend.Surface
