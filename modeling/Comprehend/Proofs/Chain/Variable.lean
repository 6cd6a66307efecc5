import Comprehend.Proofs.Chain.Level
import Comprehend.Proofs.Syntax.Parts

/-! # Loop variables

The pattern of a clause is a run of the tokens that the notation text was cut into, so it ends where
a token ends and never in a line break. A plain loop variable that passes its check is therefore a
name, although the check alone would let a line break follow it. -/

namespace Comprehend

open Comprehend.Text Comprehend.Lexeme

namespace ClauseToken

/-- A text whose last character is no blank. -/
def EndsSolid (u : List Char) : Prop := ∃ v c, u = v ++ [c] ∧ isBlank c = false

theorem EndsSolid.append {v : List Char} (h : EndsSolid v) (u : List Char) : EndsSolid (u ++ v) := by
  obtain ⟨w, c, rfl, hc⟩ := h
  exact ⟨u ++ w, c, (List.append_assoc u w [c]).symm, hc⟩

theorem endsSolid_of_forall {c : Char} {cs : List Char} (h : ∀ d ∈ c :: cs, isBlank d = false) :
    EndsSolid (c :: cs) :=
  ⟨_, _, (List.dropLast_append_getLast (List.cons_ne_nil c cs)).symm,
    h _ (List.getLast_mem (List.cons_ne_nil c cs))⟩

theorem endsSolid_takeWhile {p : Char → Bool} (hp : ∀ d, p d = true → isBlank d = false) {c : Char}
    (hc : p c = true) (cs : List Char) : EndsSolid (c :: cs.takeWhile p) :=
  endsSolid_of_forall (List.forall_mem_cons.2
    ⟨hp c hc, fun d hd => hp d (List.mem_takeWhile_imp hd)⟩)

theorem endsSolid_quotedRest {quote : Char} {overLines : Bool} (hq : isBlank quote = false)
    {cs t r : List Char} (h : quotedRest quote overLines cs = some (t, r)) : EndsSolid t := by
  fun_induction quotedRest quote overLines cs generalizing t r with
  | case1 => cases h
  | case2 =>
    cases h
    exact ⟨[], quote, rfl, hq⟩
  | case3 => cases h
  | case4 =>
    cases h
    exact ⟨[], quote, rfl, hq⟩
  | case5 => cases h
  | case6 => cases h
  | case7 d cs _ _ _ ih =>
    obtain ⟨u, hu, rfl⟩ := cons_eq_some.1 h
    obtain ⟨v, hv, rfl⟩ := cons_eq_some.1 hu
    exact (ih hv).append ['\\', d]
  | case8 c d cs _ _ _ ih =>
    obtain ⟨u, hu, rfl⟩ := cons_eq_some.1 h
    exact (ih hu).append [c]

theorem endsSolid_template {cs t r : List Char} (h : template cs = some (t, r)) : EndsSolid t := by
  unfold template at h
  split at h
  · obtain ⟨u, hu, rfl⟩ := cons_eq_some.1 h
    exact (endsSolid_quotedRest rfl hu).append ['\x60']
  · cases h

theorem endsSolid_string {cs t r : List Char} (h : string cs = some (t, r)) : EndsSolid t := by
  unfold string at h
  split at h
  · obtain ⟨u, hu, rfl⟩ := cons_eq_some.1 h
    exact (endsSolid_quotedRest rfl hu).append ['"']
  · obtain ⟨u, hu, rfl⟩ := cons_eq_some.1 h
    exact (endsSolid_quotedRest rfl hu).append ['\'']
  · cases h

theorem isBlank_cases {c : Char} (h : isBlank c = true) :
    c = ' ' ∨ c = '\t' ∨ c = '\x0c' ∨ c = '\r' ∨ c = '\n' := by
  simpa [isBlank, or_assoc] using h

theorem isBlank_of_class {p : Char → Bool}
    (hp : [' ', '\t', '\x0c', '\r', '\n'].any p = false) (c : Char) (h : p c = true) :
    isBlank c = false := by
  refine Bool.eq_false_iff.2 fun hb => ?_
  rcases isBlank_cases hb with rfl | rfl | rfl | rfl | rfl <;> simp [h] at hp

theorem endsSolid_scan {cs t r : List Char} {kind : ClauseTokenKind}
    (h : scan cs = some (kind, t, r)) : EndsSolid t := by
  cases cs with
  | nil => cases h
  | cons c cs =>
    rw [scan] at h
    split_ifs at h with _ _ ho hc hn hd hp
    · obtain ⟨⟨u, s⟩, hu, h⟩ := Option.map_eq_some_iff.1 h
      cases h
      exact endsSolid_template hu
    · obtain ⟨⟨u, s⟩, hu, h⟩ := Option.map_eq_some_iff.1 h
      cases h
      exact endsSolid_string hu
    · cases h
      exact ⟨[], c, rfl, isBlank_of_class (by decide) c ho⟩
    · cases h
      exact ⟨[], c, rfl, isBlank_of_class (by decide) c hc⟩
    · cases h
      exact endsSolid_takeWhile (isBlank_of_class (by decide)) (Parser.isNamePart_of_isNameStart hn) cs
    · cases h
      exact endsSolid_takeWhile (isBlank_of_class (by decide)) (by simp [isNumberPart, Char.isAlphanum, hd]) cs
    · cases h
      exact endsSolid_takeWhile (isBlank_of_class (by decide)) hp cs

theorem endsSolid_scanAll {more : Nat} {cs : List Char} {ts : List ClauseToken}
    (h : scanAll more cs = some ts) : ∀ t ∈ ts, EndsSolid t.text := by
  induction more generalizing cs ts with
  | zero =>
    rw [scanAll] at h
    split at h <;> simp_all
  | succ more ih =>
    rw [scanAll] at h
    split at h
    · cases h
      exact fun t ht => absurd ht List.not_mem_nil
    · split at h
      · cases h
      · next hs =>
        obtain ⟨us, hus, rfl⟩ := Option.map_eq_some_iff.1 h
        exact List.forall_mem_cons.2 ⟨endsSolid_scan hs, ih hus⟩

theorem endsSolid_spanned {ts : List ClauseToken} (hne : ts ≠ []) (h : ∀ t ∈ ts, EndsSolid t.text) :
    EndsSolid (spanned ts) := by
  obtain ⟨t, ts, rfl⟩ := List.exists_cons_of_ne_nil hne
  rcases List.eq_nil_or_concat ts with rfl | ⟨us, u, rfl⟩
  · simpa [spanned] using h t (by simp)
  · have hu := (h u (by simp)).append (t.text ++ us.flatMap (fun t => t.before ++ t.text) ++ u.before)
    simpa [spanned, List.append_assoc] using hu

/-! ## From tokens to clauses -/

section

variable {P : ClauseToken → Prop} {ss : List (List ClauseToken)}

theorem forall_intoFirst {t : ClauseToken} (ht : P t) (h : ∀ s ∈ ss, ∀ u ∈ s, P u) :
    ∀ s ∈ intoFirst t ss, ∀ u ∈ s, P u := by
  cases ss with
  | nil => simpa [intoFirst] using ht
  | cons s ss =>
    obtain ⟨hs, hss⟩ := List.forall_mem_cons.1 h
    exact List.forall_mem_cons.2 ⟨List.forall_mem_cons.2 ⟨ht, hs⟩, hss⟩

theorem map_eq_ok {ε α β : Type} {f : α → β} {a : Except ε α} {y : β} (h : a.map f = .ok y) :
    ∃ x, a = .ok x ∧ f x = y := by
  cases a with
  | error _ => cases h
  | ok x => exact ⟨x, rfl, Except.ok.inj h⟩

theorem forall_map_intoFirst {t : ClauseToken} {r : Except Fault (List (List ClauseToken))}
    (ht : P t) (hr : ∀ {us}, r = .ok us → ∀ s ∈ us, ∀ u ∈ s, P u)
    (h : r.map (intoFirst t) = .ok ss) : ∀ s ∈ ss, ∀ u ∈ s, P u := by
  obtain ⟨us, hus, rfl⟩ := map_eq_ok h
  exact forall_intoFirst ht (hr hus)

/-- Every token of a segment is a token of the text. -/
theorem forall_segments {raw : String} {stack : List (List Char)} {offset : Nat}
    {ts : List ClauseToken} (hts : ∀ t ∈ ts, P t) (h : segments raw stack offset ts = .ok ss) :
    ∀ s ∈ ss, ∀ u ∈ s, P u := by
  fun_induction segments raw stack offset ts generalizing ss with
  | case1 =>
    cases h
    simp
  | case2 | case4 | case6 => cases h
  | case3 | case5 | case8 =>
    rename_i ih
    obtain ⟨ht, hts⟩ := List.forall_mem_cons.1 hts
    exact forall_map_intoFirst ht (ih hts) h
  | case7 =>
    rename_i ih
    obtain ⟨us, hus, rfl⟩ := map_eq_ok h
    exact List.forall_mem_cons.2 ⟨by simp, ih (List.forall_mem_cons.1 hts).2 hus⟩

end

end ClauseToken

open ClauseToken

theorem Noted.result_bind {α β : Type} (a : Noted α) (f : α → Noted β) :
    (a >>= f).result = a.result >>= fun x => (f x).result := by
  rcases a with ⟨notices, fault | x⟩ <;> rfl

/-- The pattern of a clause is made of tokens of its segment. -/
theorem Clause.ofSegment_ok {strict : Bool} {segment : List ClauseToken} {c : Clause}
    (h : (Clause.ofSegment strict segment).result = .ok c) :
    ∃ ts, ts ≠ [] ∧ (∀ t ∈ ts, t ∈ segment) ∧ c.pattern = spannedText ts := by
  unfold Clause.ofSegment at h
  split at h
  · cases h
  · next t ts =>
    split at h
    · cases h
    · split at h
      · cases h
      · next inside rest hg =>
        obtain ⟨k, -, rfl⟩ := group_eq_some hg
        split at h
        · cases h
        · cases h
        · cases h
        · next pattern iterable hne _ hc =>
          obtain ⟨k', -, rfl⟩ := cutAt_eq_some hc
          refine ⟨pattern, hne, fun t ht => by simp [ht], ?_⟩
          simp only [Noted.result_bind] at h
          obtain ⟨⟨condition, after⟩, -, h⟩ := Chain.bind_eq_ok h
          simp only at h
          split_ifs at h
          · cases h
            rfl
          · cases h
          · cases h
            rfl

theorem Comprehension.forall_addSegments {P : Clause → Prop} {strict : Bool}
    {segments : List (List ClauseToken)} {c c' : Comprehension}
    (hs : ∀ s ∈ segments, ∀ {clause}, (Clause.ofSegment strict s).result = .ok clause → P clause)
    (hc : ∀ clause ∈ c.clauses, P clause) (h : (addSegments strict c segments).result = .ok c') :
    ∀ clause ∈ c'.clauses, P clause := by
  induction segments generalizing c with
  | nil =>
    cases h
    exact hc
  | cons s ss ih =>
    rw [addSegments, Noted.result_bind] at h
    obtain ⟨d, hd, h⟩ := Chain.bind_eq_ok h
    obtain ⟨hs, hss⟩ := List.forall_mem_cons.1 hs
    refine ih hss ?_ h
    simp only [addSegment] at hd
    split at hd
    · next clause hclause =>
      cases hd
      exact fun x hx => (List.mem_append.1 hx).elim (hc x) fun hx =>
        (List.mem_singleton.1 hx) ▸ hs hclause
    · split at hd
      · cases hd
      · cases hd
        exact hc

/-- The pattern of a parsed clause has no blank at its end. -/
theorem Comprehension.endsSolid_pattern {strict : Bool} {raw : String} {c : Comprehension}
    (h : (Comprehension.parse strict raw).result = .ok c) :
    ∀ clause ∈ c.clauses, EndsSolid clause.pattern.toList := by
  unfold Comprehension.parse at h
  split at h
  · cases h
  · next tokens htokens =>
    rw [Noted.result_bind] at h
    obtain ⟨ss, hss, h⟩ := Chain.bind_eq_ok h
    have hsolid := forall_segments (endsSolid_scanAll htokens) hss
    split at h
    · cases h
    · cases h
    · cases h
    · refine forall_addSegments (fun s hs clause hclause => ?_) (by simp) h
      obtain ⟨ts, hne, hts, hpattern⟩ := Clause.ofSegment_ok hclause
      rw [hpattern, spannedText, String.toList_ofList]
      exact endsSolid_spanned hne fun t ht => hsolid s (List.mem_cons_of_mem _ hs) t (hts t ht)

/-- A loop variable that passes its check and ends in no blank is a name. -/
theorem Variable.isName_of_validate {name : String} (h : Variable.validate name = .ok ())
    (hsolid : EndsSolid name.toList) : Parser.IsName name.toList := by
  obtain ⟨-, hline, hfree⟩ := validate_eq_ok_iff.1 h
  refine ⟨?_, ?_⟩
  · unfold isWordLine at hline
    split at hline
    · next w rest hw =>
      have happend := append_of_word hw
      rcases Bool.or_eq_true _ _ |>.mp hline with hr | hr <;> rw [beq_iff_eq] at hr <;> subst hr
      · rw [List.append_nil] at happend
        rwa [happend] at hw
      · obtain ⟨v, c, hv, hc⟩ := hsolid
        rw [hv] at happend
        obtain ⟨-, hlast⟩ := List.append_inj' happend rfl
        cases hlast
        cases hc
    · cases hline
  · have hsub : ∀ w ∈ Lexeme.reservedWords, w ∈ reservedWords := by decide
    rw [isReserved, String.ofList_toList, ← Bool.not_eq_true, List.contains_iff_mem]
    exact fun hmem => hfree (hsub name hmem)

end Comprehend
