import Comprehend.Proofs.Chain.Variable

/-! # Tokens of a slice

The tokens of a text are scanned one after another, and how long a token is depends on nothing but
the character behind it. A run of tokens that is cut out of a text is therefore scanned again as the
same run, wherever it is put, provided what follows it there goes on with no token: only the blanks
at its two ends are those of the new place. -/

namespace Comprehend.ClauseToken

open Comprehend.Text Comprehend.Lexeme

/-- A text and its tokens. -/
inductive Lexes : List Char → List ClauseToken → Prop
  | done {cs : List Char} (h : skipBlanks cs = []) : Lexes cs []
  | token {cs text r : List Char} {kind : ClauseTokenKind} {ts : List ClauseToken}
      (h : scan (skipBlanks cs) = some (kind, text, r)) (hr : Lexes r ts) :
      Lexes cs (⟨cs.takeWhile isBlank, kind, text, r.takeWhile isBlank⟩ :: ts)

/-! ## One token -/

section

variable {cs text r u : List Char} {kind : ClauseTokenKind}

theorem append_of_scan (h : scan cs = some (kind, text, r)) : text ++ r = cs := by
  cases cs with
  | nil => cases h
  | cons c cs =>
    rw [scan] at h
    split_ifs at h
    · obtain ⟨⟨t, s⟩, ht, h⟩ := Option.map_eq_some_iff.1 h
      cases h
      exact append_of_template ht
    · obtain ⟨⟨t, s⟩, ht, h⟩ := Option.map_eq_some_iff.1 h
      cases h
      exact append_of_string ht
    · cases h
      rfl
    · cases h
      rfl
    all_goals
      cases h
      rw [List.cons_append, List.takeWhile_append_dropWhile]

theorem ne_nil_of_scan (h : scan cs = some (kind, text, r)) : text ≠ [] := by
  obtain ⟨v, c, rfl, -⟩ := endsSolid_scan h
  simp

/-- The characters with which a word, a number or a run of punctuation goes on. -/
def continuations : List (Char → Bool) := [isNamePart, isNumberPart, isPunctuation]

/-- Whatever ended in front of the one text ends in front of the other. -/
def EndsLike (r u : List Char) : Prop :=
  ∀ p ∈ continuations, startsWith p r = false → startsWith p u = false

/-- A text in front of which every token ends. -/
def Breaks (u : List Char) : Prop := ∀ p ∈ continuations, startsWith p u = false

theorem Breaks.endsLike (hu : Breaks u) (r : List Char) : EndsLike r u := fun p hp _ => hu p hp

theorem endsLike_append {v : List Char} (hv : v ≠ []) (r u : List Char) :
    EndsLike (v ++ r) (v ++ u) := by
  obtain ⟨c, v, rfl⟩ := List.exists_cons_of_ne_nil hv
  exact fun _ _ h => h

theorem breaks_nil : Breaks [] := fun _ _ => rfl

theorem breaks_cons {c : Char} (hc : c = ' ' ∨ c = '(' ∨ c = ')') (cs : List Char) :
    Breaks (c :: cs) := by
  intro p hp
  simp only [continuations, List.mem_cons, List.not_mem_nil, or_false] at hp
  rcases hp with rfl | rfl | rfl <;> rcases hc with rfl | rfl | rfl <;> rfl

theorem startsWith_dropWhile (p : Char → Bool) (cs : List Char) :
    startsWith p (cs.dropWhile p) = false := by
  induction cs with
  | nil => rfl
  | cons c cs ih =>
    by_cases hc : p c = true
    · rw [List.dropWhile_cons_of_pos hc]
      exact ih
    · rw [List.dropWhile_cons_of_neg hc]
      simpa [startsWith] using hc

/-- A token is scanned again in front of every text that does not go on with it. -/
theorem scan_append (h : scan cs = some (kind, text, r)) (hu : EndsLike r u) :
    scan (text ++ u) = some (kind, text, u) := by
  cases cs with
  | nil => cases h
  | cons c cs =>
    have stops {p : Char → Bool} (hp : p ∈ continuations) (hr : r = cs.dropWhile p) :
        startsWith p u = false := hu p hp (hr ▸ startsWith_dropWhile p cs)
    rw [scan] at h
    split_ifs at h with hb hq ho hc hn hd hp
    · obtain ⟨⟨t, s⟩, ht, h⟩ := Option.map_eq_some_iff.1 h
      cases h
      obtain rfl : c = '\x60' := by simpa using hb
      obtain ⟨w, hw, rfl⟩ := cons_eq_some.1 ht
      have again := template_append ht u
      rw [List.cons_append] at again ⊢
      simp [scan, again]
    · obtain ⟨⟨t, s⟩, ht, h⟩ := Option.map_eq_some_iff.1 h
      cases h
      obtain ⟨d, w, rfl, -⟩ := string_eq_some ht
      obtain ⟨rfl, -⟩ := List.cons.inj (append_of_string ht)
      have again := string_append ht u
      rw [List.cons_append] at again ⊢
      simp [scan, hb, hq, again]
    · cases h
      simp [scan, hb, hq, ho]
    · cases h
      simp [scan, hb, hq, ho, hc]
    · cases h
      have again := takeWhile_takeWhile_append cs (stops (by simp [continuations]) rfl)
      simp [scan, hb, hq, ho, hc, hn, again.1, again.2]
    · cases h
      have again := takeWhile_takeWhile_append cs (stops (by simp [continuations]) rfl)
      simp [scan, hb, hq, ho, hc, hn, hd, again.1, again.2]
    · cases h
      have again := takeWhile_takeWhile_append cs (stops (by simp [continuations]) rfl)
      simp [scan, hb, hq, ho, hc, hn, hd, hp, again.1, again.2]

/-- A token on its own. -/
theorem scan_self (h : scan cs = some (kind, text, r)) : scan text = some (kind, text, []) := by
  have alone := scan_append h (breaks_nil.endsLike r)
  rwa [List.append_nil] at alone

end

/-! ## All tokens -/

section

variable {cs : List Char} {ts : List ClauseToken} {more : Nat}

theorem lexes_of_scanAll (h : scanAll more cs = some ts) : Lexes cs ts := by
  induction more generalizing cs ts with
  | zero =>
    rw [scanAll] at h
    split at h
    · next hs =>
      cases h
      exact .done (List.isEmpty_iff.1 hs)
    · cases h
  | succ more ih =>
    rw [scanAll] at h
    split at h
    · next hs =>
      cases h
      exact .done hs
    · split at h
      · cases h
      · next hs =>
        obtain ⟨us, hus, rfl⟩ := Option.map_eq_some_iff.1 h
        exact .token hs (ih hus)

theorem Lexes.scanAll (h : Lexes cs ts) (hl : cs.length ≤ more) : scanAll more cs = some ts := by
  induction h generalizing more with
  | @done cs h =>
    cases more with
    | zero => simp [ClauseToken.scanAll, h]
    | succ more => simp [ClauseToken.scanAll, h]
  | @token cs text r kind ts h _ ih =>
    have hcs : (text ++ r).length ≤ cs.length := by
      rw [append_of_scan h]
      exact length_skipBlanks_le cs
    have htext : 0 < text.length := List.length_pos_iff.2 (ne_nil_of_scan h)
    rw [List.length_append] at hcs
    obtain ⟨more, rfl⟩ : ∃ k, more = k + 1 := ⟨more - 1, by omega⟩
    have hne : skipBlanks cs ≠ [] := by
      intro hnil
      rw [hnil] at h
      cases h
    have hrest := ih (show r.length ≤ more by omega)
    rw [ClauseToken.scanAll]
    split
    · exact absurd ‹_› hne
    · simp [h, hrest]

theorem tokens?_eq_some : tokens? cs = some ts ↔ Lexes cs ts :=
  ⟨lexes_of_scanAll, fun h => h.scanAll (Nat.le_refl _)⟩

/-- Every token is one when it stands alone. -/
theorem Lexes.scan_text (h : Lexes cs ts) : ∀ t ∈ ts, scan t.text = some (t.kind, t.text, []) := by
  induction h with
  | done => exact fun _ h => absurd h List.not_mem_nil
  | token h _ ih => exact List.forall_mem_cons.2 ⟨scan_self h, ih⟩

end

/-! ## Runs of tokens -/

/-- Tokens that stand in a row in some text. -/
def IsRun (ts : List ClauseToken) : Prop := ∃ cs us, Lexes cs (ts ++ us)

section

variable {cs : List Char} {t u : ClauseToken} {ts us : List ClauseToken}

theorem Lexes.isRun (h : Lexes cs ts) : IsRun ts := ⟨cs, [], by rwa [List.append_nil]⟩

theorem Lexes.drop (h : Lexes cs (ts ++ us)) : ∃ r, Lexes r us := by
  induction ts generalizing cs with
  | nil => exact ⟨cs, h⟩
  | cons t ts ih =>
    cases h with
    | token _ hr => exact ih hr

theorem IsRun.left (h : IsRun (ts ++ us)) : IsRun ts := by
  obtain ⟨cs, vs, h⟩ := h
  exact ⟨cs, us ++ vs, by rwa [← List.append_assoc]⟩

theorem IsRun.right (h : IsRun (ts ++ us)) : IsRun us := by
  obtain ⟨cs, vs, h⟩ := h
  rw [List.append_assoc] at h
  obtain ⟨r, hr⟩ := h.drop
  exact ⟨r, vs, hr⟩

theorem IsRun.tail (h : IsRun (t :: ts)) : IsRun ts :=
  IsRun.right (show IsRun ([t] ++ ts) from h)

theorem IsRun.scan_text (h : IsRun ts) : ∀ t ∈ ts, scan t.text = some (t.kind, t.text, []) := by
  obtain ⟨cs, us, h⟩ := h
  exact fun t ht => h.scan_text t (List.mem_append_left us ht)

/-- Neighbours share the blanks between them. -/
theorem IsRun.after_eq (h : IsRun (ts ++ t :: u :: us)) : t.after = u.before := by
  obtain ⟨cs, vs, h⟩ := h.right
  cases h with
  | token _ hr =>
    cases hr with
    | token _ _ => rfl

end

/-- A run of tokens at another place, with other blanks in front of it and behind it. -/
def moved (before after : List Char) : List ClauseToken → List ClauseToken
  | [] => []
  | [t] => [{ t with before := before, after := after }]
  | t :: u :: ts => { t with before := before } :: moved u.before after (u :: ts)

theorem scan_of_isBlank {c : Char} (hc : isBlank c = true) (cs : List Char) :
    scan (c :: cs) = none := by
  rcases isBlank_cases hc with rfl | rfl | rfl | rfl | rfl <;> rfl

section

variable {b text u a : List Char} {kind : ClauseTokenKind} {t : ClauseToken} {ts us : List ClauseToken}

/-- Blanks in front of a token are the ones that are skipped. -/
theorem skipBlanks_append (hb : ∀ c ∈ b, isBlank c = true) (ht : scan text = some (kind, text, [])) :
    (b ++ (text ++ u)).takeWhile isBlank = b ∧ skipBlanks (b ++ (text ++ u)) = text ++ u := by
  refine takeWhile_append_of_stop hb ?_
  cases text with
  | nil => cases ht
  | cons c text =>
    show isBlank c = false
    refine Bool.eq_false_iff.2 fun hc => ?_
    rw [scan_of_isBlank hc] at ht
    cases ht

theorem lexes_token (hb : ∀ c ∈ b, isBlank c = true) (ht : scan text = some (kind, text, []))
    (hs : scan (text ++ u) = some (kind, text, u)) (hu : Lexes u us) :
    Lexes (b ++ (text ++ u)) (⟨b, kind, text, u.takeWhile isBlank⟩ :: us) := by
  obtain ⟨hbefore, hskip⟩ := skipBlanks_append (u := u) hb ht
  have hlexes : Lexes (b ++ (text ++ u)) _ := .token (by rw [hskip]; exact hs) hu
  rwa [hbefore] at hlexes

/-- A run of tokens is scanned again wherever it is put, if what follows it goes on with no token. -/
theorem IsRun.lexes (h : IsRun (t :: ts)) (hb : ∀ c ∈ b, isBlank c = true) (hu : Lexes u us)
    (hbreaks : Breaks u) :
    Lexes (b ++ (spanned (t :: ts) ++ u)) (moved b (u.takeWhile isBlank) (t :: ts) ++ us) := by
  obtain ⟨cs, vs, h⟩ := h
  induction ts generalizing t b cs with
  | nil =>
    cases h with
    | token hs _ =>
      have hself := scan_self hs
      have hagain := scan_append hs (hbreaks.endsLike _)
      simpa [spanned, moved] using lexes_token hb hself hagain hu
  | cons t' ts ih =>
    cases h with
    | @token _ text r kind _ hs hr =>
      have hself := scan_self hs
      have hrest := hr
      cases hr with
      | @token _ text' r' kind' _ hs' _ =>
        have hblanks : ∀ c ∈ r.takeWhile isBlank, isBlank c = true :=
          fun _ hc => List.mem_takeWhile_imp hc
        have htail := ih hblanks r hrest
        have hsplit : r = (r.takeWhile isBlank ++ text') ++ r' := by
          rw [List.append_assoc, append_of_scan hs']
          exact List.takeWhile_append_dropWhile.symm
        -- the old and the new place both go on with these blanks and this token
        have hlike : EndsLike r ((r.takeWhile isBlank ++ text') ++
            (ts.flatMap (fun t => t.before ++ t.text) ++ u)) := by
          conv => arg 1; rw [hsplit]
          exact endsLike_append (by simp [ne_nil_of_scan hs']) _ _
        have hagain := scan_append hs hlike
        have hwhole := lexes_token hb hself (by simpa [spanned] using hagain) htail
        rw [show spanned _ = text' ++ _ from rfl, List.append_assoc text',
          (skipBlanks_append hblanks (scan_self hs')).1] at hwhole
        simpa [spanned, moved] using hwhole

end

/-! ## What tokens say -/

/-- What a token is, wherever it stands. -/
def spelling (t : ClauseToken) : ClauseTokenKind × List Char := (t.kind, t.text)

/-- The classes and spellings of the tokens of a text. -/
def spellings? (text : String) : Option (List (ClauseTokenKind × List Char)) :=
  (tokens? text.toList).map (·.map spelling)

theorem spelling_moved (before after : List Char) (ts : List ClauseToken) :
    (moved before after ts).map spelling = ts.map spelling := by
  fun_induction moved before after ts with
  | case1 => rfl
  | case2 => rfl
  | case3 before t u ts ih => rw [List.map_cons, List.map_cons, ih, spelling, spelling]

theorem spanned_moved (before after : List Char) (ts : List ClauseToken) :
    spanned (moved before after ts) = spanned ts := by
  have inner (before : List Char) (ts : List ClauseToken) (u : ClauseToken) :
      (moved u.before after (u :: ts)).flatMap (fun t => t.before ++ t.text) =
        (u :: ts).flatMap fun t => t.before ++ t.text := by
    induction ts generalizing u with
    | nil => rfl
    | cons v ts ih =>
      rw [moved, List.flatMap_cons, ih v]
      rfl
  cases ts with
  | nil => rfl
  | cons t ts =>
    cases ts with
    | nil => rfl
    | cons u ts => rw [moved, spanned, inner before ts u, spanned]

/-- The text of a run has the tokens of the run. -/
theorem IsRun.spellings {ts : List ClauseToken} (h : IsRun ts) :
    spellings? (spannedText ts) = some (ts.map spelling) := by
  cases ts with
  | nil => rfl
  | cons t ts =>
    have hlexes := h.lexes (b := []) (fun _ hc => absurd hc List.not_mem_nil) (.done rfl) breaks_nil
    rw [List.nil_append, List.append_nil, List.append_nil, List.takeWhile_nil] at hlexes
    rw [spellings?, spannedText, String.toList_ofList, tokens?_eq_some.2 hlexes, Option.map_some,
      spelling_moved]

end Comprehend.ClauseToken
