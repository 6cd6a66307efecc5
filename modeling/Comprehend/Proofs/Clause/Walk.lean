import Comprehend.Proofs.Clause.Lexing
import Comprehend.Proofs.Clause.Bracket
import Comprehend.Proofs.Syntax.Primary

/-! # Going through a text

Brackets and quotes decide what the tokens of a text do, and where one token ends and the next one
starts does not matter to them. So a text can be gone through character by character, only literals
as a whole, with the brackets that are open kept on a stack. Going through a text in parts is going
through all of it, which is not so for its tokens: the last token of one part and the first of the
next may be one. -/

namespace Comprehend.ClauseToken

open Comprehend.Text Comprehend.Lexeme Comprehend.Parser

/-! ## Characters -/

/-- A part of a word, of a number or of punctuation. -/
def isPlain (c : Char) : Bool := isNamePart c || isPunctuation c

/-- The bracket that closes an opening one. -/
def closerOf (c : Char) : List Char := closer ⟨[], .opening, [c], []⟩

section

variable {c : Char}

theorem isOpening_cases (h : isOpening c = true) : c = '(' ∨ c = '[' ∨ c = '{' := by
  simpa [isOpening, or_assoc] using h

theorem isClosing_cases (h : isClosing c = true) : c = ')' ∨ c = ']' ∨ c = '}' := by
  simpa [isClosing, or_assoc] using h

theorem isQuote_cases (h : isQuote c = true) : c = '"' ∨ c = '\'' ∨ c = '\x60' := by
  simpa [isQuote, or_assoc] using h

theorem isPlain_of_isNamePart (h : isNamePart c = true) : isPlain c = true := by
  simp [isPlain, h]

theorem isPlain_of_isNumberPart (h : isNumberPart c = true) : isPlain c = true := by
  simp only [isNumberPart, Bool.or_eq_true, beq_iff_eq] at h
  rcases h with (h | h) | rfl
  · simp [isPlain, isNamePart, h]
  · simp [isPlain, isNamePart, h]
  · decide

theorem isPlain_of_isPunctuation (h : isPunctuation c = true) : isPlain c = true := by
  simp [isPlain, h]

/-- A plain character is no blank, quote or bracket. -/
theorem ordinary_of_isPlain (hc : isPlain c = true) :
    isBlank c = false ∧ isQuote c = false ∧ isOpening c = false ∧ isClosing c = false := by
  refine ⟨?_, ?_, ?_, ?_⟩ <;> refine Bool.eq_false_iff.2 fun h => ?_
  · rcases isBlank_cases h with rfl | rfl | rfl | rfl | rfl <;> exact absurd hc (by decide)
  · rcases isQuote_cases h with rfl | rfl | rfl <;> exact absurd hc (by decide)
  · rcases isOpening_cases h with rfl | rfl | rfl <;> exact absurd hc (by decide)
  · rcases isClosing_cases h with rfl | rfl | rfl <;> exact absurd hc (by decide)

end

/-- A string or a template at the start of a text, and what follows it. -/
def Quoted (cs t r : List Char) : Prop := template cs = some (t, r) ∨ string cs = some (t, r)

theorem Quoted.isQuote_head {c : Char} {cs t r : List Char} (h : Quoted (c :: cs) t r) :
    isQuote c = true := by
  rcases h with h | h
  · obtain ⟨u, rfl⟩ := template_eq_some h
    obtain ⟨rfl, -⟩ := List.cons.inj (append_of_template h)
    decide
  · obtain ⟨d, u, rfl, hd⟩ := string_eq_some h
    obtain ⟨rfl, -⟩ := List.cons.inj (append_of_string h)
    rcases hd with rfl | rfl <;> decide

theorem Quoted.append_eq {cs t r : List Char} (h : Quoted cs t r) : t ++ r = cs := by
  rcases h with h | h
  · exact append_of_template h
  · exact append_of_string h

theorem Quoted.ne_nil {cs t r : List Char} (h : Quoted cs t r) : t ≠ [] := by
  rcases h with h | h
  · obtain ⟨u, rfl⟩ := template_eq_some h
    exact List.cons_ne_nil _ _
  · obtain ⟨d, u, rfl, -⟩ := string_eq_some h
    exact List.cons_ne_nil _ _

theorem Quoted.append {cs t r : List Char} (h : Quoted cs t r) (u : List Char) :
    Quoted (t ++ u) t u :=
  h.imp (fun h => template_append h u) fun h => string_append h u

/-- A literal is scanned as one token. -/
theorem Quoted.scan_eq {cs t r : List Char} (h : Quoted cs t r) :
    ∃ kind, scan cs = some (kind, t, r) ∧ (kind = .template ∨ kind = .string) := by
  rcases h with h | h
  · obtain ⟨u, rfl⟩ := template_eq_some h
    obtain rfl := append_of_template h
    rw [List.cons_append] at h ⊢
    exact ⟨.template, by simp [scan, h], .inl rfl⟩
  · obtain ⟨d, u, rfl, hd⟩ := string_eq_some h
    obtain rfl := append_of_string h
    rw [List.cons_append] at h ⊢
    refine ⟨.string, ?_, .inr rfl⟩
    rcases hd with rfl | rfl <;> simp [scan, isQuote, h]

/-- Behind a blank, this is the loop keyword. -/
def StandsFor (cs : List Char) : Prop :=
  ∃ r, word cs = some ("for".toList, r) ∧ startsWith (!isBlank ·) r = false

/-! ## The walk -/

/-- A text is gone through up to some rest. `calm` forbids the loop keyword where nothing is open. -/
inductive Walk (calm : Prop) :
    List (List Char) → List Char → List (List Char) → List Char → Prop
  | done {stack : List (List Char)} {cs : List Char} : Walk calm stack cs stack cs
  | blank {stack final : List (List Char)} {c : Char} {cs r : List Char} (hc : isBlank c = true)
    (hfor : calm → stack = [] → ¬ StandsFor cs) (h : Walk calm stack cs final r) :
    Walk calm stack (c :: cs) final r
  | plain {stack final : List (List Char)} {c : Char} {cs r : List Char} (hc : isPlain c = true)
    (h : Walk calm stack cs final r) : Walk calm stack (c :: cs) final r
  | quoted {stack final : List (List Char)} {cs t u r : List Char} (ht : Quoted cs t u)
    (h : Walk calm stack u final r) : Walk calm stack cs final r
  | opening {stack final : List (List Char)} {c : Char} {cs r : List Char} (hc : isOpening c = true)
    (h : Walk calm (closerOf c :: stack) cs final r) : Walk calm stack (c :: cs) final r
  | closing {stack final : List (List Char)} {c : Char} {cs r : List Char} (hc : isClosing c = true)
    (h : Walk calm stack cs final r) : Walk calm ([c] :: stack) (c :: cs) final r

section

variable {calm : Prop} {stack middle final base : List (List Char)} {b cs r u t : List Char} {c : Char}

theorem Walk.trans (h : Walk calm stack cs middle u) (h' : Walk calm middle u final r) :
    Walk calm stack cs final r := by
  induction h with
  | done => exact h'
  | blank hc hfor _ ih => exact .blank hc hfor (ih h')
  | plain hc _ ih => exact .plain hc (ih h')
  | quoted ht _ ih => exact .quoted ht (ih h')
  | opening hc _ ih => exact .opening hc (ih h')
  | closing hc _ ih => exact .closing hc (ih h')

theorem walk_plain (hu : ∀ c ∈ u, isPlain c = true) (r : List Char) :
    Walk calm stack (u ++ r) stack r := by
  induction u with
  | nil => exact .done
  | cons c u ih =>
    obtain ⟨hc, hu⟩ := List.forall_mem_cons.1 hu
    exact .plain hc (ih hu)

theorem not_standsFor_of_ne (hc : c ≠ 'f') (cs : List Char) : ¬ StandsFor (c :: cs) := by
  rintro ⟨r, h, -⟩
  have happend := append_of_word h
  exact hc (List.cons.inj happend).1.symm

theorem not_standsFor_of_blank (hc : isBlank c = true) (cs : List Char) : ¬ StandsFor (c :: cs) := by
  refine not_standsFor_of_ne ?_ cs
  rintro rfl
  cases hc

/-- Blanks are passed over, unless the loop keyword stands behind them. -/
theorem walk_blanks (hb : ∀ c ∈ b, isBlank c = true)
    (hfor : b ≠ [] → calm → stack = [] → ¬ StandsFor r) : Walk calm stack (b ++ r) stack r := by
  induction b with
  | nil => exact .done
  | cons c b ih =>
    obtain ⟨hc, hb⟩ := List.forall_mem_cons.1 hb
    refine .blank hc (fun hcalm hstack => ?_) (ih hb fun _ => hfor (List.cons_ne_nil c b))
    cases b with
    | nil => exact hfor (List.cons_ne_nil c []) hcalm hstack
    | cons d b => exact not_standsFor_of_blank (hb d List.mem_cons_self) _

theorem walk_skipBlanks (hfor : calm → stack = [] → ¬ StandsFor (skipBlanks cs)) :
    Walk calm stack cs stack (skipBlanks cs) := by
  have hwalk : Walk calm stack (cs.takeWhile isBlank ++ skipBlanks cs) stack (skipBlanks cs) :=
    walk_blanks (fun _ hc => List.mem_takeWhile_imp hc) fun _ => hfor
  rwa [skipBlanks, List.takeWhile_append_dropWhile] at hwalk

theorem free_of_word {w : List Char} (h : word cs = some (w, r)) : Free r := by
  cases cs with
  | nil => cases h
  | cons c cs =>
    rw [word] at h
    split at h
    · cases h
      exact startsWith_dropWhile isNamePart cs
    · cases h

/-- Blanks behind a text bring no loop keyword about. -/
theorem StandsFor.of_append (hb : ∀ c ∈ b, isBlank c = true) (h : StandsFor (cs ++ b)) :
    StandsFor cs := by
  obtain ⟨v, hword, hv⟩ := h
  have hname : "for".toList.all isNamePart = true := rfl
  rcases List.append_eq_append_iff.1 (append_of_word hword) with ⟨w, hcs, rfl⟩ | ⟨w, hfor, hw⟩
  · -- the word ends inside the text
    have hend : ∀ p : Char → Bool, startsWith p (w ++ b) = false → startsWith p w = false := by
      intro p hp
      cases w with
      | nil => rfl
      | cons d w => exact hp
    have hself : word "for".toList = some ("for".toList, []) := rfl
    have hfree : Free (w ++ b) := free_of_word hword
    exact ⟨w, hcs ▸ word_append hself (hend _ hfree), hend _ hv⟩
  · cases w with
    | nil =>
      rw [List.append_nil] at hfor
      exact ⟨[], hfor ▸ rfl, rfl⟩
    | cons d w =>
      -- a character of the word would be a blank
      have hblank : isBlank d = true := hb d (by rw [hw]; exact List.mem_cons_self)
      have hpart : isNamePart d = true := List.all_eq_true.1 hname d (by rw [hfor]; simp)
      rcases isBlank_cases hblank with rfl | rfl | rfl | rfl | rfl <;> cases hpart

theorem Walk.append_blanks (h : Walk calm stack cs final r) (hb : ∀ c ∈ b, isBlank c = true) :
    Walk calm stack (cs ++ b) final (r ++ b) := by
  induction h with
  | done => exact .done
  | blank hc hfor _ ih => exact .blank hc (fun hcalm hs h => hfor hcalm hs (h.of_append hb)) ih
  | plain hc _ ih => exact .plain hc ih
  | @quoted stack final cs t u r ht _ ih =>
    have happend := ht.append (u ++ b)
    rw [← List.append_assoc, ht.append_eq] at happend
    exact .quoted happend ih
  | opening hc _ ih => exact .opening hc ih
  | closing hc _ ih => exact .closing hc ih

/-! ## From a walk to tokens -/

theorem Walk.eq_of_nil (h : Walk calm stack [] final []) : stack = final := by
  cases h with
  | done => rfl
  | quoted ht _ => rcases ht with ht | ht <;> cases ht

/-- A walk passes over plain characters one by one. -/
theorem Walk.of_plain (h : Walk calm stack (u ++ r) final []) (hu : ∀ c ∈ u, isPlain c = true) :
    Walk calm stack r final [] := by
  induction u with
  | nil => exact h
  | cons c u ih =>
    obtain ⟨hc, hu⟩ := List.forall_mem_cons.1 hu
    obtain ⟨hblank, hquote, hopening, hclosing⟩ := ordinary_of_isPlain hc
    refine ih ?_ hu
    cases h with
    | blank hb => rw [hblank] at hb; cases hb
    | plain _ h => exact h
    | quoted ht => rw [ht.isQuote_head] at hquote; cases hquote
    | opening ho => rw [hopening] at ho; cases ho
    | closing hc => rw [hclosing] at hc; cases hc

/-- A walk passes over blanks one by one. -/
theorem Walk.of_blanks (h : Walk calm stack (b ++ r) final []) (hb : ∀ c ∈ b, isBlank c = true) :
    Walk calm stack r final [] ∧ (b ≠ [] → calm → stack = [] → ¬ StandsFor r) := by
  induction b with
  | nil => exact ⟨h, fun hne => absurd rfl hne⟩
  | cons c b ih =>
    obtain ⟨hc, hb⟩ := List.forall_mem_cons.1 hb
    cases h with
    | blank _ hfor h =>
      obtain ⟨hwalk, hrest⟩ := ih h hb
      refine ⟨hwalk, fun _ => ?_⟩
      cases b with
      | nil => exact hfor
      | cons d b => exact hrest (List.cons_ne_nil d b)
    | plain hp => rw [(ordinary_of_isPlain hp).1] at hc; cases hc
    | quoted ht => rcases isQuote_cases ht.isQuote_head with rfl | rfl | rfl <;> cases hc
    | opening ho => rcases isOpening_cases ho with rfl | rfl | rfl <;> cases hc
    | closing ho => rcases isClosing_cases ho with rfl | rfl | rfl <;> cases hc

theorem isQuote_eq_false (h : isQuote c = false) : (c == '\x60') = false := by
  simp only [isQuote, Bool.or_eq_false_iff] at h
  exact h.2

theorem scan_of_word {w : List Char} (h : word cs = some (w, r)) : scan cs = some (.word, w, r) := by
  cases cs with
  | nil => cases h
  | cons c cs =>
    rw [word] at h
    split at h
    · next hn =>
      cases h
      obtain ⟨-, hq, ho, hcl⟩ :=
        ordinary_of_isPlain (isPlain_of_isNamePart (isNamePart_of_isNameStart hn))
      simp [scan, isQuote_eq_false hq, hq, ho, hcl, hn]
    · cases h

/-- A plain character starts a token of plain characters, and only a word can be a keyword. -/
theorem scan_of_isPlain (hc : isPlain c = true) (cs : List Char) :
    ∃ kind t r, scan (c :: cs) = some (kind, t, r) ∧ (∀ d ∈ t, isPlain d = true) ∧
      kind ≠ .opening ∧ kind ≠ .closing ∧ (kind = .word → word (c :: cs) = some (t, r)) := by
  obtain ⟨-, hq, ho, hcl⟩ := ordinary_of_isPlain hc
  simp only [scan, isQuote_eq_false hq, hq, ho, hcl, Bool.false_eq_true, if_false]
  split_ifs with hn hd hp
  · refine ⟨_, _, _, rfl, List.forall_mem_cons.2 ⟨hc, fun d hd => ?_⟩, by decide, by decide,
      fun _ => ?_⟩
    · exact isPlain_of_isNamePart (List.mem_takeWhile_imp hd)
    · simp [word, hn]
  · refine ⟨_, _, _, rfl, List.forall_mem_cons.2 ⟨hc, fun d hd => ?_⟩, by decide, by decide,
      fun hw => ClauseTokenKind.noConfusion hw⟩
    exact isPlain_of_isNumberPart (List.mem_takeWhile_imp hd)
  · refine ⟨_, _, _, rfl, List.forall_mem_cons.2 ⟨hc, fun d hd => ?_⟩, by decide, by decide,
      fun hw => ClauseTokenKind.noConfusion hw⟩
    exact isPlain_of_isPunctuation (List.mem_takeWhile_imp hd)
  · exfalso
    simp only [isPlain, isPunctuation, isNamePart, isNameStart, Char.isAlphanum] at *
    simp_all

theorem cutAt_other_of_none {w : String} {t : ClauseToken} {ts : List ClauseToken} {depth : Nat}
    (ho : t.kind ≠ .opening) (hc : t.kind ≠ .closing) (ht : depth = 0 → t.isKeyword w = false)
    (h : cutAt w depth ts = none) : cutAt w depth (t :: ts) = none := by
  have hcut : ¬(depth == 0 && t.isKeyword w) = true := by
    intro hcut
    obtain ⟨hdepth, hkey⟩ := Bool.and_eq_true_iff.1 hcut
    rw [ht (beq_iff_eq.1 hdepth)] at hkey
    cases hkey
  cases hk : t.kind with
  | opening => exact absurd hk ho
  | closing => exact absurd hk hc
  | _ => simp only [cutAt, hk, if_neg hcut, h, Option.map_none]

theorem scan_of_isOpening (hc : isOpening c = true) (cs : List Char) :
    scan (c :: cs) = some (.opening, [c], cs) := by
  rcases isOpening_cases hc with rfl | rfl | rfl <;> rfl

theorem scan_of_isClosing (hc : isClosing c = true) (cs : List Char) :
    scan (c :: cs) = some (.closing, [c], cs) := by
  rcases isClosing_cases hc with rfl | rfl | rfl <;> rfl

/-- A loop keyword stands behind a blank and says so. -/
theorem standsFor_of_isKeyword {kind : ClauseTokenKind} (hword : word cs = some (t, r))
    (h : isKeyword "for" ⟨b, kind, t, r.takeWhile isBlank⟩ = true) : b ≠ [] ∧ StandsFor cs := by
  have htext : t = "for".toList := text_of_isKeyword h
  simp only [isKeyword, Bool.and_eq_true, Bool.not_eq_true', List.isEmpty_eq_false_iff] at h
  refine ⟨h.1.2, r, htext ▸ hword, ?_⟩
  cases r with
  | nil => rfl
  | cons d r =>
    have hd : isBlank d = true := by
      by_contra hd
      exact h.2 (List.takeWhile_cons_of_neg hd)
    simp [startsWith, hd]

/-- A walk to the end says what the tokens do: which brackets they open and close, and, if it is
calm, that no loop keyword counts. -/
theorem Walk.exists_lexes (h : Walk calm stack cs final []) :
    ∃ ts, Lexes cs ts ∧ pending stack ts = some final ∧
      (calm → cutAt "for" stack.length ts = none) := by
  induction hn : cs.length using Nat.strong_induction_on generalizing cs stack with
  | _ n ih =>
    subst hn
    have hsplit : cs.takeWhile isBlank ++ skipBlanks cs = cs := List.takeWhile_append_dropWhile
    have hblanks : ∀ c ∈ cs.takeWhile isBlank, isBlank c = true :=
      fun _ hc => List.mem_takeWhile_imp hc
    rw [← hsplit] at h
    obtain ⟨hwalk, hfor⟩ := h.of_blanks hblanks
    have hlength : (skipBlanks cs).length ≤ cs.length := length_skipBlanks_le cs
    cases hrest : skipBlanks cs with
    | nil =>
      rw [hrest] at hwalk
      obtain rfl := hwalk.eq_of_nil
      exact ⟨[], .done hrest, rfl, fun _ => rfl⟩
    | cons c rest =>
      rw [hrest] at hwalk hfor hlength
      have hblank : isBlank c = false := by
        have hstarts := startsWith_dropWhile isBlank cs
        rwa [← skipBlanks, hrest] at hstarts
      -- one token and what follows it
      have next {kind : ClauseTokenKind} {t r : List Char} {stack' : List (List Char)}
          (hscan : scan (c :: rest) = some (kind, t, r)) (hr : Walk calm stack' r final []) :
          ∃ ts, Lexes cs (⟨cs.takeWhile isBlank, kind, t, r.takeWhile isBlank⟩ :: ts) ∧
            pending stack' ts = some final ∧ (calm → cutAt "for" stack'.length ts = none) := by
        have hshort : r.length < cs.length := by
          have happend := congrArg List.length (append_of_scan hscan)
          have hpos := List.length_pos_iff.2 (ne_nil_of_scan hscan)
          rw [List.length_append] at happend
          omega
        obtain ⟨ts, hts, hpending, hcut⟩ := ih r.length hshort hr rfl
        exact ⟨ts, .token (hrest ▸ hscan) hts, hpending, hcut⟩
      cases hwalk with
      | blank hb => rw [hb] at hblank; cases hblank
      | plain hc hwalk =>
        obtain ⟨kind, t, r, hscan, hplain, ho, hcl, hword⟩ := scan_of_isPlain hc rest
        have hr : Walk calm stack r final [] := by
          have happend := append_of_scan hscan
          refine Walk.of_plain (u := t) ?_ hplain
          rw [happend]
          exact .plain hc hwalk
        obtain ⟨ts, hts, hpending, hcut⟩ := next hscan hr
        refine ⟨_, hts, (pending_other ho hcl _ _).trans hpending, fun hcalm =>
          cutAt_other_of_none ho hcl (fun hdepth => Bool.eq_false_iff.2 fun hkey => ?_) (hcut hcalm)⟩
        obtain ⟨hb, hstands⟩ := standsFor_of_isKeyword (hword (kind_of_isKeyword hkey)) hkey
        exact hfor hb hcalm (List.length_eq_zero_iff.1 hdepth) hstands
      | quoted ht hwalk =>
        obtain ⟨kind, hscan, hkind⟩ := ht.scan_eq
        obtain ⟨ts, hts, hpending, hcut⟩ := next hscan hwalk
        have hother : kind ≠ .opening ∧ kind ≠ .closing ∧ kind ≠ .word := by
          rcases hkind with rfl | rfl <;> decide
        refine ⟨_, hts, (pending_other hother.1 hother.2.1 _ _).trans hpending, fun hcalm =>
          cutAt_other_of_none hother.1 hother.2.1 (fun _ => Bool.eq_false_iff.2 fun hkey => ?_)
            (hcut hcalm)⟩
        exact hother.2.2 (kind_of_isKeyword hkey)
      | opening ho hwalk =>
        obtain ⟨ts, hts, hpending, hcut⟩ := next (scan_of_isOpening ho rest) hwalk
        refine ⟨_, hts, ?_, fun hcalm => ?_⟩
        · simpa [pending, closerOf, closer] using hpending
        · simpa [cutAt] using hcut hcalm
      | closing hc hwalk =>
        obtain ⟨ts, hts, hpending, hcut⟩ := next (scan_of_isClosing hc rest) hwalk
        refine ⟨_, hts, ?_, fun hcalm => ?_⟩
        · simpa [pending] using hpending
        · simpa [cutAt] using hcut hcalm

/-! ## From tokens to a walk -/

/-- No blank is followed by parts of a name only. -/
def EndsMarked (cs : List Char) : Prop :=
  ∀ v d w, cs = v ++ d :: w → isBlank d = true → ∃ e ∈ w, isNamePart e = false

theorem EndsMarked.right (h : EndsMarked (u ++ cs)) : EndsMarked cs := by
  intro v d w hcs hd
  exact h (u ++ v) d w (by rw [hcs, List.append_assoc]) hd

theorem scan_cases {kind : ClauseTokenKind} (h : scan cs = some (kind, t, r)) :
    (Quoted cs t r ∧ kind ≠ .opening ∧ kind ≠ .closing) ∨
      (kind = .opening ∧ ∃ c, t = [c] ∧ isOpening c = true) ∨
      (kind = .closing ∧ ∃ c, t = [c] ∧ isClosing c = true) ∨
      ((∀ c ∈ t, isPlain c = true) ∧ kind ≠ .opening ∧ kind ≠ .closing) := by
  cases cs with
  | nil => cases h
  | cons c cs =>
    rw [scan] at h
    split_ifs at h with hb hq ho hc hn hd hp
    · obtain ⟨p, hp, h⟩ := Option.map_eq_some_iff.1 h
      cases h
      exact .inl ⟨.inl hp, by decide, by decide⟩
    · obtain ⟨p, hp, h⟩ := Option.map_eq_some_iff.1 h
      cases h
      exact .inl ⟨.inr hp, by decide, by decide⟩
    · cases h
      exact .inr (.inl ⟨rfl, c, rfl, ho⟩)
    · cases h
      exact .inr (.inr (.inl ⟨rfl, c, rfl, hc⟩))
    · cases h
      refine .inr (.inr (.inr ⟨List.forall_mem_cons.2 ⟨?_, fun d hd => ?_⟩, by decide, by decide⟩))
      · exact isPlain_of_isNamePart (isNamePart_of_isNameStart hn)
      · exact isPlain_of_isNamePart (List.mem_takeWhile_imp hd)
    · cases h
      refine .inr (.inr (.inr ⟨List.forall_mem_cons.2 ⟨?_, fun d hd => ?_⟩, by decide, by decide⟩))
      · exact isPlain_of_isNamePart (isNamePart_of_isDigit c hd)
      · exact isPlain_of_isNumberPart (List.mem_takeWhile_imp hd)
    · cases h
      refine .inr (.inr (.inr ⟨List.forall_mem_cons.2 ⟨?_, fun d hd => ?_⟩, by decide, by decide⟩))
      · exact isPlain_of_isPunctuation hp
      · exact isPlain_of_isPunctuation (List.mem_takeWhile_imp hd)

/-- What stands for a loop keyword behind a blank is a token that is one. -/
theorem isKeyword_of_standsFor {kind : ClauseTokenKind} {v : List Char}
    (hscan : scan (t ++ r) = some (kind, t, r)) (hb : b ≠ [])
    (hend : ∃ e ∈ t ++ r, isNamePart e = false) (h : StandsFor (t ++ (r ++ v))) :
    isKeyword "for" ⟨b, kind, t, r.takeWhile isBlank⟩ = true := by
  obtain ⟨s, hword, hs⟩ := h
  obtain ⟨c, t, rfl⟩ := List.exists_cons_of_ne_nil (ne_nil_of_scan hscan)
  have hc : c = 'f' := (List.cons.inj (append_of_word hword)).1.symm
  subst hc
  have hself : scan ('f' :: (t ++ r)) = some (.word, 'f' :: (t ++ r).takeWhile isNamePart,
      (t ++ r).dropWhile isNamePart) := rfl
  rw [List.cons_append, hself] at hscan
  simp only [Option.some.injEq, Prod.mk.injEq, List.cons.injEq, true_and] at hscan
  obtain ⟨rfl, ht, hr⟩ := hscan
  have hfree : startsWith isNamePart r = false := hr ▸ startsWith_dropWhile isNamePart (t ++ r)
  have hname : ∀ e ∈ 'f' :: t, isNamePart e = true := by
    refine List.forall_mem_cons.2 ⟨by decide, fun e he => ?_⟩
    rw [← ht] at he
    exact List.mem_takeWhile_imp he
  obtain ⟨d, r, rfl⟩ : ∃ d r', r = d :: r' := by
    refine List.exists_cons_of_ne_nil ?_
    rintro rfl
    obtain ⟨e, he, hpart⟩ := hend
    rw [List.append_nil] at he
    rw [hname e he] at hpart
    cases hpart
  have hself : word ('f' :: (t ++ d :: r)) = some ('f' :: t, d :: r) := by
    simp [word, isNameStart, ht, hr]
  have hagain : word ('f' :: t ++ (d :: r ++ v)) = some ('f' :: t, d :: r ++ v) :=
    word_append hself hfree
  rw [hagain] at hword
  simp only [Option.some.injEq, Prod.mk.injEq] at hword
  obtain ⟨htext, rfl⟩ := hword
  have hd : isBlank d = true := by simpa [startsWith] using hs
  simp [isKeyword, htext, hb, hd]

/-- Tokens whose brackets match and without a loop keyword that counts are a walk, wherever their
text stands. -/
theorem Lexes.walk {ts : List ClauseToken} (h : Lexes cs ts) (hend : EndsMarked cs)
    (hp : pending stack ts = some final) (hcut : calm → cutAt "for" stack.length ts = none)
    (base : List (List Char)) (v : List Char) :
    Walk calm (stack ++ base) (cs ++ v) (final ++ base) v := by
  induction h generalizing stack with
  | @done cs h =>
    have hcs : cs = [] := by
      rcases List.eq_nil_or_concat cs with hnil | ⟨u, d, rfl⟩
      · exact hnil
      · have hall : ∀ e ∈ u.concat d, isBlank e = true := List.dropWhile_eq_nil_iff.1 h
        obtain ⟨e, he, -⟩ := hend u d [] (by simp) (hall d (by simp))
        cases he
    cases hp
    rw [hcs]
    exact .done
  | @token cs t r kind ts hscan hr ih =>
    have hsplit : cs = cs.takeWhile isBlank ++ (t ++ r) := by
      rw [append_of_scan hscan, skipBlanks, List.takeWhile_append_dropWhile]
    have happend := append_of_scan hscan
    rw [← happend] at hscan
    have hrest : EndsMarked r := by
      rw [hsplit, ← List.append_assoc] at hend
      exact hend.right
    have hblanks : Walk calm (stack ++ base) (cs ++ v) (stack ++ base) (t ++ (r ++ v)) := by
      have hwalk : Walk calm (stack ++ base) (cs.takeWhile isBlank ++ (t ++ (r ++ v))) (stack ++ base)
          (t ++ (r ++ v)) := by
        refine walk_blanks (fun _ hc => List.mem_takeWhile_imp hc) fun hb hcalm hstack hfor => ?_
        have hlast : ∃ e ∈ t ++ r, isNamePart e = false := by
          refine hend (cs.takeWhile isBlank).dropLast ((cs.takeWhile isBlank).getLast hb) _ ?_
            (List.mem_takeWhile_imp (List.getLast_mem hb))
          rw [List.append_cons, List.dropLast_append_getLast, ← hsplit]
        have hkey := isKeyword_of_standsFor hscan hb hlast hfor
        have hnone := hcut hcalm
        rw [(List.append_eq_nil_iff.1 hstack).1, List.length_nil, cutAt_keyword hkey] at hnone
        cases hnone
      conv => arg 3; rw [hsplit]
      simpa using hwalk
    refine hblanks.trans ?_
    have pass (ho : kind ≠ .opening) (hc : kind ≠ .closing) :
        Walk calm (stack ++ base) (r ++ v) (final ++ base) v := by
      rw [pending_other ho hc] at hp
      exact ih hrest hp fun hcalm => (cutAt_other ho hc (hcut hcalm)).2
    rcases scan_cases hscan with ⟨hq, ho, hc⟩ | ⟨rfl, c, rfl, ho⟩ | ⟨rfl, c, rfl, hc⟩ | ⟨ht, ho, hc⟩
    · exact .quoted (hq.append (r ++ v)) (pass ho hc)
    · have hp : pending (closerOf c :: stack) ts = some final := by
        simpa [pending, closerOf, closer] using hp
      have hcut : calm → cutAt "for" (closerOf c :: stack).length ts = none := fun hcalm => by
        simpa [cutAt] using hcut hcalm
      exact .opening ho (ih hrest hp hcut)
    · cases stack with
      | nil => simp [pending] at hp
      | cons close stack =>
        simp only [pending] at hp
        split at hp
        · next heq =>
          have hcut : calm → cutAt "for" stack.length ts = none := fun hcalm => by
            simpa [cutAt] using hcut hcalm
          rw [heq]
          exact .closing hc (ih hrest hp hcut)
        · cases hp
    · exact (walk_plain ht (r ++ v)).trans (pass ho hc)

end

end Comprehend.ClauseToken
