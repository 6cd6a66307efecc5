import Comprehend.Proofs.Syntax.Drawn

/-! # Tokens in front of a closing parenthesis

No token runs into a closing parenthesis, and no mark but the parenthesis itself starts with one. So
scanning a text that a parenthesis follows finds what scanning the text on its own finds, even a
literal that is left open, as long as nothing behind the parenthesis could close it. -/

namespace Comprehend

open Comprehend.Text Comprehend.Lexeme

namespace Parser

/-- What may follow a text in parentheses: the closing one, then nothing that closes a literal or a
parenthesis. -/
def Closing (z : List Char) : Prop :=
  ∃ w, z = ')' :: w ∧ ∀ c ∈ w, c ∉ [')', '"', '\'', '\x60', '/']

/-- More text behind what is left. -/
def behind (z : List Char) (p : α × List Char) : α × List Char := (p.1, p.2 ++ z)

section

variable {cs r t z : List Char} {q : Char}

/-- A token that ends with a character that does not follow ends in the text itself. -/
theorem exists_of_last (hq : q ∉ z) (ht : ∃ v, t = v ++ [q])
    (h : t ++ r = cs ++ z) : ∃ r', cs = t ++ r' ∧ r = r' ++ z := by
  obtain ⟨v, rfl⟩ := ht
  rcases List.append_eq_append_iff.1 h with ⟨u, rfl, rfl⟩ | ⟨u, hcs, hz⟩
  · exact ⟨u, rfl, rfl⟩
  · cases List.eq_nil_or_concat u with
    | inl hnil =>
      subst hnil
      exact ⟨[], by simpa using hcs.symm, by simpa using hz.symm⟩
    | inr hlast =>
      obtain ⟨u, c, rfl⟩ := hlast
      have hc : q = c := by
        have := congrArg List.getLast? hcs
        simpa using this
      refine absurd ?_ hq
      rw [hz, hc]
      simp

/-- A scanner whose tokens end themselves, with a character that does not follow. -/
theorem scan_behind {scan : List Char → Scan} (hq : q ∉ z)
    (happ : ∀ {cs t r}, scan cs = some (t, r) → t ++ r = cs ∧ (∃ v, t = v ++ [q]) ∧
      ∀ rest, scan (t ++ rest) = some (t, rest)) (cs : List Char) :
    scan (cs ++ z) = (scan cs).map (behind z) := by
  cases hlong : scan (cs ++ z) with
  | none =>
    cases hscan : scan cs with
    | none => rfl
    | some p =>
      obtain ⟨hcs, -, hself⟩ := happ hscan
      rw [← hcs, List.append_assoc, hself] at hlong
      cases hlong
  | some p =>
    obtain ⟨hsplit, hlast, hself⟩ := happ hlong
    obtain ⟨r', rfl, hr⟩ := exists_of_last hq hlast hsplit
    rw [hself, Option.map_some, behind, ← hr]

theorem quotedRest_behind {overLines : Bool} (hq : q ∉ z) (cs : List Char) :
    quotedRest q overLines (cs ++ z) = (quotedRest q overLines cs).map (behind z) :=
  scan_behind hq (fun h => ⟨append_of_quotedRest h, exists_of_quotedRest h, quotedRest_append h⟩) cs

theorem cons_behind (c : Char) (s : Scan) :
    Lexeme.cons c (s.map (behind z)) = (Lexeme.cons c s).map (behind z) := by
  cases s <;> rfl

end

section

variable {z : List Char} (hz : Closing z)
include hz

theorem Closing.not_mem {c : Char} (hc : c ∈ ['"', '\'', '\x60', '/']) : c ∉ z := by
  obtain ⟨w, rfl, hw⟩ := hz
  intro hmem
  rcases List.mem_cons.1 hmem with rfl | hmem
  · revert hc
    decide
  · exact hw c hmem (List.mem_cons_of_mem _ hc)

theorem span_closing {p : Char → Bool} (hp : p ')' = false) (cs : List Char) :
    (cs ++ z).takeWhile p = cs.takeWhile p ∧ (cs ++ z).dropWhile p = cs.dropWhile p ++ z := by
  obtain ⟨w, rfl, -⟩ := hz
  induction cs with
  | nil => simp [hp]
  | cons c cs ih =>
    cases hc : p c with
    | true => simp [hc, ih]
    | false => simp [hc]

theorem startsWith_closing {p : Char → Bool} (hp : p ')' = false) (cs : List Char) :
    startsWith p (cs ++ z) = startsWith p cs := by
  obtain ⟨w, rfl, -⟩ := hz
  cases cs with
  | nil => exact hp
  | cons c cs => rfl

theorem startsWith_char_closing {c : Char} (hc : c ≠ ')') (cs : List Char) :
    startsWith (· == c) (cs ++ z) = startsWith (· == c) cs :=
  startsWith_closing hz (show (')' == c) = false from beq_eq_false_iff_ne.2 hc.symm) cs

theorem skipBlanks_closing (cs : List Char) : skipBlanks (cs ++ z) = skipBlanks cs ++ z :=
  (span_closing hz rfl cs).2

/-! ## Marks -/

theorem after_closing {s : String} (hs : ')' ∉ s.toList) (cs : List Char) :
    after s (cs ++ z) = (after s cs).map (· ++ z) := by
  obtain ⟨w, rfl, -⟩ := hz
  unfold after
  generalize s.toList = l at hs
  induction l generalizing cs with
  | nil => rfl
  | cons c l ih =>
    simp only [List.mem_cons, not_or] at hs
    cases cs with
    | nil =>
      have hc : (c == ')') = false := beq_eq_false_iff_ne.2 (Ne.symm hs.1)
      simp [List.isPrefixOf?, hc]
    | cons d cs =>
      rw [List.cons_append, List.isPrefixOf?, List.isPrefixOf?]
      split
      · exact ih cs hs.2
      · rfl

/-! ## Words and literals -/

theorem word_closing (cs : List Char) : word (cs ++ z) = (word cs).map (behind z) := by
  cases cs with
  | nil =>
    obtain ⟨w, rfl, -⟩ := hz
    rfl
  | cons c cs =>
    obtain ⟨htake, hdrop⟩ := span_closing hz (show isNamePart ')' = false from rfl) cs
    rw [List.cons_append, word, word, htake, hdrop]
    split <;> rfl

theorem template_closing (cs : List Char) : template (cs ++ z) = (template cs).map (behind z) := by
  have htick : '\x60' ∉ z := hz.not_mem (by decide)
  cases cs with
  | nil =>
    obtain ⟨w, rfl, -⟩ := hz
    rfl
  | cons c cs =>
    by_cases hc : c = '\x60'
    · subst hc
      rw [List.cons_append, template, template, quotedRest_behind htick, cons_behind]
    · rw [List.cons_append, template, template]
      · rfl
      all_goals simpa using hc

theorem string_closing (cs : List Char) : string (cs ++ z) = (string cs).map (behind z) := by
  have hdouble : '"' ∉ z := hz.not_mem (by decide)
  have hsingle : '\'' ∉ z := hz.not_mem (by decide)
  cases cs with
  | nil =>
    obtain ⟨w, rfl, -⟩ := hz
    rfl
  | cons c cs =>
    by_cases hc : c = '"'
    · subst hc
      rw [List.cons_append, string, string, quotedRest_behind hdouble, cons_behind]
    by_cases hc' : c = '\''
    · subst hc'
      rw [List.cons_append, string, string, quotedRest_behind hsingle, cons_behind]
    · rw [List.cons_append, string, string]
      · rfl
      all_goals simpa using by assumption

theorem regexRest_closing (inClass : Bool) (cs : List Char) :
    regexRest inClass (cs ++ z) = (regexRest inClass cs).map (behind z) :=
  scan_behind (hz.not_mem (by decide))
    (fun h => ⟨(append_of_regexRest h).1, exists_of_regexRest h, regexRest_append h⟩) cs

theorem regex_closing (cs : List Char) : regex (cs ++ z) = (regex cs).map (behind z) := by
  cases cs with
  | nil =>
    obtain ⟨w, rfl, -⟩ := hz
    rfl
  | cons d cs =>
    by_cases hd : d = '/'
    · subst hd
      cases cs with
      | nil =>
        -- a slash that the parenthesis follows opens a literal that nothing closes
        have hopen := regexRest_closing hz false []
        obtain ⟨w, rfl, -⟩ := hz
        simp only [List.nil_append] at hopen
        simp [regex, hopen, regexRest]
      | cons c cs =>
        have hrest := regexRest_closing hz false (c :: cs)
        simp only [List.cons_append] at hrest
        simp only [List.cons_append, regex, hrest]
        split
        · rfl
        · cases regexRest false (c :: cs) with
          | none => rfl
          | some p =>
            obtain ⟨htake, hdrop⟩ := span_closing hz (show isRegexFlag ')' = false by decide) p.2
            simp [behind, htake, hdrop]
    · rw [List.cons_append, regex, regex]
      · rfl
      all_goals simp [hd]

theorem exponentPart_closing (cs : List Char) :
    exponentPart (cs ++ z) = behind z (exponentPart cs) := by
  cases cs with
  | nil =>
    obtain ⟨w, rfl, -⟩ := hz
    rfl
  | cons e cs =>
    have hdigits : ∀ sign ds : List Char,
        (if startsWith Char.isDigit (ds ++ z) = true then
          (e :: sign ++ (ds ++ z).takeWhile Char.isDigit, (ds ++ z).dropWhile Char.isDigit)
        else ([], e :: (cs ++ z))) =
        behind z (if startsWith Char.isDigit ds = true then
          (e :: sign ++ ds.takeWhile Char.isDigit, ds.dropWhile Char.isDigit)
        else ([], e :: cs)) := by
      intro sign ds
      obtain ⟨htake, hdrop⟩ := span_closing hz (show Char.isDigit ')' = false by decide) ds
      rw [startsWith_closing hz (by decide), htake, hdrop]
      split <;> rfl
    unfold exponentPart
    rw [List.cons_append]
    by_cases he : (e == 'e' || e == 'E') = true
    · simp only [he, if_true]
      cases cs with
      | nil =>
        obtain ⟨w, rfl, -⟩ := hz
        exact hdigits [] []
      | cons c cs =>
        by_cases hplus : c = '+'
        · subst hplus
          exact hdigits ['+'] cs
        by_cases hminus : c = '-'
        · subst hminus
          exact hdigits ['-'] cs
        · simpa [hplus, hminus] using hdigits [] (c :: cs)
    · simp only [he]
      rfl

theorem decimal_closing (cs : List Char) : decimal (cs ++ z) = (decimal cs).map (behind z) := by
  obtain ⟨htake, hdrop⟩ := span_closing hz (show Char.isDigit ')' = false by decide) cs
  unfold decimal
  simp only [htake, hdrop]
  generalize cs.takeWhile Char.isDigit = whole
  cases cs.dropWhile Char.isDigit with
  | nil =>
    have hexp := exponentPart_closing hz []
    obtain ⟨w, rfl, -⟩ := hz
    cases whole <;> simp_all [behind]
  | cons d ds =>
    by_cases hd : d = '.'
    · subst hd
      obtain ⟨htake, hdrop⟩ := span_closing hz (show Char.isDigit ')' = false by decide) ds
      have hstart := startsWith_closing hz (show Char.isDigit ')' = false by decide) ds
      simp only [List.cons_append, hstart, htake, hdrop]
      split
      · rfl
      · simp [exponentPart_closing hz, behind]
    · have hexp := exponentPart_closing hz (d :: ds)
      simp only [List.cons_append] at hexp
      cases whole <;> simp [hd, hexp, behind]

theorem number_closing (cs : List Char) : number (cs ++ z) = (number cs).map (behind z) := by
  have hother : ∀ x cs, x ≠ '0' → number (x :: cs) = decimal (x :: cs) := by
    intro x cs hx
    rw [number]
    simp [hx]
  cases cs with
  | nil =>
    obtain ⟨w, rfl, -⟩ := hz
    rfl
  | cons d cs =>
    by_cases hd : d = '0'
    · subst hd
      cases cs with
      | nil =>
        have hzero := decimal_closing hz ['0']
        obtain ⟨w, rfl, -⟩ := hz
        exact hzero
      | cons x cs =>
        have hdecimal := decimal_closing hz ('0' :: x :: cs)
        obtain ⟨htake, hdrop⟩ := span_closing hz (show isHexDigit ')' = false by decide) cs
        simp only [List.cons_append, number] at hdecimal ⊢
        rw [startsWith_closing hz (by decide), htake, hdrop, hdecimal]
        split <;> rfl
    · rw [List.cons_append, hother d _ hd, hother d _ hd]
      exact decimal_closing hz (d :: cs)

end

/-! ## Scanners -/

/-- A scanner of marks that is not led astray by what stands behind a text. -/
structure Marks (z : List Char) (scan : List Char → Option (List Char)) : Prop where
  behind : ∀ r, scan (r ++ z) = (scan r).map (· ++ z)
  shorter : ∀ {r u}, scan r = some u → u <:+ r ∧ u.length < r.length

/-- The same of a scanner of tokens. -/
structure Scans (z : List Char) (scan : List Char → Option (α × List Char)) : Prop where
  behind : ∀ r, scan (r ++ z) = (scan r).map (behind z)
  shorter : ∀ {r p}, scan r = some p → p.2 <:+ r ∧ p.2.length < r.length

theorem shorter_of_append {cs t r : List Char} (h : t ++ r = cs) (ht : t ≠ []) :
    r <:+ cs ∧ r.length < cs.length := by
  have := List.length_pos_iff.2 ht
  refine ⟨⟨t, h⟩, ?_⟩
  rw [← h, List.length_append]
  omega

section

variable {z : List Char} {mark : List Char → Option (List Char)}
  {scan : List Char → Option (α × List Char)}

theorem Marks.filter {p : List Char → Bool} (h : Marks z mark) (hp : ∀ r, p (r ++ z) = p r) :
    Marks z fun r => (mark r).filter p where
  behind r := by
    rw [h.behind]
    cases mark r with
    | none => rfl
    | some u =>
      simp only [Option.map_some, Option.filter_some, hp]
      split <;> rfl
  shorter hu := h.shorter (Option.filter_eq_some_iff.1 hu).1

theorem Marks.bind {next : List Char → Option (List Char)} (h : Marks z mark) (hn : Marks z next) :
    Marks z fun r => (mark r).bind next where
  behind r := by
    rw [h.behind]
    cases mark r with
    | none => rfl
    | some u => exact hn.behind u
  shorter hu := by
    obtain ⟨v, hv, hu⟩ := Option.bind_eq_some_iff.1 hu
    have hv := h.shorter hv
    have hu := hn.shorter hu
    exact ⟨hu.1.trans hv.1, hu.2.trans hv.2⟩

theorem Marks.token (h : Marks z mark) (x : α) : Scans z fun r => (mark r).map (x, ·) where
  behind r := by
    rw [h.behind]
    cases mark r <;> rfl
  shorter hp := by
    obtain ⟨u, hu, rfl⟩ := Option.map_eq_some_iff.1 hp
    exact h.shorter hu

theorem Marks.andScan (h : Marks z mark) (hs : Scans z scan) :
    Scans z fun r => (mark r).bind scan where
  behind r := by
    rw [h.behind]
    cases mark r with
    | none => rfl
    | some u => exact hs.behind u
  shorter hp := by
    obtain ⟨v, hv, hp⟩ := Option.bind_eq_some_iff.1 hp
    have hv := h.shorter hv
    have hp := hs.shorter hp
    exact ⟨hp.1.trans hv.1, hp.2.trans hv.2⟩

theorem Scans.filter {p : α × List Char → Bool} (h : Scans z scan)
    (hp : ∀ x, p (Parser.behind z x) = p x) : Scans z fun r => (scan r).filter p where
  behind r := by
    rw [h.behind]
    cases scan r with
    | none => rfl
    | some x =>
      simp only [Option.map_some, Option.filter_some, hp]
      split <;> rfl
  shorter hx := h.shorter (Option.filter_eq_some_iff.1 hx).1

theorem Scans.map (h : Scans z scan) (f : α → β) :
    Scans z fun r => (scan r).map fun p => (f p.1, p.2) where
  behind r := by
    rw [h.behind]
    cases scan r <;> rfl
  shorter hp := by
    obtain ⟨x, hx, rfl⟩ := Option.map_eq_some_iff.1 hp
    exact h.shorter hx

theorem Scans.or {other : List Char → Option (α × List Char)} (h : Scans z scan)
    (ho : Scans z other) : Scans z fun r => (scan r).or (other r) where
  behind r := by
    rw [h.behind, ho.behind]
    cases scan r <;> rfl
  shorter hp := by
    rcases Option.or_eq_some_iff.1 hp with hp | ⟨-, hp⟩
    · exact h.shorter hp
    · exact ho.shorter hp

theorem Scans.findSome {spellings : List β} {scan : β → List Char → Option (α × List Char)}
    (h : ∀ s ∈ spellings, Scans z (scan s)) :
    Scans z fun r => spellings.findSome? fun s => scan s r where
  behind r := by
    induction spellings with
    | nil => rfl
    | cons s spellings ih =>
      obtain ⟨hs, hrest⟩ := List.forall_mem_cons.1 h
      rw [List.findSome?_cons, List.findSome?_cons, hs.behind]
      cases scan s r with
      | none => exact ih hrest
      | some p => rfl
  shorter hp := by
    obtain ⟨s, hs, hp⟩ := List.exists_of_findSome?_eq_some hp
    exact (h s hs).shorter hp

variable (hz : Closing z)
include hz

theorem Marks.blanks (h : Marks z mark) : Marks z fun r => mark (skipBlanks r) where
  behind r := by rw [skipBlanks_closing hz, h.behind]
  shorter {r u} hu := by
    have hskip : skipBlanks r <:+ r := List.dropWhile_suffix _
    have hu := h.shorter hu
    exact ⟨hu.1.trans hskip, hu.2.trans_le hskip.length_le⟩

theorem Scans.blanks (h : Scans z scan) : Scans z fun r => scan (skipBlanks r) where
  behind r := by rw [skipBlanks_closing hz, h.behind]
  shorter {r p} hp := by
    have hskip : skipBlanks r <:+ r := List.dropWhile_suffix _
    have hp := h.shorter hp
    exact ⟨hp.1.trans hskip, hp.2.trans_le hskip.length_le⟩

/-! ### The marks and the tokens of the grammar -/

/-- A spelling that a closing parenthesis cannot be part of. -/
abbrev IsMark (s : String) : Prop := s.toList ≠ [] ∧ ')' ∉ s.toList

theorem marks_after {s : String} (hs : IsMark s) : Marks z (after s) where
  behind := after_closing hz hs.2
  shorter h := shorter_of_append (append_of_after h).symm hs.1

theorem marks_mark {s : String} (hs : IsMark s) : Marks z (Parser.mark s) :=
  (marks_after hz hs).blanks hz

theorem marks_keyword {s : String} (hs : IsMark s) : Marks z (keyword s) :=
  (marks_after hz hs).filter fun r => by rw [startsWith_closing hz rfl]

theorem marks_optionalAt : Marks z optionalAt :=
  (marks_mark hz (by decide)).filter fun r => by rw [startsWith_closing hz (by decide)]

/-- A mark that may be left out, in front of one that may not. -/
theorem marks_spare {s t : String} (hs : IsMark s) (ht : IsMark t) :
    Marks z fun r => Parser.mark t ((Parser.mark s r).getD r) where
  behind r := by
    rw [(marks_mark hz hs).behind, ← (marks_mark hz ht).behind]
    cases Parser.mark s r <;> rfl
  shorter {r u} hu := by
    have hu := (marks_mark hz ht).shorter hu
    cases hr : Parser.mark s r with
    | none =>
      rw [hr] at hu
      exact hu
    | some v =>
      rw [hr] at hu
      have hv := (marks_mark hz hs).shorter hr
      exact ⟨hu.1.trans hv.1, hu.2.trans hv.2⟩

theorem scans_anyOf {spellings : List String} (hs : ∀ s ∈ spellings, IsMark s) :
    Scans z (anyOf spellings) :=
  .findSome fun s h => (marks_after hz (hs s h)).token s

theorem scans_keywords {spellings : List String} (hs : ∀ s ∈ spellings, IsMark s) (f : String → α) :
    Scans z fun r => spellings.findSome? fun s => (keyword s r).map (f s, ·) :=
  .findSome fun s h => (marks_keyword hz (hs s h)).token (f s)

theorem scans_word : Scans z word where
  behind := word_closing hz
  shorter {r p} h := by
    obtain ⟨c, t, hw, -⟩ := word_eq_some h
    exact shorter_of_append (append_of_word h) (by simp [hw])

theorem scans_plainName : Scans z plainName :=
  ((scans_word hz).blanks hz).filter fun _ => rfl

theorem scans_string : Scans z string where
  behind := string_closing hz
  shorter {r p} h := by
    obtain ⟨c, t, ht, -⟩ := string_eq_some h
    exact shorter_of_append (append_of_string h) (by simp [ht])

theorem scans_template : Scans z template where
  behind := template_closing hz
  shorter {r p} h := by
    refine shorter_of_append (append_of_template h) fun hnil => ?_
    have hself := template_append h []
    rw [hnil] at hself
    cases hself

theorem scans_regex : Scans z regex where
  behind := regex_closing hz
  shorter {r p} h := by
    obtain ⟨happend, v, flags, hv, -⟩ := regex_pieces h
    exact shorter_of_append happend (by simp [hv])

theorem scans_number : Scans z number where
  behind := number_closing hz
  shorter {r p} h := by
    obtain ⟨c, t, ht, -⟩ := number_eq_some h
    exact shorter_of_append (number_pieces h).1 (by simp [ht])

theorem scans_binaryAt (group : OperatorGroup) : Scans z (binaryAt group) := by
  have hbar {c : Char} (hc : c ≠ ')') (p : String × List Char) :
      (!startsWith (· == c) (behind z p).2) = !startsWith (· == c) p.2 :=
    congrArg _ (startsWith_char_closing hz hc p.2)
  refine Scans.map ?_ (Joint.binary group)
  cases group with
  | bitOr => exact (scans_anyOf hz (by decide)).filter (hbar (by decide))
  | bitAnd => exact (scans_anyOf hz (by decide)).filter (hbar (by decide))
  | relational => exact (scans_keywords hz (by decide) id).or (scans_anyOf hz (by decide))
  | bitXor => exact scans_anyOf hz (by decide)
  | equality => exact scans_anyOf hz (by decide)
  | shift => exact scans_anyOf hz (by decide)
  | additive => exact scans_anyOf hz (by decide)
  | multiplicative => exact scans_anyOf hz (by decide)

theorem scans_jointAt (level : Nat) : Scans z (jointAt level) := by
  have hlogical {op : LogicalOp} {s : String} (hs : IsMark s) :
      Scans z fun r => logicalAt op s (skipBlanks r) := ((marks_after hz hs).token _).blanks hz
  have hbinary (group : OperatorGroup) : Scans z fun r => binaryAt group (skipBlanks r) :=
    (scans_binaryAt hz group).blanks hz
  match level with
  | 0 => exact hlogical (by decide)
  | 1 => exact hlogical (by decide)
  | 2 => exact hlogical (by decide)
  | 3 => exact hbinary .bitOr
  | 4 => exact hbinary .bitXor
  | 5 => exact hbinary .bitAnd
  | 6 => exact hbinary .equality
  | 7 => exact hbinary .relational
  | 8 => exact hbinary .shift
  | 9 => exact hbinary .additive
  | 10 => exact hbinary .multiplicative
  | level + 11 => exact ⟨fun _ => rfl, nofun⟩

theorem scans_updateAt : Scans z updateAt :=
  Scans.map ((scans_anyOf hz (by decide)).blanks hz) (Token.mk .updateOp)

omit hz in
theorem unaryAt_of_unsigned {cs u : List Char} {c : Char} (hu : skipBlanks cs = c :: u)
    (hc : c ∉ ['-', '+', '!', '~']) :
    unaryAt cs = ["typeof", "void", "delete"].findSome? fun s =>
      (keyword s (c :: u)).map (Token.mk .unaryKeyword s, ·) := by
  simp only [List.mem_cons, List.not_mem_nil, or_false, not_or] at hc
  rw [unaryAt, hu]
  split
  · exact absurd (List.cons.inj ‹_›).1 hc.1
  · exact absurd (List.cons.inj ‹_›).1 hc.2.1
  · exact absurd (List.cons.inj ‹_›).1 hc.2.2.1
  · exact absurd (List.cons.inj ‹_›).1 hc.2.2.2
  · rfl

theorem scans_unaryAt : Scans z unaryAt := by
  have hwords := scans_keywords hz (show ∀ s ∈ ["typeof", "void", "delete"], IsMark s by decide)
    (Token.mk .unaryKeyword)
  refine ⟨fun r => ?_, fun {r p} h => ?_⟩
  · have hskip := skipBlanks_closing hz r
    cases hr : skipBlanks r with
    | nil =>
      rw [hr] at hskip
      have hempty := hwords.behind []
      rw [unaryAt, unaryAt, hskip, hr]
      obtain ⟨w, rfl, -⟩ := hz
      exact hempty
    | cons c u =>
      rw [hr] at hskip
      by_cases hc : c ∈ ['-', '+', '!', '~']
      · have hminus := startsWith_char_closing hz (c := '-') (by decide) u
        have hplus := startsWith_char_closing hz (c := '+') (by decide) u
        rw [unaryAt, unaryAt, hskip, hr, List.cons_append]
        fin_cases hc
        · simp only [hminus]
          split <;> rfl
        · simp only [hplus]
          split <;> rfl
        · rfl
        · rfl
      · rw [unaryAt_of_unsigned hskip hc, unaryAt_of_unsigned hr hc]
        exact hwords.behind (c :: u)
  · have hskip : skipBlanks r <:+ r := List.dropWhile_suffix _
    have hsign {c : Char} {u : List Char} (hu : skipBlanks r = c :: u) :
        u <:+ r ∧ u.length < r.length := by
      have hshort := shorter_of_append (t := [c]) hu.symm (by simp)
      exact ⟨hshort.1.trans hskip, hshort.2.trans_le hskip.length_le⟩
    unfold unaryAt at h
    split at h
    · next hu =>
      split at h
      · cases h
      · cases h
        exact hsign hu
    · next hu =>
      split at h
      · cases h
      · cases h
        exact hsign hu
    · next hu =>
      cases h
      exact hsign hu
    · next hu =>
      cases h
      exact hsign hu
    · have hp := hwords.shorter h
      exact ⟨hp.1.trans hskip, hp.2.trans_le hskip.length_le⟩

end

end Parser

end Comprehend
