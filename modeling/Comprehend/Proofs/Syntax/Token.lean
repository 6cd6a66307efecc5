import Comprehend.Syntax.Lexeme
import Mathlib.Data.List.TakeWhile

/-! # Tokens in front of other text

What a scanner took once it takes again from any text that starts with it, as long as what comes
next cannot go on with it. Literals with a closing quote go on with nothing; a word, and what may
end like one, stops in front of a character that is no part of a name. -/

namespace Comprehend.Lexeme

open Comprehend.Text

/-- Whether a name ends here. -/
def Free (cs : List Char) : Prop := startsWith isNamePart cs = false

theorem free_nil : Free [] := rfl

theorem startsWith_eq_false_of {p q : Char → Bool} (h : ∀ c, q c = true → p c = true)
    {cs : List Char} (hf : startsWith p cs = false) : startsWith q cs = false := by
  cases cs with
  | nil => rfl
  | cons c cs =>
    have hc : ¬ p c = true := by simpa [startsWith] using hf
    simpa [startsWith] using fun hq => hc (h c hq)

theorem takeWhile_append_of_stop {p : Char → Bool} {t rest : List Char} (ht : ∀ c ∈ t, p c = true)
    (hr : startsWith p rest = false) :
    (t ++ rest).takeWhile p = t ∧ (t ++ rest).dropWhile p = rest := by
  induction t with
  | nil =>
    cases rest with
    | nil => exact ⟨rfl, rfl⟩
    | cons c cs =>
      have hc : p c = false := hr
      simp [hc]
  | cons c t ih =>
    have hc : p c = true := ht c (by simp)
    have ih := ih fun d hd => ht d (by simp [hd])
    simp [hc, ih.1, ih.2]

theorem takeWhile_takeWhile_append {p : Char → Bool} (cs : List Char) {rest : List Char}
    (hr : startsWith p rest = false) :
    (cs.takeWhile p ++ rest).takeWhile p = cs.takeWhile p ∧
      (cs.takeWhile p ++ rest).dropWhile p = rest :=
  takeWhile_append_of_stop (fun _ hc => List.mem_takeWhile_imp hc) hr

/-! ## Words -/

theorem word_eq_some {cs w r : List Char} (h : word cs = some (w, r)) :
    ∃ c t, w = c :: t ∧ isNameStart c = true ∧ ∀ d ∈ t, isNamePart d = true := by
  cases cs with
  | nil => simp [word] at h
  | cons c cs =>
    simp only [word] at h
    split at h
    · cases h
      exact ⟨c, _, rfl, ‹_›, fun d hd => List.mem_takeWhile_imp hd⟩
    · cases h

theorem word_append {cs w r rest : List Char} (h : word cs = some (w, r)) (hr : Free rest) :
    word (w ++ rest) = some (w, rest) := by
  obtain ⟨c, t, rfl, hc, ht⟩ := word_eq_some h
  have := takeWhile_append_of_stop ht hr
  simp [word, hc, this.1, this.2]

theorem word_self {cs w r : List Char} (h : word cs = some (w, r)) : word w = some (w, []) := by
  simpa using word_append h free_nil

/-! ## Quoted literals -/

theorem quotedRest_ne_nil {quote : Char} {overLines : Bool} {cs r : List Char} :
    quotedRest quote overLines cs ≠ some ([], r) := by
  intro h
  have happ := append_of_quotedRest h
  fun_cases quotedRest quote overLines cs <;> simp_all [quotedRest, cons]

theorem quotedRest_append {quote : Char} {overLines : Bool} {cs t r : List Char}
    (h : quotedRest quote overLines cs = some (t, r)) (rest : List Char) :
    quotedRest quote overLines (t ++ rest) = some (t, rest) := by
  fun_induction quotedRest quote overLines cs generalizing t r with
  | case1 => cases h
  | case2 =>
    cases h
    cases rest <;> simp [quotedRest]
  | case3 => cases h
  | case4 =>
    cases h
    cases rest <;> simp [quotedRest]
  | case5 => cases h
  | case6 => cases h
  | case7 d cs hq hn hd ih =>
    obtain ⟨t₁, h₁, rfl⟩ := cons_eq_some.1 h
    obtain ⟨t₂, h₂, rfl⟩ := cons_eq_some.1 h₁
    simp_all [quotedRest, cons]
  | case8 c d cs hq hn hb ih =>
    obtain ⟨t₁, h₁, rfl⟩ := cons_eq_some.1 h
    have happ := append_of_quotedRest h₁
    cases t₁ with
    | nil => exact absurd h₁ quotedRest_ne_nil
    | cons e t₂ =>
      have ih := ih h₁
      simp_all [quotedRest, cons]

/-- A quoted literal ends with its quote. -/
theorem exists_of_quotedRest {quote : Char} {overLines : Bool} {cs t r : List Char}
    (h : quotedRest quote overLines cs = some (t, r)) : ∃ v, t = v ++ [quote] := by
  fun_induction quotedRest quote overLines cs generalizing t r with
  | case1 => cases h
  | case2 =>
    cases h
    exact ⟨[], rfl⟩
  | case3 => cases h
  | case4 =>
    cases h
    exact ⟨[], rfl⟩
  | case5 => cases h
  | case6 => cases h
  | case7 d cs _ _ _ ih =>
    obtain ⟨u, hu, rfl⟩ := cons_eq_some.1 h
    obtain ⟨v, hv, rfl⟩ := cons_eq_some.1 hu
    obtain ⟨w, rfl⟩ := ih hv
    exact ⟨'\\' :: d :: w, rfl⟩
  | case8 c d cs _ _ _ ih =>
    obtain ⟨u, hu, rfl⟩ := cons_eq_some.1 h
    obtain ⟨w, rfl⟩ := ih hu
    exact ⟨c :: w, rfl⟩

theorem append_of_template {cs t r : List Char} (h : template cs = some (t, r)) : t ++ r = cs := by
  unfold template at h
  split at h
  · obtain ⟨t', h', rfl⟩ := cons_eq_some.1 h
    rw [List.cons_append, append_of_quotedRest h']
  · cases h

theorem append_of_string {cs t r : List Char} (h : string cs = some (t, r)) : t ++ r = cs := by
  unfold string at h
  split at h
  · obtain ⟨t', h', rfl⟩ := cons_eq_some.1 h
    rw [List.cons_append, append_of_quotedRest h']
  · obtain ⟨t', h', rfl⟩ := cons_eq_some.1 h
    rw [List.cons_append, append_of_quotedRest h']
  · cases h

theorem string_eq_some {cs t r : List Char} (h : string cs = some (t, r)) :
    ∃ c t', t = c :: t' ∧ (c = '"' ∨ c = '\'') := by
  unfold string at h
  split at h
  · obtain ⟨t', -, rfl⟩ := cons_eq_some.1 h
    exact ⟨_, t', rfl, .inl rfl⟩
  · obtain ⟨t', -, rfl⟩ := cons_eq_some.1 h
    exact ⟨_, t', rfl, .inr rfl⟩
  · cases h

/-- No literal starts like a word. -/
theorem string_of_word {cs w r : List Char} (h : word cs = some (w, r)) : string cs = none := by
  cases hs : string cs with
  | none => rfl
  | some p =>
    obtain ⟨t, r'⟩ := p
    obtain ⟨c, t', rfl, hc⟩ := string_eq_some hs
    obtain ⟨d, w', rfl, hd, -⟩ := word_eq_some h
    have happ := (append_of_string hs).trans (append_of_word h).symm
    obtain ⟨rfl, -⟩ := List.cons.inj happ
    rcases hc with rfl | rfl <;> cases hd

theorem string_append {cs t r : List Char} (h : string cs = some (t, r)) (rest : List Char) :
    string (t ++ rest) = some (t, rest) := by
  unfold string at h
  split at h
  · obtain ⟨t', h', rfl⟩ := cons_eq_some.1 h
    simp [string, quotedRest_append h', cons]
  · obtain ⟨t', h', rfl⟩ := cons_eq_some.1 h
    simp [string, quotedRest_append h', cons]
  · cases h

theorem template_append {cs t r : List Char} (h : template cs = some (t, r)) (rest : List Char) :
    template (t ++ rest) = some (t, rest) := by
  unfold template at h
  split at h
  · obtain ⟨t', h', rfl⟩ := cons_eq_some.1 h
    simp [template, quotedRest_append h', cons]
  · cases h

/-! ## Regular expressions -/

theorem append_of_regexRest {inClass : Bool} {cs t r : List Char}
    (h : regexRest inClass cs = some (t, r)) : t ++ r = cs ∧ t ≠ [] := by
  fun_induction regexRest inClass cs generalizing t r <;> simp_all [cons_eq_some] <;> grind

theorem regexRest_append {inClass : Bool} {cs t r : List Char}
    (h : regexRest inClass cs = some (t, r)) (rest : List Char) :
    regexRest inClass (t ++ rest) = some (t, rest) := by
  fun_induction regexRest inClass cs generalizing t r with
  | case1 => cases h
  | case2 =>
    cases h
    cases rest <;> simp_all [regexRest]
  | case3 => cases h
  | case4 => cases h
  | case5 => cases h
  | case6 inClass d cs hn hd ih =>
    obtain ⟨t₁, h₁, rfl⟩ := cons_eq_some.1 h
    obtain ⟨t₂, h₂, rfl⟩ := cons_eq_some.1 h₁
    simp_all [regexRest, cons]
  | case7 c d cs hn hb ih =>
    obtain ⟨t₁, h₁, rfl⟩ := cons_eq_some.1 h
    cases t₁ with
    | nil => exact absurd rfl (append_of_regexRest h₁).2
    | cons e t₂ =>
      have ih := ih h₁
      simp_all [regexRest, cons]
  | case8 =>
    cases h
    cases rest <;> simp_all [regexRest]
  | case9 inClass c d cs hn hb hc hs ih =>
    obtain ⟨t₁, h₁, rfl⟩ := cons_eq_some.1 h
    cases t₁ with
    | nil => exact absurd rfl (append_of_regexRest h₁).2
    | cons e t₂ =>
      have ih := ih h₁
      simp_all [regexRest, cons]

/-- A regular expression has a slash before its flags. -/
theorem exists_of_regexRest {inClass : Bool} {cs t r : List Char}
    (h : regexRest inClass cs = some (t, r)) : ∃ v, t = v ++ ['/'] := by
  fun_induction regexRest inClass cs generalizing t r with
  | case1 => cases h
  | case2 inClass c hc =>
    cases h
    simp only [Bool.and_eq_true, decide_eq_true_eq] at hc
    exact ⟨[], by rw [hc.1, List.nil_append]⟩
  | case3 => cases h
  | case4 => cases h
  | case5 => cases h
  | case6 inClass d cs _ _ ih =>
    obtain ⟨u, hu, rfl⟩ := cons_eq_some.1 h
    obtain ⟨v, hv, rfl⟩ := cons_eq_some.1 hu
    obtain ⟨w, rfl⟩ := ih hv
    exact ⟨'\\' :: d :: w, rfl⟩
  | case7 c d cs _ _ ih =>
    obtain ⟨u, hu, rfl⟩ := cons_eq_some.1 h
    obtain ⟨w, rfl⟩ := ih hu
    exact ⟨c :: w, rfl⟩
  | case8 =>
    cases h
    exact ⟨[], rfl⟩
  | case9 inClass c d cs _ _ _ _ ih =>
    obtain ⟨u, hu, rfl⟩ := cons_eq_some.1 h
    obtain ⟨w, rfl⟩ := ih hu
    exact ⟨c :: w, rfl⟩

theorem isNamePart_of_isRegexFlag (c : Char) (h : isRegexFlag c = true) : isNamePart c = true := by
  have : c ∈ "dgimsuvy".toList := by simpa [isRegexFlag] using h
  simp only [String.reduceToList, List.mem_cons, List.not_mem_nil, or_false] at this
  rcases this with rfl | rfl | rfl | rfl | rfl | rfl | rfl | rfl <;> rfl

theorem regex_append {cs t r rest : List Char} (h : regex cs = some (t, r)) (hr : Free rest) :
    regex (t ++ rest) = some (t, rest) := by
  unfold regex at h
  split at h
  · next c cs =>
    split at h
    · cases h
    · next hc =>
      obtain ⟨⟨u, s⟩, hu, h⟩ := Option.map_eq_some_iff.1 h
      cases h
      obtain ⟨happ, hne⟩ := append_of_regexRest hu
      obtain ⟨d, v, rfl⟩ := List.exists_cons_of_ne_nil hne
      obtain ⟨rfl, -⟩ := List.cons.inj happ
      have hflag := startsWith_eq_false_of isNamePart_of_isRegexFlag hr
      have flags := takeWhile_takeWhile_append s hflag
      have hu := regexRest_append hu (s.takeWhile isRegexFlag ++ rest)
      simp only [List.cons_append, List.append_assoc] at hu ⊢
      simp [regex, hc, hu, flags.1, flags.2]
  · cases h

/-! ## Characters by their codes -/

theorem isAlpha_iff_toNat {c : Char} :
    c.isAlpha = true ↔ 65 ≤ c.toNat ∧ c.toNat ≤ 90 ∨ 97 ≤ c.toNat ∧ c.toNat ≤ 122 := by
  have h : c.isAlpha = (decide (65 ≤ c.toNat ∧ c.toNat ≤ 90) ||
      (decide (97 ≤ c.toNat) && decide (c.toNat ≤ 122))) := rfl
  rw [h, Bool.or_eq_true, Bool.and_eq_true, decide_eq_true_eq, decide_eq_true_eq, decide_eq_true_eq]

theorem isNamePart_iff_toNat {c : Char} : isNamePart c = true ↔
    (65 ≤ c.toNat ∧ c.toNat ≤ 90 ∨ 97 ≤ c.toNat ∧ c.toNat ≤ 122) ∨
      (48 ≤ c.toNat ∧ c.toNat ≤ 57) ∨ c = '_' ∨ c = '$' := by
  rw [isNamePart, Bool.or_eq_true, Bool.or_eq_true, Char.isAlphanum, Bool.or_eq_true,
    isAlpha_iff_toNat, Char.isDigit_iff_toNat, beq_iff_eq, beq_iff_eq, or_assoc, or_assoc]
  rfl

/-! ## Numbers -/

theorem isNamePart_of_isDigit (c : Char) (h : c.isDigit = true) : isNamePart c = true := by
  simp [isNamePart, Char.isAlphanum, h]

theorem isNamePart_of_isHexDigit (c : Char) (h : isHexDigit c = true) : isNamePart c = true := by
  simp only [isHexDigit, Bool.or_eq_true, Bool.and_eq_true, decide_eq_true_eq] at h
  rcases h with (h | h) | h
  · exact isNamePart_of_isDigit c h
  · have h : 97 ≤ c.toNat ∧ c.toNat ≤ 102 := h
    exact isNamePart_iff_toNat.2 (.inl (by omega))
  · have h : 65 ≤ c.toNat ∧ c.toNat ≤ 70 := h
    exact isNamePart_iff_toNat.2 (.inl (by omega))

/-- A character that the digits of a numeral, a prefix or an exponent can start with. -/
def isNumberPart (c : Char) : Bool := isHexDigit c || c == 'x' || c == 'X'

theorem isNumberPart_of_isHexDigit (c : Char) (h : isHexDigit c = true) : isNumberPart c = true := by
  simp [isNumberPart, h]

theorem isNumberPart_of_isDigit (c : Char) (h : c.isDigit = true) : isNumberPart c = true :=
  isNumberPart_of_isHexDigit c (by simp [isHexDigit, h])

theorem isNamePart_of_isNumberPart (c : Char) (h : isNumberPart c = true) : isNamePart c = true := by
  simp only [isNumberPart, Bool.or_eq_true, beq_iff_eq] at h
  rcases h with (h | rfl) | rfl
  · exact isNamePart_of_isHexDigit c h
  · rfl
  · rfl

/-- How an exponent starts. -/
def IsExponent (e : List Char) : Prop := ∃ t, e = 'e' :: t ∨ e = 'E' :: t

theorem exponentPart_of_stop {rest : List Char} (hr : startsWith isNumberPart rest = false) :
    exponentPart rest = ([], rest) := by
  cases rest with
  | nil => rfl
  | cons c cs =>
    have hc : (c == 'e' || c == 'E') = false := by
      by_contra hne
      simp only [Bool.not_eq_false, Bool.or_eq_true, beq_iff_eq] at hne
      rcases hne with rfl | rfl <;> cases hr
    simp [exponentPart, hc]

theorem digits_append {ds rest : List Char} (hd : startsWith Char.isDigit ds = true)
    (hr : startsWith isNumberPart rest = false) :
    startsWith Char.isDigit (ds.takeWhile Char.isDigit ++ rest) = true ∧
      (ds.takeWhile Char.isDigit ++ rest).takeWhile Char.isDigit = ds.takeWhile Char.isDigit ∧
      (ds.takeWhile Char.isDigit ++ rest).dropWhile Char.isDigit = rest := by
  refine ⟨?_, takeWhile_takeWhile_append _ (startsWith_eq_false_of isNumberPart_of_isDigit hr)⟩
  cases ds with
  | nil => cases hd
  | cons d ds =>
    have hd : d.isDigit = true := hd
    simp [startsWith, hd]

theorem exponentPart_digits {c : Char} (hc : (c == 'e' || c == 'E') = true) {sign ds : List Char}
    (hs : sign = [] ∨ sign = ['+'] ∨ sign = ['-']) (hd : startsWith Char.isDigit ds = true) :
    exponentPart (c :: (sign ++ ds)) =
      (c :: sign ++ ds.takeWhile Char.isDigit, ds.dropWhile Char.isDigit) := by
  rcases hs with rfl | rfl | rfl
  · simp only [List.nil_append, exponentPart, hc, if_true]
    split
    · cases hd
    · cases hd
    · simp [hd]
  · simp [exponentPart, hc, hd]
  · simp [exponentPart, hc, hd]

/-- An exponent is none, or a letter, perhaps a sign, and digits. -/
theorem exponentPart_cases (cs : List Char) :
    exponentPart cs = ([], cs) ∨ ∃ c sign ds, cs = c :: (sign ++ ds) ∧
      (c == 'e' || c == 'E') = true ∧ (sign = [] ∨ sign = ['+'] ∨ sign = ['-']) ∧
      startsWith Char.isDigit ds = true := by
  cases cs with
  | nil => exact .inl rfl
  | cons c cs =>
    by_cases hc : (c == 'e' || c == 'E') = true
    · by_cases hd : startsWith Char.isDigit cs = true
      · exact .inr ⟨c, [], cs, rfl, hc, .inl rfl, hd⟩
      · simp only [exponentPart, hc, if_true]
        split
        · next ds =>
          by_cases hds : startsWith Char.isDigit ds = true
          · exact .inr ⟨c, ['+'], ds, rfl, hc, .inr (.inl rfl), hds⟩
          · simp [hds]
        · next ds =>
          by_cases hds : startsWith Char.isDigit ds = true
          · exact .inr ⟨c, ['-'], ds, rfl, hc, .inr (.inr rfl), hds⟩
          · simp [hds]
        · simp [hd]
    · simp [exponentPart, hc]

theorem exponentPart_append_self (cs : List Char) :
    (exponentPart cs).1 ++ (exponentPart cs).2 = cs := by
  rcases exponentPart_cases cs with hnone | ⟨c, sign, ds, rfl, hc, hs, hd⟩
  · rw [hnone, List.nil_append]
  · rw [exponentPart_digits hc hs hd]
    simp

theorem exponentPart_append (cs : List Char) {rest : List Char}
    (hr : startsWith isNumberPart rest = false) :
    ((exponentPart cs).1 = [] ∨ IsExponent (exponentPart cs).1) ∧
      exponentPart ((exponentPart cs).1 ++ rest) = ((exponentPart cs).1, rest) := by
  rcases exponentPart_cases cs with hnone | ⟨c, sign, ds, rfl, hc, hs, hd⟩
  · rw [hnone]
    exact ⟨.inl rfl, exponentPart_of_stop hr⟩
  · rw [exponentPart_digits hc hs hd]
    obtain ⟨hstart, htake, hdrop⟩ := digits_append hd hr
    refine ⟨.inr ⟨sign ++ ds.takeWhile Char.isDigit, ?_⟩, ?_⟩
    · simpa using hc
    · simp only [List.cons_append, List.append_assoc]
      rw [exponentPart_digits hc hs hstart, htake, hdrop]
      rfl

theorem startsWith_exponent {p : Char → Bool} (he : p 'e' = false) (hE : p 'E' = false)
    {e rest : List Char} (h : e = [] ∨ IsExponent e) (hr : e = [] → startsWith p rest = false) :
    startsWith p (e ++ rest) = false := by
  rcases h with rfl | ⟨t, rfl | rfl⟩
  · exact hr rfl
  · exact he
  · exact hE

theorem decimal_point {whole ds : List Char} (hw : ∀ c ∈ whole, c.isDigit = true)
    (hd : whole ≠ [] ∨ startsWith Char.isDigit ds = true) :
    decimal (whole ++ '.' :: ds) =
      some (whole ++ '.' :: (ds.takeWhile Char.isDigit ++
        (exponentPart (ds.dropWhile Char.isDigit)).1), (exponentPart (ds.dropWhile Char.isDigit)).2) := by
  have hstop : startsWith Char.isDigit ('.' :: ds) = false := rfl
  have split := takeWhile_append_of_stop hw hstop
  have hcond : (whole.isEmpty && !startsWith Char.isDigit ds) = false := by
    rcases hd with hd | hd
    · simp [hd]
    · simp [hd]
  simp [decimal, split.1, split.2, hcond]

theorem decimal_whole {whole rest : List Char} (hw : ∀ c ∈ whole, c.isDigit = true)
    (hne : whole ≠ []) (hr : startsWith Char.isDigit rest = false)
    (hdot : startsWith (· == '.') rest = false) :
    decimal (whole ++ rest) =
      some (whole ++ (exponentPart rest).1, (exponentPart rest).2) := by
  have split := takeWhile_append_of_stop hw hr
  simp only [decimal, split.1, split.2]
  split
  · cases hdot
  · simp [hne]

/-- A decimal numeral has digits, a point with digits on one side at least, and an exponent. -/
theorem decimal_cases {cs t r : List Char} (h : decimal cs = some (t, r)) :
    ∃ whole, (∀ c ∈ whole, c.isDigit = true) ∧
      ((∃ ds, cs = whole ++ '.' :: ds ∧ (whole ≠ [] ∨ startsWith Char.isDigit ds = true)) ∨
        ∃ rest, cs = whole ++ rest ∧ whole ≠ [] ∧ startsWith Char.isDigit rest = false ∧
          startsWith (· == '.') rest = false) := by
  refine ⟨cs.takeWhile Char.isDigit, fun c hc => List.mem_takeWhile_imp hc, ?_⟩
  have hcs := (List.takeWhile_append_dropWhile (p := Char.isDigit) (l := cs)).symm
  have hstop : startsWith Char.isDigit (cs.dropWhile Char.isDigit) = false := by
    cases hrest : cs.dropWhile Char.isDigit with
    | nil => rfl
    | cons c rest =>
      have := List.head_dropWhile_not (p := Char.isDigit) (l := cs) (by simp [hrest])
      simpa [startsWith, hrest] using this
  generalize hwhole : cs.takeWhile Char.isDigit = whole at *
  generalize hrest : cs.dropWhile Char.isDigit = rest at *
  simp only [decimal, hwhole, hrest] at h
  split at h
  · next ds =>
    left
    refine ⟨ds, hcs, ?_⟩
    split at h
    · cases h
    · next hc => simpa [or_iff_not_imp_left] using hc
  · next hdot =>
    right
    refine ⟨rest, hcs, ?_, hstop, ?_⟩
    · split at h
      · cases h
      · next hc => simpa using hc
    · cases rest with
      | nil => rfl
      | cons c rest =>
        have : c ≠ '.' := fun hc => hdot rest (by rw [hc])
        simpa [startsWith] using this

theorem decimal_append {cs t r rest : List Char} (h : decimal cs = some (t, r))
    (hr : startsWith isNumberPart rest = false)
    (hdot : startsWith (· == '.') rest = true → startsWith (· == '.') r = true) :
    decimal (t ++ rest) = some (t, rest) := by
  have hdigit := startsWith_eq_false_of isNumberPart_of_isDigit hr
  obtain ⟨whole, hw, ⟨ds, rfl, hd⟩ | ⟨rest', rfl, hne, hr', hdot'⟩⟩ := decimal_cases h
  · rw [decimal_point hw hd] at h
    cases h
    obtain ⟨he, hexp⟩ := exponentPart_append (ds.dropWhile Char.isDigit) hr
    have split := takeWhile_takeWhile_append (p := Char.isDigit) ds
      (startsWith_exponent rfl rfl he fun _ => hdigit)
    have hd' : whole ≠ [] ∨ startsWith Char.isDigit (ds.takeWhile Char.isDigit ++
        ((exponentPart (ds.dropWhile Char.isDigit)).1 ++ rest)) = true := by
      refine hd.imp_right fun hd => ?_
      cases ds with
      | nil => cases hd
      | cons d ds =>
        have hd : d.isDigit = true := hd
        simp [startsWith, hd]
    have key := decimal_point hw hd'
    rw [split.1, split.2, hexp] at key
    simpa using key
  · rw [decimal_whole hw hne hr' hdot'] at h
    cases h
    obtain ⟨he, hexp⟩ := exponentPart_append rest' hr
    -- without an exponent the rest is what stands behind the digits, which is no point
    have hpoint : (exponentPart rest').1 = [] → startsWith (· == '.') rest = false := by
      intro hnone
      have hrest := (exponentPart_append_self rest').symm
      rw [hnone, List.nil_append] at hrest
      rw [← hrest, hdot'] at hdot
      simpa using hdot
    have key := decimal_whole hw hne (startsWith_exponent rfl rfl he fun _ => hdigit)
      (startsWith_exponent rfl rfl he hpoint)
    rw [hexp] at key
    simpa using key

theorem number_of_decimal {t rest : List Char} (h : decimal (t ++ rest) = some (t, rest))
    (hr : startsWith isNumberPart rest = false) : number (t ++ rest) = some (t, rest) := by
  unfold number
  split
  · next x cs heq =>
    split
    · next hx =>
      -- a hexadecimal prefix is no decimal numeral longer than its zero
      simp only [Bool.and_eq_true, Bool.or_eq_true, beq_iff_eq] at hx
      have hzero : decimal ('0' :: x :: cs) = some (['0'], x :: cs) := by
        rcases hx.1 with rfl | rfl <;> rfl
      rw [heq, hzero] at h
      simp only [Option.some.injEq, Prod.mk.injEq] at h
      obtain ⟨-, rfl⟩ := h
      rcases hx.1 with rfl | rfl <;> cases hr
    · rw [← heq, h]
  · exact h

/-- A numeral is read again in front of whatever does not go on with it. A point behind it is no part
of it if there was one before. -/
theorem number_append {cs t r rest : List Char} (h : number cs = some (t, r))
    (hr : startsWith isNumberPart rest = false)
    (hdot : startsWith (· == '.') rest = true → startsWith (· == '.') r = true) :
    number (t ++ rest) = some (t, rest) := by
  unfold number at h
  split at h
  · next x cs =>
    split at h
    · next hx =>
      cases h
      have split := takeWhile_takeWhile_append cs
        (startsWith_eq_false_of isNumberPart_of_isHexDigit hr)
      have hstart : startsWith isHexDigit (cs.takeWhile isHexDigit ++ rest) = true := by
        cases cs with
        | nil => simp [startsWith] at hx
        | cons d ds =>
          have hd : isHexDigit d = true := (Bool.and_eq_true_iff.1 hx).2
          simp [startsWith, hd]
      have hx : ((x == 'x' || x == 'X') && startsWith isHexDigit (cs.takeWhile isHexDigit ++ rest)) =
          true := by rw [hstart, Bool.and_true, (Bool.and_eq_true_iff.1 hx).1]
      simp only [List.cons_append, number, hx, if_true, split.1, split.2]
    · exact number_of_decimal (decimal_append h hr hdot) hr
  · exact number_of_decimal (decimal_append h hr hdot) hr

/-- A numeral starts with a digit or a point. -/
theorem number_eq_some {cs t r : List Char} (h : number cs = some (t, r)) :
    ∃ c t', t = c :: t' ∧ (c.isDigit = true ∨ c = '.') := by
  have hdecimal {cs t r : List Char} (h : decimal cs = some (t, r)) :
      ∃ c t', t = c :: t' ∧ (c.isDigit = true ∨ c = '.') := by
    obtain ⟨whole, hw, ⟨ds, rfl, hd⟩ | ⟨rest', rfl, hne, hr', hdot'⟩⟩ := decimal_cases h
    · rw [decimal_point hw hd] at h
      cases h
      cases whole with
      | nil => exact ⟨'.', _, rfl, .inr rfl⟩
      | cons c whole => exact ⟨c, _, rfl, .inl (hw c (by simp))⟩
    · rw [decimal_whole hw hne hr' hdot'] at h
      cases h
      obtain ⟨c, whole, rfl⟩ := List.exists_cons_of_ne_nil hne
      exact ⟨c, _, rfl, .inl (hw c (by simp))⟩
  unfold number at h
  split at h
  · split at h
    · cases h
      exact ⟨'0', _, rfl, .inl rfl⟩
    · exact hdecimal h
  · exact hdecimal h

/-! ## What tokens are made of -/

/-- A character that a numeral may have. -/
def isNumeral (c : Char) : Bool := isNumberPart c || c == '.' || c == '+' || c == '-'

theorem isNumeral_of_isNumberPart {c : Char} (h : isNumberPart c = true) : isNumeral c = true := by
  simp [isNumeral, h]

theorem isNumeral_of_mem_exponentPart {cs : List Char} :
    ∀ c ∈ (exponentPart cs).1, isNumeral c = true := by
  rcases exponentPart_cases cs with hnone | ⟨e, sign, ds, rfl, he, hsign, hd⟩
  · rw [hnone]
    exact nofun
  · rw [exponentPart_digits he hsign hd]
    intro c hc
    simp only [List.cons_append, List.mem_cons, List.mem_append] at hc
    rcases hc with rfl | hc | hc
    · rcases Bool.or_eq_true _ _ |>.mp he with he | he <;> rw [beq_iff_eq.1 he] <;> decide
    · rcases hsign with rfl | rfl | rfl
      · cases hc
      · rw [List.mem_singleton.1 hc]
        decide
      · rw [List.mem_singleton.1 hc]
        decide
    · exact isNumeral_of_isNumberPart (isNumberPart_of_isDigit c (List.mem_takeWhile_imp hc))

theorem decimal_pieces {cs t r : List Char} (h : decimal cs = some (t, r)) :
    t ++ r = cs ∧ ∀ c ∈ t, isNumeral c = true := by
  have hdigit {c : Char} (hc : c.isDigit = true) : isNumeral c = true :=
    isNumeral_of_isNumberPart (isNumberPart_of_isDigit c hc)
  obtain ⟨whole, hw, ⟨ds, rfl, hd⟩ | ⟨rest, rfl, hne, hr, hdot⟩⟩ := decimal_cases h
  · rw [decimal_point hw hd] at h
    cases h
    have happend := exponentPart_append_self (ds.dropWhile Char.isDigit)
    refine ⟨?_, fun c hc => ?_⟩
    · simp only [List.append_assoc, List.cons_append, happend, List.takeWhile_append_dropWhile]
    · simp only [List.mem_append, List.mem_cons] at hc
      rcases hc with hc | rfl | hc | hc
      · exact hdigit (hw c hc)
      · decide
      · exact hdigit (List.mem_takeWhile_imp hc)
      · exact isNumeral_of_mem_exponentPart c hc
  · rw [decimal_whole hw hne hr hdot] at h
    cases h
    have happend := exponentPart_append_self rest
    refine ⟨by rw [List.append_assoc, happend], fun c hc => ?_⟩
    rcases List.mem_append.1 hc with hc | hc
    · exact hdigit (hw c hc)
    · exact isNumeral_of_mem_exponentPart c hc

/-- A numeral is made of digits and letters, points and signs. -/
theorem number_pieces {cs t r : List Char} (h : number cs = some (t, r)) :
    t ++ r = cs ∧ ∀ c ∈ t, isNumeral c = true := by
  unfold number at h
  split at h
  · next x ds =>
    split at h
    · next hx =>
      cases h
      refine ⟨by simp, fun c hc => ?_⟩
      simp only [Bool.and_eq_true, Bool.or_eq_true, beq_iff_eq] at hx
      simp only [List.mem_cons] at hc
      rcases hc with rfl | rfl | hc
      · decide
      · rcases hx.1 with rfl | rfl <;> decide
      · exact isNumeral_of_isNumberPart (isNumberPart_of_isHexDigit c (List.mem_takeWhile_imp hc))
    · exact decimal_pieces h
  · exact decimal_pieces h

theorem regex_pieces {cs t r : List Char} (h : regex cs = some (t, r)) :
    t ++ r = cs ∧ ∃ v flags, t = '/' :: v ++ '/' :: flags ∧ ∀ c ∈ flags, isNamePart c = true := by
  unfold regex at h
  split at h
  · split at h
    · cases h
    · obtain ⟨⟨p, q⟩, hp, h⟩ := Option.map_eq_some_iff.1 h
      cases h
      obtain ⟨v, rfl⟩ := exists_of_regexRest hp
      refine ⟨?_, v, q.takeWhile isRegexFlag, by simp, fun c hc => ?_⟩
      · have happend := (append_of_regexRest hp).1
        simp only [List.append_assoc, List.cons_append, List.takeWhile_append_dropWhile] at happend ⊢
        rw [← happend]
      · exact isNamePart_of_isRegexFlag c (List.mem_takeWhile_imp hc)
  · cases h

end Comprehend.Lexeme
