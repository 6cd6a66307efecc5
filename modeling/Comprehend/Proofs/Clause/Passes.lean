import Comprehend.Proofs.Clause.Walk
import Comprehend.Proofs.Syntax.Formed

/-! # What the tokens of an expression pass over

An expression and a comprehension are cut into tokens in two ways, but what a token of the
expression is made of is passed over by a walk: a sign, a word or a numeral is plain, a string or a
template is a literal for both, and brackets come in pairs. Only a regular expression is a token on
the one side and nothing of its own on the other. -/

namespace Comprehend.ClauseToken

open Comprehend.Text Comprehend.Lexeme Comprehend.Parser

/-- From a text to what is left of it every bracket that opens is closed again. -/
def Passes (calm : Prop) (cs r : List Char) : Prop := ∀ stack, Walk calm stack cs stack r

/-- A spelling of plain characters that no loop keyword starts like. -/
def isSign (s : String) : Bool :=
  match s.toList with
  | [] => false
  | c :: cs => c != 'f' && (c :: cs).all isPlain

/-- The spellings of opening brackets, each with the one that closes it. -/
def bracketPairs : List (String × String) := [("(", ")"), ("[", "]"), ("\x7b", "\x7d")]

theorem round_mem : ("(", ")") ∈ bracketPairs := .head _

theorem square_mem : ("[", "]") ∈ bracketPairs := .tail _ (.head _)

theorem curly_mem : ("\x7b", "\x7d") ∈ bracketPairs := .tail _ (.tail _ (.head _))

/-- Read as tokens of the notation, these characters leave nothing open and close nothing, and no
loop keyword among them counts. -/
def Harmless (calm : Prop) (cs : List Char) : Prop :=
  ∃ ts, tokens? cs = some ts ∧ IsBalanced ts ∧ (calm → cutAt "for" 0 ts = none)

section

variable {calm : Prop} {cs r r' t u w : List Char} {c : Char} {s o close : String}

theorem Passes.refl (cs : List Char) : Passes calm cs cs := fun _ => .done

theorem Passes.trans (h : Passes calm cs r) (h' : Passes calm r r') : Passes calm cs r' :=
  fun stack => (h stack).trans (h' stack)

theorem passes_plain (hu : ∀ c ∈ u, isPlain c = true) (r : List Char) : Passes calm (u ++ r) r :=
  fun _ => walk_plain hu r

/-! ## Signs and words -/

theorem passes_skipBlanks (h : calm → ¬ StandsFor (skipBlanks cs)) : Passes calm cs (skipBlanks cs) :=
  fun _ => walk_skipBlanks fun hcalm _ => h hcalm

theorem Passes.skip (hskip : skipBlanks cs = c :: u) (hc : c ≠ 'f') : Passes calm cs (c :: u) := by
  rw [← hskip]
  exact passes_skipBlanks fun _ => hskip ▸ not_standsFor_of_ne hc u

theorem passes_sign (hs : isSign s = true) (h : mark s cs = some r) : Passes calm cs r := by
  have happend : skipBlanks cs = s.toList ++ r := append_of_after h
  unfold isSign at hs
  split at hs
  · cases hs
  · next c u hu =>
    simp only [Bool.and_eq_true, bne_iff_ne, List.all_eq_true] at hs
    rw [hu] at happend
    exact (Passes.skip happend hs.1).trans (passes_plain hs.2 r)

/-- A sign that may be missing. -/
theorem passes_spare (hs : isSign s = true) : Passes calm cs ((mark s cs).getD cs) := by
  cases h : mark s cs with
  | none => exact .refl cs
  | some r => exact passes_sign hs h

theorem passes_word (h : word (skipBlanks cs) = some (w, r)) (hw : calm → w ≠ "for".toList) :
    Passes calm cs r := by
  have hskip : Passes calm cs (skipBlanks cs) := by
    refine passes_skipBlanks fun hcalm hfor => ?_
    obtain ⟨v, hv, -⟩ := hfor
    rw [h] at hv
    cases hv
    exact hw hcalm rfl
  refine hskip.trans ?_
  obtain ⟨c, v, rfl, hc, hv⟩ := word_eq_some h
  rw [← append_of_word h]
  refine passes_plain (List.forall_mem_cons.2 ⟨?_, fun d hd => ?_⟩) r
  · exact isPlain_of_isNamePart (isNamePart_of_isNameStart hc)
  · exact isPlain_of_isNamePart (hv d hd)

theorem passes_keyword (hs : isSign s = true) (h : keyword s (skipBlanks cs) = some r) :
    Passes calm cs r :=
  passes_sign hs (Option.filter_eq_some_iff.1 h).1

/-! ## Literals -/

theorem passes_quoted (h : Quoted (skipBlanks cs) t r) : Passes calm cs r := by
  cases hskip : skipBlanks cs with
  | nil =>
    rw [hskip] at h
    exact absurd (List.append_eq_nil_iff.1 h.append_eq).1 h.ne_nil
  | cons c u =>
    rw [hskip] at h
    have hc : c ≠ 'f' := by
      rintro rfl
      cases h.isQuote_head
    exact (Passes.skip hskip hc).trans fun _ => .quoted h .done

theorem isPlain_of_isNumeral (h : isNumeral c = true) : isPlain c = true := by
  simp only [isNumeral, Bool.or_eq_true, beq_iff_eq] at h
  rcases h with ((h | rfl) | rfl) | rfl
  · exact isPlain_of_isNamePart (isNamePart_of_isNumberPart _ h)
  all_goals decide

theorem passes_number (h : number (skipBlanks cs) = some (t, r)) : Passes calm cs r := by
  obtain ⟨c, v, rfl, hc⟩ := number_eq_some h
  obtain ⟨happend, hnumeral⟩ := number_pieces h
  have hne : c ≠ 'f' := by
    rintro rfl
    rcases hc with hc | hc <;> cases hc
  have hplain : ∀ d ∈ c :: v, isPlain d = true := fun d hd => isPlain_of_isNumeral (hnumeral d hd)
  exact (Passes.skip happend.symm hne).trans (passes_plain hplain r)

/-- Behind every blank of a regular expression stands its last slash. -/
theorem endsMarked_regex {v flags : List Char} (hflags : ∀ c ∈ flags, isNamePart c = true) :
    EndsMarked ('/' :: v ++ '/' :: flags) := by
  intro p d q hsplit hd
  rcases List.append_eq_append_iff.1 hsplit with ⟨a, -, hq⟩ | ⟨a, -, hq⟩
  · cases a with
    | nil =>
      obtain ⟨rfl, -⟩ := List.cons.inj hq
      cases hd
    | cons e a =>
      -- the blank would be a flag
      obtain ⟨-, rfl⟩ := List.cons.inj hq
      have hflag := hflags d (by simp)
      rcases isBlank_cases hd with rfl | rfl | rfl | rfl | rfl <;> cases hflag
  · cases a with
    | nil =>
      obtain ⟨rfl, -⟩ := List.cons.inj hq
      cases hd
    | cons e a =>
      obtain ⟨-, rfl⟩ := List.cons.inj hq
      exact ⟨'/', by simp, by decide⟩

theorem passes_regex (h : regex (skipBlanks cs) = some (t, r)) (ht : Harmless calm t) :
    Passes calm cs r := by
  obtain ⟨happend, v, flags, rfl, hflags⟩ := regex_pieces h
  obtain ⟨ts, hts, hbalanced, hcut⟩ := ht
  refine (Passes.skip happend.symm (by decide)).trans fun stack => ?_
  exact (tokens?_eq_some.1 hts).walk (endsMarked_regex hflags) hbalanced hcut stack r

/-! ## Brackets -/

theorem Passes.bracketed {d : Char} (h : Passes calm r u) (hopening : isOpening c = true)
    (hd : closerOf c = [d]) (hclosing : isClosing d = true) (hc : skipBlanks cs = c :: r)
    (hu : skipBlanks u = d :: r') : Passes calm cs r' := by
  have hcne : c ≠ 'f' := by
    rintro rfl
    cases hopening
  have hdne : d ≠ 'f' := by
    rintro rfl
    cases hclosing
  have hinside : Passes calm r (d :: r') := h.trans (Passes.skip hu hdne)
  refine (Passes.skip hc hcne).trans fun stack => .opening hopening ?_
  rw [hd]
  exact (hinside _).trans (.closing hclosing .done)

/-- What stands between a bracket and the one that closes it is passed over with them. -/
theorem Passes.enclosed (h : Passes calm r u) (hs : (o, s) ∈ bracketPairs)
    (hopen : mark o cs = some r) (hclose : mark s u = some r') : Passes calm cs r' := by
  have hc : skipBlanks cs = o.toList ++ r := append_of_after hopen
  have hu : skipBlanks u = s.toList ++ r' := append_of_after hclose
  simp only [bracketPairs, List.mem_cons, Prod.mk.injEq, List.not_mem_nil, or_false] at hs
  rcases hs with ⟨rfl, rfl⟩ | ⟨rfl, rfl⟩ | ⟨rfl, rfl⟩
  · exact h.bracketed rfl rfl rfl hc hu
  · exact h.bracketed rfl rfl rfl hc hu
  · exact h.bracketed rfl rfl rfl hc hu

/-! ## Operators -/

theorem passes_anyOf {ss : List String} (hss : ∀ s ∈ ss, isSign s = true)
    (h : anyOf ss (skipBlanks cs) = some (s, r)) : Passes calm cs r := by
  obtain ⟨s', hs', h⟩ := List.exists_of_findSome?_eq_some h
  obtain ⟨u, hu, h⟩ := Option.map_eq_some_iff.1 h
  cases h
  exact passes_sign (hss _ hs') hu

theorem passes_binaryAt {group : OperatorGroup} {joint : Joint}
    (h : binaryAt group (skipBlanks cs) = some (joint, r)) : Passes calm cs r := by
  obtain ⟨⟨op, r'⟩, hop, h⟩ := Option.map_eq_some_iff.1 h
  cases h
  cases group with
  | bitOr => exact passes_anyOf (by decide) (Option.filter_eq_some_iff.1 hop).1
  | bitAnd => exact passes_anyOf (by decide) (Option.filter_eq_some_iff.1 hop).1
  | relational =>
    rcases Option.or_eq_some_iff.1 hop with hop | ⟨-, hop⟩
    · obtain ⟨s, hs, h⟩ := List.exists_of_findSome?_eq_some hop
      obtain ⟨u, hu, h⟩ := Option.map_eq_some_iff.1 h
      cases h
      have hsign : ∀ s ∈ ["instanceof", "in"], isSign s = true := by decide
      exact passes_keyword (hsign _ hs) hu
    · exact passes_anyOf (by decide) hop
  | _ => exact passes_anyOf (by decide) hop

theorem passes_jointAt {level : Nat} {joint : Joint} (h : jointAt level cs = some (joint, r)) :
    Passes calm cs r := by
  have hlogical {op : LogicalOp} {s : String} (hs : isSign s = true)
      (h : logicalAt op s (skipBlanks cs) = some (joint, r)) : Passes calm cs r := by
    obtain ⟨u, hu, h⟩ := Option.map_eq_some_iff.1 h
    cases h
    exact passes_sign hs hu
  unfold jointAt at h
  split at h
  · exact hlogical (by decide) h
  · exact hlogical (by decide) h
  · exact hlogical (by decide) h
  · exact passes_binaryAt h
  · exact passes_binaryAt h
  · exact passes_binaryAt h
  · exact passes_binaryAt h
  · exact passes_binaryAt h
  · exact passes_binaryAt h
  · exact passes_binaryAt h
  · exact passes_binaryAt h
  · cases h

theorem passes_unaryAt {op : Token} (h : unaryAt cs = some (op, r)) : Passes calm cs r := by
  have hsign {c : Char} {u : List Char} (hskip : skipBlanks cs = c :: u) (hc : c ≠ 'f')
      (hplain : isPlain c = true) : Passes calm cs u :=
    (Passes.skip hskip hc).trans (passes_plain (List.forall_mem_singleton.2 hplain) u)
  unfold unaryAt at h
  split at h
  · next hskip =>
    split at h
    · cases h
    · cases h
      exact hsign hskip (by decide) (by decide)
  · next hskip =>
    split at h
    · cases h
    · cases h
      exact hsign hskip (by decide) (by decide)
  · next hskip =>
    cases h
    exact hsign hskip (by decide) (by decide)
  · next hskip =>
    cases h
    exact hsign hskip (by decide) (by decide)
  · obtain ⟨s, hs, h⟩ := List.exists_of_findSome?_eq_some h
    obtain ⟨u, hu, h⟩ := Option.map_eq_some_iff.1 h
    cases h
    have hall : ∀ s ∈ ["typeof", "void", "delete"], isSign s = true := by decide
    exact passes_keyword (hall s hs) hu

theorem passes_updateAt {op : Token} (h : updateAt cs = some (op, r)) : Passes calm cs r := by
  obtain ⟨⟨s, u⟩, hs, h⟩ := Option.map_eq_some_iff.1 h
  cases h
  exact passes_anyOf (by decide) hs

theorem passes_optionalAt (h : optionalAt cs = some r) : Passes calm cs r :=
  passes_sign (by decide) (Option.filter_eq_some_iff.1 h).1

/-! ## Lists -/

variable {α : Type} {item : List Char → Outcomes α} {P : α → Prop} {xs : List α}

/-- Every outcome with this property passes over what was read for it. -/
def ItemPasses (calm : Prop) (P : α → Prop) (item : List Char → Outcomes α) : Prop :=
  ∀ {cs r x}, (x, r) ∈ item cs → P x → Passes calm cs r

theorem ItemPasses.of_eq_nil (h : ∀ cs, item cs = []) : ItemPasses calm P item := by
  intro cs r x hx
  rw [h] at hx
  cases hx

theorem ItemPasses.items (h : ItemPasses calm P item) {more : Nat}
    (hxs : (xs, r) ∈ items item more cs) (hP : ∀ x ∈ xs, P x) : Passes calm cs r := by
  induction more generalizing cs xs with
  | zero => cases hxs
  | succ more ih =>
    obtain ⟨x, u, hx, hxs⟩ := mem_andThen.1 hxs
    have single (hone : (xs, r) ∈ one [x] u) : Passes calm cs r := by
      cases List.mem_singleton.1 hone
      exact h hx (hP x List.mem_cons_self)
    split at hxs
    · exact single hxs
    · next v hcomma =>
      split at hxs
      · exact single hxs
      · obtain ⟨ys, hys, rfl⟩ := mem_giving.1 hxs
        obtain ⟨hPx, hPys⟩ := List.forall_mem_cons.1 hP
        exact ((h hx hPx).trans (passes_sign (by decide) hcomma)).trans (ih hys hPys)

/-- A list in brackets. -/
theorem ItemPasses.itemsTo (h : ItemPasses calm P item) (hs : (o, s) ∈ bracketPairs)
    (hopen : mark o cs = some r) (hxs : (xs, r') ∈ itemsTo s item r) (hP : ∀ x ∈ xs, P x) :
    Passes calm cs r' := by
  rw [Parser.itemsTo] at hxs
  split at hxs
  · next u hu =>
    cases List.mem_singleton.1 hxs
    exact (Passes.refl r).enclosed hs hopen hu
  · obtain ⟨u, hu, hclose⟩ := mem_closedBy.1 hxs
    exact (h.items hu hP).enclosed hs hopen hclose

/-- A list in brackets that may have a comma at its end. -/
theorem ItemPasses.itemsToSpare (h : ItemPasses calm P item) (hs : (o, s) ∈ bracketPairs)
    (hopen : mark o cs = some r) (hxs : (xs, r') ∈ itemsToSpare s item r) (hP : ∀ x ∈ xs, P x) :
    Passes calm cs r' := by
  rw [Parser.itemsToSpare] at hxs
  split at hxs
  · next u hu =>
    cases List.mem_singleton.1 hxs
    exact (Passes.refl r).enclosed hs hopen hu
  · split at hxs
    · next u hu =>
      cases List.mem_singleton.1 hxs
      obtain ⟨v, hcomma, hclose⟩ := Option.bind_eq_some_iff.1 hu
      exact (passes_sign (by decide) hcomma).enclosed hs hopen hclose
    · obtain ⟨ys, u, hys, hxs⟩ := mem_andThen.1 hxs
      split at hxs
      · next v hclose =>
        cases List.mem_singleton.1 hxs
        exact ((h.items hys hP).trans (passes_spare (by decide))).enclosed hs hopen hclose
      · cases hxs

end

end Comprehend.ClauseToken
