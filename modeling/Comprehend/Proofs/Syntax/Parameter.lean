import Comprehend.Proofs.Syntax.Alone
import Comprehend.Proofs.Syntax.Parenthesized
import Comprehend.Proofs.Syntax.RoundTrip
import Comprehend.Proofs.Syntax.Sole
import Comprehend.Syntax.Operand

/-! # Patterns as parameters

A pattern is what an arrow function takes for a parameter. In the place of the parameters a text may
also be read as several of them, and a text that can be cut in two ways may be read as both. The
readings of the text as one parameter, in front of an arrow and an object without members, are its
readings as a pattern, and they come in the same order. -/

namespace Comprehend

open Comprehend.Text Comprehend.Lexeme

/-- A text in the place of the parameters of an arrow function. -/
def asParameter (text : String) : String := "(" ++ text ++ ") => \x7b\x7d"

/-- An arrow function of one parameter that returns an object without members. -/
def loneArrow (t : Node) : Node := .arrow [t] (.object [])

namespace Node

def single? : List Node → Option Node
  | [t] => some t
  | _ => none

/-- The parameter of such an arrow function. -/
def lone? : Node → Option Node
  | .arrow ps (.object []) => single? ps
  | _ => none

theorem single?_eq_some {ps : List Node} {t : Node} : single? ps = some t ↔ ps = [t] := by
  unfold single?
  split <;> simp_all

theorem lone?_eq_some {x t : Node} : x.lone? = some t ↔ x = loneArrow t := by
  unfold lone?
  split
  · simp [single?_eq_some, loneArrow]
  · next h =>
    refine ⟨nofun, ?_⟩
    rintro rfl
    exact absurd rfl (h [t])

theorem lone?_of_ne {ps : List Node} {body : Node} (h : body ≠ .object []) :
    (Node.arrow ps body).lone? = none := by
  unfold lone?
  split
  · next heq =>
    cases heq
    exact absurd rfl h
  · rfl

end Node

namespace Parser

/-! ## Readings -/

/-- What is read up to a rest of some kind, in the order of preference. -/
def Outcomes.upTo (os : Outcomes α) (stop : List Char → Bool) : List α :=
  (os.filter fun o => stop o.2).map (·.1)

def isBlankRest (r : List Char) : Bool := (skipBlanks r).isEmpty

/-- The trees that a whole text is read as. -/
def readings (text : String) : List Node :=
  (expression (fuelFor text.toList) text.toList).upTo isBlankRest

/-- The patterns that a whole text is read as. -/
def patternReadings (text : String) : List Node :=
  (patternElement (fuelFor text.toList) text.toList).upTo isBlankRest

theorem head?_upTo (os : Outcomes Node) : (os.upTo isBlankRest).head? = whole? os := by
  rw [Outcomes.upTo, List.head?_map, List.head?_filter]
  rfl

section

variable {os : Outcomes α} {stop stop' : List Char → Bool} {z : List Char}

theorem mem_upTo {x : α} : x ∈ os.upTo stop ↔ ∃ r, (x, r) ∈ os ∧ stop r = true := by
  simp [Outcomes.upTo]

theorem upTo_cons (o : α × List Char) (os : Outcomes α) :
    Outcomes.upTo (o :: os) stop = if stop o.2 then o.1 :: os.upTo stop else os.upTo stop := by
  rw [Outcomes.upTo, List.filter_cons]
  split <;> rfl

theorem upTo_one (x : α) (r : List Char) : (one x r).upTo stop = if stop r then [x] else [] :=
  upTo_cons (x, r) []

theorem upTo_giving (os : Outcomes α) (f : α → β) :
    (os.giving f).upTo stop = (os.upTo stop).map f := by
  induction os with
  | nil => rfl
  | cons o os ih =>
    rw [Outcomes.giving, List.map_cons, upTo_cons, upTo_cons]
    rw [Outcomes.giving] at ih
    split
    · rw [ih, List.map_cons]
    · exact ih

theorem upTo_andThen (os : Outcomes α) (f : α → List Char → Outcomes β) :
    (os.andThen f).upTo stop = os.flatMap fun o => (f o.1 o.2).upTo stop := by
  rw [Outcomes.upTo, Outcomes.andThen, List.filter_flatMap, List.map_flatMap]
  rfl

theorem upTo_eq_flatMap (os : Outcomes α) (stop : List Char → Bool) :
    os.upTo stop = os.flatMap fun o => if stop o.2 then [o.1] else [] := by
  induction os with
  | nil => rfl
  | cons o os ih =>
    rw [upTo_cons, List.flatMap_cons, ← ih]
    split <;> rfl

theorem upTo_closedBy (os : Outcomes α) (s : String) :
    (os.closedBy s).upTo stop = os.upTo fun r => (mark s r).any stop := by
  rw [Outcomes.closedBy, upTo_andThen, upTo_eq_flatMap]
  refine List.flatMap_congr fun o _ => ?_
  cases mark s o.2 with
  | none => rfl
  | some r => exact upTo_one o.1 r

theorem upTo_congr (h : ∀ o ∈ os, stop o.2 = stop' o.2) : os.upTo stop = os.upTo stop' := by
  rw [Outcomes.upTo, Outcomes.upTo, List.filter_congr h]

theorem upTo_leaving (h : ∀ o ∈ os, stop o.2 = true → z.length ≤ o.2.length) :
    os.upTo stop = (os.leaving z).upTo stop := by
  rw [Outcomes.upTo, Outcomes.upTo, Outcomes.leaving, List.filter_filter]
  refine congrArg _ (List.filter_congr fun o ho => ?_)
  cases hstop : stop o.2 with
  | false => rfl
  | true => simp [h o ho hstop]

theorem upTo_behind (os : Outcomes α) (z : List Char) :
    Outcomes.upTo (os.map (behind z)) stop = os.upTo fun r => stop (r ++ z) := by
  rw [Outcomes.upTo, List.filter_map, List.map_map]
  rfl

end

/-! ## Lists of one item -/

section

variable {item : List Char → Outcomes Node} {stop : List Char → Bool} {cs : List Char}

/-- Of the lists that end where no comma stands, those of one item are the items. -/
theorem single_items (hcomma : ∀ {r u}, mark "," r = some u → stop r = false) (more : Nat) :
    ((items item (more + 1) cs).upTo stop).filterMap Node.single? = (item cs).upTo stop := by
  rw [Agree.items_succ, upTo_andThen, List.filterMap_flatMap, upTo_eq_flatMap]
  refine List.flatMap_congr fun o _ => ?_
  have hone : ((one [o.1] o.2).upTo stop).filterMap Node.single? =
      if stop o.2 then [o.1] else [] := by
    rw [upTo_one]
    split <;> rfl
  cases hr : mark "," o.2 with
  | none =>
    rw [Agree.moreItems_of_none hr]
    exact hone
  | some u =>
    by_cases hnil : items item more u = []
    · rw [Agree.moreItems_of_nil hr hnil]
      exact hone
    · rw [Agree.moreItems_of_ne_nil hr hnil, upTo_giving, hcomma hr, List.filterMap_map]
      refine List.filterMap_eq_nil_iff.2 fun xs hxs => ?_
      obtain ⟨v, hv, -⟩ := mem_upTo.1 hxs
      obtain ⟨y, ys, rfl⟩ := List.exists_cons_of_ne_nil (ne_nil_of_mem_items hv)
      rfl

theorem single_itemsTo (hclosed : ∀ {u}, mark ")" cs = some u → item cs = []) :
    ((itemsTo ")" item cs).upTo stop).filterMap Node.single? =
      (item cs).upTo fun r => (mark ")" r).any stop := by
  unfold itemsTo
  split
  · next u hu =>
    rw [hclosed hu, upTo_one]
    split <;> rfl
  · rw [upTo_closedBy]
    refine single_items (fun h => ?_) cs.length
    rw [Agree.mark_of_comma (by decide) h]
    rfl

end

/-! ## The head and the body -/

/-- What stands behind the one parameter. -/
def emptyTail : List Char := [')', ' ', '=', '>', ' ', '\x7b', '\x7d']

/-- A head of the arrow function ends with that. -/
def endsHead (r : List Char) : Bool :=
  (mark ")" r).any fun u => (mark "=>" u).any fun v => v.length < emptyTail.length

theorem closing_emptyTail : Closing emptyTail := ⟨_, rfl, by simp⟩

theorem endsHead_behind (r : List Char) : endsHead (r ++ emptyTail) = isBlankRest r := by
  have hz := closing_emptyTail
  rw [endsHead, emptyTail, mark_paren hz, isBlankRest]
  by_cases hblank : skipBlanks r = []
  · rw [if_pos hblank, hblank]
    rfl
  · rw [if_neg hblank]
    have hown : (skipBlanks r).isEmpty = false := by simpa using hblank
    rw [hown]
    cases mark ")" r with
    | none => rfl
    | some u =>
      -- an arrow behind another parenthesis leaves all that stands behind the text
      have harrow := (marks_mark hz (s := "=>") (by decide)).behind u
      rw [emptyTail] at harrow
      simp only [Option.map_some, Option.any_some, harrow]
      cases mark "=>" u with
      | none => rfl
      | some v => simp

/-- No head of the arrow function ends with what stands in the tail alone. -/
theorem length_of_endsHead {cs r : List Char} (hr : r <:+ cs ++ emptyTail)
    (h : endsHead r = true) : emptyTail.length ≤ r.length := by
  by_contra hlt
  obtain ⟨u, hclose, -⟩ := (Option.any_eq_true _ _).1 h
  have hsuffix : r <:+ emptyTail.tail :=
    List.suffix_of_suffix_length_le hr ((List.suffix_cons ')' _).trans (List.suffix_append cs _))
      (by simpa [emptyTail, Nat.lt_succ_iff] using hlt)
  exact absurd (hsuffix.mem (mem_of_mark_paren hclose)) (by decide)

theorem rest_of_short_head {fuel : Nat} {cs : List Char} {o : List Node × List Char}
    (ho : o ∈ arrowHead fuel (cs ++ emptyTail)) (hshort : o.2.length < emptyTail.length) :
    o.2 = [' ', '\x7b', '\x7d'] := by
  have hsuffix : '>' :: o.2 <:+ emptyTail :=
    List.suffix_of_suffix_length_le ((List.suffix_cons '=' _).trans (suffix_of_arrowHead ho))
      (List.suffix_append cs _) hshort
  simpa [emptyTail, List.suffix_cons_iff] using hsuffix

theorem expression_empty (fuel : Nat) :
    expression (fuel + 18) [' ', '\x7b', '\x7d'] = one (.object []) [] := by
  have hoperand : operand (fuel + 2) [' ', '\x7b', '\x7d'] = one (.object []) [] := rfl
  rw [expression_of_operand rfl rfl rfl, hoperand]
  intro o ho
  rw [hoperand] at ho
  rw [List.mem_singleton.1 ho]

/-- An object without members is not all that stands behind the arrow, where the tail does. -/
theorem body_of_long_head {fuel : Nat} {cs q : List Char}
    (h : (Node.object [], q) ∈ expression fuel (cs ++ emptyTail)) : isBlankRest q = false := by
  have hz := closing_emptyTail
  cases fuel with
  | zero => cases h
  | succ fuel =>
    rw [expression] at h
    split at h
    · obtain ⟨k, hk⟩ := ternary_fromPrimary fuel _ _ h rfl
      refine Bool.eq_false_iff.2 fun hq => ?_
      have hq : skipBlanks q = [] := List.isEmpty_iff.1 hq
      rcases standsAlone_of_primary hk rfl with ⟨v, hv, hclose⟩ | ⟨u, xs, j, hopen, hxs, hlist⟩
      · exact not_closed_of_brace (by simp [emptyTail]) hv hclose hq
      · cases hxs
        have hbraces := (ahead_of_mark (by decide) hopen).trans (ahead_of_empty hlist)
        obtain ⟨r, rfl, -⟩ := hbraces.of_behind hz
        rw [skipBlanks_closing hz] at hq
        cases List.append_eq_nil_iff.1 hq |>.2
    · obtain ⟨ps, r, -, hbody⟩ := mem_andThen.1 h
      obtain ⟨x, -, hx⟩ := mem_giving.1 hbody
      cases hx

/-- An arrow function that is a primary expression does not end with the tail. -/
theorem not_arrow_of_ternary {fuel : Nat} {cs q : List Char} {x : Node}
    (h : (x, q) ∈ ternary fuel (cs ++ emptyTail)) (hq : isBlankRest q = true) : x.lone? = none := by
  cases hlone : x.lone? with
  | none => rfl
  | some t =>
    obtain rfl := Node.lone?_eq_some.1 hlone
    obtain ⟨k, hk⟩ := ternary_fromPrimary fuel _ _ h rfl
    rcases standsAlone_of_primary hk rfl with ⟨v, hv, hclose⟩ | ⟨u, xs, j, -, hxs, -⟩
    · exact (not_closed_of_brace (by simp [emptyTail]) hv hclose (List.isEmpty_iff.1 hq)).elim
    · cases hxs

/-- Behind a head of the arrow function stands an object without members and nothing else, if the
head ends in the tail, and otherwise something else. -/
theorem lone_body {fuel : Nat} {cs : List Char} {o : List Node × List Char}
    (ho : o ∈ arrowHead (fuel + 18) (cs ++ emptyTail)) :
    (((expression (fuel + 18) o.2).giving (Node.arrow o.1 ·)).upTo isBlankRest).filterMap
        Node.lone? =
      (if o.2.length < emptyTail.length then [o.1] else []).filterMap Node.single? := by
  rw [upTo_giving]
  split
  · next hshort =>
    rw [rest_of_short_head ho hshort, expression_empty, upTo_one]
    rfl
  · next hlong =>
    have hsuffix : emptyTail <:+ o.2 := by
      have hrest : o.2 <:+ cs ++ emptyTail :=
        ((List.suffix_cons '>' _).trans (List.suffix_cons '=' _)).trans (suffix_of_arrowHead ho)
      exact List.suffix_of_suffix_length_le (List.suffix_append cs _) hrest (not_lt.1 hlong)
    obtain ⟨r, hr⟩ := hsuffix
    refine List.filterMap_eq_nil_iff.2 fun x hx => ?_
    obtain ⟨body, hbody, rfl⟩ := List.mem_map.1 hx
    obtain ⟨q, hq, hblank⟩ := mem_upTo.1 hbody
    refine Node.lone?_of_ne ?_
    rintro rfl
    rw [← hr] at hq
    rw [body_of_long_head hq] at hblank
    cases hblank

theorem lone_expression (fuel : Nat) (cs : List Char) :
    ((expression (fuel + 19) (cs ++ emptyTail)).upTo isBlankRest).filterMap Node.lone? =
      ((arrowHead (fuel + 18) (cs ++ emptyTail)).upTo
        fun r => r.length < emptyTail.length).filterMap Node.single? := by
  have hheads : ((expression (fuel + 19) (cs ++ emptyTail)).upTo isBlankRest).filterMap Node.lone? =
      (((arrowHead (fuel + 18) (cs ++ emptyTail)).andThen fun ps r =>
        (expression (fuel + 18) r).giving (Node.arrow ps ·)).upTo isBlankRest).filterMap
          Node.lone? := by
    rw [expression]
    cases hhead : arrowHead (fuel + 18) (cs ++ emptyTail) with
    | cons o os => rfl
    | nil =>
      refine List.filterMap_eq_nil_iff.2 fun x hx => ?_
      obtain ⟨q, hq, hblank⟩ := mem_upTo.1 hx
      exact not_arrow_of_ternary hq hblank
  rw [hheads, upTo_andThen, List.filterMap_flatMap, upTo_eq_flatMap, List.filterMap_flatMap]
  refine List.flatMap_congr fun o ho => ?_
  rw [lone_body ho]
  simp only [decide_eq_true_eq]

/-- No pattern starts with a closing parenthesis. -/
theorem patternElement_of_closed {cs u : List Char} (h : mark ")" cs = some u) (fuel : Nat) :
    patternElement fuel cs = [] := by
  have hskip : skipBlanks cs = ')' :: u := append_of_after h
  have hmark {s : String} {a : Char} {as : List Char} (hs : s.toList = a :: as) (ha : a ≠ ')') :
      mark s cs = none := by
    rw [mark, hskip, after_of_ne hs ha]
  have hname : plainName cs = none := by
    rw [plainName, hskip, word_of_ne rfl]
    rfl
  have htarget (fuel : Nat) : bindingTarget fuel cs = [] := by
    cases fuel with
    | zero => rfl
    | succ fuel =>
      rw [bindingTarget, hmark (s := "[") rfl (by decide)]
      simp only [hmark (s := "\x7b") rfl (by decide), hname]
  cases fuel with
  | zero => rfl
  | succ fuel =>
    rw [patternElement, hmark (s := "...") rfl (by decide)]
    simp only [htarget, andThen_nil]

/-- The heads of one parameter that end in the tail have the patterns that a whole text is read as.
-/
theorem single_heads {cs : List Char} {fuel : Nat} (hfuel : fuelFor cs ≤ fuel) :
    ((arrowHead (fuel + 1) ('(' :: (cs ++ emptyTail))).upTo
        fun r => r.length < emptyTail.length).filterMap Node.single? =
      (patternElement (fuelFor cs) cs).upTo isBlankRest := by
  have hagree := (readersAgree closing_emptyTail fuel (fuelFor cs)).patternElement
    (n := cs.length + 1) (by
      rw [Nat.min_eq_right hfuel, fuelFor, depthPerChar]
      omega)
  have hhead : arrowHead (fuel + 1) ('(' :: (cs ++ emptyTail)) =
      (itemsTo ")" (patternElement fuel) (cs ++ emptyTail)).closedBy "=>" := rfl
  calc ((arrowHead (fuel + 1) ('(' :: (cs ++ emptyTail))).upTo
        fun r => r.length < emptyTail.length).filterMap Node.single?
      = ((itemsTo ")" (patternElement fuel) (cs ++ emptyTail)).upTo fun u =>
          (mark "=>" u).any fun v => v.length < emptyTail.length).filterMap Node.single? := by
        rw [hhead, upTo_closedBy]
    _ = (patternElement fuel (cs ++ emptyTail)).upTo endsHead :=
        single_itemsTo fun h => patternElement_of_closed h fuel
    _ = ((patternElement fuel (cs ++ emptyTail)).leaving emptyTail).upTo endsHead :=
        upTo_leaving fun o ho => length_of_endsHead (hagree.leaves _ o ho)
    _ = (patternElement (fuelFor cs) cs).upTo isBlankRest := by
        rw [hagree.leaving cs (Nat.lt_succ_self _), upTo_behind]
        exact upTo_congr fun o _ => endsHead_behind o.2

theorem toList_asParameter (text : String) :
    (asParameter text).toList = '(' :: (text.toList ++ emptyTail) := by
  simp [asParameter, emptyTail, String.toList_append]

theorem fuelFor_asParameter (cs : List Char) :
    fuelFor ('(' :: (cs ++ emptyTail)) = fuelFor cs + 237 + 19 := by
  simp only [fuelFor, depthPerChar, emptyTail, List.length_cons, List.length_append,
    List.length_nil]
  omega

/-- The readings of a text as a pattern are its readings as the one parameter of an arrow function
that returns an object without members. -/
theorem lone_readings (text : String) :
    (readings (asParameter text)).filterMap Node.lone? = patternReadings text := by
  rw [readings, toList_asParameter, fuelFor_asParameter, ← List.cons_append, lone_expression]
  have hfuel : fuelFor text.toList ≤ fuelFor text.toList + 254 := Nat.le_add_right _ _
  exact single_heads hfuel

/-- A text that has a reading as a pattern is only read as the parameters of an arrow function. -/
theorem arrow_of_readings {text : String} (h : patternReadings text ≠ []) {x : Node}
    (hx : x ∈ readings (asParameter text)) : ∃ ps body, x = .arrow ps body := by
  have hlone := lone_readings text
  rw [readings, toList_asParameter, fuelFor_asParameter, expression] at hx hlone
  split at hx
  · next hhead =>
    rw [hhead] at hlone
    refine absurd (hlone.symm.trans (List.filterMap_eq_nil_iff.2 fun y hy => ?_)) h
    obtain ⟨q, hq, hblank⟩ := mem_upTo.1 hy
    rw [← List.cons_append] at hq
    exact not_arrow_of_ternary hq hblank
  · obtain ⟨q, hq, -⟩ := mem_upTo.1 hx
    obtain ⟨ps, r, -, hbody⟩ := mem_andThen.1 hq
    obtain ⟨body, -, hbody⟩ := mem_giving.1 hbody
    exact ⟨ps, body, hbody.symm⟩

/-! ## Texts that are read in one way -/

theorem infix_of_append_cons {s u v : List Char} {c : Char} (h : s <:+: u ++ c :: v) (hc : c ∉ s) :
    s <:+: u ∨ s <:+: v := by
  obtain ⟨a, b, heq⟩ := h
  rcases List.append_eq_append_iff.1 heq with ⟨u', rfl, -⟩ | ⟨v', hleft, hright⟩
  · exact .inl ⟨a, u', rfl⟩
  · cases v' with
    | nil => exact .inl ⟨a, [], by simpa using hleft⟩
    | cons d v' =>
      obtain ⟨rfl, rfl⟩ := List.cons.inj hright
      rcases List.append_eq_append_iff.1 hleft with ⟨s', rfl, rfl⟩ | ⟨a', rfl, hs⟩
      · exact absurd (by simp) hc
      · cases a' with
        | nil => exact absurd (hs ▸ List.mem_cons_self : c ∈ [] ++ s) hc
        | cons e a' =>
          obtain ⟨rfl, rfl⟩ := List.cons.inj hs
          exact .inr ⟨a', b, rfl⟩

/-- Parentheses around a text make nothing that can be cut in two ways. -/
theorem OneWay.enclosed {cs w : List Char} (hcs : OneWay cs) (hw : OneWay w) :
    OneWay ('(' :: (cs ++ ')' :: w)) := by
  intro s hs hinfix
  have hplain : ∀ s ∈ twoWays, '(' ∉ s.toList ∧ ')' ∉ s.toList ∧ ¬ s.toList <:+: [] := by decide
  obtain ⟨hopen, hclose, hnil⟩ := hplain s hs
  rcases infix_of_append_cons (u := []) hinfix hopen with hinfix | hinfix
  · exact hnil hinfix
  · rcases infix_of_append_cons hinfix hclose with hinfix | hinfix
    · exact hcs s hs hinfix
    · exact hw s hs hinfix

theorem OneWay.asParameter {text : String} (h : OneWay text.toList) :
    OneWay (asParameter text).toList := by
  have htail : OneWay emptyTail.tail := by decide
  rw [toList_asParameter]
  exact h.enclosed htail

theorem length_readings {text : String} (h : OneWay text.toList) : (readings text).length ≤ 1 := by
  have hsole := ((readersSole h (fuelFor text.toList)).expression _ List.suffix_rfl).1
  rw [readings, Outcomes.upTo, List.length_map]
  exact (List.length_filter_le _ _).trans hsole

theorem isBlankText_of_parseExpression {text : String} {x : Node}
    (h : parseExpression text = .ok x) : isBlankText text = false := by
  refine Bool.eq_false_iff.2 fun hblank => ?_
  rw [parseExpression, if_pos hblank] at h
  cases h

theorem parseExpression_eq_ok {text : String} {x : Node} (h : isBlankText text = false) :
    parseExpression text = .ok x ↔ (readings text).head? = some x := by
  rw [parseExpression, h, if_neg Bool.false_ne_true, readings, head?_upTo, expression?]
  split <;> simp_all

theorem parsePattern_eq_ok {text : String} {t : Node} (h : isBlankText text = false) :
    parsePattern text = .ok t ↔ (patternReadings text).head? = some t := by
  rw [parsePattern, h, if_neg Bool.false_ne_true, patternReadings, head?_upTo, pattern?]
  split <;> simp_all

theorem isBlankText_asParameter (text : String) : isBlankText (asParameter text) = false := by
  rw [isBlankText, toList_asParameter]
  rfl

/-- A text without a reading as a pattern is no pattern. -/
theorem parsePattern_eq_error {text : String} (h : isBlankText text = false) :
    parsePattern text = .error (.badPattern text) ↔ ∀ t, parsePattern text ≠ .ok t := by
  rw [parsePattern, h, if_neg Bool.false_ne_true]
  split <;> simp

theorem lone_mem_readings {text : String} {t : Node} (h : t ∈ patternReadings text) :
    loneArrow t ∈ readings (asParameter text) := by
  rw [← lone_readings] at h
  obtain ⟨x, hx, hlone⟩ := List.mem_filterMap.1 h
  exact Node.lone?_eq_some.1 hlone ▸ hx

theorem head?_patternReadings {text : String} {t : Node}
    (h : (readings (asParameter text)).head? = some (loneArrow t)) :
    (patternReadings text).head? = some t := by
  obtain ⟨xs, hxs⟩ := List.head?_eq_some_iff.1 h
  rw [← lone_readings, hxs]
  rfl

end Parser

open Comprehend.Parser Comprehend.Layout

/-- The one parameter of an arrow function that returns an object without members is a pattern. A
pattern in the place of the parameters can be read as the only one, and that is what the reader
prefers if no sign or word of the text can be cut in two ways; otherwise an arrow function with other
parameters may come first. -/
theorem parsePattern_asParameter {text : String} (h : Text.isBlankText text = false) :
    (∀ t, parseExpression (asParameter text) = .ok (loneArrow t) → parsePattern text = .ok t) ∧
    (∀ t, parsePattern text = .ok t → loneArrow t ∈ readings (asParameter text) ∧
      ∃ ps body, parseExpression (asParameter text) = .ok (.arrow ps body)) ∧
    (OneWay text.toList →
      (∀ t, parsePattern text = .ok t ↔ parseExpression (asParameter text) = .ok (loneArrow t)) ∧
      (parsePattern text = .error (.badPattern text) ↔
        ∀ t, parseExpression (asParameter text) ≠ .ok (loneArrow t))) := by
  have hwhole := isBlankText_asParameter text
  have hlone (t : Node) (ht : parseExpression (asParameter text) = .ok (loneArrow t)) :
      parsePattern text = .ok t :=
    (parsePattern_eq_ok h).2 (head?_patternReadings ((parseExpression_eq_ok hwhole).1 ht))
  have hpattern {t : Node} (ht : parsePattern text = .ok t) : t ∈ patternReadings text :=
    List.mem_of_head? ((parsePattern_eq_ok h).1 ht)
  refine ⟨hlone, fun t ht => ⟨lone_mem_readings (hpattern ht), ?_⟩, fun hway => ?_⟩
  · obtain ⟨x, xs, hxs⟩ := List.exists_cons_of_ne_nil
      (List.ne_nil_of_mem (lone_mem_readings (hpattern ht)))
    obtain ⟨ps, body, rfl⟩ := arrow_of_readings (List.ne_nil_of_mem (hpattern ht))
      (hxs ▸ List.mem_cons_self : x ∈ readings (asParameter text))
    exact ⟨ps, body, (parseExpression_eq_ok hwhole).2 (by rw [hxs]; rfl)⟩
  · have hiff (t : Node) : parsePattern text = .ok t ↔
        parseExpression (asParameter text) = .ok (loneArrow t) := by
      refine ⟨fun ht => (parseExpression_eq_ok hwhole).2 ?_, hlone t⟩
      have hmem := lone_mem_readings (hpattern ht)
      obtain ⟨x, hx⟩ := List.length_eq_one_iff.1
        (Nat.le_antisymm (length_readings hway.asParameter) (List.length_pos_of_mem hmem))
      rw [hx] at hmem ⊢
      rw [List.mem_singleton.1 hmem]
      rfl
    exact ⟨hiff, (parsePattern_eq_error h).trans
      (forall_congr' fun t => not_congr (hiff t))⟩

theorem parsePattern_asParameter_listPattern :
    Text.isBlankText "[a, \x7b b: c = 1 \x7d, ...d]" = false ∧
      OneWay "[a, \x7b b: c = 1 \x7d, ...d]".toList ∧
      parsePattern "[a, \x7b b: c = 1 \x7d, ...d]" = .ok listPattern ∧
      parseExpression (asParameter "[a, \x7b b: c = 1 \x7d, ...d]") = .ok (loneArrow listPattern) := by
  have hblank : Text.isBlankText "[a, \x7b b: c = 1 \x7d, ...d]" = false := by decide
  have hway : OneWay "[a, \x7b b: c = 1 \x7d, ...d]".toList := by decide +kernel
  have hreads : ReadsPart patternElement (text none listPattern) listPattern :=
    formed_listPattern.readsBack plainDefaults_listPattern
  have hread : parsePattern "[a, \x7b b: c = 1 \x7d, ...d]" = .ok listPattern :=
    parsePattern_of_reads hreads
  exact ⟨hblank, hway, hread, (((parsePattern_asParameter hblank).2.2 hway).1 listPattern).1 hread⟩

-- the two signs are an update or two operators, and what is one regular expression in the one
-- reading is two divisions and a second parameter in the other
example : (readings (asParameter "x = a++ / b, c = d /i")).map (·.lone?.isSome) =
    [false, true] := by decide +kernel

end Comprehend
