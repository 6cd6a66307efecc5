import Comprehend.Proofs.Syntax.Agree
import Comprehend.Proofs.Syntax.Default

/-! # Expressions in front of a closing parenthesis

Each reader of the grammar agrees on a text with and without a closing parenthesis behind it: by the
ways that a reader is put together of others, each agrees where those that it calls do, and a reader
calls others on less text or with less fuel. -/

namespace Comprehend

open Comprehend.Text Comprehend.Lexeme

namespace Parser

/-- The readers agree on a text with or without a closing parenthesis behind it, as far as the fuel
goes: a character takes `depthPerChar` of it, and before the first one each reader has a way of its
own to go. -/
structure ReadersAgree (z : List Char) (fuel fuel' : Nat) : Prop where
  expression : ∀ {n}, 32 * n + 20 ≤ min fuel fuel' + 32 →
    Agree z n (expression fuel) (expression fuel')
  arrowHead : ∀ {n}, 32 * n + 1 ≤ min fuel fuel' + 32 →
    Agree z n (arrowHead fuel) (arrowHead fuel')
  ternary : ∀ {n}, 32 * n + 19 ≤ min fuel fuel' + 32 → Agree z n (ternary fuel) (ternary fuel')
  joined : ∀ level {n}, 32 * n + (18 - min level 11) ≤ min fuel fuel' + 32 →
    Agree z n (joined fuel level) (joined fuel' level)
  joinedTail : ∀ level x {n}, 32 * n + 1 ≤ min fuel fuel' + 32 →
    Agree z n (joinedTail fuel level x) (joinedTail fuel' level x)
  power : ∀ {n}, 32 * n + 6 ≤ min fuel fuel' + 32 → Agree z n (power fuel) (power fuel')
  unary : ∀ {n}, 32 * n + 5 ≤ min fuel fuel' + 32 → Agree z n (unary fuel) (unary fuel')
  update : ∀ {n}, 32 * n + 4 ≤ min fuel fuel' + 32 → Agree z n (update fuel) (update fuel')
  operand : ∀ {n}, 32 * n + 3 ≤ min fuel fuel' + 32 → Agree z n (operand fuel) (operand fuel')
  construction : ∀ {n}, 32 * n + 2 ≤ min fuel fuel' + 32 →
    Agree z n (construction fuel) (construction fuel')
  memberLinks : ∀ x {n}, 32 * n + 1 ≤ min fuel fuel' + 32 →
    Agree z n (memberLinks fuel x) (memberLinks fuel' x)
  links : ∀ x {n}, 32 * n + 1 ≤ min fuel fuel' + 32 → Agree z n (links fuel x) (links fuel' x)
  optionalLink : ∀ x {n}, 32 * n + 1 ≤ min fuel fuel' + 32 →
    Agree z n (optionalLink fuel x) (optionalLink fuel' x)
  element : ∀ {n}, 32 * n + 21 ≤ min fuel fuel' + 32 → Agree z n (element fuel) (element fuel')
  objectMember : ∀ {n}, 32 * n + 1 ≤ min fuel fuel' + 32 →
    Agree z n (objectMember fuel) (objectMember fuel')
  primary : ∀ {n}, 32 * n + 1 ≤ min fuel fuel' + 32 → Agree z n (primary fuel) (primary fuel')
  functionRest : ∀ {n}, 32 * n + 1 ≤ min fuel fuel' + 32 →
    Agree z n (functionRest fuel) (functionRest fuel')
  patternElement : ∀ {n}, 32 * n + 2 ≤ min fuel fuel' + 32 →
    Agree z n (patternElement fuel) (patternElement fuel')
  defaulted : ∀ x {n}, 32 * n + 1 ≤ min fuel fuel' + 32 →
    Agree z n (defaulted fuel x) (defaulted fuel' x)
  bindingTarget : ∀ {n}, 32 * n + 1 ≤ min fuel fuel' + 32 →
    Agree z n (bindingTarget fuel) (bindingTarget fuel')
  objectPatternItem : ∀ {n}, 32 * n + 1 ≤ min fuel fuel' + 32 →
    Agree z n (objectPatternItem fuel) (objectPatternItem fuel')

theorem Cut.suffix {cs r : List Char} (h : Cut cs r) : r <:+ cs := by
  obtain ⟨u, rfl, -⟩ := h
  exact List.suffix_append u r

theorem Outcomes.Draws.leaves {os : Outcomes α} {r : List Char} {P : α → Prop}
    (h : os.Draws r P) : ∀ o ∈ os, o.2 <:+ r := fun o ho => (h o ho).1.suffix

/-- An arrow stands in front of what the head of an arrow function leaves. -/
theorem suffix_of_arrowHead {fuel : Nat} {cs : List Char} {o : List Node × List Char}
    (h : o ∈ arrowHead fuel cs) : '=' :: '>' :: o.2 <:+ cs := by
  have harrow {os : Outcomes (List Node)} (hos : ∀ p ∈ os, p.2 <:+ cs)
      (ho : o ∈ os.closedBy "=>") : '=' :: '>' :: o.2 <:+ cs := by
    obtain ⟨u, hu, hmark⟩ := mem_closedBy.1 ho
    have hskip : skipBlanks u = '=' :: '>' :: o.2 := append_of_after hmark
    exact (hskip ▸ List.dropWhile_suffix _ : '=' :: '>' :: o.2 <:+ u).trans (hos _ hu)
  cases fuel with
  | zero => cases h
  | succ fuel =>
    rw [arrowHead] at h
    split at h
    · next u hopen =>
      refine harrow (fun p hp => ?_) h
      have hdraws := Outcomes.Draws.itemsTo (show EndsOpen ")" by decide)
        (readersLeave cs fuel).patternElement (cut_mark (by decide) hopen)
      exact (hdraws p hp).1.suffix
    · split at h
      · next w u hw =>
        refine harrow (fun p hp => ?_) h
        rw [List.mem_singleton.1 hp]
        exact (takes_plainName hw).cut.suffix
      · cases h

theorem wordOutcomes_behind (w r z : List Char) :
    wordOutcomes w (r ++ z) = (wordOutcomes w r).map (behind z) := by
  unfold wordOutcomes
  split
  · rfl
  · split
    · rfl
    · rw [List.map_cons, List.map_filterMap]
      congr 1
      refine List.filterMap_congr fun c _ => ?_
      cases after c.1 w with
      | none => rfl
      | some v =>
        simp only [Option.bind_some]
        split
        · simp [behind]
        · rfl

theorem primary_of_plain {fuel : Nat} {cs u : List Char} {c : Char}
    (hu : skipBlanks cs = c :: u) (hc : c ∉ ['(', '[', '\x7b', '/', '\x60', '\'', '"']) :
    primary (fuel + 1) cs =
      match word (c :: u) with
      | some (w, r) => if w == "function".toList then functionRest fuel r else wordOutcomes w r
      | none => leafOutcomes .number .number (number (c :: u)) := by
  simp only [List.mem_cons, List.not_mem_nil, or_false, not_or] at hc
  rw [primary, hu]
  split
  · cases ‹c :: u = []›
  · exact absurd (List.cons.inj ‹_›).1 hc.1
  · exact absurd (List.cons.inj ‹_›).1 hc.2.1
  · exact absurd (List.cons.inj ‹_›).1 hc.2.2.1
  · exact absurd (List.cons.inj ‹_›).1 hc.2.2.2.1
  · exact absurd (List.cons.inj ‹_›).1 hc.2.2.2.2.1
  · exact absurd (List.cons.inj ‹_›).1 hc.2.2.2.2.2.1
  · exact absurd (List.cons.inj ‹_›).1 hc.2.2.2.2.2.2
  · rfl

/-- No item of a list starts with what closes the list. -/
theorem element_of_bracket {r u : List Char} (h : mark "]" r = some u) (fuel : Nat) :
    element fuel r = [] := by
  have hskip : skipBlanks r = ']' :: u := append_of_after h
  have hdots : mark "..." r = none := by
    rw [mark, hskip]
    rfl
  cases fuel with
  | zero => rfl
  | succ fuel =>
    rw [element, hdots]
    exact (dead (by decide) hskip fuel).expression

theorem objectMember_of_brace {r u : List Char} (h : mark "\x7d" r = some u) (fuel : Nat) :
    objectMember fuel r = [] := by
  have hskip : skipBlanks r = '\x7d' :: u := append_of_after h
  cases fuel with
  | zero => rfl
  | succ fuel =>
    rw [objectMember, mark, hskip]
    rfl

namespace ReadersAgree

variable {z : List Char} {fuel fuel' n : Nat} (hz : Closing z) (ih : ReadersAgree z fuel fuel')
include hz ih

theorem arrowHead_succ (h : 32 * n + 1 ≤ min (fuel + 1) (fuel' + 1) + 32) :
    Agree z n (Parser.arrowHead (fuel + 1)) (Parser.arrowHead (fuel' + 1)) := by
  change Agree z n (fun r => _) fun r => _
  simp only [Parser.arrowHead]
  have harrow : Closes z "=>" := .of_isMark hz (by decide)
  refine .mark (marks_mark hz (by decide)) ?_
    ((Agree.itemsTo hz (by decide) (ih.patternElement (by omega))).closedBy harrow)
  refine .scan (scans_plainName hz) .nil fun w => ?_
  exact (Agree.one [Node.bindingName (token .name w)]).closedBy harrow

/-- A head of an arrow function that ends behind a text leaves the text no reading of its own. -/
theorem expression_succ (h : 32 * n + 20 ≤ min (fuel + 1) (fuel' + 1) + 32) :
    Agree z n (Parser.expression (fuel + 1)) (Parser.expression (fuel' + 1)) := by
  refine ⟨fun r => ((readersLeave r _).expression r (.refl r)).leaves,
    fun r => ((readersLeave r _).expression r (.refl r)).leaves, fun r hr => ?_⟩
  have hheads := (ih.arrowHead (n := n) (by omega)).leaving r hr
  have hbody : ((Parser.arrowHead fuel (r ++ z)).andThen fun params u =>
        (Parser.expression fuel u).giving (Node.arrow params ·)).leaving z =
      ((Parser.arrowHead fuel' r).andThen fun params u =>
        (Parser.expression fuel' u).giving (Node.arrow params ·)).map (behind z) := by
    refine Agree.leaving_andThen hheads (fun p hp => ?_)
      fun params => (ih.expression (n := n - 1) (by omega)).giving (Node.arrow params ·)
    have hlength := (suffix_of_arrowHead hp).length_le
    simp only [List.length_cons] at hlength
    omega
  rw [Parser.expression, Parser.expression]
  cases hlong : Parser.arrowHead fuel (r ++ z) with
  | nil =>
    rw [hlong] at hheads
    rw [List.map_eq_nil_iff.1 hheads.symm]
    exact (ih.ternary (by omega)).leaving r hr
  | cons o os =>
    rw [hlong] at hbody
    refine hbody.trans ?_
    cases hown : Parser.arrowHead fuel' r with
    | cons p ps => rfl
    | nil =>
      have hshort : o.2.length < z.length := by
        rw [hlong, hown, List.map_nil] at hheads
        simpa using List.filter_eq_nil_iff.1 hheads o List.mem_cons_self
      rw [ternary_of_head_behind hz (hlong ▸ List.mem_cons_self) hshort]
      rfl

theorem ternary_succ (h : 32 * n + 19 ≤ min (fuel + 1) (fuel' + 1) + 32) :
    Agree z n (Parser.ternary (fuel + 1)) (Parser.ternary (fuel' + 1)) := by
  change Agree z n (fun r => _) fun r => _
  simp only [Parser.ternary]
  have hexpression := ih.expression (n := n - 1) (by omega)
  refine (ih.joined 0 (by omega)).andThen fun test => ?_
  refine .unmarked (marks_mark hz (by decide)) (.one test) ?_
  exact (hexpression.closedBy (.of_isMark hz (by decide))).andThen fun yes => hexpression.giving _

omit hz in
theorem joined_succ (level : Nat)
    (h : 32 * n + (18 - min level 11) ≤ min (fuel + 1) (fuel' + 1) + 32) :
    Agree z n (Parser.joined (fuel + 1) level) (Parser.joined (fuel' + 1) level) := by
  change Agree z n (fun r => _) fun r => _
  simp only [Parser.joined]
  by_cases hlevel : level < jointLevels
  · simp only [hlevel, if_true]
    rw [jointLevels] at hlevel
    exact (ih.joined (level + 1) (by omega)).andThen fun lhs => ih.joinedTail level lhs (by omega)
  · simp only [hlevel, if_false]
    rw [jointLevels] at hlevel
    exact ih.power (by omega)

theorem joinedTail_succ (level : Nat) (x : Node)
    (h : 32 * n + 1 ≤ min (fuel + 1) (fuel' + 1) + 32) :
    Agree z n (Parser.joinedTail (fuel + 1) level x) (Parser.joinedTail (fuel' + 1) level x) := by
  refine .ofScan (scans_jointAt hz level) (.one x) (fun joint =>
    (ih.joined (level + 1) (by omega)).andThen fun rhs =>
      ih.joinedTail level (joint.build x rhs) (by omega)) (fun r => ?_) fun r => ?_
  all_goals
    rw [Parser.joinedTail]
    cases jointAt level r <;> rfl

theorem power_succ (h : 32 * n + 6 ≤ min (fuel + 1) (fuel' + 1) + 32) :
    Agree z n (Parser.power (fuel + 1)) (Parser.power (fuel' + 1)) := by
  have htest (r : List Char) : (unaryAt (r ++ z)).isSome = (unaryAt r).isSome := by
    rw [(scans_unaryAt hz).behind, Option.isSome_map]
  have hraised (base : Node) := Agree.unmarked (marks_mark hz (s := "**") (by decide)) (.one base)
    ((ih.power (n := n - 1) (by omega)).giving (Node.power base ·))
  refine .ofTest (p := fun r => (unaryAt r).isSome) htest (ih.unary (by omega))
    ((ih.update (by omega)).andThen hraised) (fun r => ?_) fun r => ?_
  all_goals
    rw [Parser.power]
    cases unaryAt r <;> rfl

theorem unary_succ (h : 32 * n + 5 ≤ min (fuel + 1) (fuel' + 1) + 32) :
    Agree z n (Parser.unary (fuel + 1)) (Parser.unary (fuel' + 1)) := by
  refine .ofScan (scans_unaryAt hz) (ih.update (by omega))
    (fun op => (ih.unary (by omega)).giving (.unary op ·)) (fun r => ?_) fun r => ?_
  all_goals
    rw [Parser.unary]
    cases unaryAt r <;> rfl

omit ih in
/-- What may be an update of an operand, or two operators behind it. -/
theorem postfix_agrees (x : Node) :
    Agree z n
      (fun r => match updateAt r with
        | some (op, r') => [(.postfixUpdate x op, r'), (x, r)]
        | none => one x r)
      fun r => match updateAt r with
        | some (op, r') => [(.postfixUpdate x op, r'), (x, r)]
        | none => one x r := by
  have hboth := (Agree.ofScan (n := n) (scans_updateAt hz) .nil
    (fun op => .one (Node.postfixUpdate x op)) (fun _ => rfl) fun _ => rfl).append (.one x)
  have hsplit : (fun r => match updateAt r with
      | some (op, r') => [(.postfixUpdate x op, r'), (x, r)]
      | none => one x r) = fun r =>
      ((updateAt r).elim [] fun p => one (Node.postfixUpdate x p.1) p.2) ++ one x r := by
    funext r
    cases updateAt r <;> rfl
  rw [hsplit]
  exact hboth

theorem update_succ (h : 32 * n + 4 ≤ min (fuel + 1) (fuel' + 1) + 32) :
    Agree z n (Parser.update (fuel + 1)) (Parser.update (fuel' + 1)) := by
  refine .ofScan (scans_updateAt hz)
    ((ih.operand (by omega)).andThen fun x => postfix_agrees hz x)
    (fun op => (ih.unary (by omega)).giving (.prefixUpdate op ·)) (fun r => ?_) fun r => ?_
  all_goals
    rw [Parser.update]
    cases updateAt r <;> rfl

/-! ## Operands and their links -/

theorem operand_succ (h : 32 * n + 3 ≤ min (fuel + 1) (fuel' + 1) + 32) :
    Agree z n (Parser.operand (fuel + 1)) (Parser.operand (fuel' + 1)) := by
  change Agree z n (fun r => _) fun r => _
  simp only [Parser.operand]
  refine .mark ((marks_keyword hz (by decide)).blanks hz) ?_ ?_
  · exact (ih.primary (by omega)).andThen fun x => ih.links x (by omega)
  · exact (ih.construction (by omega)).andThen fun x =>
      .cond _ (ih.links x.1 (by omega)) (.one x.1)

theorem construction_succ (h : 32 * n + 2 ≤ min (fuel + 1) (fuel' + 1) + 32) :
    Agree z n (Parser.construction (fuel + 1)) (Parser.construction (fuel' + 1)) := by
  change Agree z n (fun r => _) fun r => _
  simp only [Parser.construction]
  refine (Agree.mark ((marks_keyword hz (by decide)).blanks hz)
    ((ih.primary (by omega)).giving (·, true)) (ih.construction (by omega))).andThen fun x => ?_
  refine .cond _ ?_ (.one (Node.construct x.1 [], false))
  refine (ih.memberLinks x.1 (by omega)).andThen fun callee => ?_
  refine .mark (marks_mark hz (by decide)) (.one (Node.construct callee [], false)) ?_
  exact (Agree.itemsTo hz (by decide) (ih.element (by omega))).giving _

/-- The key of a link in brackets. -/
theorem bracketed {f f' : Node → List Char → Outcomes Node}
    (hf : ∀ key, Agree z (n - 1) (f key) (f' key)) (h : 32 * n ≤ min fuel fuel' + 33) :
    Agree z (n - 1) (fun r => ((Parser.expression fuel r).closedBy "]").andThen f)
      fun r => ((Parser.expression fuel' r).closedBy "]").andThen f' :=
  ((ih.expression (by omega)).closedBy (.of_isMark hz (by decide))).andThen hf

/-- The arguments of a call. -/
theorem called {f f' : List Node → List Char → Outcomes Node}
    (hf : ∀ args, Agree z (n - 1) (f args) (f' args)) (h : 32 * n ≤ min fuel fuel' + 33) :
    Agree z (n - 1) (fun r => (itemsTo ")" (Parser.element fuel) r).andThen f)
      fun r => (itemsTo ")" (Parser.element fuel') r).andThen f' :=
  (Agree.itemsTo hz (by decide) (ih.element (by omega))).andThen hf

theorem memberLinks_succ (x : Node) (h : 32 * n + 1 ≤ min (fuel + 1) (fuel' + 1) + 32) :
    Agree z n (Parser.memberLinks (fuel + 1) x) (Parser.memberLinks (fuel' + 1) x) := by
  change Agree z n (fun r => _) fun r => _
  simp only [Parser.memberLinks]
  have hlinks (x : Node) := ih.memberLinks x (n := n - 1) (by omega)
  refine .scan ((marks_mark hz (by decide)).andScan ((scans_word hz).blanks hz)) ?_
    fun w => hlinks _
  refine .mark (marks_mark hz (by decide)) ?_ (ih.bracketed hz (fun key => hlinks _) (by omega))
  exact .scan ((scans_template hz).blanks hz) (.one x) fun t => hlinks _

theorem links_succ (x : Node) (h : 32 * n + 1 ≤ min (fuel + 1) (fuel' + 1) + 32) :
    Agree z n (Parser.links (fuel + 1) x) (Parser.links (fuel' + 1) x) := by
  change Agree z n (fun r => _) fun r => _
  simp only [Parser.links]
  have hlinks (x : Node) := ih.links x (n := n - 1) (by omega)
  refine .scan ((marks_mark hz (by decide)).andScan ((scans_word hz).blanks hz)) ?_
    fun w => hlinks _
  refine .mark (marks_mark hz (by decide)) ?_ (ih.bracketed hz (fun key => hlinks _) (by omega))
  refine .mark (marks_mark hz (by decide)) ?_ (ih.called hz (fun args => hlinks _) (by omega))
  refine .scan ((scans_template hz).blanks hz) ?_ fun t => hlinks _
  exact .mark (marks_optionalAt hz) (.one x) (ih.optionalLink x (by omega))

theorem optionalLink_succ (x : Node) (h : 32 * n + 1 ≤ min (fuel + 1) (fuel' + 1) + 32) :
    Agree z n (Parser.optionalLink (fuel + 1) x) (Parser.optionalLink (fuel' + 1) x) := by
  change Agree z n (fun r => _) fun r => _
  simp only [Parser.optionalLink]
  have hlinks (x : Node) := ih.links x (n := n - 1) (by omega)
  refine .mark (marks_mark hz (by decide)) ?_ (ih.bracketed hz (fun key => hlinks _) (by omega))
  refine .mark (marks_mark hz (by decide)) ?_ (ih.called hz (fun args => hlinks _) (by omega))
  exact .scan ((scans_word hz).blanks hz) .nil fun w => hlinks _

/-! ## Primary expressions -/

theorem element_succ (h : 32 * n + 21 ≤ min (fuel + 1) (fuel' + 1) + 32) :
    Agree z n (Parser.element (fuel + 1)) (Parser.element (fuel' + 1)) := by
  change Agree z n (fun r => _) fun r => _
  simp only [Parser.element]
  exact .mark (marks_mark hz (by decide)) (ih.expression (by omega))
    ((ih.expression (by omega)).giving Node.spread)

theorem objectMember_succ (h : 32 * n + 1 ≤ min (fuel + 1) (fuel' + 1) + 32) :
    Agree z n (Parser.objectMember (fuel + 1)) (Parser.objectMember (fuel' + 1)) := by
  change Agree z n (fun r => _) fun r => _
  simp only [Parser.objectMember]
  have hcolon : Marks z (mark ":") := marks_mark hz (by decide)
  have hvalue := ih.expression (n := n - 1 - 1) (by omega)
  refine .mark (marks_mark hz (by decide)) ?_ ((ih.expression (by omega)).giving Node.spread)
  refine .scan ((scans_string hz).blanks hz) ?_ fun t => .mark hcolon .nil (hvalue.giving _)
  refine .scan ((scans_word hz).blanks hz) .nil fun w => .mark hcolon ?_ (hvalue.giving _)
  exact .cond _ .nil (.one (Node.shorthand (token .name w)))

theorem primary_succ (h : 32 * n + 1 ≤ min (fuel + 1) (fuel' + 1) + 32) :
    Agree z n (Parser.primary (fuel + 1)) (Parser.primary (fuel' + 1)) := by
  refine ⟨fun r => ((readersLeave r _).primary r (.refl r)).leaves,
    fun r => ((readersLeave r _).primary r (.refl r)).leaves, fun r hr => ?_⟩
  have hskip := skipBlanks_closing hz r
  cases hown : skipBlanks r with
  | nil =>
    rw [hown] at hskip
    obtain ⟨w, rfl, -⟩ := hz
    rw [Parser.primary, Parser.primary, hskip, hown]
    rfl
  | cons c u =>
    rw [hown, List.cons_append] at hskip
    have hsuffix : c :: u <:+ r := hown ▸ (List.dropWhile_suffix _ : skipBlanks r <:+ r)
    have hlength : (c :: u).length < n := hsuffix.length_le.trans_lt hr
    have hu : u.length < n - 1 := by
      rw [List.length_cons] at hlength
      omega
    by_cases hc : c ∈ ['(', '[', '\x7b', '/', '\x60', '\'', '"']
    · have hliteral {scan : List Char → Scan} (hs : Scans z scan) (kind : LeafKind)
          (cls : TokenClass) := (Agree.leaf hs kind cls).leaving (c :: u) hlength
      have helement := ih.element (n := n - 1) (by omega)
      have hmember := ih.objectMember (n := n - 1) (by omega)
      rw [Parser.primary, Parser.primary, hskip, hown]
      fin_cases hc
      · exact ((ih.expression (by omega)).closedBy (closes_paren hz)).leaving u hu
      · exact ((Agree.itemsToSpare hz (by decide) helement fun h =>
          ⟨element_of_bracket h _, element_of_bracket h _⟩).giving Node.array).leaving u hu
      · exact ((Agree.itemsToSpare hz (by decide) hmember fun h =>
          ⟨objectMember_of_brace h _, objectMember_of_brace h _⟩).giving Node.object).leaving u hu
      · exact hliteral (scans_regex hz) .regex .regex
      · exact hliteral (scans_template hz) .template .template
      · exact hliteral (scans_string hz) .string .string
      · exact hliteral (scans_string hz) .string .string
    · have hword : word (c :: (u ++ z)) = (word (c :: u)).map (behind z) :=
        (scans_word hz).behind (c :: u)
      rw [primary_of_plain hskip hc, primary_of_plain hown hc, hword]
      cases hw : word (c :: u) with
      | none => exact (Agree.leaf (scans_number hz) _ _).leaving (c :: u) hlength
      | some p =>
        have hp : p.2.length < n - 1 := by
          have hshort := ((scans_word hz).shorter hw).2
          omega
        simp only [Option.map_some, behind]
        split
        · exact (ih.functionRest (by omega)).leaving p.2 hp
        · rw [wordOutcomes_behind]
          exact leaving_behind z _

theorem functionRest_succ (h : 32 * n + 1 ≤ min (fuel + 1) (fuel' + 1) + 32) :
    Agree z n (Parser.functionRest (fuel + 1)) (Parser.functionRest (fuel' + 1)) := by
  change Agree z n (fun r => _) fun r => _
  simp only [Parser.functionRest]
  refine .unmarked (marks_mark hz (by decide)) .nil ?_
  refine (Agree.itemsTo hz (by decide) (ih.patternElement (by omega))).andThen fun params => ?_
  refine .unmarked ((marks_mark hz (by decide)).bind (marks_mark hz (by decide))) .nil ?_
  refine (ih.expression (by omega)).andThen fun body => ?_
  exact .mark (marks_spare hz (by decide) (by decide)) .nil (.one (Node.function params body))

/-! ## Patterns -/

theorem patternElement_succ (h : 32 * n + 2 ≤ min (fuel + 1) (fuel' + 1) + 32) :
    Agree z n (Parser.patternElement (fuel + 1)) (Parser.patternElement (fuel' + 1)) := by
  change Agree z n (fun r => _) fun r => _
  simp only [Parser.patternElement]
  refine .mark (marks_mark hz (by decide)) ?_ ((ih.bindingTarget (by omega)).giving Node.patternRest)
  exact (ih.bindingTarget (by omega)).andThen fun x => ih.defaulted x (by omega)

theorem defaulted_succ (x : Node) (h : 32 * n + 1 ≤ min (fuel + 1) (fuel' + 1) + 32) :
    Agree z n (Parser.defaulted (fuel + 1) x) (Parser.defaulted (fuel' + 1) x) := by
  change Agree z n (fun r => _) fun r => _
  simp only [Parser.defaulted]
  exact .mark (marks_mark hz (by decide)) (.one x) ((ih.ternary (by omega)).giving _)

theorem bindingTarget_succ (h : 32 * n + 1 ≤ min (fuel + 1) (fuel' + 1) + 32) :
    Agree z n (Parser.bindingTarget (fuel + 1)) (Parser.bindingTarget (fuel' + 1)) := by
  change Agree z n (fun r => _) fun r => _
  simp only [Parser.bindingTarget]
  refine .mark (marks_mark hz (by decide)) ?_
    ((Agree.itemsTo hz (by decide) (ih.patternElement (by omega))).giving Node.arrayPattern)
  refine .mark (marks_mark hz (by decide)) ?_
    ((Agree.itemsTo hz (by decide) (ih.objectPatternItem (by omega))).giving Node.objectPattern)
  exact .scan (scans_plainName hz) .nil fun w => .one (Node.bindingName (token .name w))

theorem objectPatternItem_succ (h : 32 * n + 1 ≤ min (fuel + 1) (fuel' + 1) + 32) :
    Agree z n (Parser.objectPatternItem (fuel + 1)) (Parser.objectPatternItem (fuel' + 1)) := by
  change Agree z n (fun r => _) fun r => _
  simp only [Parser.objectPatternItem]
  refine .mark (marks_mark hz (by decide)) ?_
    (.scan (scans_plainName hz) .nil fun w => .one (Node.patternRest (.bindingName (token .name w))))
  refine .unscanned ((scans_word hz).blanks hz) .nil fun w => ?_
  refine .mark (marks_mark hz (by decide)) ?_ ((ih.patternElement (by omega)).giving _)
  exact .cond _ .nil (ih.defaulted _ (by omega))

end ReadersAgree

/-- Without fuel there is no text to agree on. -/
theorem readersAgree_of_idle {z : List Char} {fuel fuel' : Nat} (h : min fuel fuel' = 0) :
    ReadersAgree z fuel fuel' := by
  have idle {α : Type} {f : Nat → List Char → Outcomes α} {P : α → Prop} {n : Nat} (hn : n = 0)
      (hread : ∀ fuel r, ReadersDraw r (fun _ => True) fuel → (f fuel r).Draws r P) :
      Agree z n (f fuel) (f fuel') := by
    subst hn
    exact ⟨fun r => (hread fuel r (readersLeave r fuel)).leaves,
      fun r => (hread fuel' r (readersLeave r fuel')).leaves, fun r hr => absurd hr (by simp)⟩
  exact
    { expression := fun hn => idle (by omega) fun _ r h => h.expression r (.refl r)
      arrowHead := fun hn => idle (by omega) fun _ r h => h.arrowHead r (.refl r)
      ternary := fun hn => idle (by omega) fun _ r h => h.ternary r (.refl r)
      joined := fun level _ hn => idle (f := (joined · level)) (by omega) fun _ r h =>
        h.joined level r (.refl r)
      joinedTail := fun level x _ hn => idle (f := (joinedTail · level x)) (by omega)
        fun _ r h => h.joinedTail level x r (.refl r) trivial
      power := fun hn => idle (by omega) fun _ r h => h.power r (.refl r)
      unary := fun hn => idle (by omega) fun _ r h => h.unary r (.refl r)
      update := fun hn => idle (by omega) fun _ r h => h.update r (.refl r)
      operand := fun hn => idle (by omega) fun _ r h => h.operand r (.refl r)
      construction := fun hn => idle (by omega) fun _ r h => h.construction r (.refl r)
      memberLinks := fun x _ hn => idle (by omega) fun _ r h => h.memberLinks x r (.refl r) trivial
      links := fun x _ hn => idle (by omega) fun _ r h => h.links x r (.refl r) trivial
      optionalLink := fun x _ hn => idle (by omega) fun _ r h =>
        h.optionalLink x r (.refl r) trivial
      element := fun hn => idle (by omega) fun _ r h => h.element r (.refl r)
      objectMember := fun hn => idle (by omega) fun _ r h => h.objectMember r (.refl r)
      primary := fun hn => idle (by omega) fun _ r h => h.primary r (.refl r)
      functionRest := fun hn => idle (by omega) fun _ r h => h.functionRest r (.refl r)
      patternElement := fun hn => idle (by omega) fun _ r h => h.patternElement r (.refl r)
      defaulted := fun x _ hn => idle (by omega) fun _ r h => h.defaulted x r (.refl r) trivial
      bindingTarget := fun hn => idle (by omega) fun _ r h => h.bindingTarget r (.refl r)
      objectPatternItem := fun hn => idle (by omega) fun _ r h => h.objectPatternItem r (.refl r) }

theorem readersAgree {z : List Char} (hz : Closing z) (fuel fuel' : Nat) :
    ReadersAgree z fuel fuel' := by
  induction fuel generalizing fuel' with
  | zero => exact readersAgree_of_idle (Nat.zero_min _)
  | succ fuel ih =>
    cases fuel' with
    | zero => exact readersAgree_of_idle (Nat.min_zero _)
    | succ fuel' =>
      have ih := ih fuel'
      exact
        { expression := ih.expression_succ hz
          arrowHead := ih.arrowHead_succ hz
          ternary := ih.ternary_succ hz
          joined := fun level => ih.joined_succ level
          joinedTail := fun level x => ih.joinedTail_succ hz level x
          power := ih.power_succ hz
          unary := ih.unary_succ hz
          update := ih.update_succ hz
          operand := ih.operand_succ hz
          construction := ih.construction_succ hz
          memberLinks := fun x => ih.memberLinks_succ hz x
          links := fun x => ih.links_succ hz x
          optionalLink := fun x => ih.optionalLink_succ hz x
          element := ih.element_succ hz
          objectMember := ih.objectMember_succ hz
          primary := ih.primary_succ hz
          functionRest := ih.functionRest_succ hz
          patternElement := ih.patternElement_succ hz
          defaulted := fun x => ih.defaulted_succ hz x
          bindingTarget := ih.bindingTarget_succ hz
          objectPatternItem := ih.objectPatternItem_succ hz }

end Parser

end Comprehend
