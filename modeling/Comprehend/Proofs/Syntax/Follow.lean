import Comprehend.Proofs.Syntax.Outcome
import Comprehend.Proofs.Syntax.Token
import Comprehend.Syntax.Printer
import Mathlib.Tactic.IntervalCases
import Mathlib.Tactic.FinCases

/-! # What can follow an operand

An operand is read to its end only where no operator or link that binds as tightly goes on with it.
`Ends` says so for each level of the grammar, from the loosest to the links. -/

namespace Comprehend.Parser

open Comprehend.Text Comprehend.Lexeme

/-- No link comes next. -/
structure Unlinked (rest : List Char) : Prop where
  dot : mark "." rest = none
  bracket : mark "[" rest = none
  paren : mark "(" rest = none
  template : template (skipBlanks rest) = none
  optional : optionalAt rest = none

/-- Nothing that comes next goes on with an operand of a level. -/
structure Ends (level : Nat) (rest : List Char) : Prop where
  free : Free rest
  links : level ≤ 17 → Unlinked rest
  update : level ≤ 16 → updateAt rest = none
  power : level ≤ 14 → mark "**" rest = none
  joint : ∀ k, level ≤ 2 + k → jointAt k rest = none
  question : level ≤ 1 → mark "?" rest = none
  arrow : level ≤ 1 → mark "=>" rest = none

theorem Ends.mono {s t : Nat} {rest : List Char} (h : Ends s rest) (hst : s ≤ t) : Ends t rest where
  free := h.free
  links ht := h.links (hst.trans ht)
  update ht := h.update (hst.trans ht)
  power ht := h.power (hst.trans ht)
  joint k ht := h.joint k (hst.trans ht)
  question ht := h.question (hst.trans ht)
  arrow ht := h.arrow (hst.trans ht)

/-- Nothing tells the two loosest levels apart. -/
theorem Ends.loosest {rest : List Char} (h : Ends 1 rest) : Ends 0 rest where
  free := h.free
  links _ := h.links (by omega)
  update _ := h.update (by omega)
  power _ := h.power (by omega)
  joint k _ := h.joint k (by omega)
  question _ := h.question (Nat.le_refl 1)
  arrow _ := h.arrow (Nat.le_refl 1)

/-- The characters that nothing goes on with. -/
def isStop (c : Char) : Bool := ",)]\x7d:;".toList.contains c

theorem skipBlanks_of_ne {c : Char} (hc : isBlank c = false) (cs : List Char) :
    skipBlanks (c :: cs) = c :: cs := by
  rw [skipBlanks, List.dropWhile_cons, hc]
  rfl

theorem free_of_skipBlanks {rest : List Char} (h : Free (skipBlanks rest)) : Free rest := by
  cases rest with
  | nil => exact free_nil
  | cons c cs =>
    cases hc : isBlank c with
    | false => rwa [skipBlanks_of_ne hc] at h
    | true =>
      simp only [isBlank, Bool.or_eq_true, beq_iff_eq] at hc
      rcases hc with (((rfl | rfl) | rfl) | rfl) | rfl <;> rfl

theorem isStop_cases {c : Char} (h : isStop c = true) :
    c = ',' ∨ c = ')' ∨ c = ']' ∨ c = '\x7d' ∨ c = ':' ∨ c = ';' := by
  simpa [isStop] using h

/-- The end of a text, or a character that nothing goes on with. -/
def Stops (rest : List Char) : Prop :=
  skipBlanks rest = [] ∨ ∃ c cs, skipBlanks rest = c :: cs ∧ isStop c = true

theorem Stops.mark_eq_none {rest : List Char} (h : Stops rest) {spelling : String} {a : Char}
    {as : List Char} (hs : spelling.toList = a :: as) (ha : isStop a = false) :
    mark spelling rest = none := by
  rw [mark, after, hs]
  rcases h with h | ⟨c, cs, h, hc⟩ <;> rw [h]
  · rfl
  · have : a ≠ c := by
      rintro rfl
      rw [ha] at hc
      cases hc
    simp [List.isPrefixOf?, this]

theorem Ends.of_stops {rest : List Char} (h : Stops rest) : Ends 0 rest := by
  have free : Free (skipBlanks rest) := by
    rcases h with h | ⟨c, cs, h, hc⟩ <;> rw [h]
    · rfl
    · rcases isStop_cases hc with rfl | rfl | rfl | rfl | rfl | rfl <;> rfl
  have hmark {spelling : String} {a : Char} {as : List Char} (hs : spelling.toList = a :: as)
      (ha : isStop a = false) : mark spelling rest = none := h.mark_eq_none hs ha
  have hupdate : updateAt rest = none := by
    rw [updateAt]
    rcases h with h | ⟨c, cs, h, hc⟩ <;> rw [h]
    · rfl
    · rcases isStop_cases hc with rfl | rfl | rfl | rfl | rfl | rfl <;> rfl
  have hjoint (k : Nat) : jointAt k rest = none := by
    unfold jointAt
    rcases h with h | ⟨c, cs, h, hc⟩ <;> rw [h]
    · split <;> rfl
    · rcases isStop_cases hc with rfl | rfl | rfl | rfl | rfl | rfl <;> split <;> rfl
  have htemplate : template (skipBlanks rest) = none := by
    rcases h with h | ⟨c, cs, h, hc⟩ <;> rw [h]
    · rfl
    · rcases isStop_cases hc with rfl | rfl | rfl | rfl | rfl | rfl <;> rfl
  have hoptional : optionalAt rest = none := by
    rw [optionalAt, hmark rfl rfl]
    rfl
  exact ⟨free_of_skipBlanks free,
    fun _ => ⟨hmark rfl rfl, hmark rfl rfl, hmark rfl rfl, htemplate, hoptional⟩,
    fun _ => hupdate, fun _ => hmark rfl rfl, fun k _ => hjoint k, fun _ => hmark rfl rfl,
    fun _ => hmark rfl rfl⟩

theorem Stops.of_closes {rest : List Char} (h : closes rest = true) : Stops rest := by
  unfold closes at h
  split at h
  · exact .inl ‹_›
  · next c cs hc =>
    refine .inr ⟨c, cs, hc, ?_⟩
    simp_all [isStop]
    grind

theorem Ends.of_closes {rest : List Char} (h : closes rest = true) : Ends 0 rest :=
  .of_stops (.of_closes h)

/-- The spellings of the operators of a group. -/
def spellings : OperatorGroup → List String
  | .bitOr => ["|"]
  | .bitXor => ["^"]
  | .bitAnd => ["&"]
  | .equality => ["===", "!==", "==", "!="]
  | .relational => ["instanceof", "in", "<=", ">=", "<", ">"]
  | .shift => [">>>", "<<", ">>"]
  | .additive => ["+", "-"]
  | .multiplicative => ["*", "/", "%"]

/-- An operator between two operands, set off from both. -/
def infixed (op : String) (v : List Char) : List Char := ' ' :: (op.toList ++ ' ' :: v)

theorem jointAt_infixed {group : OperatorGroup} {op : String} (h : op ∈ spellings group)
    (v : List Char) :
    jointAt (group.precedence - 2) (infixed op v) = some (.binary group op, ' ' :: v) := by
  cases group <;> fin_cases h <;> rfl

theorem jointAt_infixed_eq_none {group : OperatorGroup} {op : String} (h : op ∈ spellings group)
    (v : List Char) {k : Nat} (hk : group.precedence + 1 ≤ 2 + k) :
    jointAt k (infixed op v) = none := by
  by_cases hlast : k < 11
  · replace hk : group.precedence - 1 ≤ k := by omega
    cases group <;> simp only [OperatorGroup.precedence] at hk <;> interval_cases k <;>
      fin_cases h <;> rfl
  · obtain ⟨k, rfl⟩ : ∃ m, k = m + 11 := ⟨k - 11, by omega⟩
    rfl

theorem Ends.binary {group : OperatorGroup} {op : String} (h : op ∈ spellings group) (v : List Char) :
    Ends (group.precedence + 1) (infixed op v) where
  free := rfl
  links _ := by cases group <;> fin_cases h <;> exact ⟨rfl, rfl, rfl, rfl, rfl⟩
  update _ := by cases group <;> fin_cases h <;> rfl
  power _ := by cases group <;> fin_cases h <;> rfl
  joint _ hk := jointAt_infixed_eq_none h v hk
  question _ := by cases group <;> fin_cases h <;> rfl
  arrow _ := by cases group <;> fin_cases h <;> rfl

/-- The level of a logical operator. -/
def logicalLevel : LogicalOp → Nat
  | .coalesce => 0
  | .or => 1
  | .and => 2

theorem jointAt_logical (op : LogicalOp) (v : List Char) :
    jointAt (logicalLevel op) (infixed op.text v) = some (.logical op, ' ' :: v) := by
  cases op <;> rfl

theorem Ends.logical (op : LogicalOp) (v : List Char) :
    Ends (3 + logicalLevel op) (infixed op.text v) where
  free := rfl
  links _ := by cases op <;> exact ⟨rfl, rfl, rfl, rfl, rfl⟩
  update _ := by cases op <;> rfl
  power _ := by cases op <;> rfl
  joint k hk := by
    by_cases hlast : k < 11
    · cases op <;> simp only [logicalLevel] at hk <;> interval_cases k <;> first | rfl | omega
    · obtain ⟨k, rfl⟩ : ∃ m, k = m + 11 := ⟨k - 11, by omega⟩
      rfl
  question h := by omega
  arrow h := by omega

theorem Ends.question_mark (v : List Char) : Ends 2 (infixed "?" v) where
  free := rfl
  links _ := ⟨rfl, rfl, rfl, rfl, rfl⟩
  update _ := rfl
  power _ := rfl
  joint k _ := by
    unfold jointAt
    split <;> rfl
  question h := by omega
  arrow h := by omega

theorem Ends.power_mark (v : List Char) : Ends 16 (infixed "**" v) where
  free := rfl
  links _ := ⟨rfl, rfl, rfl, rfl, rfl⟩
  update _ := rfl
  power h := by omega
  joint k hk := by
    obtain ⟨k, rfl⟩ : ∃ m, k = m + 11 := ⟨k - 11, by omega⟩
    rfl
  question h := by omega
  arrow h := by omega

theorem Ends.update_mark {op : String} (h : op = "++" ∨ op = "--") (v : List Char) :
    Ends 17 (op.toList ++ v) := by
  refine ⟨?_, fun _ => ?_, fun h => by omega, fun h => by omega, fun k hk => ?_, fun h => by omega,
    fun h => by omega⟩
  · rcases h with rfl | rfl <;> rfl
  · rcases h with rfl | rfl <;> exact ⟨rfl, rfl, rfl, rfl, rfl⟩
  · obtain ⟨k, rfl⟩ : ∃ m, k = m + 11 := ⟨k - 11, by omega⟩
    rfl

/-! ## Text that a pattern does not run over

A text in parentheses is also tried as the parameters of an arrow function. Read as a pattern, an
expression is taken to its end or left in front of something that no pattern goes on with. -/

/-- Nothing is read as an operand, with operators or without. -/
structure NoOperand (fuel : Nat) (cs : List Char) : Prop where
  ternary : ternary fuel cs = []
  joined : ∀ level, joined fuel level cs = []
  power : power fuel cs = []
  update : update fuel cs = []
  operand : operand fuel cs = []

/-- Where no operator stands, an operand starts with a primary expression. -/
theorem noOperand {cs : List Char} (hunary : unaryAt cs = none) (hupdate : updateAt cs = none)
    (hnew : keyword "new" (skipBlanks cs) = none) (hprimary : ∀ fuel, primary fuel cs = [])
    (fuel : Nat) : NoOperand fuel cs := by
  induction fuel with
  | zero => constructor <;> intros <;> rfl
  | succ fuel ih =>
    constructor
    · rw [Parser.ternary, ih.joined, andThen_nil]
    · intro level
      rw [Parser.joined]
      split
      · rw [ih.joined, andThen_nil]
      · exact ih.power
    · rw [Parser.power, hunary]
      simp only [ih.update, andThen_nil]
    · rw [Parser.update, hupdate]
      simp only [ih.operand, andThen_nil]
    · rw [Parser.operand, hnew]
      simp only [hprimary, andThen_nil]

/-- No expression starts with the rest of an operator that an equal sign starts, or with the bracket
that closes a list. -/
structure Dead (fuel : Nat) (cs : List Char) : Prop extends NoOperand fuel cs where
  expression : expression fuel cs = []

theorem dead {c : Char} (hc : c ∈ ['=', '>', ']']) {cs r : List Char}
    (hskip : skipBlanks cs = c :: r) (fuel : Nat) : Dead fuel cs := by
  have hunary : unaryAt cs = none := by
    rw [unaryAt, hskip]
    fin_cases hc <;> rfl
  have hupdate : updateAt cs = none := by
    rw [updateAt, hskip]
    fin_cases hc <;> rfl
  have hnew : keyword "new" (skipBlanks cs) = none := by
    rw [hskip]
    fin_cases hc <;> rfl
  have hparen : mark "(" cs = none := by
    rw [mark, hskip]
    fin_cases hc <;> rfl
  have hname : plainName cs = none := by
    rw [plainName, hskip]
    fin_cases hc <;> rfl
  have hprimary (fuel : Nat) : primary fuel cs = [] := by
    cases fuel with
    | zero => rfl
    | succ fuel =>
      rw [primary, hskip]
      fin_cases hc <;> rfl
  have hhead (fuel : Nat) : arrowHead fuel cs = [] := by
    cases fuel with
    | zero => rfl
    | succ fuel =>
      rw [arrowHead, hparen]
      simp only [hname]
  refine ⟨noOperand hunary hupdate hnew hprimary fuel, ?_⟩
  cases fuel with
  | zero => rfl
  | succ fuel =>
    rw [Parser.expression, hhead]
    exact (noOperand hunary hupdate hnew hprimary fuel).ternary

/-- No pattern goes on or ends here: what comes next is neither a comma nor a bracket, and no
default follows an equal sign. -/
structure Stuck (cs : List Char) : Prop where
  comma : mark "," cs = none
  paren : mark ")" cs = none
  bracket : mark "]" cs = none
  brace : mark "\x7d" cs = none
  default : ∀ r, mark "=" cs = some r → ∀ fuel, ternary fuel r = []

theorem Stuck.of_equal {cs r : List Char} {c : Char} (h : skipBlanks cs = '=' :: c :: r)
    (hc : c = '=' ∨ c = '>') : Stuck cs := by
  have hmark {spelling : String} {a : Char} {as : List Char} (hs : spelling.toList = a :: as)
      (ha : a ≠ '=') : mark spelling cs = none := by
    rw [mark, after, hs, h]
    simp [List.isPrefixOf?, ha]
  refine ⟨hmark rfl (by decide), hmark rfl (by decide), hmark rfl (by decide),
    hmark rfl (by decide), fun t ht fuel => ?_⟩
  rw [mark, h] at ht
  cases ht
  have hskip : skipBlanks (c :: r) = c :: r := by rcases hc with rfl | rfl <;> rfl
  exact (dead (by rcases hc with rfl | rfl <;> decide) hskip fuel).ternary

theorem Stuck.of_mark {cs : List Char} (hcomma : mark "," cs = none) (hparen : mark ")" cs = none)
    (hbracket : mark "]" cs = none) (hbrace : mark "\x7d" cs = none) (he : mark "=" cs = none) :
    Stuck cs :=
  ⟨hcomma, hparen, hbracket, hbrace, fun r h => by rw [he] at h; cases h⟩

/-- What goes on with an expression. -/
structure GoesOn (cs : List Char) : Prop where
  free : Free cs
  stuck : Stuck cs
  arrow : mark "=>" cs = none

theorem GoesOn.binary {group : OperatorGroup} {op : String} (h : op ∈ spellings group)
    (v : List Char) : GoesOn (infixed op v) := by
  cases group <;> fin_cases h <;>
    refine ⟨rfl, ?_, rfl⟩ <;>
    first
    | exact .of_equal rfl (.inl rfl)
    | exact .of_mark rfl rfl rfl rfl rfl

theorem GoesOn.logical (op : LogicalOp) (v : List Char) : GoesOn (infixed op.text v) := by
  cases op <;> exact ⟨rfl, .of_mark rfl rfl rfl rfl rfl, rfl⟩

end Comprehend.Parser
