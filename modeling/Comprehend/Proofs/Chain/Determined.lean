import Comprehend.Proofs.Chain.Level

/-! # What a chain says of its comprehension

The operands of a comprehension are read in one order, the yield first and then the clauses from the
innermost out, and the first of them that is refused is why there is no chain. Where operands are taken
verbatim only a plain loop variable can be refused, and a chain has the yield and every part of every
clause at a place of its own: they can be read back from it, so no two comprehensions share a chain. -/

namespace Comprehend.Chain

/-! ## The order of operands -/

/-- Something that a reader is asked for. -/
inductive Operand
  | expression (text : String)
  | binding (clause : Clause)

/-- What there is to read in a clause, in order. -/
def clauseOperands (clause : Clause) : List Operand :=
  .expression clause.iterable :: .binding clause :: clause.condition.toList.map .expression

/-- What there is to read in a comprehension, in order. -/
def operands (yield : String) (clauses : List Clause) : List Operand :=
  .expression yield :: clauses.reverse.flatMap clauseOperands

def refusal? (result : Except Fault α) : Option Fault :=
  match result with
  | .ok _ => none
  | .error fault => some fault

/-- Why an operand is refused, if it is. -/
def Operand.refusal? (reader : OperandReader) : Operand → Option Fault
  | .expression text => Chain.refusal? (reader.expression text)
  | .binding clause => Chain.refusal? (Chain.binding reader clause)

section

variable {reader : OperandReader} {clause : Clause} {clauses : List Clause} {yield : String}
  {fault : Fault}

theorem refusal?_eq_some {a : Except Fault α} : refusal? a = some fault ↔ a = .error fault := by
  cases a <;> simp [refusal?]

theorem refusal?_eq_none {a : Except Fault α} : refusal? a = none ↔ ∃ x, a = .ok x := by
  cases a <;> simp [refusal?]

theorem findSome?_cons_or {f : Operand → Option Fault} {operand : Operand} {rest : List Operand} :
    (operand :: rest).findSome? f = (f operand).or (rest.findSome? f) := by
  rw [List.findSome?_cons]
  cases f operand <;> rfl

/-- A second step that is refused alike whatever the first one gives. -/
theorem refusal?_bind {a : Except Fault α} {f : α → Except Fault β} {later : Option Fault}
    (h : ∀ x, refusal? (f x) = later) : refusal? (a >>= f) = (refusal? a).or later := by
  cases a with
  | error fault => rfl
  | ok x => exact h x

theorem refusal?_level (op : Combinator) (body : Node) :
    refusal? (level reader clause op body) =
      (clauseOperands clause).findSome? (·.refusal? reader) := by
  rw [level, clauseOperands, findSome?_cons_or, findSome?_cons_or]
  refine refusal?_bind fun source => refusal?_bind fun param => ?_
  cases clause.condition with
  | none => rfl
  | some condition =>
    rw [Option.toList_some, List.map_singleton, findSome?_cons_or]
    exact refusal?_bind fun test => rfl

theorem refusal?_fold (body : Node) :
    refusal? (fold reader body clauses) =
      (clauses.reverse.flatMap clauseOperands).findSome? (·.refusal? reader) := by
  induction clauses with
  | nil => rfl
  | cons clause rest ih =>
    rw [List.reverse_cons, List.flatMap_append, List.findSome?_append, List.flatMap_singleton, ← ih]
    cases rest with
    | nil => exact refusal?_level .map body
    | cons next rest => exact refusal?_bind fun inner => refusal?_level .flatMap inner

/-- The first operand that is refused is why there is no chain. -/
theorem refusal?_build {maxClauses : Int} (hne : clauses ≠ []) (hmax : clauses.length ≤ maxClauses) :
    refusal? (build reader maxClauses yield clauses) =
      (operands yield clauses).findSome? (·.refusal? reader) := by
  rw [build, if_neg (by simpa using hne), if_neg (by omega), operands, findSome?_cons_or]
  exact refusal?_bind fun body => refusal?_fold body

/-- A number of clauses that is none or too many is refused whatever the reader makes of them. -/
theorem build_of_depth {maxClauses : Int} (h : clauses = [] ∨ maxClauses < clauses.length) :
    ∃ fault : Fault, fault.family = .depth ∧ fault.depth = clauses.length ∧
      ∀ reader, build reader maxClauses yield clauses = .error fault := by
  cases clauses with
  | nil => exact ⟨.noClauses, rfl, rfl, fun reader => build_nil reader maxClauses yield⟩
  | cons clause rest =>
    have hmany := h.resolve_left (List.cons_ne_nil clause rest)
    refine ⟨.tooManyClauses (clause :: rest).length maxClauses, rfl, rfl, fun reader => ?_⟩
    rw [build, if_neg (by simp), if_pos hmany]

end

/-! ## Operands taken verbatim -/

def verbatimExpression (text : String) : Node := .other "stub" [.token ⟨.other "TEXT", text⟩]

def verbatimPattern (text : String) : Node := .other "pattern" [.token ⟨.other "TEXT", text⟩]

def verbatimParam (clause : Clause) : Param :=
  if clause.isDestructuring then .pattern (verbatimPattern clause.pattern) else .name clause.pattern

/-- The level of a clause whose operands are taken verbatim. -/
def verbatimLevel (clause : Clause) : Level :=
  ⟨verbatimExpression clause.iterable, verbatimParam clause, clause.condition.map verbatimExpression⟩

section

variable {clause : Clause} {clauses : List Clause} {yield : String} {maxClauses : Int} {g : Node}

theorem binding_verbatim {param : Param} (h : binding .verbatim clause = .ok param) :
    param = verbatimParam clause := by
  unfold binding at h
  unfold verbatimParam
  split_ifs at h ⊢ with hd
  · cases h
    rfl
  · cases hv : Variable.validate clause.pattern with
    | error fault =>
      rw [hv] at h
      cases h
    | ok u =>
      rw [hv] at h
      cases h
      rfl

theorem refusal?_verbatim (operand : Operand) (fault : Fault) :
    operand.refusal? .verbatim = some fault ↔ ∃ clause, operand = .binding clause ∧
      clause.isDestructuring = false ∧ Variable.validate clause.pattern = .error fault := by
  cases operand with
  | expression text => simp [Operand.refusal?, refusal?, OperandReader.verbatim]
  | binding clause =>
    simp only [Operand.refusal?, refusal?_eq_some, Operand.binding.injEq, exists_eq_left', binding]
    cases clause.isDestructuring with
    | true => simp [OperandReader.verbatim, Except.map]
    | false => cases Variable.validate clause.pattern <;> simp [Except.map]

theorem binding_mem_operands :
    .binding clause ∈ operands yield clauses ↔ clause ∈ clauses := by
  simp [operands, clauseOperands]

/-- Verbatim there is a chain where the plain loop variables can be variables. -/
theorem exists_build_verbatim (hne : clauses ≠ []) (hmax : clauses.length ≤ maxClauses) :
    (∃ g, build .verbatim maxClauses yield clauses = .ok g) ↔
      ∀ clause ∈ clauses, clause.isDestructuring = false →
        Variable.validate clause.pattern = .ok () := by
  rw [← refusal?_eq_none, refusal?_build hne hmax, List.findSome?_eq_none_iff]
  constructor
  · intro h clause hclause hd
    cases hv : Variable.validate clause.pattern with
    | ok u => rfl
    | error fault =>
      have hnone := h _ (binding_mem_operands.2 hclause)
      rw [(refusal?_verbatim _ fault).2 ⟨clause, rfl, hd, hv⟩] at hnone
      cases hnone
  · refine fun h operand hoperand => Option.eq_none_iff_forall_ne_some.2 fun fault hfault => ?_
    obtain ⟨clause, rfl, hd, hv⟩ := (refusal?_verbatim operand fault).1 hfault
    rw [h clause (binding_mem_operands.1 hoperand) hd] at hv
    cases hv

theorem eq_verbatimLevel {l : Level} (h : l.Reads .verbatim clause) : l = verbatimLevel clause := by
  obtain ⟨source, param, condition⟩ := l
  have hsource : verbatimExpression clause.iterable = source := Except.ok.inj h.source
  have hparam : param = verbatimParam clause := binding_verbatim h.param
  have hcondition : condition = clause.condition.map verbatimExpression := by
    have hc := h.condition
    generalize clause.condition = text at hc ⊢
    cases hc with
    | none => rfl
    | some ht => exact congrArg some (Except.ok.inj ht).symm
  rw [verbatimLevel, hsource, hparam, hcondition]

/-- Verbatim a chain is the nest of its clauses, each as it stands. -/
theorem eq_nest_of_build (h : build .verbatim maxClauses yield clauses = .ok g) :
    g = nest (verbatimExpression yield) (clauses.map verbatimLevel) := by
  obtain ⟨body, l, ls, hy, hls, rfl⟩ := build_ok h
  cases hy
  have hlevels : l :: ls = clauses.map verbatimLevel := by
    clear h
    generalize l :: ls = levels at hls
    induction hls with
    | nil => rfl
    | cons hl _ ih => rw [List.map_cons, ← eq_verbatimLevel hl, ← ih]
  rw [hlevels]
  rfl

/-! ## Reading back -/

/-- The links of a chain, outermost first. -/
def links : Node → List Combinator
  | .chain op _ _ body => op :: links body
  | _ => []

theorem links_nest {body : Node} (hbody : body.isChain = false) (l : Level) (ls : List Level) :
    links (nest body (l :: ls)) = List.replicate ls.length .flatMap ++ [.map] := by
  induction ls generalizing l with
  | nil =>
    have hnone : links body = [] := by cases body <;> simp_all [links, Node.isChain]
    rw [nest, links, hnone]
    rfl
  | cons k ls ih =>
    rw [nest, links, ih k]
    · rfl
    · simp

/-- The text of an operand that was taken verbatim. -/
def verbatimText? : Node → Option String
  | .other _ [.token t] => some t.text
  | _ => none

def patternText? : Param → Option String
  | .name text => some text
  | .pattern p => verbatimText? p

/-- The clause of a level. A filter right on what it goes through, which binds the same, is its
condition. -/
def clause? (source : Node) (param : Param) : Option Clause := do
  let pattern ← patternText? param
  match source with
  | .chain .filter iterable filtered test =>
    if patternText? filtered = some pattern then
      return ⟨pattern, ← verbatimText? iterable, some (← verbatimText? test)⟩
    else none
  | iterable => return ⟨pattern, ← verbatimText? iterable, none⟩

/-- The yield and the clauses of a chain. -/
def readBack : Node → Option (String × List Clause)
  | .chain _ source param body => do
    let (yield, clauses) ← readBack body
    return (yield, (← clause? source param) :: clauses)
  | x => (verbatimText? x).map (·, [])

theorem patternText?_verbatim (clause : Clause) :
    patternText? (verbatimParam clause) = some clause.pattern := by
  unfold verbatimParam
  split <;> rfl

theorem clause?_verbatim (clause : Clause) :
    clause? (verbatimLevel clause).filtered (verbatimLevel clause).param = some clause := by
  have hpattern := patternText?_verbatim clause
  obtain ⟨pattern, iterable, condition⟩ := clause
  cases condition <;>
    simp [clause?, verbatimLevel, Level.filtered, hpattern, verbatimExpression, verbatimText?]

theorem readBack_nest (yield : String) (clauses : List Clause) :
    readBack (nest (verbatimExpression yield) (clauses.map verbatimLevel)) = some (yield, clauses) := by
  induction clauses with
  | nil => rfl
  | cons clause rest ih =>
    cases rest with
    | nil =>
      rw [List.map_cons, List.map_nil, nest, readBack, clause?_verbatim]
      rfl
    | cons next rest =>
      rw [List.map_cons, List.map_cons, nest, readBack, clause?_verbatim]
      · rw [← List.map_cons, ih]
        rfl
      · simp

/-- A chain is built from any number of clauses up to the greatest, the first operand that is refused
being the reason where there is none. Verbatim a plain loop variable is all that can be refused, and
then the chain is a map within a flattening map for each further clause, from which the yield and the
clauses can be read back. -/
theorem build_determined (maxClauses : Int) (yield : String) (clauses : List Clause) :
    (clauses = [] ∨ maxClauses < clauses.length →
      ∃ fault : Fault, fault.family = .depth ∧ fault.depth = clauses.length ∧
        ∀ reader, build reader maxClauses yield clauses = .error fault) ∧
    (clauses ≠ [] → clauses.length ≤ maxClauses →
      (∀ reader fault, build reader maxClauses yield clauses = .error fault ↔
        (operands yield clauses).findSome? (·.refusal? reader) = some fault) ∧
      ((∃ g, build .verbatim maxClauses yield clauses = .ok g) ↔
        ∀ clause ∈ clauses, clause.isDestructuring = false →
          Variable.validate clause.pattern = .ok ()) ∧
      ∀ g, build .verbatim maxClauses yield clauses = .ok g →
        g = nest (verbatimExpression yield) (clauses.map verbatimLevel) ∧
        links g = List.replicate (clauses.length - 1) .flatMap ++ [.map] ∧
        readBack g = some (yield, clauses) ∧
        ∀ maxClauses' yield' clauses', build .verbatim maxClauses' yield' clauses' = .ok g →
          yield' = yield ∧ clauses' = clauses) := by
  refine ⟨build_of_depth, fun hne hmax => ⟨fun reader fault => ?_, exists_build_verbatim hne hmax,
    fun g hg => ?_⟩⟩
  · rw [← refusal?_build hne hmax, refusal?_eq_some]
  · have hback : readBack g = some (yield, clauses) := by
      rw [eq_nest_of_build hg, readBack_nest]
    refine ⟨eq_nest_of_build hg, ?_, hback, fun maxClauses' yield' clauses' hg' => ?_⟩
    · obtain ⟨clause, rest, rfl⟩ := List.exists_cons_of_ne_nil hne
      rw [eq_nest_of_build hg, List.map_cons, links_nest rfl]
      simp
    · rw [eq_nest_of_build hg', readBack_nest] at hback
      simpa using hback

/-- Two levels, one with a pattern and one with a condition, and then two operands that are refused: the
inner condition before the outer iterable. -/
theorem build_determined_twoLevels :
    let outer : Clause := ⟨"[x]", "xs +", none⟩
    let inner : Clause := ⟨"y", "ys", some "y >"⟩
    (∃ g, build .verbatim 2 "x" [outer, inner] = .ok g ∧ links g = [.flatMap, .map] ∧
      readBack g = some ("x", [outer, inner])) ∧
    build .script 2 "x" [outer, inner] = .error (.badExpression "y >") ∧
    ∃ fault : Fault, fault.depth = 2 ∧ build .script 1 "x" [outer, inner] = .error fault := by
  intro outer inner
  obtain ⟨hread, hexists, hchain⟩ :=
    (build_determined 2 "x" [outer, inner]).2 (List.cons_ne_nil _ _) (by decide)
  refine ⟨?_, (hread .script _).2 (by decide +kernel), ?_⟩
  · obtain ⟨g, hg⟩ := hexists.2 (by decide)
    obtain ⟨-, hlinks, hback, -⟩ := hchain g hg
    exact ⟨g, hg, hlinks, hback⟩
  · obtain ⟨fault, -, hdepth, hall⟩ :=
      (build_determined 1 "x" [outer, inner]).1 (.inr (by decide))
    exact ⟨fault, hdepth, hall .script⟩

end

end Comprehend.Chain
