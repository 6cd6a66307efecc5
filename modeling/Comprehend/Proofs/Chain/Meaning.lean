import Comprehend.Proofs.Chain.Passes

/-! # What a comprehension means

A comprehension stands for nested loops, one for each clause, that gather the value of the yield.
Its chain does the same in another order: a level tests all its items before it goes on with any of
them. Nothing that the script itself does tells the two apart, so wherever the loops come to an end,
the lowered chain evaluates to an array of the same items. The functions of the host are called in
that other order too. What they answer must not hang on it, as the answers of a counter would; where
no clause has a condition the order is the same, and they may answer what they like. -/

namespace Comprehend

open Script Chain

variable {view : View}

theorem newFrame_carries {p : Pairing view} {vars vars' : Frame} (h : AlikeFields p vars vars') :
    Carries p (fun q f f' => q.frames f f') (Run.newFrame vars) (Run.newFrame vars') :=
  Simulates.carries fun left right =>
    (Simulates.newFrame (h.imp fun _ _ hf => ⟨hf.1, hf.2.sealing left right⟩)).imp
      fun _ _ _ _ hf => hf.1

/-- A level has a condition where its clause has one. -/
theorem Chain.condition_eq_none {reader : OperandReader} {cs : List Clause} {ls : List Level}
    (h : List.Forall₂ (fun c l => Level.Reads reader c l) cs ls)
    (hcs : ∀ clause ∈ cs, clause.condition = none) : ∀ l ∈ ls, l.condition = none := by
  induction h with
  | nil => exact fun _ h => absurd h List.not_mem_nil
  | @cons c l _ _ hl _ ih =>
    obtain ⟨hc, hcs⟩ := List.forall_mem_cons.1 hcs
    refine List.forall_mem_cons.2 ⟨?_, ih hcs⟩
    have hcondition := hl.condition
    rw [hc] at hcondition
    cases ht : l.condition with
    | none => rfl
    | some test =>
      rw [ht] at hcondition
      cases hcondition

section

variable [Host]

/-- The loops of a comprehension in an environment. -/
def Comprehension.run (depth : Nat) (reader : OperandReader) (environment : Frame)
    (c : Comprehension) : Attempt (List Value) := do
  let frame ← Run.newFrame environment
  loops (eval depth) reader c.yield c.clauses [frame]

/-- The passes of some levels in an environment. -/
def Chain.passesIn (depth : Nat) (environment : Frame) (yield : Node) (ls : List Level) :
    Run (List Value) := do
  let frame ← Run.newFrame environment
  (passes (eval depth) yield ls [frame]).finish

variable [Host.Respects view]

theorem run_carries {settings : Settings} {c : Comprehension} {environment : Frame} {yield : Node}
    {ls : List Level} {p : Pairing view} {depth depth' : Nat} (hd : depth ≤ depth')
    (hy : settings.reader.expression c.yield = .ok yield)
    (hc : List.Forall₂ (fun c l => Level.Reads settings.reader c l) c.clauses ls)
    (hview : view = .script ∨ ∀ clause ∈ c.clauses, clause.condition = none)
    (henv : AlikeFields p environment environment) :
    Carries p AlikeAll (c.run depth settings.reader environment).finish
      (passesIn depth' environment yield ls) := by
  simp only [Comprehension.run, Attempt.finish_bind, Attempt.finish_liftM]
  exact (newFrame_carries henv).bind fun q f f' _ hf =>
    loops_passes hd hy hc (hview.imp_right (condition_eq_none hc)) (.cons hf .nil)

theorem passesIn_eval {spell : Combinator → Node → Param → Node → Node} (hspell : IsSpelling view spell)
    {environment : Frame} {yield : Node} {l : Level} {ls : List Level} {p : Pairing view}
    {depth depth' : Nat} (hd : depth + 4 * (ls.length + 1) + 1 < depth')
    (henv : AlikeFields p environment environment) :
    Simulates p IsArrayOf (passesIn depth environment yield (l :: ls))
      (evaluateTree depth' environment ((nest yield (l :: ls)).spelled spell)) :=
  (Simulates.newFrame henv).bind fun _ _ _ _ hf => passes_eval hspell hd (.cons hf.1 .nil)

end

/-! ## Calls that are noted -/

/-- A name on its own. -/
def Node.named (text : String) : Node := .leaf .name ⟨.name, text⟩

def incrementedText : String := "f(x) for (x of xs) if (f(x))"

def incremented : Comprehension := ⟨"f(x)", [⟨"x", "xs", some "f(x)"⟩], []⟩

def incrementCall : Node := .call false (.named "f") [.named "x"]

def incrementedLevels : List Level := [⟨.named "xs", .name "x", some incrementCall⟩]

/-- Two numbers in an array, and the function of the host that gives successors. -/
def twoNumbers : Frame :=
  [("f", .host .increment), ("xs", .array 1 [.number (.int 1), .number (.int 2)])]

/-- A memory that has handed out one identity. -/
def numbersMemory : Memory := ⟨#[], 2, []⟩

theorem parseExpression_xs : parseExpression "xs" = .ok (.named "xs") := rfl

theorem parseExpression_incrementCall : parseExpression "f(x)" = .ok incrementCall := rfl

theorem script_incrementCall : OperandReader.script.expression "f(x)" = .ok incrementCall := by
  simp only [OperandReader.script, parseExpression_incrementCall]

theorem incremented_reads :
    List.Forall₂ (fun c l => Level.Reads .script c l) incremented.clauses incrementedLevels :=
  .cons ⟨parseExpression_xs, rfl, .some script_incrementCall⟩ .nil

theorem generate_incremented : Comprehension.generate .standard incrementedText =
    .ok (incremented, nest incrementCall incrementedLevels) := by
  have hparse : (Comprehension.parse false incrementedText).result = .ok incremented := by
    decide +kernel
  have hx : binding ⟨parseExpression, parsePattern⟩ ⟨"x", "xs", some "f(x)"⟩ = .ok (.name "x") := rfl
  refine Comprehension.generate_eq_ok.2 ⟨hparse, ?_⟩
  simp only [Comprehension.chain, incremented, Settings.standard, build, fold, level,
    OperandReader.script, parseExpression_xs, parseExpression_incrementCall, hx]
  rfl

theorem closed_numbersMemory : numbersMemory.Closed where
  frames f vars h := by simp [numbersMemory] at h
  notes v h := by simp [numbersMemory] at h

theorem knows_twoNumbers : numbersMemory.Knows twoNumbers := by
  intro f hf
  simp only [twoNumbers, List.mem_cons, List.not_mem_nil, or_false] at hf
  rcases hf with rfl | rfl
  · exact .host _
  · exact .array_of_all ⟨rfl, by decide⟩ (.cons (.number _) (.cons (.number _) .nil))

/-- The loops test a number and go on with it before they come to the next. -/
theorem run_incremented :
    (@Comprehension.run (.noting .standard) 4 .script twoNumbers incremented).run numbersMemory =
      .ok (some [.number (.int 2), .number (.int 3)],
        ⟨#[twoNumbers, [("x", .number (.int 1))], [("x", .number (.int 2))]], 2,
          [.number (.int 2), .number (.int 2), .number (.int 1), .number (.int 1)]⟩) := by
  obtain ⟨hx, -⟩ := List.forall₂_cons.1 incremented_reads
  refine Attempt.finish_ok.1 ?_
  simp only [Comprehension.run, incremented, loops_cons hx, loops_nil script_incrementCall,
    Attempt.finish_bind, Attempt.finish_liftM]
  rfl

theorem AlikeAll.eq_of_plain {q : Pairing view} {vs ws : List Value} (h : AlikeAll q vs ws)
    (hvs : ∀ v ∈ vs, v.IsPlain) : ws = vs := by
  induction h with
  | nil => rfl
  | cons hv _ ih =>
    obtain ⟨hplain, hvs⟩ := List.forall_mem_cons.1 hvs
    rw [ih hvs]
    cases hplain <;> cases hv <;> rfl

end Comprehend
