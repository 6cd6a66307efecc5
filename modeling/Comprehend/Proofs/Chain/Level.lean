import Comprehend.Explain
import Mathlib.Data.List.Forall2
import Mathlib.Data.Option.Basic

/-! # Levels of a chain

A generated chain is a nest of levels, one for each clause: what is gone through, what is bound, and
what has to hold. -/

namespace Comprehend

namespace Chain

structure Level where
  source : Node
  param : Param
  condition : Option Node

/-- What a level goes through, its condition applied. -/
def Level.filtered (l : Level) : Node :=
  match l.condition with
  | none => l.source
  | some test => .chain .filter l.source l.param test

/-- A level whose trees are no chains, and whose parameter is no rest. -/
structure Level.IsPlain (l : Level) : Prop where
  source : l.source.isChain = false
  condition : ∀ test, l.condition = some test → test.isChain = false
  param : ∀ target, l.param.node ≠ .patternRest target

/-- The chain of some levels around a yield. -/
def nest (yield : Node) : List Level → Node
  | [] => yield
  | [l] => .chain .map l.filtered l.param yield
  | l :: ls => .chain .flatMap l.filtered l.param (nest yield ls)

/-- A level that is read from a clause. -/
structure Level.Reads (reader : OperandReader) (c : Clause) (l : Level) : Prop where
  source : reader.expression c.iterable = .ok l.source
  param : binding reader c = .ok l.param
  condition : Option.Rel (fun text test => reader.expression text = .ok test) c.condition l.condition

/-- A clause is read as one level. -/
theorem Level.Reads.unique {reader : OperandReader} {cs : List Clause} {ls ls' : List Level}
    (h : List.Forall₂ (fun c l => Level.Reads reader c l) cs ls)
    (h' : List.Forall₂ (fun c l => Level.Reads reader c l) cs ls') : ls = ls' := by
  induction h generalizing ls' with
  | nil =>
    cases h'
    rfl
  | @cons c l cs ls hl _ ih =>
    cases h' with
    | @cons _ l' _ ls' hl' hls' =>
      obtain ⟨source, param, condition⟩ := l
      obtain ⟨source', param', condition'⟩ := l'
      obtain rfl : source = source' := Except.ok.inj (hl.source.symm.trans hl'.source)
      obtain rfl : param = param' := Except.ok.inj (hl.param.symm.trans hl'.param)
      obtain rfl : condition = condition' := by
        have hc := hl.condition
        have hc' := hl'.condition
        generalize c.condition = text at hc hc'
        cases hc with
        | none =>
          cases hc'
          rfl
        | some ht =>
          cases hc' with
          | some ht' => rw [Except.ok.inj (ht.symm.trans ht')]
      rw [ih hls']

theorem bind_eq_ok {ε α β : Type} {a : Except ε α} {f : α → Except ε β} {y : β}
    (h : a >>= f = .ok y) : ∃ x, a = .ok x ∧ f x = .ok y := by
  cases a with
  | error _ => cases h
  | ok x => exact ⟨x, rfl, h⟩

theorem level_ok {reader : OperandReader} {c : Clause} {op : Combinator} {body g : Node}
    (h : level reader c op body = .ok g) :
    ∃ l : Level, l.Reads reader c ∧ g = .chain op l.filtered l.param body := by
  obtain ⟨source, hs, h⟩ := bind_eq_ok h
  obtain ⟨param, hp, h⟩ := bind_eq_ok h
  cases hc : c.condition with
  | none =>
    rw [hc] at h
    cases h
    exact ⟨⟨source, param, none⟩, ⟨hs, hp, hc ▸ .none⟩, rfl⟩
  | some text =>
    rw [hc] at h
    obtain ⟨test, ht, h⟩ := bind_eq_ok h
    cases h
    exact ⟨⟨source, param, some test⟩, ⟨hs, hp, hc ▸ .some ht⟩, rfl⟩

theorem fold_ok {reader : OperandReader} {yield g : Node} {clauses : List Clause}
    (h : fold reader yield clauses = .ok g) :
    ∃ ls, List.Forall₂ (fun c l => Level.Reads reader c l) clauses ls ∧ g = nest yield ls := by
  induction clauses generalizing g with
  | nil =>
    cases h
    exact ⟨[], .nil, rfl⟩
  | cons c cs ih =>
    cases cs with
    | nil =>
      obtain ⟨l, hl, rfl⟩ := level_ok h
      exact ⟨[l], .cons hl .nil, rfl⟩
    | cons d ds =>
      obtain ⟨inner, hi, h⟩ := bind_eq_ok h
      obtain ⟨l, hl, rfl⟩ := level_ok h
      obtain ⟨ls, hls, rfl⟩ := ih hi
      cases hls with
      | cons hd hds => exact ⟨_, .cons hl (.cons hd hds), rfl⟩

/-- A generated chain is the nest of the levels that its clauses are read as. -/
theorem build_ok {reader : OperandReader} {maxClauses : Int} {text : String} {g : Node}
    {clauses : List Clause} (h : build reader maxClauses text clauses = .ok g) :
    ∃ yield l ls, reader.expression text = .ok yield ∧
      List.Forall₂ (fun c l => Level.Reads reader c l) clauses (l :: ls) ∧
      g = nest yield (l :: ls) := by
  unfold build at h
  split at h
  · cases h
  · next hne =>
    split at h
    · cases h
    · obtain ⟨yield, hy, h⟩ := bind_eq_ok h
      obtain ⟨ls, hls, rfl⟩ := fold_ok h
      cases hls with
      | nil => cases hne rfl
      | cons hl hls => exact ⟨yield, _, _, hy, .cons hl hls, rfl⟩

end Chain

open Chain

/-- A comprehension read from notation text, with its chain. -/
def Comprehension.generate (settings : Settings) (raw : String) :
    Except Fault (Comprehension × Node) := do
  let c ← (Comprehension.parse settings.strict raw).result
  return (c, ← c.chain settings)

theorem Comprehension.generate_eq_ok {settings : Settings} {raw : String} {c : Comprehension}
    {g : Node} : Comprehension.generate settings raw = .ok (c, g) ↔
      (Comprehension.parse settings.strict raw).result = .ok c ∧ c.chain settings = .ok g := by
  constructor
  · intro h
    obtain ⟨c', hparse, h⟩ := bind_eq_ok h
    obtain ⟨g', hchain, h⟩ := bind_eq_ok h
    cases h
    exact ⟨hparse, hchain⟩
  · rintro ⟨hparse, hchain⟩
    rw [generate, hparse]
    change (c.chain settings >>= fun g => Except.ok (c, g)) = _
    rw [hchain]
    rfl

/-- What is generated is the nest of the levels that the parsed clauses are read as. -/
theorem Comprehension.generate_ok {settings : Settings} {raw : String} {c : Comprehension} {g : Node}
    (h : Comprehension.generate settings raw = .ok (c, g)) :
    ∃ yield l ls, settings.reader.expression c.yield = .ok yield ∧
      List.Forall₂ (fun c l => Level.Reads settings.reader c l) c.clauses (l :: ls) ∧
      g = nest yield (l :: ls) :=
  build_ok (Comprehension.generate_eq_ok.1 h).2

end Comprehend
