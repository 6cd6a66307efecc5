import Comprehend.Proofs.Chain.Level
import Comprehend.Proofs.Script.Evaluation

/-! # Nested loops -/

namespace Comprehend.Chain

open Script

variable {view : View}

/-- A run that may come upon something to go through that is no array. -/
abbrev Attempt := OptionT Run

/-- What can be gone through. -/
def arrayItems : Value → Attempt (List Value)
  | .array _ items => pure items
  | _ => failure

/-- What each item gives, in a row. -/
def collect (f : Value → Attempt (List Value)) : List Value → Attempt (List Value)
  | [] => pure []
  | v :: vs => do
    let xs ← f v
    let rest ← collect f vs
    return xs ++ rest

/-- A child scope in which an item is bound. -/
def childScope (ev : Evaluator) (scope : Scope) (param : Node) (v : Value) : Run Scope := do
  let frame ← Run.newFrame []
  bind ev (frame :: scope) param v
  return frame :: scope

/-- What a reader makes of a text, or the end of the run. -/
def readOr (r : Except Fault α) : Run α :=
  match r with
  | .ok x => pure x
  | .error fault => Run.stop (.fault fault)

/-- Whether a clause lets an item through that is bound in a scope. -/
def admits (ev : Evaluator) (reader : OperandReader) (c : Clause) (scope : Scope) : Run Bool :=
  match c.condition with
  | none => return true
  | some text => do
    let test ← readOr (reader.expression text)
    return (← ev scope test).isTruthy

/-- The loops of some clauses, one inside the other, with a yield at the heart of them. -/
def loops (ev : Evaluator) (reader : OperandReader) (yield : String) :
    List Clause → Scope → Attempt (List Value)
  | [], scope => do
    let x ← OptionT.lift (readOr (reader.expression yield))
    return [← ev scope x]
  | c :: cs, scope => do
    let x ← OptionT.lift (readOr (reader.expression c.iterable))
    let items ← arrayItems (← ev scope x)
    collect (fun v => do
      let param ← OptionT.lift (readOr (binding reader c))
      let inner ← childScope ev scope param.node v
      if ← admits ev reader c inner then loops ev reader yield cs inner else return []) items

/-- Whether a level lets an item through that is bound in a scope. -/
def Level.admits (ev : Evaluator) (l : Level) (scope : Scope) : Run Bool :=
  match l.condition with
  | none => return true
  | some test => do return (← ev scope test).isTruthy

/-- The items of a level that its condition lets through, all of them looked at first. -/
def Level.passing (ev : Evaluator) (l : Level) (scope : Scope) (items : List Value) :
    Run (List Value) :=
  if l.condition.isNone then pure items
  else filterItems (fun v _ => do l.admits ev (← childScope ev scope l.param.node v)) 0 items

/-- The run of a chain in its own order: each level looks through its items before it goes on with
any of them. -/
def passes (ev : Evaluator) (yield : Node) : List Level → Scope → Attempt (List Value)
  | [], scope => do return [← ev scope yield]
  | l :: ls, scope => do
    let items ← arrayItems (← ev scope l.source)
    let kept ← l.passing ev scope items
    collect (fun v => do passes ev yield ls (← childScope ev scope l.param.node v)) kept

/-! ## Runs that come to something -/

/-- A run that stops where the attempt comes to nothing. -/
def Attempt.finish (a : Attempt α) : Run α := do
  match ← a.run with
  | some x => return x
  | none => Run.stop .misuse

namespace Attempt

@[simp] theorem finish_pure (x : α) : (pure x : Attempt α).finish = pure x := by
  simp [finish]

@[simp] theorem finish_failure : (failure : Attempt α).finish = Run.stop .misuse := by
  simp [finish]

@[simp] theorem finish_liftM (a : Run α) : finish (liftM a) = a := by
  simp [finish]

@[simp] theorem finish_bind (a : Attempt α) (f : α → Attempt β) :
    (a >>= f).finish = a.finish >>= fun x => (f x).finish := by
  simp only [finish, OptionT.run_bind, Option.elimM, bind_assoc]
  congr 1
  funext x
  cases x with
  | none => rfl
  | some x => simp

theorem finish_ok {a : Attempt α} {m n : Memory} {x : α} :
    a.finish m = .ok (x, n) ↔ a.run m = .ok (some x, n) := by
  constructor
  · intro h
    obtain ⟨o, k, ho, h⟩ := Run.bind_eq_ok h
    cases o with
    | none => cases h
    | some y =>
      cases h
      exact ho
  · intro h
    rw [finish, Run.bind_of_ok h]
    rfl

end Attempt

/-! ## Both orders -/

section

variable {ev : Evaluator} {reader : OperandReader} {yield : String} {scope : Scope}

theorem loops_nil {x : Node} (h : reader.expression yield = .ok x) :
    loops ev reader yield [] scope = (do return [← ev scope x]) := by
  simp [loops, h, readOr]

theorem admits_eq {c : Clause} {l : Level} (h : l.Reads reader c) :
    admits ev reader c scope = l.admits ev scope := by
  have hc := h.condition
  unfold admits Level.admits
  generalize c.condition = text, l.condition = test at hc
  cases hc with
  | none => rfl
  | some h => simp [h, readOr]

theorem loops_cons {c : Clause} {cs : List Clause} {l : Level} (h : l.Reads reader c) :
    loops ev reader yield (c :: cs) scope = (do
      let items ← arrayItems (← ev scope l.source)
      collect (fun v => do
        let inner ← childScope ev scope l.param.node v
        if ← l.admits ev inner then loops ev reader yield cs inner else return []) items) := by
  simp [loops, h.source, h.param, readOr, admits_eq h]

end

/-! ## Looking through first

Loops test an item and go on with it before they look at the next one. Passes test all items first.
What is tested and run again comes out the same, for nothing in between changes a frame that was
there before. The functions of the host are called in another order, though, so their answers must
not depend on what they have noted of earlier calls: this is the view of the script. Where nothing is
tested the order is the same, and any view will do. -/

/-- What is done with an item: it is bound, tested, and gone on with. -/
structure Stage where
  enter : Value → Run Scope
  test : Scope → Run Bool
  next : Scope → Attempt (List Value)

def Stage.step (a : Stage) (v : Value) : Attempt (List Value) := do
  let inner ← a.enter v
  if ← a.test inner then a.next inner else return []

/-- A stage whose parts are carried by those of another. -/
structure Stage.Carries (view : View) (scope scope' : Scope) (a b : Stage) : Prop where
  enter : ∀ {p : Pairing view} {v v'}, List.Forall₂ p.frames scope scope' → Alike p v v' →
    Script.Carries p (fun q => List.Forall₂ q.frames) (a.enter v) (b.enter v')
  test : ∀ {p : Pairing view} {s s'}, List.Forall₂ p.frames s s' →
    Script.Carries p (Equal Bool) (a.test s) (b.test s')
  next : ∀ {p : Pairing view} {s s'}, List.Forall₂ p.frames s s' →
    Script.Carries p AlikeAll (a.next s).finish (b.next s').finish

/-- The items at the places of some flags. -/
def keep : List Bool → List α → List α
  | true :: flags, x :: xs => x :: keep flags xs
  | false :: flags, _ :: xs => keep flags xs
  | _, _ => []

theorem collect_cons_ok {f : Value → Attempt (List Value)} {v : Value} {vs xs : List Value}
    {m n : Memory} (h : (collect f (v :: vs)).finish m = .ok (xs, n)) :
    ∃ ys k zs, (f v).finish m = .ok (ys, k) ∧ (collect f vs).finish k = .ok (zs, n) ∧
      xs = ys ++ zs := by
  simp only [collect, Attempt.finish_bind, Attempt.finish_pure] at h
  obtain ⟨ys, k, hy, h⟩ := Run.bind_eq_ok h
  obtain ⟨zs, o, hz, h⟩ := Run.bind_eq_ok h
  cases h
  exact ⟨ys, k, zs, hy, hz, rfl⟩

theorem collect_cons_of_ok {f : Value → Attempt (List Value)} {v : Value} {vs ys zs : List Value}
    {m k n : Memory} (hy : (f v).finish m = .ok (ys, k))
    (hz : (collect f vs).finish k = .ok (zs, n)) :
    (collect f (v :: vs)).finish m = .ok (ys ++ zs, n) := by
  simp only [collect, Attempt.finish_bind, Attempt.finish_pure]
  rw [Run.bind_of_ok hy, Run.bind_of_ok hz]
  rfl

/-- Items carried one by one are carried in a row. -/
theorem collect_carries {p : Pairing view} {f g : Value → Attempt (List Value)}
    (h : ∀ {q : Pairing view} {v v'}, p.Below q → Alike q v v' →
      Carries q AlikeAll (f v).finish (g v').finish) {vs vs' : List Value} (hvs : AlikeAll p vs vs') :
    Carries p AlikeAll (collect f vs).finish (collect g vs').finish := by
  induction vs generalizing p vs' with
  | nil =>
    cases hvs
    simp only [collect, Attempt.finish_pure]
    exact .pure .nil
  | cons v vs ih =>
    cases hvs with
    | cons hv hvs =>
      simp only [collect, Attempt.finish_bind, Attempt.finish_pure]
      refine (h (.refl p) hv).bind fun q xs ys hpq hxs => ?_
      refine (ih (fun hqr => h (hpq.trans hqr)) (AlikeAll.below hpq hvs)).bind fun r _ _ hqr hzs => ?_
      exact .pure (List.rel_append (AlikeAll.below hqr hxs) hzs)

namespace Stage

variable {a b : Stage} {scope scope' : Scope} {v v' : Value} {vs xs : List Value} {m m' n : Memory}

theorem finish_step (a : Stage) (v : Value) : (a.step v).finish = (do
    let inner ← a.enter v
    if ← a.test inner then (a.next inner).finish else return []) := by
  simp only [step, Attempt.finish_bind, Attempt.finish_liftM]
  refine bind_congr fun inner => bind_congr fun t => ?_
  cases t <;> simp

theorem step_of_test (h : ∀ inner, a.test inner = pure true) :
    a.step = (fun v => do a.next (← a.enter v)) := by
  funext v
  simp [step, h]

/-- One step is carried by the other, in its own order. -/
theorem Carries.each (hab : a.Carries view scope scope' b) {p : Pairing view}
    (hs : List.Forall₂ p.frames scope scope') (hv : Alike p v v') :
    Script.Carries p AlikeAll (a.step v).finish (b.step v').finish := by
  rw [finish_step, finish_step]
  refine (hab.enter hs hv).bind fun q s s' _ hs => (hab.test hs).bind fun r t t' hqr ht => ?_
  subst ht
  cases t with
  | true => exact hab.next (hs.imp fun _ _ => hqr.frames)
  | false => exact .pure .nil

theorem step_ok (h : (a.step v).finish m = .ok (xs, n)) :
    ∃ s o t k, a.enter v m = .ok (s, o) ∧ a.test s o = .ok (t, k) ∧
      (t = true ∧ (a.next s).finish k = .ok (xs, n) ∨ t = false ∧ xs = [] ∧ n = k) := by
  rw [finish_step] at h
  obtain ⟨s, o, hs, h⟩ := Run.bind_eq_ok h
  obtain ⟨t, k, ht, h⟩ := Run.bind_eq_ok h
  refine ⟨s, o, t, k, hs, ht, ?_⟩
  cases t with
  | true => exact .inl ⟨rfl, h⟩
  | false =>
    cases h
    exact .inr ⟨rfl, rfl, rfl⟩

/-- A step, and what the other stage makes of its item in the two passes. -/
theorem Carries.step (hab : a.Carries .script scope scope' b) {s : Scope} {o l k : Memory} {t : Bool}
    (he : a.enter v m = .ok (s, o)) (ht : a.test s o = .ok (t, l))
    (hnext : t = true ∧ (a.next s).finish l = .ok (xs, k) ∨ t = false ∧ xs = [] ∧ k = l)
    {p : Pairing .script} (hm : p.Holds m m') (hs : List.Forall₂ p.frames scope scope')
    (hv : Alike p v v') :
    m.Precedes k ∧
    (∃ n', (b.enter v' >>= b.test) m' = .ok (t, n') ∧ m'.Precedes n') ∧
    (t = true → ∃ q ys n', (do b.next (← b.enter v') : Attempt _).finish m' = .ok (ys, n') ∧
      p.Below q ∧ q.Holds k n' ∧ AlikeAll q xs ys ∧ m'.Precedes n') := by
  obtain ⟨q, s', o', he', hpq, ho, hss, hmo, hmo'⟩ := (hab.enter hs hv).run hm he
  obtain ⟨_, _, l', ht', _, _, rfl, hol, hol'⟩ := (hab.test hss).run ho ht
  -- the test on one side leaves what has been bound there as it was
  have hl : q.Holds l o' := ho.later hol (.refl ..) nofun
  have tested : ∃ n', (b.enter v' >>= b.test) m' = .ok (t, n') ∧ m'.Precedes n' :=
    ⟨l', (Run.bind_of_ok he').trans ht', hmo'.trans hol'⟩
  rcases hnext with ⟨rfl, hx⟩ | ⟨rfl, rfl, rfl⟩
  · obtain ⟨r, ys, n', hy, hqr, hn, hal, hlk, hok⟩ := (hab.next hss).run hl hx
    refine ⟨(hmo.trans hol).trans hlk, tested, fun _ => ?_⟩
    refine ⟨r, ys, n', ?_, hpq.trans hqr, hn, hal, hmo'.trans hok⟩
    rw [Attempt.finish_bind, Attempt.finish_liftM]
    exact (Run.bind_of_ok he').trans hy
  · exact ⟨hmo.trans hol, tested, nofun⟩

/-- From a run of steps come a pass of tests and a run of what is to be done after them. -/
theorem Carries.sift (hab : a.Carries .script scope scope' b)
    (h : (collect a.step vs).finish m = .ok (xs, n)) :
    ∃ flags : List Bool,
      (∀ (p : Pairing .script) m' vs' i, p.Holds m m' → List.Forall₂ p.frames scope scope' →
        AlikeAll p vs vs' → ∃ n', filterItems (fun v _ => do b.test (← b.enter v)) i vs' m' =
          .ok (keep flags vs', n') ∧ m'.Precedes n') ∧
      (∀ (p : Pairing .script) m' vs', p.Holds m m' → List.Forall₂ p.frames scope scope' →
        AlikeAll p vs vs' → ∃ q ys n', (collect (fun v => do b.next (← b.enter v)) (keep flags vs')).finish m' =
          .ok (ys, n') ∧ p.Below q ∧ q.Holds n n' ∧ AlikeAll q xs ys ∧ m.Precedes n ∧
          m'.Precedes n') := by
  induction vs generalizing m xs with
  | nil =>
    cases h
    refine ⟨[], fun p m' vs' i hm hs hvs => ?_, fun p m' vs' hm hs hvs => ?_⟩
    · cases hvs
      exact ⟨m', rfl, .refl ..⟩
    · cases hvs
      exact ⟨p, [], m', rfl, .refl p, hm, .nil, .refl .., .refl ..⟩
  | cons v vs ih =>
    obtain ⟨ys, k, zs, hstep, hrest, rfl⟩ := collect_cons_ok h
    obtain ⟨s, o, t, l, he, ht, hnext⟩ := step_ok hstep
    obtain ⟨flags, hpass, hrun⟩ := ih hrest
    refine ⟨t :: flags, fun p m' vs' i hm hs hvs => ?_, fun p m' vs' hm hs hvs => ?_⟩
    · cases hvs with
      | @cons _ v' _ vs' hv hvs =>
        obtain ⟨hmk, ⟨k', hk', hmk'⟩, _⟩ := hab.step he ht hnext hm hs hv
        obtain ⟨n', hn', hkn'⟩ := hpass p k' vs' (i + 1) (hm.later hmk hmk' nofun) hs hvs
        refine ⟨n', ?_, hmk'.trans hkn'⟩
        rw [filterItems, Run.bind_of_ok hk', Run.bind_of_ok hn']
        cases t <;> rfl
    · cases hvs with
      | @cons _ v' _ vs' hv hvs =>
        obtain ⟨hmk, -, hgo⟩ := hab.step he ht hnext hm hs hv
        cases t with
        | true =>
          obtain ⟨q, ys', k', hy, hpq, hk, hys, hmk'⟩ := hgo rfl
          obtain ⟨r, zs', n', hz, hqr, hn, hzs, hkn, hkn'⟩ :=
            hrun q k' vs' hk (hs.imp fun _ _ => hpq.frames) (AlikeAll.below hpq hvs)
          exact ⟨r, ys' ++ zs', n', collect_cons_of_ok hy hz, hpq.trans hqr, hn,
            List.rel_append (AlikeAll.below hqr hys) hzs, hmk.trans hkn, hmk'.trans hkn'⟩
        | false =>
          obtain ⟨rfl, rfl⟩ : ys = [] ∧ k = l := by simpa using hnext
          obtain ⟨r, zs', n', hz, hpr, hn, hzs, hkn, hkn'⟩ :=
            hrun p m' vs' (hm.later hmk (.refl ..) nofun) hs hvs
          exact ⟨r, zs', n', hz, hpr, hn, hzs, hmk.trans hkn, hkn'⟩

end Stage

/-! ## Loops and passes -/

section

variable {p : Pairing view} {d d' : Nat} {scope scope' : Scope}

theorem arrayItems_simulates {v v' : Value} (h : Alike p v v') :
    Simulates p AlikeAll (arrayItems v).finish (arrayItems v').finish := by
  have whole := h
  cases h with
  | array _ _ _ =>
    simp only [arrayItems, Attempt.finish_pure]
    exact .pure whole.all
  | _ =>
    simp only [arrayItems, Attempt.finish_failure]
    exact .stop

variable [Host] [Host.Respects view]

theorem childScope_simulates (hd : d ≤ d') (hs : List.Forall₂ p.frames scope scope') (param : Node)
    {v v' : Value} (hv : Alike p v v') :
    Simulates p (fun q => List.Forall₂ q.frames) (childScope (eval d) scope param v)
      (childScope (eval d') scope' param v') := by
  have empty : AlikeFields p [] [] := .nil
  refine (Simulates.newFrame empty).bind fun q f f' hpq ⟨hf, hl, hr⟩ => ?_
  have frames : List.Forall₂ q.frames (f :: scope) (f' :: scope') :=
    .cons hf (hs.imp fun _ _ => hpq.frames)
  have fresh : Scope.Open q (f :: scope) (f' :: scope') :=
    ⟨frames, by rintro _ ⟨⟩; exact hl, by rintro _ ⟨⟩; exact hr⟩
  have ev : SimulatesIn q (eval d (f :: scope)) (eval d' (f' :: scope')) :=
    fun r x hqr => Simulates.eval hd (frames.imp fun _ _ => hqr.frames) x
  exact (Simulates.bindTo param ev fresh (hv.mono hpq)).bind fun r _ _ hqr _ =>
    .pure (frames.imp fun _ _ => hqr.frames)

theorem admits_simulates (hd : d ≤ d') (hs : List.Forall₂ p.frames scope scope') (l : Level) :
    Simulates p (Equal Bool) (l.admits (eval d) scope) (l.admits (eval d') scope') := by
  unfold Level.admits
  cases l.condition with
  | none => exact .pure rfl
  | some test => exact .truthy (.eval hd hs test)

theorem eval_carries (hd : d ≤ d') (hs : List.Forall₂ p.frames scope scope') (x : Node) :
    Carries p Alike (eval d scope x) (eval d' scope' x) :=
  Simulates.carries fun left right => Simulates.eval (p := p.sealing left right) hd hs x

/-- The items of a level, looked through while they are gone on with or first. -/
theorem Stage.Carries.passing {a : Stage} {l : Level} {next : Scope → Attempt (List Value)}
    (hab : a.Carries view scope scope'
      ⟨childScope (eval d) scope' l.param.node, l.admits (eval d), next⟩)
    (hview : view = .script ∨ l.condition = none) (hs : List.Forall₂ p.frames scope scope')
    {vs vs' : List Value} (hvs : AlikeAll p vs vs') :
    Script.Carries p AlikeAll (collect a.step vs).finish (do
      let kept ← l.passing (eval d) scope' vs'
      (collect (fun v => do next (← childScope (eval d) scope' l.param.node v)) kept).finish) := by
  cases hc : l.condition with
  | none =>
    let b : Stage := ⟨childScope (eval d) scope' l.param.node, l.admits (eval d), next⟩
    have hstep : b.step = (fun v => do b.next (← b.enter v)) :=
      step_of_test fun inner => by simp [b, Level.admits, hc]
    simp only [Level.passing, hc, Option.isNone_none, if_true, pure_bind]
    refine collect_carries (fun {q v v'} hpq hv => ?_) hvs
    have heach := hab.each (hs.imp fun _ _ => hpq.frames) hv
    rwa [show b.step v' = _ from congrFun hstep v'] at heach
  | some test =>
    obtain rfl : view = .script := hview.resolve_right (by simp [hc])
    constructor
    intro m m' xs n hm h
    obtain ⟨flags, hpass, hrun⟩ := hab.sift h
    obtain ⟨k', hk', hmk'⟩ := hpass p m' vs' 0 hm hs hvs
    simp only [Level.passing, hc, Option.isNone_some, Bool.false_eq_true, if_false]
    rw [Run.bind_of_ok hk']
    obtain ⟨q, ys, n', hy, hpq, hn, hal, hmn, hkn⟩ :=
      hrun p k' vs' (hm.later (.refl ..) hmk' nofun) hs hvs
    exact ⟨q, ys, n', hy, hpq, hn, hal, hmn, hmk'.trans hkn⟩

/-- Whatever the loops of some clauses come to, the passes of the levels read from them do too. -/
theorem loops_passes {reader : OperandReader} {text : String} {yield : Node} {cs : List Clause}
    {ls : List Level} (hd : d ≤ d') (hy : reader.expression text = .ok yield)
    (hc : List.Forall₂ (fun c l => Level.Reads reader c l) cs ls)
    (hview : view = .script ∨ ∀ l ∈ ls, l.condition = none)
    (hs : List.Forall₂ p.frames scope scope') :
    Carries p AlikeAll (loops (eval d) reader text cs scope).finish
      (passes (eval d') yield ls scope').finish := by
  induction hc generalizing p scope scope' with
  | nil =>
    simp only [loops_nil hy, passes, Attempt.finish_bind, Attempt.finish_liftM,
      Attempt.finish_pure]
    exact (eval_carries hd hs yield).bind fun _ _ _ _ hv => .pure (.cons hv .nil)
  | @cons c l cs ls hl _ ih =>
    simp only [loops_cons hl, passes, Attempt.finish_bind, Attempt.finish_liftM]
    refine (eval_carries hd hs l.source).bind fun q v v' hpq hv => ?_
    refine (Simulates.carries fun left right => arrayItems_simulates (hv.sealing left right)).bind
      fun r vs vs' hqr hvs => ?_
    have hs : List.Forall₂ r.frames scope scope' := hs.imp fun _ _ => (hpq.trans hqr).frames
    let a : Stage := ⟨childScope (eval d) scope l.param.node, l.admits (eval d),
      loops (eval d) reader text cs⟩
    have hab : a.Carries view scope scope' ⟨childScope (eval d') scope' l.param.node,
        l.admits (eval d'), passes (eval d') yield ls⟩ :=
      { enter := fun {p v v'} hs hv => Simulates.carries fun left right =>
          childScope_simulates (p := p.sealing left right) hd hs l.param.node (hv.sealing ..)
        test := fun {p s s'} hs => Simulates.carries fun left right =>
          admits_simulates (p := p.sealing left right) hd hs l
        next := fun hs => ih (hview.imp_right fun h => (List.forall_mem_cons.1 h).2) hs }
    exact hab.passing (hview.imp_right fun h => h l List.mem_cons_self) hs hvs

end

end Comprehend.Chain
