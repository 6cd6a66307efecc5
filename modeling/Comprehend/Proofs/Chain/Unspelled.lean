import Comprehend.Proofs.Chain.Passes

/-! # Spelled chains run in passes

The other way round: a spelled chain that evaluates to a value has run through the passes of its
levels, unless something that it went through was no array. -/

namespace Comprehend.Script

open Chain

variable {view : View}

/-- A run and an attempt at it: where the run ends, the attempt comes to nothing or to something
related. -/
structure Attempts (p : Pairing view) (R : ResultRel view α β) (a : Run α) (b : Attempt β) : Prop where
  run : ∀ {m m' : Memory} {x : α} {n : Memory}, p.Holds m m' → a m = .ok (x, n) →
    (∃ n', b.run m' = .ok (none, n')) ∨
    ∃ q y n', b.run m' = .ok (some y, n') ∧ p.Grows q ∧ q.Holds n n' ∧ R q x y ∧
      m.Keeps p.left n ∧ m'.Keeps p.right n'

namespace Attempts

variable {p : Pairing view}

theorem failure {R : ResultRel view α β} {a : Run α} : Attempts p R a failure :=
  ⟨fun _ _ => .inl ⟨_, rfl⟩⟩

theorem run_liftM {b : Run β} {m n : Memory} {y : β} (h : b m = .ok (y, n)) :
    (liftM b : Attempt β).run m = .ok (some y, n) :=
  Attempt.finish_ok.mp (by rwa [Attempt.finish_liftM])

theorem of_simulates {R : ResultRel view α β} {a : Run α} {b : Run β} (h : Simulates p R a b) :
    Attempts p R a (liftM b) := by
  constructor
  intro m m' x n hm ha
  obtain ⟨q, y, n', hb, h⟩ := h.run hm ha
  exact .inr ⟨q, y, n', run_liftM hb, h⟩

theorem pure {R : ResultRel view α β} {x : α} {y : β} (h : R p x y) :
    Attempts p R (Pure.pure x) (Pure.pure y) := of_simulates (.pure h)

theorem stop {R : ResultRel view α β} {s : Stop} {b : Attempt β} : Attempts p R (Run.stop s) b := by
  constructor
  intro m m' x n _ ha
  cases ha

theorem bind {R : ResultRel view α β} {S : ResultRel view γ δ} {a : Run α} {b : Attempt β} {f : α → Run γ}
    {g : β → Attempt δ} (h : Attempts p R a b)
    (hf : ∀ q x y, p.Grows q → R q x y → Attempts q S (f x) (g y)) :
    Attempts p S (a >>= f) (b >>= g) := by
  constructor
  intro m m' z o hm ha
  obtain ⟨x, n, hx, hz⟩ := Run.bind_eq_ok ha
  rcases h.run hm hx with ⟨n', hb⟩ | ⟨q, y, n', hb, hpq, hn, hr, hk, hk'⟩
  · refine .inl ⟨n', ?_⟩
    rw [OptionT.run_bind, Option.elimM, Run.bind_of_ok hb]
    rfl
  · have hbind : (b >>= g).run m' = (g y).run n' := by
      rw [OptionT.run_bind, Option.elimM, Run.bind_of_ok hb]
      rfl
    rcases (hf q x y hpq hr).run hn hz with ⟨o', hg⟩ | ⟨r, w, o', hg, hqr, ho, hs, hl, hl'⟩
    · exact .inl ⟨o', hbind.trans hg⟩
    · rw [hpq.left] at hl
      rw [hpq.right] at hl'
      exact .inr ⟨r, w, o', hbind.trans hg, hpq.trans hqr, ho, hs, hk.trans hl, hk'.trans hl'⟩

theorem bind_right {R : ResultRel view α β} {S : ResultRel view α δ} {a : Run α} {b : Attempt β}
    {g : β → Attempt δ} (h : Attempts p R a b)
    (hg : ∀ q x y, p.Grows q → R q x y → Attempts q S (Pure.pure x) (g y)) :
    Attempts p S a (b >>= g) := by
  rw [← bind_pure a]
  exact h.bind hg

theorem bind_left {R : ResultRel view α β} {S : ResultRel view γ β} {a : Run α} {b : Attempt β} {f : α → Run γ}
    (h : Attempts p R a b)
    (hf : ∀ q x y, p.Grows q → R q x y → Attempts q S (f x) (Pure.pure y)) :
    Attempts p S (a >>= f) b := by
  rw [← bind_pure b]
  exact h.bind hf

theorem newTag_left {R : ResultRel view α β} {f : Tag → Run α} {b : Attempt β}
    (h : ∀ t, Attempts p R (f t) b) : Attempts p R (Run.newTag >>= f) b := by
  constructor
  intro m m' x n hm ha
  rcases (h m.fresh).run (hm.later (.newTag _ m) (.refl ..) hm.notes) ha with
    hb | ⟨q, y, n', hb, hpq, hn, hr, hk, hk'⟩
  · exact .inl hb
  · exact .inr ⟨q, y, n', hb, hpq, hn, hr, (Memory.Keeps.newTag _ m).trans hk, hk'⟩

end Attempts

/-! ## Links taken back -/

/-- An array whose items are alike. -/
def ArrayOf (q : Pairing view) (v : Value) (items : List Value) : Prop :=
  ∃ t vs, v = .array t vs ∧ AlikeAll q vs items

def EndsAtArray (q : Pairing view) (o : Option Value) (items : List Value) : Prop :=
  ∃ v, o = some v ∧ ArrayOf q v items

def SingleOf (q : Pairing view) (v : Value) (items : List Value) : Prop :=
  ∃ x, items = [x] ∧ Alike q v x

theorem ArrayOf.mono {p q : Pairing view} (hpq : p.Grows q) {v : Value} {items : List Value} :
    ArrayOf p v items → ArrayOf q v items :=
  fun ⟨t, vs, hv, h⟩ => ⟨t, vs, hv, AlikeAll.mono hpq h⟩

theorem SingleOf.mono {p q : Pairing view} (hpq : p.Grows q) {v : Value} {items : List Value} :
    SingleOf p v items → SingleOf q v items :=
  fun ⟨x, hx, h⟩ => ⟨x, hx, h.mono hpq⟩

theorem SingleOf.flatten {p : Pairing view} {vs : List Value} {parts : List (List Value)}
    (h : List.Forall₂ (SingleOf p) vs parts) : AlikeAll p vs parts.flatten := by
  induction h with
  | nil => exact .nil
  | cons hx _ ih =>
    obtain ⟨x, rfl, hx⟩ := hx
    exact .cons hx ih

theorem ArrayOf.flatten {p : Pairing view} {vs : List Value} {parts : List (List Value)}
    (h : List.Forall₂ (ArrayOf p) vs parts) : AlikeAll p (flattenOne vs) parts.flatten := by
  induction h with
  | nil => exact .nil
  | cons hx _ ih =>
    obtain ⟨t, items, rfl, hitems⟩ := hx
    exact List.rel_append hitems ih

section

variable {p : Pairing view} {d depth : Nat} {scope scope' : Scope} {param body : Node}

theorem Attempts.newArray_left {vs items : List Value} (h : AlikeAll p vs items) :
    Attempts p ArrayOf (Run.newArray vs) (Pure.pure items) :=
  .newTag_left fun t => .pure ⟨t, vs, rfl, h⟩

theorem arrayItems_attempts {v v' : Value} (h : Alike p v v') :
    Attempts p EndsAtArray (pure (some v)) (arrayItems v') := by
  have whole := h
  cases h with
  | array _ _ _ => exact .pure ⟨_, rfl, _, _, rfl, whole.all⟩
  | _ => exact .failure

theorem passes_cons' (ev : Evaluator) (yield : Node) (l : Level) (ls : List Level) (scope : Scope) :
    passes ev yield (l :: ls) scope =
      ((do arrayItems (← ev scope l.source)) >>= fun items => liftM (l.passing ev scope items)) >>=
        fun kept => collect (fun v => do passes ev yield ls (← childScope ev scope l.param.node v))
          kept := by
  simp only [passes, bind_assoc]

variable [Host]

theorem methodCall_attempts {R : ResultRel view Value β} {a : Attempt (List Value)}
    {k : List Value → Attempt β} {fn source : Node} {name : Token} (op : Combinator)
    (hfn : IsCallback param body fn) (hname : name.text = op.method)
    (ha : Attempts p EndsAtArray (link (eval depth scope) (apply depth) source) a)
    (hk : ∀ q vs items e t f, e < depth → p.Grows q → AlikeAll q vs items →
      Attempts q R (arrayMethod (apply e) (.array t vs) vs (builtin op)
        [.closure f ⟨[param], body, scope⟩]) (k items)) :
    Attempts p (fun q o y => ∃ v, o = some v ∧ R q v y)
      (link (eval depth scope) (apply depth) (.call false (.member false source name) [fn]))
      (a >>= k) := by
  rw [link_methodCall]
  refine ha.bind fun q o items hpq ho => ?_
  obtain ⟨v, rfl, t, vs, rfl, hvs⟩ := ho
  simp only [hname, property_method, bind_assoc, pure_bind]
  refine .newTag_left fun g => ?_
  cases depth with
  | zero =>
    cases hfn <;> exact .stop
  | succ depth =>
    simp only [callWith_callback hfn, bind_assoc]
    refine .newTag_left fun f => ?_
    exact (hk q vs items depth t f (Nat.lt_succ_self _) hpq hvs).bind_left
      fun _ v _ _ hv => .pure ⟨v, rfl, hv⟩

variable [Host.Respects view]

/-- The source of a link, evaluated on its own, is no array where the chain of links ends in it. -/
theorem source_attempts (hd : depth < d) (hs : List.Forall₂ p.frames scope scope') (x : Node) :
    Attempts p EndsAtArray (link (eval depth scope) (apply depth) x)
      (do arrayItems (← eval d scope' x)) := by
  by_cases hl : x.isLink = true
  · obtain ⟨d, rfl⟩ : ∃ k, d = k + 1 := ⟨d - 1, by omega⟩
    have he : SimulatesIn p (eval depth scope) (eval d scope') :=
      (Simulates.eval_apply (Nat.le_of_lt_succ hd) p).1 scope scope' hs
    have hc : SimulatesCalls p (apply depth) (apply d) :=
      (Simulates.eval_apply (Nat.le_of_lt_succ hd) p).2
    rw [eval_of_isLink hl]
    have value : Simulates p (fun q o v => ∃ o', Option.Rel (Alike q) o o' ∧ v = o'.getD .undefined)
        (link (eval depth scope) (apply depth) x)
        (do return (← link (eval d scope') (apply d) x).getD .undefined) :=
      (Simulates.link x he hc).bind_right fun _ _ o' _ ho => .pure ⟨o', ho, rfl⟩
    refine (Attempts.of_simulates value).bind_right fun q o v _ ⟨o', ho, hv⟩ => ?_
    subst hv
    cases ho with
    | none => exact .failure
    | some hv => exact arrayItems_attempts hv
  · rw [link_of_not_isLink (by simpa using hl)]
    exact (Attempts.of_simulates (.eval (Nat.le_of_lt hd) hs x)).bind
      fun q v v' _ hv => arrayItems_attempts hv

theorem passing_simulates {l : Level} {test : Node} (hl : l.condition = some test)
    (hp : ∀ target, l.param.node ≠ .patternRest target) (hd : depth ≤ d)
    (hs : List.Forall₂ p.frames scope scope') {items items' : List Value}
    (hitems : AlikeAll p items items') (t t' : Tag) :
    Attempts p ArrayOf
      (arrayMethod (apply depth) (.array t items) items .filter
        [.closure t' ⟨[l.param.node], test, scope⟩])
      (liftM (l.passing (eval d) scope' items')) := by
  have kept : Simulates p AlikeAll (filterItems (fun v i => do
      return (← apply depth (.closure t' ⟨[l.param.node], test, scope⟩)
        [v, .int i, .array t items]).isTruthy) 0 items) (l.passing (eval d) scope' items') := by
    simp only [Level.passing, hl, Option.isNone_some, Bool.false_eq_true, if_false]
    refine Simulates.filterItems (fun q v v' i hpq hv => ?_) 0 hitems
    have hs := hs.imp fun _ _ => hpq.frames
    cases depth with
    | zero => simp only [apply]; exact .stop
    | succ depth =>
      rw [apply_closure depth hp]
      simp only [bind_assoc]
      refine (childScope_simulates (Nat.le_of_succ_le hd) hs l.param.node hv).bind fun r inner inner' _ hs => ?_
      simp only [Level.admits, hl]
      exact .truthy (.eval (Nat.le_of_succ_le hd) hs test)
  exact (Attempts.of_simulates kept).bind_left fun _ _ _ _ h => .newArray_left h

theorem collect_attempts {S : ResultRel view Value (List Value)} {next : Scope → Attempt (List Value)}
    (mono : ∀ {q r}, Pairing.Grows q r → ∀ {x y}, S q x y → S r x y)
    (hp : ∀ target, param ≠ .patternRest target) (hd : depth ≤ d)
    (hnext : ∀ k (q : Pairing view) inner inner', k < depth → List.Forall₂ q.frames inner inner' →
      Attempts q S (eval k inner body) (next inner'))
    (hs : List.Forall₂ p.frames scope scope') (receiver : Value) (t : Tag) (i : Nat)
    {items items' : List Value} (hitems : AlikeAll p items items') :
    Attempts p (fun q ys xs => ∃ parts, List.Forall₂ (S q) ys parts ∧ xs = parts.flatten)
      (mapItems (fun v i =>
        apply depth (.closure t ⟨[param], body, scope⟩) [v, .int i, receiver]) i items)
      (collect (fun v => do next (← childScope (eval d) scope' param v)) items') := by
  induction items generalizing p items' i with
  | nil =>
    cases hitems
    exact .pure ⟨[], .nil, rfl⟩
  | cons v vs ih =>
    cases hitems with
    | @cons _ v' _ vs' hv hvs =>
      have one : Attempts p S (apply depth (.closure t ⟨[param], body, scope⟩) [v, .int i, receiver])
          (do next (← childScope (eval d) scope' param v')) := by
        cases depth with
        | zero => simp only [apply]; exact .stop
        | succ k =>
          rw [apply_closure k hp]
          exact (Attempts.of_simulates (childScope_simulates (Nat.le_of_succ_le hd) hs param hv)).bind
            fun q inner inner' _ hs => hnext k q inner inner' (Nat.lt_succ_self k) hs
      refine one.bind fun q y x hpq hx => ?_
      have rest := ih (hs.imp fun _ _ => hpq.frames) (i + 1) (AlikeAll.mono hpq hvs)
      refine rest.bind fun r ys xs hqr hparts => .pure ?_
      obtain ⟨parts, hps, hxs⟩ := hparts
      exact ⟨x :: parts, .cons (mono hqr hx) hps, by rw [List.flatten_cons, hxs]⟩

variable {fn : List Node → Node → Node}

theorem filtered_attempts (cls : TokenClass)
    (hfn : ∀ param body, IsCallback param body (fn [param] body)) {l : Level}
    (hl : l.IsPlain) (hd : depth < d) (hs : List.Forall₂ p.frames scope scope') :
    Attempts p EndsAtArray
      (link (eval depth scope) (apply depth) (l.filtered.spelled (Node.methodCall cls fn)))
      ((do arrayItems (← eval d scope' l.source)) >>= fun items =>
        liftM (l.passing (eval d) scope' items)) := by
  have source := source_attempts hd hs l.source
  cases hc : l.condition with
  | none =>
    have hp (items : List Value) : l.passing (eval d) scope' items = pure items := by
      simp [Level.passing, hc]
    simp only [hp, liftM_pure, bind_pure]
    rw [Level.filtered, hc, Node.spelled_eq_self hl.source]
    exact source
  | some test =>
    simp only [Level.filtered, hc, Node.spelled]
    rw [Node.spelled_eq_self hl.source, Node.spelled_eq_self (hl.condition test hc)]
    refine methodCall_attempts .filter (hfn ..) rfl source fun q vs items e t f he hpq hvs => ?_
    exact passing_simulates hc hl.param (by omega) (hs.imp fun _ _ => hpq.frames) hvs t f

/-- A spelled chain that evaluates to a value evaluates to an array of what the passes come to,
unless they come to nothing. -/
theorem nest_attempts {cls : TokenClass}
    (hfn : ∀ param body, IsCallback param body (fn [param] body)) {yield : Node}
    (hy : yield.isChain = false) (ls : List Level) (l : Level)
    (hls : ∀ l' ∈ l :: ls, l'.IsPlain) (hd : depth < d) (hs : List.Forall₂ p.frames scope scope') :
    Attempts p EndsAtArray
      (link (eval depth scope) (apply depth) ((nest yield (l :: ls)).spelled (Node.methodCall cls fn)))
      (passes (eval d) yield (l :: ls) scope') := by
  induction ls generalizing l depth p scope scope' with
  | nil =>
    have hl := hls l (by simp)
    have source := filtered_attempts cls hfn hl hd hs
    rw [passes_cons', nest, Node.spelled, Node.spelled_eq_self hy]
    refine methodCall_attempts .map (hfn ..) rfl source fun q vs items e t f he hpq hvs => ?_
    have hnext (k : Nat) (r : Pairing view) (inner inner' : Scope) (hk : k < e)
        (hs : List.Forall₂ r.frames inner inner') :
        Attempts r SingleOf (eval k inner yield) (passes (eval d) yield [] inner') := by
      have value : Simulates r Alike (eval k inner yield) (eval d inner' yield) :=
        .eval (by omega) hs yield
      exact (Attempts.of_simulates value).bind_right fun _ _ v _ hv => .pure ⟨v, rfl, hv⟩
    have each := collect_attempts SingleOf.mono hl.param (Nat.le_of_lt (Nat.lt_trans he hd)) hnext
      (hs.imp fun _ _ => hpq.frames) (.array t vs) f 0 hvs
    refine each.bind_left fun _ _ _ _ hparts => ?_
    obtain ⟨parts, hp, hx⟩ := hparts
    exact .newArray_left (hx ▸ SingleOf.flatten hp)
  | cons l' ls ih =>
    have hl := hls l (by simp)
    have source := filtered_attempts cls hfn hl hd hs
    rw [passes_cons']
    simp only [nest, Node.spelled]
    refine methodCall_attempts .flatMap (hfn ..) rfl source fun q vs items e t f he hpq hvs => ?_
    have hnext (k : Nat) (r : Pairing view) (inner inner' : Scope) (hk : k < e)
        (hs : List.Forall₂ r.frames inner inner') :
        Attempts r ArrayOf (eval k inner ((nest yield (l' :: ls)).spelled (Node.methodCall cls fn)))
          (passes (eval d) yield (l' :: ls) inner') := by
      cases k with
      | zero => rw [eval]; exact .stop
      | succ k =>
        rw [eval_of_isLink (isLink_nest (fun _ _ _ _ => rfl) yield l' ls)]
        refine (ih l' (fun l'' h => hls l'' (by simp [h])) (by omega) hs).bind_left
          fun _ _ _ _ hend => ?_
        obtain ⟨v, ho, hv⟩ := hend
        exact .pure (ho ▸ hv)
    have each := collect_attempts ArrayOf.mono hl.param (Nat.le_of_lt (Nat.lt_trans he hd)) hnext
      (hs.imp fun _ _ => hpq.frames) (.array t vs) f 0 hvs
    refine each.bind_left fun _ _ _ _ hparts => ?_
    obtain ⟨parts, hp, hx⟩ := hparts
    exact .newArray_left (hx ▸ ArrayOf.flatten hp)

end

end Comprehend.Script
