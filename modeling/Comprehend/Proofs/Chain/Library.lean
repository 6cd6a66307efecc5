import Comprehend.Proofs.Chain.Meaning
import Comprehend.Proofs.Chain.Printed
import Comprehend.Proofs.Script.Resolution

/-! # Links that go through a library

One dialect writes links as calls of functions of a library object, which it takes from a variable.
That variable is looked up at every level, in the scope of the levels around it. As long as none of
these binds its name, it stands for the library object, whose functions do for their first argument
what the methods of an array do for it. -/

namespace Comprehend.Script

open Chain

variable {view : View}

/-! ## The library object -/

section

variable [Host]

/-- A function of the host that does for an array and a callback what a link does. -/
def IsLibraryFunction (op : Combinator) (f : HostFunction) : Prop :=
  ∀ call xs g, Host.call f call [xs, g] = callLibrary op call [xs, g]

/-- An object that has the functions of the library. -/
def IsLibrary (v : Value) : Prop :=
  ∃ t fields, v = .object t fields ∧
    ∀ op : Combinator, ∃ f, getField? fields op.method = some (.host f) ∧ IsLibraryFunction op f

end

theorem isLibrary_libraryObject : @IsLibrary .standard libraryObject := by
  refine ⟨0, _, rfl, fun op => ?_⟩
  cases op with
  | filter => exact ⟨.filter, rfl, fun _ _ _ => rfl⟩
  | map => exact ⟨.map, rfl, fun _ _ _ => rfl⟩
  | flatMap => exact ⟨.flatMap, rfl, fun _ _ _ => rfl⟩

/-- The variable that the library object is in. -/
def libraryName : String := "_"

theorem property_library [Host] {lib : Value} (h : IsLibrary lib) (op : Combinator) :
    ∃ f, lib.property (.string op.method) = pure (.host f) ∧ IsLibraryFunction op f := by
  obtain ⟨t, fields, rfl, hfields⟩ := h
  obtain ⟨f, hfound, hf⟩ := hfields op
  refine ⟨f, ?_, hf⟩
  simp only [Value.property, Value.text_string, liftM_ok, pure_bind, hfound, Option.getD_some]

section

variable {I : Memory → Prop} {p : Pairing view} {d depth : Nat} {scope scope' : Scope} {lib : Value}
  {param source body : Node} {op : Combinator}

/-- A call of a function of the library: the source is evaluated, a function is made of the callback,
and the library goes through the one with the other. -/
theorem eval_libraryCall [Host] (hlib : IsLibrary lib) {m : Memory} (hm : m.Resolves scope libraryName lib)
    (depth : Nat) (op : Combinator) (param : Param) (body : Node)
    (hsource : ∀ x, source ≠ .spread x) :
    eval (depth + 2) scope (Dialect.lodash.spell op source param body) m = (do
      let v ← eval (depth + 1) scope source
      let t ← Run.newTag
      callLibrary op (apply depth) [v, .closure t ⟨[param.node], body, scope⟩]) m := by
  obtain ⟨f, hproperty, hf⟩ := property_library hlib op
  have hname : link (eval (depth + 1) scope) (apply (depth + 1)) (.leaf .name ⟨.name, "_"⟩) m =
      .ok (some lib, m) := by
    rw [link_of_not_isLink rfl, eval]
    exact Run.bind_of_ok (lookupName_of_resolves hm)
  have hspread (ev : Node → Run Value) (x : Node) :
      spreadValues ev [source, .arrow [param.node] x] = (do
        let v ← ev source
        let w ← ev (.arrow [param.node] x)
        return [v, w]) := by
    cases source <;> first | exact absurd rfl (hsource _) | simp [spreadValues]
  have hcallable : (Value.host f).isCallable = true := rfl
  rw [Dialect.spell, eval_of_isLink rfl, link_methodCall, bind_assoc, Run.bind_of_ok hname]
  simp only [hproperty, pure_bind, callWith, hcallable, if_true, hspread, bind_assoc, eval,
    newClosure, apply, hf _ _ _, Option.getD_some, bind_pure]

theorem SimulatesWith.newTag_right {R : ResultRel view α β} {a : Run α} {f : Tag → Run β}
    (hI : ∀ {m n : Memory}, I m → m.Precedes n → I n)
    (h : ∀ t, SimulatesWith I p R a (f t)) : SimulatesWith I p R a (Run.newTag >>= f) := by
  constructor
  intro m m' x n hm hm' ha
  have hnew : m'.Precedes { m' with fresh := m'.fresh + 1 } := .newTag _ m'
  exact (h m'.fresh).run (hm.later (.refl ..) hnew hm.notes) (hI hm' hnew) ha

theorem IsSingle.below {q : Pairing view} (hpq : p.Below q) {items : List Value} {v : Value} :
    IsSingle p items v → IsSingle q items v :=
  fun ⟨x, hx, h⟩ => ⟨x, hx, hpq.alike h⟩

theorem newArray_with (hI : Survives libraryName I) {items items' : List Value}
    (h : AlikeAll p items items') :
    SimulatesWith I p IsArrayOf (Pure.pure items) (Run.newArray items') :=
  .newTag_right hI.later fun t => .pure ⟨t, items', rfl, h⟩

theorem libraryCall_with [Host] {R : ResultRel view (List Value) Value} {a : Run (List Value)}
    {k : List Value → Run (List Value)} {param : Param} (hI : Survives libraryName I)
    (hlib : IsLibrary lib) (hfound : ∀ m, I m → m.Resolves scope' libraryName lib)
    (hsource : ∀ x, source ≠ .spread x)
    (ha : SimulatesWith I p IsArrayOf a (eval (depth + 1) scope' source))
    (hk : ∀ q items items' t f, p.Below q → AlikeAll q items items' →
      SimulatesWith I q R (k items) (callLibrary op (apply depth)
        [.array t items', .closure f ⟨[param.node], body, scope'⟩])) :
    SimulatesWith I p R (a >>= k) (eval (depth + 2) scope' (Dialect.lodash.spell op source param body)) := by
  refine .of_eq (fun m hm => eval_libraryCall hlib (hfound m hm) depth op param body hsource) ?_
  refine ha.bind fun q items v hpq ⟨t, items', hv, hitems⟩ => ?_
  subst hv
  exact .newTag_right hI.later fun f => hk q items items' t f hpq hitems

/-! ## Callbacks -/

/-- A child scope in which a pattern is bound that has not the name of the library. -/
theorem childScope_with [Host] [Host.Respects view] (hI : Survives libraryName I)
    (hfound : ∀ m, I m → m.Resolves scope' libraryName lib) (hparam : libraryName ∉ binders param)
    (hd : d ≤ depth) (hs : List.Forall₂ p.frames scope scope') {v v' : Value} (hv : Alike p v v')
    {m m' n : Memory} {inner : Scope} (hm : p.Holds m m') (hm' : I m')
    (h : childScope (eval d) scope param v m = .ok (inner, n)) :
    ∃ q inner' n', childScope (eval depth) scope' param v' m' = .ok (inner', n') ∧ p.Below q ∧
      q.Holds n n' ∧ List.Forall₂ q.frames inner inner' ∧ I n' ∧
      n'.Resolves inner' libraryName lib := by
  obtain ⟨f, o, hf, h⟩ := Run.bind_eq_ok h
  obtain ⟨u, n, hb, h⟩ := Run.bind_eq_ok h
  cases h
  obtain ⟨q, f', o', hf', hpq, ho, hframes, -, hk'⟩ :=
    (newFrame_carries (show AlikeFields p [] [] from .nil)).run hm hf
  cases hf'
  let J : Memory → Prop := fun k => I k ∧ k.Resolves (m'.frames.size :: scope') libraryName lib
  have hJ : Survives libraryName J := hI.and (survives_resolves ..)
  have hframes : List.Forall₂ q.frames (f :: scope) (m'.frames.size :: scope') :=
    .cons hframes (hs.imp fun _ _ => hpq.frames)
  have hev : EvaluatesWith J q (eval d (f :: scope)) (eval depth (m'.frames.size :: scope')) :=
    fun r x hqr => .of_simulates hJ.later fun left right =>
      Simulates.eval (p := r.sealing left right) hd (hframes.imp fun _ _ => hqr.frames) x
  obtain ⟨r, _, n', hb', hqr, hn, -, hn', hresolves⟩ :=
    (bindTo_with hJ param hparam hev hframes (hpq.alike hv)).run ho
      ⟨hI.later hm' hk', (hfound m' hm').newFrame⟩ hb
  refine ⟨r, _, n', ?_, hpq.trans hqr, hn, hframes.imp fun _ _ => hqr.frames, hn', hresolves⟩
  show (bind (eval depth) (m'.frames.size :: scope') param v' >>= fun _ =>
    pure (m'.frames.size :: scope')) { m' with frames := m'.frames.push [] } = _
  rw [Run.bind_of_ok hb']
  rfl

/-- A callback gives what its body gives in a child scope, where the library is still found. -/
theorem callback_with [Host] [Host.Respects view] {R : ResultRel view α Value} {k : Scope → Run α} (hI : Survives libraryName I)
    (hfound : ∀ m, I m → m.Resolves scope' libraryName lib) (hparam : libraryName ∉ binders param)
    (hd : d ≤ depth) (hs : List.Forall₂ p.frames scope scope') {v v' : Value} (hv : Alike p v v')
    (hk : ∀ {J : Memory → Prop} (q : Pairing view) (inner inner'), Survives libraryName J →
      (∀ m, J m → m.Resolves inner' libraryName lib) → List.Forall₂ q.frames inner inner' →
      SimulatesWith J q R (k inner) (eval depth inner' body)) (t : Tag) (more : List Value) :
    SimulatesWith I p R (do k (← childScope (eval d) scope param v))
      (apply (depth + 1) (.closure t ⟨[param], body, scope'⟩) (v' :: more)) := by
  by_cases hrest : ∃ target, param = .patternRest target
  · obtain ⟨target, rfl⟩ := hrest
    refine .never fun m x n h => ?_
    obtain ⟨inner, o, h, -⟩ := Run.bind_eq_ok h
    obtain ⟨frame, o, -, h⟩ := Run.bind_eq_ok h
    simp only [bind] at h
    cases h
  · rw [apply_closure depth fun target h => hrest ⟨target, h⟩]
    constructor
    intro m m' x n hm hm' ha
    obtain ⟨inner, o, hin, hx⟩ := Run.bind_eq_ok ha
    obtain ⟨q, inner', o', hin', hpq, ho, hframes, ho', hresolves⟩ :=
      childScope_with hI hfound hparam hd hs hv hm hm' hin
    let J : Memory → Prop := fun k => I k ∧ k.Resolves inner' libraryName lib
    have hJ : Survives libraryName J := hI.and (survives_resolves ..)
    obtain ⟨r, y, n', hy, hqr, hn, hr, hn', -⟩ :=
      (hk (J := J) q inner inner' hJ (fun _ h => h.2) hframes).run ho ⟨ho', hresolves⟩ hx
    exact ⟨r, y, n', (Run.bind_of_ok hin').trans hy, hpq.trans hqr, hn, hr, hn'⟩

theorem collect_with {S : ResultRel view (List Value) β} {f : Value → Attempt (List Value)}
    {g : Value → Nat → Run β}
    (mono : ∀ {q r : Pairing view}, q.Below r → ∀ {x y}, S q x y → S r x y)
    (hfg : ∀ q v v' i, p.Below q → Alike q v v' → SimulatesWith I q S (f v).finish (g v' i))
    (i : Nat) {items items' : List Value} (hitems : AlikeAll p items items') :
    SimulatesWith I p (fun q xs ys => ∃ parts, List.Forall₂ (S q) parts ys ∧ xs = parts.flatten)
      (collect f items).finish (mapItems g i items') := by
  induction items generalizing p items' i with
  | nil =>
    cases hitems
    simp only [collect, mapItems, Attempt.finish_pure]
    exact .pure ⟨[], .nil, rfl⟩
  | cons v vs ih =>
    cases hitems with
    | cons hv hvs =>
      simp only [collect, Attempt.finish_bind, Attempt.finish_pure, mapItems]
      refine (hfg p v _ i (.refl p) hv).bind fun q x y hpq hx => ?_
      have rest := ih (fun r v v' i hqr => hfg r v v' i (hpq.trans hqr)) (i + 1)
        (AlikeAll.below hpq hvs)
      refine rest.bind fun r xs ys hqr hparts => .pure ?_
      obtain ⟨parts, hp, hxs⟩ := hparts
      exact ⟨x :: parts, .cons (mono hqr hx) hp, by rw [List.flatten_cons, hxs]⟩

/-! ## What the library does -/

theorem flatten_alike {q : Pairing view} {parts parts' : List (List Value)}
    (h : List.Forall₂ (AlikeAll q) parts parts') : AlikeAll q parts.flatten parts'.flatten := by
  induction h with
  | nil => exact .nil
  | cons hv _ ih => exact List.rel_append hv ih

/-- The library keeps what a level lets through. -/
theorem filter_library [Host] [Host.Respects view] {l : Level} {test : Node} (hl : l.condition = some test) (hd : d ≤ depth)
    (hs : List.Forall₂ p.frames scope scope') {items items' : List Value}
    (hitems : AlikeAll p items items') (t t' : Tag) :
    Simulates p IsArrayOf (l.passing (eval d) scope items)
      (callLibrary .filter (apply (depth + 1))
        [.array t items', .closure t' ⟨[l.param.node], test, scope'⟩]) := by
  simp only [Level.passing, hl, Option.isNone_some, Bool.false_eq_true, if_false, callLibrary,
    Value.iterate, Value.items?, pure_bind]
  refine (Simulates.filterItems (fun q v v' i hpq hv => ?_) 0 hitems).bind_right
    fun _ _ _ _ h => .newArray_right h
  have hs := hs.imp fun _ _ => hpq.frames
  refine (callback_simulates (R := fun _ t w => t = w.isTruthy) hd hs hv
    (fun r inner inner' hqr hs => ?_) t' _).bind_right fun _ _ _ _ hw => .pure hw
  simp only [Level.admits, hl]
  exact (Simulates.eval hd hs test).bind_left fun _ _ _ _ hw => .pure hw.isTruthy_eq.symm

/-! ## Levels -/

theorem source_ne_spread {l : Level} (hl : l.Generated) (x : Node) : l.source ≠ .spread x := by
  intro h
  have hsource := hl.source
  rw [h] at hsource
  cases hsource

theorem filtered_ne_spread {l : Level} (hl : l.Generated) (x : Node) :
    l.filtered.spelled Dialect.lodash.spell ≠ .spread x := by
  cases hc : l.condition with
  | none =>
    rw [Level.filtered, hc, Node.spelled_eq_self hl.source.isChain_eq_false]
    exact source_ne_spread hl x
  | some test =>
    rw [Level.filtered, hc, Node.spelled]
    rintro ⟨⟩

theorem source_library [Host] [Host.Respects view] (hd : d ≤ depth) (hs : List.Forall₂ p.frames scope scope') (x : Node) :
    Simulates p IsArrayOf (sourceItems (eval d) scope x) (eval depth scope' x) := by
  refine (Simulates.eval hd hs x).bind_left fun q v v' _ hv => ?_
  have whole := hv
  cases hv with
  | array _ _ _ =>
    simp only [arrayItems, Attempt.finish_pure]
    exact .pure ⟨_, _, rfl, whole.all⟩
  | _ =>
    simp only [arrayItems, Attempt.finish_failure]
    exact .stop

theorem filtered_with [Host] [Host.Respects view] (hI : Survives libraryName I) (hlib : IsLibrary lib)
    (hfound : ∀ m, I m → m.Resolves scope' libraryName lib) {l : Level} (hl : l.Generated)
    (hd : d + 3 ≤ depth) (hs : List.Forall₂ p.frames scope scope') :
    SimulatesWith I p IsArrayOf
      (sourceItems (eval d) scope l.source >>= l.passing (eval d) scope)
      (eval depth scope' (l.filtered.spelled Dialect.lodash.spell)) := by
  obtain ⟨k, rfl⟩ : ∃ k, depth = k + 3 := ⟨depth - 3, by omega⟩
  have source (e : Nat) (he : d ≤ e) :
      SimulatesWith I p IsArrayOf (sourceItems (eval d) scope l.source) (eval e scope' l.source) :=
    .of_simulates hI.later fun left right => source_library (p := p.sealing left right) he hs l.source
  cases hc : l.condition with
  | none =>
    have hp : l.passing (eval d) scope = pure := by
      funext items
      simp [Level.passing, hc]
    rw [hp, bind_pure, Level.filtered, hc, Node.spelled_eq_self hl.source.isChain_eq_false]
    exact source (k + 3) (by omega)
  | some test =>
    simp only [Level.filtered, hc, Node.spelled]
    rw [Node.spelled_eq_self hl.source.isChain_eq_false,
      Node.spelled_eq_self (hl.condition test hc).isChain_eq_false]
    refine libraryCall_with hI hlib hfound (source_ne_spread hl) (source (k + 2) (by omega))
      fun q items items' t f hpq hitems => ?_
    exact .of_simulates hI.later fun left right =>
      filter_library (p := q.sealing left right) hc (by omega) (hs.imp fun _ _ => hpq.frames)
        (hitems.below (q.below_sealing left right)) t f

/-- The passes of some levels come to what the calls of the library evaluate to, provided no level
but the innermost binds the name of the library. -/
theorem passes_library [Host] [Host.Respects view] (hlib : IsLibrary lib) {yield : Node} (hy : yield.isChain = false)
    (ls : List Level) (l : Level) (hls : ∀ l' ∈ l :: ls, l'.Generated)
    (hfree : ∀ l' ∈ (l :: ls).dropLast, libraryName ∉ binders l'.param.node)
    (hd : d + 4 * (ls.length + 1) ≤ depth) (hI : Survives libraryName I)
    (hfound : ∀ m, I m → m.Resolves scope' libraryName lib)
    (hs : List.Forall₂ p.frames scope scope') :
    SimulatesWith I p IsArrayOf (passes (eval d) yield (l :: ls) scope).finish
      (eval depth scope' ((nest yield (l :: ls)).spelled Dialect.lodash.spell)) := by
  induction ls generalizing l depth p scope scope' I with
  | nil =>
    simp only [List.length_nil] at hd
    obtain ⟨k, rfl⟩ : ∃ k, depth = k + 3 := ⟨depth - 3, by omega⟩
    have hl := hls l (by simp)
    have source : SimulatesWith I p IsArrayOf
        (sourceItems (eval d) scope l.source >>= l.passing (eval d) scope)
        (eval (k + 2) scope' (l.filtered.spelled Dialect.lodash.spell)) :=
      filtered_with hI hlib hfound hl (by omega) hs
    rw [passes_cons, nest, Node.spelled, Node.spelled_eq_self hy]
    refine libraryCall_with hI hlib hfound (filtered_ne_spread hl) source
      fun q items items' t f hpq hitems => ?_
    have step (r : Pairing view) (v v' : Value) (i : Nat) (hqr : q.Below r) (hv : Alike r v v') :
        SimulatesWith I r IsSingle
          (do passes (eval d) yield [] (← childScope (eval d) scope l.param.node v) :
            Attempt (List Value)).finish
          (apply (k + 1) (.closure f ⟨[l.param.node], yield, scope'⟩) [v']) := by
      refine .of_simulates hI.later fun left right => ?_
      simp only [passes, Attempt.finish_bind, Attempt.finish_liftM, Attempt.finish_pure]
      refine callback_simulates (p := r.sealing left right) (by omega)
        (hs.imp fun _ _ => (hpq.trans hqr).frames) (hv.sealing left right)
        (fun o inner inner' _ hs => ?_) f []
      exact (Simulates.eval (by omega) hs yield).bind_left fun _ v _ _ hv => .pure ⟨v, rfl, hv⟩
    simp only [callLibrary, Value.iterate, Value.items?, pure_bind]
    refine (collect_with IsSingle.below step 0 hitems).bind_right fun _ _ _ _ hparts => ?_
    obtain ⟨parts, hp, hx⟩ := hparts
    exact newArray_with hI (hx ▸ IsSingle.flatten hp)
  | cons l' ls ih =>
    simp only [List.length_cons] at hd
    obtain ⟨k, rfl⟩ : ∃ k, depth = k + 3 := ⟨depth - 3, by omega⟩
    have hl := hls l (by simp)
    have hparam : libraryName ∉ binders l.param.node := hfree l (by simp)
    have source : SimulatesWith I p IsArrayOf
        (sourceItems (eval d) scope l.source >>= l.passing (eval d) scope)
        (eval (k + 2) scope' (l.filtered.spelled Dialect.lodash.spell)) :=
      filtered_with hI hlib hfound hl (by omega) hs
    rw [passes_cons]
    simp only [nest, Node.spelled]
    refine libraryCall_with hI hlib hfound (filtered_ne_spread hl) source
      fun q items items' t f hpq hitems => ?_
    have step (r : Pairing view) (v v' : Value) (i : Nat) (hqr : q.Below r) (hv : Alike r v v') :
        SimulatesWith I r AlikeAll
          (do passes (eval d) yield (l' :: ls) (← childScope (eval d) scope l.param.node v) :
            Attempt (List Value)).finish
          (do (← apply (k + 1) (.closure f ⟨[l.param.node],
            (nest yield (l' :: ls)).spelled Dialect.lodash.spell, scope'⟩) [v']).iterate) := by
      simp only [Attempt.finish_bind, Attempt.finish_liftM]
      refine (callback_with (R := IsArrayOf) hI hfound hparam (by omega)
        (hs.imp fun _ _ => (hpq.trans hqr).frames) hv (fun o inner inner' hJ hfound' hs => ?_) f
        []).bind_right fun o xs w _ harray => ?_
      · exact ih l' (fun l'' h => hls l'' (by simp [h]))
          (fun l'' h => hfree l'' (List.mem_cons_of_mem _ h)) (by omega) hJ hfound' hs
      · obtain ⟨t, ys, rfl, h⟩ := harray
        exact .pure h
    simp only [callLibrary, Value.iterate, Value.items?, pure_bind]
    refine (collect_with AlikeAll.below step 0 hitems).bind_right fun _ _ _ _ hparts => ?_
    obtain ⟨parts, hp, hx⟩ := hparts
    exact newArray_with hI (hx ▸ flatten_alike hp)

end

end Comprehend.Script
