import Comprehend.Proofs.Chain.Loops

/-! # Links at work

What a link does once it is spelled: its source is evaluated as far as an array, a method of that
array is read and called, and the callback is called for every item. -/

namespace Comprehend.Script

open Chain

variable {view : View}

/-- An array of items alike. -/
def IsArrayOf (q : Pairing view) (items : List Value) (v : Value) : Prop :=
  ∃ t items', v = .array t items' ∧ AlikeAll q items items'

theorem IsArrayOf.mono {p q : Pairing view} (hpq : p.Grows q) {items : List Value} {v : Value} :
    IsArrayOf p items v → IsArrayOf q items v :=
  fun ⟨t, items', hv, h⟩ => ⟨t, items', hv, AlikeAll.mono hpq h⟩

/-- A chain of links that has not ended, and whose value is related. -/
def EndsAt (R : ResultRel view α Value) (q : Pairing view) (x : α) (o : Option Value) : Prop :=
  ∃ v, o = some v ∧ R q x v

theorem Memory.Keeps.newTag (bound : Nat) (m : Memory) :
    m.Keeps bound { m with fresh := m.fresh + 1 } :=
  ⟨Nat.le_succ _, Nat.le_refl _, fun _ _ => rfl⟩

namespace Simulates

variable {p : Pairing view}

/-- An identity handed out on one side only. -/
theorem newTag_right {R : ResultRel view α β} {a : Run α} {f : Tag → Run β}
    (h : ∀ t, Simulates p R a (f t)) : Simulates p R a (Run.newTag >>= f) := by
  constructor
  intro m m' x n hm ha
  obtain ⟨q, y, n', hb, hpq, hn, hr, hk, hk'⟩ :=
    (h m'.fresh).run (hm.later (.refl ..) (.newTag _ m') hm.notes) ha
  exact ⟨q, y, n', hb, hpq, hn, hr, hk, (Memory.Keeps.newTag _ m').trans hk'⟩

/-- An array made on one side only. -/
theorem newArray_right {items items' : List Value} (h : AlikeAll p items items') :
    Simulates p IsArrayOf (Pure.pure items) (Run.newArray items') :=
  newTag_right fun t => pure ⟨t, items', rfl, h⟩

end Simulates

/-! ## Calls of built-in methods on arrays -/

def builtin : Combinator → Method
  | .filter => .filter
  | .map => .map
  | .flatMap => .flatMap

theorem liftM_ok (x : α) : (liftM (Except.ok x : Except Refusal α) : Run α) = pure x := rfl

theorem index?_method (op : Combinator) : (Value.string op.method).index? = .ok none := by
  cases op <;> decide

theorem arrayMethod?_method (op : Combinator) : arrayMethod? op.method = some (builtin op) := by
  cases op <;> rfl

theorem property_method (t : Tag) (items : List Value) (op : Combinator) :
    (Value.array t items).property (.string op.method) = (do
      return .method (← Run.newTag) (.array t items) (builtin op)) := by
  have hl : (op.method == "length") = false := by cases op <;> decide
  simp only [Value.property, index?_method, Value.text_string, liftM_ok, pure_bind, hl,
    Bool.false_eq_true, if_false, arrayMethod?_method]
  rfl

/-- A method call in a chain of links. -/
theorem link_methodCall (ev : Node → Run Value) (call : Caller) (source : Node) (name : Token)
    (args : List Node) :
    link ev call (.call false (.member false source name) args) = (do
      match ← link ev call source with
      | none => return none
      | some v => do
        let f ← v.property (.string name.text)
        return some (← callWith ev call f args)) := by
  simp only [link, bind_assoc]
  congr 1
  funext base
  cases base with
  | none => rfl
  | some v => simp [linkFrom]

/-- The callback of a link. -/
inductive IsCallback : Node → Node → Node → Prop
  | arrow (param body) : IsCallback param body (.arrow [param] body)
  | function (param body) : IsCallback param body (.function [param] body)

/-- A call of a method with a callback makes a function of it first. -/
theorem callWith_callback [Host] {param body fn : Node} (hfn : IsCallback param body fn) (depth : Nat)
    (scope : Scope) (t : Tag) (receiver : Value) (m : Method) :
    callWith (eval (depth + 1) scope) (apply (depth + 1)) (.method t receiver m) [fn] = (do
      let t' ← Run.newTag
      callMethod (apply depth) receiver m [.closure t' ⟨[param], body, scope⟩]) := by
  have hc : (Value.method t receiver m).isCallable = true := rfl
  cases hfn <;>
    simp only [callWith, hc, if_true, spreadValues, eval, newClosure, apply, bind_assoc, pure_bind]

/-- A method call on an array, with a callback. -/
theorem methodCall_simulates [Host] {R : ResultRel view (List Value) Value} {p : Pairing view}
    {a : Run (List Value)} {k : List Value → Run (List Value)}
    {depth : Nat} {scope : Scope} {param body fn source : Node} {name : Token} (op : Combinator)
    (hfn : IsCallback param body fn) (hname : name.text = op.method)
    (ha : Simulates p (EndsAt IsArrayOf) a (link (eval (depth + 1) scope) (apply (depth + 1)) source))
    (hk : ∀ q items items' t f, p.Grows q → AlikeAll q items items' →
      Simulates q R (k items) (arrayMethod (apply depth) (.array t items') items'
        (builtin op) [.closure f ⟨[param], body, scope⟩])) :
    Simulates p (EndsAt R) (a >>= k) (link (eval (depth + 1) scope) (apply (depth + 1))
      (.call false (.member false source name) [fn])) := by
  rw [link_methodCall]
  refine ha.bind fun q items o hpq ho => ?_
  obtain ⟨v, rfl, t, items', rfl, hitems⟩ := ho
  simp only [hname, property_method, bind_assoc, pure_bind, callWith_callback hfn]
  refine .newTag_right fun g => .newTag_right fun f => ?_
  exact (hk q items items' t f hpq hitems).bind_right fun _ _ v _ hv => .pure ⟨v, rfl, hv⟩

/-! ## Values and arrays of parts -/

section

variable {p : Pairing view}

/-- A single value. -/
def IsSingle (q : Pairing view) (items : List Value) (v : Value) : Prop :=
  ∃ x, items = [x] ∧ Alike q x v

theorem IsSingle.flatten {parts : List (List Value)} {vs : List Value}
    (h : List.Forall₂ (IsSingle p) parts vs) : AlikeAll p parts.flatten vs := by
  induction h with
  | nil => exact .nil
  | cons hx _ ih =>
    obtain ⟨x, rfl, hx⟩ := hx
    exact .cons hx ih

theorem IsArrayOf.flatten {parts : List (List Value)} {vs : List Value}
    (h : List.Forall₂ (IsArrayOf p) parts vs) : AlikeAll p parts.flatten (flattenOne vs) := by
  induction h with
  | nil => exact .nil
  | cons hx _ ih =>
    obtain ⟨t, items, rfl, hitems⟩ := hx
    exact List.rel_append hitems ih

/-- An array of what some parts are related to, and the parts in a row. -/
def IsArrayOfParts (S : ResultRel view (List Value) Value) (q : Pairing view) (items : List Value)
    (v : Value) : Prop :=
  ∃ t parts vs, v = .array t vs ∧ List.Forall₂ (S q) parts vs ∧ items = parts.flatten

theorem IsArrayOfParts.single {items : List Value} {v : Value}
    (h : IsArrayOfParts IsSingle p items v) : IsArrayOf p items v := by
  obtain ⟨t, parts, vs, rfl, hp, rfl⟩ := h
  exact ⟨t, vs, rfl, IsSingle.flatten hp⟩

theorem IsSingle.mono {q : Pairing view} (hpq : p.Grows q) {items : List Value} {v : Value} :
    IsSingle p items v → IsSingle q items v :=
  fun ⟨x, hx, h⟩ => ⟨x, hx, h.mono hpq⟩

end

/-! ## Callbacks -/

section

variable {p : Pairing view} {d depth : Nat} {scope scope' : Scope} {param body : Node}

theorem bindItems_single (ev : Evaluator) (scope : Scope) (x : Node) (v : Value) (vs : List Value)
    (hx : ∀ target, x ≠ .patternRest target) :
    bindItems ev scope [x] (v :: vs) = bind ev scope x v := by
  cases x with
  | patternRest target => exact absurd rfl (hx target)
  | _ => simp [bindItems]

variable [Host]

/-- A call of a callback binds its item in a child scope. -/
theorem apply_closure (depth : Nat) (hx : ∀ target, param ≠ .patternRest target) (t : Tag) (v : Value)
    (more : List Value) :
    apply (depth + 1) (.closure t ⟨[param], body, scope⟩) (v :: more) = (do
      let inner ← childScope (eval depth) scope param v
      eval depth inner body) := by
  simp only [apply, childScope, bind_assoc, pure_bind, bindItems_single _ _ _ _ _ hx]

variable [Host.Respects view]

/-- A callback gives what its body gives in a child scope in which the item is bound. -/
theorem callback_simulates {R : ResultRel view α Value} {k : Scope → Run α} (hd : d ≤ depth)
    (hs : List.Forall₂ p.frames scope scope') {v v' : Value} (hv : Alike p v v')
    (hk : ∀ (q : Pairing view) inner inner', p.Grows q → List.Forall₂ q.frames inner inner' →
      Simulates q R (k inner) (eval depth inner' body)) (t : Tag) (more : List Value) :
    Simulates p R (do k (← childScope (eval d) scope param v))
      (apply (depth + 1) (.closure t ⟨[param], body, scope'⟩) (v' :: more)) := by
  by_cases hp : ∃ target, param = .patternRest target
  · obtain ⟨target, rfl⟩ := hp
    refine .never fun m x n h => ?_
    obtain ⟨inner, o, h, -⟩ := Run.bind_eq_ok h
    obtain ⟨frame, o, -, h⟩ := Run.bind_eq_ok h
    simp only [bind] at h
    cases h
  · rw [apply_closure depth fun target h => hp ⟨target, h⟩]
    exact (childScope_simulates hd hs param hv).bind fun q inner inner' hpq hs =>
      hk q inner inner' hpq hs

/-- A condition in a callback keeps what a level lets through. -/
theorem filter_simulates {l : Level} {test test' : Node} (hl : l.condition = some test)
    (hd : d ≤ depth) (ht : ∀ (q : Pairing view) inner inner', List.Forall₂ q.frames inner inner' →
      Simulates q Alike (eval d inner test) (eval depth inner' test'))
    (hs : List.Forall₂ p.frames scope scope') {items items' : List Value}
    (hitems : AlikeAll p items items') (t t' : Tag) :
    Simulates p IsArrayOf (l.passing (eval d) scope items)
      (arrayMethod (apply (depth + 1)) (.array t items') items' .filter
        [.closure t' ⟨[l.param.node], test', scope'⟩]) := by
  simp only [Level.passing, hl, Option.isNone_some, Bool.false_eq_true, if_false]
  refine (Simulates.filterItems (fun q v v' i hpq hv => ?_) 0 hitems).bind_right
    fun _ _ _ _ h => .newArray_right h
  have hs := hs.imp fun _ _ => hpq.frames
  refine (callback_simulates (R := fun _ t w => t = w.isTruthy) hd hs hv
    (fun r inner inner' hqr hs => ?_) t' _).bind_right fun _ _ _ _ hw => .pure hw
  simp only [Level.admits, hl]
  exact (ht r inner inner' hs).bind_left fun _ _ _ _ hw => .pure hw.isTruthy_eq.symm

/-- What the items give, gathered by the loops and called for one by one. -/
theorem collect_simulates {S : ResultRel view (List Value) Value} {next : Scope → Attempt (List Value)}
    (mono : ∀ {q r}, Pairing.Grows q r → ∀ {x y}, S q x y → S r x y) (hd : d ≤ depth)
    (hnext : ∀ (q : Pairing view) inner inner', List.Forall₂ q.frames inner inner' →
      Simulates q S (next inner).finish (eval depth inner' body))
    (hs : List.Forall₂ p.frames scope scope') (receiver : Value) (t : Tag) (i : Nat)
    {items items' : List Value} (hitems : AlikeAll p items items') :
    Simulates p (fun q xs ys => ∃ parts, List.Forall₂ (S q) parts ys ∧ xs = parts.flatten)
      (collect (fun v => do next (← childScope (eval d) scope param v)) items).finish
      (mapItems (fun v i =>
        apply (depth + 1) (.closure t ⟨[param], body, scope'⟩) [v, .int i, receiver]) i items') := by
  induction items generalizing p items' i with
  | nil =>
    cases hitems
    exact .pure ⟨[], .nil, rfl⟩
  | cons v vs ih =>
    cases hitems with
    | cons hv hvs =>
      simp only [collect, Attempt.finish_bind, Attempt.finish_liftM, Attempt.finish_pure]
      refine (callback_simulates hd hs hv (fun q inner inner' _ h => hnext q inner inner' h) t
        _).bind fun q x y hpq hx => ?_
      have rest := ih (hs.imp fun _ _ => hpq.frames) (i + 1) (AlikeAll.mono hpq hvs)
      refine rest.bind fun r xs ys hqr hparts => .pure ?_
      obtain ⟨parts, hp, hxs⟩ := hparts
      exact ⟨x :: parts, .cons (mono hqr hx) hp, by rw [List.flatten_cons, hxs]⟩

theorem map_simulates {S : ResultRel view (List Value) Value} {next : Scope → Attempt (List Value)}
    (mono : ∀ {q r}, Pairing.Grows q r → ∀ {x y}, S q x y → S r x y) (hd : d ≤ depth)
    (hnext : ∀ (q : Pairing view) inner inner', List.Forall₂ q.frames inner inner' →
      Simulates q S (next inner).finish (eval depth inner' body))
    (hs : List.Forall₂ p.frames scope scope') {items items' : List Value}
    (hitems : AlikeAll p items items') (t t' : Tag) :
    Simulates p (IsArrayOfParts S)
      (collect (fun v => do next (← childScope (eval d) scope param v)) items).finish
      (arrayMethod (apply (depth + 1)) (.array t items') items' .map
        [.closure t' ⟨[param], body, scope'⟩]) := by
  refine (collect_simulates mono hd hnext hs (.array t items') t' 0 hitems).bind_right ?_
  rintro q xs ys _ ⟨parts, hp, hxs⟩
  exact .newTag_right fun t => .pure ⟨t, parts, ys, rfl, hp, hxs⟩

theorem flatMap_simulates {next : Scope → Attempt (List Value)} (hd : d ≤ depth)
    (hnext : ∀ (q : Pairing view) inner inner', List.Forall₂ q.frames inner inner' →
      Simulates q IsArrayOf (next inner).finish (eval depth inner' body))
    (hs : List.Forall₂ p.frames scope scope') {items items' : List Value}
    (hitems : AlikeAll p items items') (t t' : Tag) :
    Simulates p IsArrayOf
      (collect (fun v => do next (← childScope (eval d) scope param v)) items).finish
      (arrayMethod (apply (depth + 1)) (.array t items') items' .flatMap
        [.closure t' ⟨[param], body, scope'⟩]) := by
  refine (collect_simulates IsArrayOf.mono hd hnext hs (.array t items') t' 0 hitems).bind_right ?_
  rintro q xs ys _ ⟨parts, hp, hxs⟩
  exact .newArray_right (hxs ▸ IsArrayOf.flatten hp)

end

end Comprehend.Script
