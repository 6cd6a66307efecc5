import Comprehend.Proofs.Chain.Link
import Comprehend.Proofs.Chain.Spelling

/-! # Passes and spelled chains

Whatever the passes of some levels come to, the spelled chain evaluates to an array of it, provided
each link is spelled so that it filters, maps or flattens what its source evaluates to. -/

namespace Comprehend.Script

open Chain

variable {view : View}

/-! ## Sources and levels -/

/-- The items of the source of a link. -/
def sourceItems (ev : Evaluator) (scope : Scope) (x : Node) : Run (List Value) := do
  (arrayItems (← ev scope x)).finish

theorem passes_cons (ev : Evaluator) (yield : Node) (l : Level) (ls : List Level) (scope : Scope) :
    (passes ev yield (l :: ls) scope).finish =
      (sourceItems ev scope l.source >>= l.passing ev scope) >>= fun kept =>
        (collect (fun v => do passes ev yield ls (← childScope ev scope l.param.node v))
          kept).finish := by
  simp only [passes, sourceItems, Attempt.finish_bind, Attempt.finish_liftM, bind_assoc]

theorem arrayItems_ends {p : Pairing view} {v v' : Value} (h : Alike p v v') :
    Simulates p (EndsAt IsArrayOf) (arrayItems v).finish (pure (some v')) := by
  have whole := h
  cases h with
  | array _ _ _ =>
    simp only [arrayItems, Attempt.finish_pure]
    exact .pure ⟨_, rfl, _, _, rfl, whole.all⟩
  | _ =>
    simp only [arrayItems, Attempt.finish_failure]
    exact .stop

theorem isLink_nest {spell : Combinator → Node → Param → Node → Node}
    (hspell : ∀ op source param body, (spell op source param body).isLink = true)
    (yield : Node) (l : Level) (ls : List Level) :
    ((nest yield (l :: ls)).spelled spell).isLink = true := by
  cases ls <;> exact hspell ..

/-! ## Methods that concatenate -/

theorem property_concat (t : Tag) (items : List Value) :
    (Value.array t items).property (.string "concat") = (do
      return .method (← Run.newTag) (.array t items) .concat) := by
  have hi : (Value.string "concat").index? = .ok none := by decide
  have hl : ("concat" == "length") = false := by decide
  simp only [Value.property, hi, Value.text_string, liftM_ok, pure_bind, hl, Bool.false_eq_true,
    if_false, arrayMethod?]
  rfl

theorem property_apply (t : Tag) (receiver : Value) (m : Method) :
    (Value.method t receiver m).property (.string "apply") = (do
      return .method (← Run.newTag) (.method t receiver m) .apply) := by
  have hc : (Value.method t receiver m).isCallable = true := rfl
  simp only [Value.property, hc, if_true, Value.text_string, liftM_ok, pure_bind]
  rfl

/-! ## Spelling links -/

variable [Host]

/-- A way to spell links as expressions: each is a link of its own, and on a source that ends at an array it
filters, maps or flattens the array. Callbacks are evaluated some depth below their link, and so may
be the source of one that flattens. -/
structure IsSpelling (view : View) (spell : Combinator → Node → Param → Node → Node) : Prop where
  isLink : ∀ op source param body, (spell op source param body).isLink = true
  filter : ∀ {p : Pairing view} {d depth : Nat} {scope scope' : Scope} {a : Run (List Value)}
    {source test test' : Node} {l : Level}, l.condition = some test → d + 4 ≤ depth →
    (∀ (q : Pairing view) e inner inner', depth ≤ e + 3 → List.Forall₂ q.frames inner inner' →
      Simulates q Alike (eval d inner test) (eval e inner' test')) →
    List.Forall₂ p.frames scope scope' →
    Simulates p (EndsAt IsArrayOf) a (link (eval depth scope') (apply depth) source) →
    Simulates p (EndsAt IsArrayOf) (a >>= l.passing (eval d) scope)
      (link (eval depth scope') (apply depth) (spell .filter source l.param test'))
  map : ∀ {p : Pairing view} {d depth : Nat} {scope scope' : Scope} {a : Run (List Value)}
    {source body : Node} {param : Param} {next : Scope → Attempt (List Value)}, d + 4 ≤ depth →
    (∀ (q : Pairing view) e inner inner', depth ≤ e + 3 → List.Forall₂ q.frames inner inner' →
      Simulates q IsSingle (next inner).finish (eval e inner' body)) →
    List.Forall₂ p.frames scope scope' →
    Simulates p (EndsAt IsArrayOf) a (link (eval depth scope') (apply depth) source) →
    Simulates p (EndsAt IsArrayOf) (a >>= fun items =>
        (collect (fun v => do next (← childScope (eval d) scope param.node v)) items).finish)
      (link (eval depth scope') (apply depth) (spell .map source param body))
  flatMap : ∀ {p : Pairing view} {d depth : Nat} {scope scope' : Scope} {a : Run (List Value)}
    {source body : Node} {param : Param} {next : Scope → Attempt (List Value)}, d + 5 ≤ depth →
    (∀ (q : Pairing view) e inner inner', depth ≤ e + 3 → List.Forall₂ q.frames inner inner' →
      Simulates q IsArrayOf (next inner).finish (eval e inner' body)) →
    List.Forall₂ p.frames scope scope' →
    (∀ e, depth ≤ e + 1 →
      Simulates p (EndsAt IsArrayOf) a (link (eval e scope') (apply e) source)) →
    Simulates p (EndsAt IsArrayOf) (a >>= fun items =>
        (collect (fun v => do next (← childScope (eval d) scope param.node v)) items).finish)
      (link (eval depth scope') (apply depth) (spell .flatMap source param body))

/-- Method calls on the source spell links. -/
theorem isSpelling_methodCall [Host.Respects view] (cls : TokenClass) {fn : List Node → Node → Node}
    (hfn : ∀ param body, IsCallback param body (fn [param] body)) :
    IsSpelling view (Node.methodCall cls fn) where
  isLink _ _ _ _ := rfl
  filter {p d depth scope scope' a source test test' l} hl hd ht hs ha := by
    obtain ⟨k, rfl⟩ : ∃ k, depth = k + 3 := ⟨depth - 3, by omega⟩
    refine methodCall_simulates .filter (hfn ..) rfl ha fun q items items' t f hpq hitems => ?_
    exact filter_simulates hl (by omega) (fun r inner inner' => ht r (k + 1) inner inner' (by omega))
      (hs.imp fun _ _ => hpq.frames) hitems t f
  map {p d depth scope scope' a source body param next} hd hnext hs ha := by
    obtain ⟨k, rfl⟩ : ∃ k, depth = k + 3 := ⟨depth - 3, by omega⟩
    refine methodCall_simulates .map (hfn ..) rfl ha fun q items items' t f hpq hitems => ?_
    exact (map_simulates IsSingle.mono (by omega)
      (fun r inner inner' => hnext r (k + 1) inner inner' (by omega))
      (hs.imp fun _ _ => hpq.frames) hitems t f).imp fun _ _ _ _ => IsArrayOfParts.single
  flatMap {p d depth scope scope' a source body param next} hd hnext hs ha := by
    obtain ⟨k, rfl⟩ : ∃ k, depth = k + 3 := ⟨depth - 3, by omega⟩
    have ha := ha (k + 3) (Nat.le_succ _)
    refine methodCall_simulates .flatMap (hfn ..) rfl ha fun q items items' t f hpq hitems => ?_
    exact flatMap_simulates (by omega)
      (fun r inner inner' => hnext r (k + 1) inner inner' (by omega))
      (hs.imp fun _ _ => hpq.frames) hitems t f

/-! ## Flattening by concatenation -/

/-- The call that concatenates the arrays that an expression gives. -/
def concatCall (x : Node) : Node :=
  .call false (.member false (.member false (.array []) ⟨.propertyName, "concat"⟩)
    ⟨.propertyName, "apply"⟩) [.array [], x]

theorem eval_array_nil (depth : Nat) (scope : Scope) :
    eval (depth + 1) scope (.array []) = do return .array (← Run.newTag) [] := by
  simp only [eval, spreadValues, pure_bind, Run.newArray]

/-- The first part of that call makes the method that is called and a receiver for it that is not
looked at. -/
theorem link_concatCall (depth : Nat) (scope : Scope) {x : Node} (hx : x.isLink = true) :
    link (eval (depth + 1) scope) (apply (depth + 1)) (concatCall x) = (do
      let t₀ ← Run.newTag
      let t₁ ← Run.newTag
      let _ ← Run.newTag
      let t₃ ← Run.newTag
      let list ← eval (depth + 1) scope x
      let concat : Value := .method t₁ (.array t₀ []) .concat
      return some (← callMethod (apply depth) concat .apply [.array t₃ [], list])) := by
  have hc (t : Tag) (receiver : Value) (m : Method) :
      (Value.method t receiver m).isCallable = true := rfl
  have hs (ev : Node → Run Value) :
      spreadValues ev [.array [], x] = (do
        let v ← ev (.array [])
        let w ← ev x
        return [v, w]) := by
    cases x <;> first | contradiction | simp [spreadValues]
  rw [concatCall, link_methodCall]
  simp only [link, eval_array_nil, linkFrom, Bool.false_and, Bool.false_eq_true, if_false,
    bind_assoc, pure_bind, property_concat, property_apply, callWith, hc, if_true, hs, apply]

theorem callMethod_concat (depth : Nat) (t₀ t₁ t : Tag) (v : Value) (vs : List Value) :
    callMethod (apply (depth + 1)) (.method t₁ (.array t₀ []) .concat) .apply [v, .array t vs] =
      Run.newArray (flattenOne vs) := by
  cases vs with
  | nil =>
    simp only [callMethod, Value.isNoArguments, List.isEmpty_nil, if_true, apply]
    rfl
  | cons w ws =>
    simp only [callMethod, Value.isNoArguments, List.isEmpty_cons, Bool.false_eq_true, if_false,
      apply, Value.iterate, Value.items?, pure_bind]
    rfl

theorem concatCall_simulates {p : Pairing view} {a : Run (List Value)} {x : Node} {depth : Nat}
    {scope : Scope} (hx : x.isLink = true)
    (ha : Simulates p (IsArrayOfParts IsArrayOf) a (eval (depth + 2) scope x)) :
    Simulates p (EndsAt IsArrayOf) a
      (link (eval (depth + 2) scope) (apply (depth + 2)) (concatCall x)) := by
  rw [link_concatCall (depth + 1) scope hx]
  refine .newTag_right fun t₀ => .newTag_right fun t₁ => .newTag_right fun _ =>
    .newTag_right fun t₃ => ha.bind_right fun q xs v _ ⟨t, parts, vs, hv, hp, hxs⟩ => ?_
  subst hv hxs
  simp only [callMethod_concat]
  exact (Simulates.newArray_right (IsArrayOf.flatten hp)).bind_right
    fun _ _ v _ hv => .pure ⟨v, rfl, hv⟩

/-- The oldest dialect spells links. -/
theorem isSpelling_es5 [Host.Respects view] : IsSpelling view Dialect.es5.spell where
  isLink op _ _ _ := by cases op <;> rfl
  filter := (isSpelling_methodCall .propertyName .function).filter
  map := (isSpelling_methodCall .propertyName .function).map
  flatMap {p d depth scope scope' a source body param next} hd hnext hs ha := by
    obtain ⟨k, rfl⟩ : ∃ k, depth = k + 4 := ⟨depth - 4, by omega⟩
    refine concatCall_simulates rfl ?_
    rw [eval_of_isLink rfl]
    refine (methodCall_simulates (R := IsArrayOfParts IsArrayOf) .map (.function ..) rfl
      (ha (k + 3) (Nat.le_refl _)) fun q items items' t f hpq hitems => ?_).bind_right
      fun _ _ _ _ ⟨v, ho, hv⟩ => .pure (ho ▸ hv)
    exact map_simulates IsArrayOf.mono (by omega)
      (fun r inner inner' => hnext r (k + 1) inner inner' (by omega))
      (hs.imp fun _ _ => hpq.frames) hitems t f

section

variable {spell : Combinator → Node → Param → Node → Node} {p : Pairing view} {d depth : Nat}
  {scope scope' : Scope}

/-- A tree that is a chain has no value of its own. -/
theorem eval_chain {x : Node} (hx : x.isChain = true) (d : Nat) (scope : Scope) (m : Memory)
    (v : Value) (n : Memory) : eval d scope x m ≠ .ok (v, n) := by
  cases x with
  | chain op source param body =>
    cases d with
    | zero => rw [eval]; rintro ⟨⟩
    | succ d => rw [eval]; rintro ⟨⟩
  | _ => cases hx

variable [Host.Respects view]

theorem eval_spelled (hd : d ≤ depth) (hs : List.Forall₂ p.frames scope scope') (x : Node) :
    Simulates p Alike (eval d scope x) (eval depth scope' (x.spelled spell)) := by
  by_cases hx : x.isChain = true
  · exact .never (eval_chain hx d scope)
  · rw [Node.spelled_eq_self (by simpa using hx)]
    exact .eval hd hs x

/-- The source of a link, evaluated as far as an array. -/
theorem source_simulates (hd : d ≤ depth) (hs : List.Forall₂ p.frames scope scope') (x : Node) :
    Simulates p (EndsAt IsArrayOf) (sourceItems (eval d) scope x)
      (link (eval depth scope') (apply depth) (x.spelled spell)) := by
  by_cases hx : x.isChain = true
  · refine .never fun m v n h => ?_
    obtain ⟨v, o, h, -⟩ := Run.bind_eq_ok h
    exact eval_chain hx d scope m v o h
  rw [Node.spelled_eq_self (by simpa using hx)]
  by_cases hl : x.isLink = true
  · cases d with
    | zero =>
      rw [sourceItems, eval]
      exact .stop
    | succ d =>
      simp only [sourceItems, eval_of_isLink hl, bind_assoc, pure_bind]
      have he : SimulatesIn p (eval d scope) (eval depth scope') :=
        (Simulates.eval_apply (Nat.le_of_succ_le hd) p).1 scope scope' hs
      have hc : SimulatesCalls p (apply d) (apply depth) :=
        (Simulates.eval_apply (Nat.le_of_succ_le hd) p).2
      refine (Simulates.link x he hc).bind_left fun q o o' _ ho => ?_
      cases ho with
      | none => exact .stop
      | some hv => exact arrayItems_ends hv
  · rw [link_of_not_isLink (by simpa using hl)]
    exact (Simulates.eval hd hs x).bind fun _ _ _ _ hv => arrayItems_ends hv

theorem filtered_simulates (hspell : IsSpelling view spell) (l : Level) (hd : d + 4 ≤ depth)
    (hs : List.Forall₂ p.frames scope scope') :
    Simulates p (EndsAt IsArrayOf) (sourceItems (eval d) scope l.source >>= l.passing (eval d) scope)
      (link (eval depth scope') (apply depth) (l.filtered.spelled spell)) := by
  have source : Simulates p (EndsAt IsArrayOf) (sourceItems (eval d) scope l.source)
      (link (eval depth scope') (apply depth) (l.source.spelled spell)) :=
    source_simulates (Nat.le_of_add_right_le hd) hs l.source
  cases hc : l.condition with
  | none =>
    have hp : l.passing (eval d) scope = pure := by
      funext items
      simp [Level.passing, hc]
    rw [hp, bind_pure, Level.filtered, hc]
    exact source
  | some test =>
    rw [Level.filtered, hc]
    exact hspell.filter hc hd (fun q e inner inner' he hs => eval_spelled (by omega) hs test) hs
      source

/-- The passes of some levels come to what their spelled chain evaluates to. -/
theorem passes_simulates (hspell : IsSpelling view spell) {yield : Node} (ls : List Level) (l : Level)
    (hd : d + 4 * (ls.length + 1) < depth) (hs : List.Forall₂ p.frames scope scope') :
    Simulates p (EndsAt IsArrayOf) (passes (eval d) yield (l :: ls) scope).finish
      (link (eval depth scope') (apply depth) ((nest yield (l :: ls)).spelled spell)) := by
  induction ls generalizing l depth p scope scope' with
  | nil =>
    have hd4 : d + 4 ≤ depth := Nat.le_of_lt (by simpa using hd)
    have source := filtered_simulates hspell l hd4 hs
    rw [passes_cons]
    refine hspell.map hd4 (fun q e inner inner' he hs => ?_) hs source
    simp only [passes, Attempt.finish_bind, Attempt.finish_liftM, Attempt.finish_pure]
    exact (eval_spelled (by omega) hs yield).bind_left fun _ v _ _ hv => .pure ⟨v, rfl, hv⟩
  | cons l' ls ih =>
    simp only [List.length_cons] at hd
    have hd5 : d + 5 ≤ depth := by omega
    have source (e : Nat) (he : depth ≤ e + 1) :=
      filtered_simulates hspell l (show d + 4 ≤ e by omega) hs
    rw [passes_cons]
    refine hspell.flatMap hd5 (fun q e inner inner' he hs => ?_) hs source
    obtain ⟨e, rfl⟩ : ∃ k, e = k + 1 := ⟨e - 1, by omega⟩
    rw [eval_of_isLink (isLink_nest hspell.isLink yield l' ls)]
    refine (ih l' (by omega) hs).bind_right fun q items o _ hend => ?_
    obtain ⟨v, ho, hv⟩ := hend
    exact .pure (ho ▸ hv)

/-- Around at least one level a spelled chain is a call, and evaluates to the array at its end. -/
theorem passes_eval (hspell : IsSpelling view spell) {yield : Node} {ls : List Level} {l : Level}
    (hd : d + 4 * (ls.length + 1) + 1 < depth) (hs : List.Forall₂ p.frames scope scope') :
    Simulates p IsArrayOf (passes (eval d) yield (l :: ls) scope).finish
      (eval depth scope' ((nest yield (l :: ls)).spelled spell)) := by
  obtain ⟨k, rfl⟩ : ∃ k, depth = k + 1 := ⟨depth - 1, by omega⟩
  rw [eval_of_isLink (isLink_nest hspell.isLink yield l ls)]
  exact (passes_simulates hspell ls l (Nat.le_of_lt_succ hd) hs).bind_right
    fun q items o _ ⟨v, ho, hv⟩ => .pure (ho ▸ hv)

end

end Comprehend.Script
