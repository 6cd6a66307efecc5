import Comprehend.Proofs.Script.Place

/-! # Places in functions

A function has expressions that are evaluated in a call of it: its body, and the default values in
its parameters, however far down in a pattern. A call comes to each of them at most once and goes on
with its value. -/

namespace Comprehend

/-- A place of a default value in a parameter. -/
inductive DefaultPlace
  | value (target : Node)
  | target (inner : DefaultPlace) (value : Node)
  | item (before : List Node) (inner : DefaultPlace) (after : List Node)
  | restItem (before : List Node) (inner : DefaultPlace) (after : List Node)
  | field (before : List Node) (inner : DefaultPlace) (after : List Node)
  | keyedField (before : List Node) (key : Token) (inner : DefaultPlace) (after : List Node)
  | restField (before : List Node) (inner : DefaultPlace) (after : List Node)

def DefaultPlace.fill (x : Node) : DefaultPlace → Node
  | value y => .patternDefault y x
  | target inner y => .patternDefault (inner.fill x) y
  | item before inner after => .arrayPattern (before ++ inner.fill x :: after)
  | restItem before inner after => .arrayPattern (before ++ .patternRest (inner.fill x) :: after)
  | field before inner after => .objectPattern (before ++ inner.fill x :: after)
  | keyedField before key inner after =>
    .objectPattern (before ++ .propertyPattern key (inner.fill x) :: after)
  | restField before inner after => .objectPattern (before ++ .patternRest (inner.fill x) :: after)

/-- A place in a function. -/
inductive FunctionPlace
  | body (params : List Node)
  | param (before : List Node) (inner : DefaultPlace) (after : List Node) (body : Node)
  | restParam (before : List Node) (inner : DefaultPlace) (after : List Node) (body : Node)

/-- A function written in a scope. -/
def FunctionPlace.fill (scope : Script.Scope) (x : Node) : FunctionPlace → Script.Closure
  | body params => ⟨params, x, scope⟩
  | param before inner after y => ⟨before ++ inner.fill x :: after, y, scope⟩
  | restParam before inner after y => ⟨before ++ .patternRest (inner.fill x) :: after, y, scope⟩

theorem FunctionPlace.scope_fill (place : FunctionPlace) (scope : Script.Scope) (x : Node) :
    (place.fill scope x).scope = scope := by
  cases place <;> rfl

namespace Script

/-! ## Patterns -/

section

variable {ev : Evaluator} {scope : Scope} {admits : Node → Prop} {part : Node → Run Value} {m : Memory}

theorem comesTo_bindItems_append {rest : Node → List Node}
    (h : ∀ vs n, ComesTo admits part (fun x => bindItems ev scope (rest x) vs) n) (before : List Node)
    (vs : List Value) : ComesTo admits part (fun x => bindItems ev scope (before ++ rest x) vs) m := by
  induction before generalizing vs m with
  | nil => exact h vs m
  | cons y before ih =>
    cases y with
    | patternRest target =>
      simp only [List.cons_append, bindItems]
      exact .const _
    | _ =>
      simp only [List.cons_append, bindItems]
      exact ComesTo.after _ fun _ n _ => ih _

theorem comesTo_bindFields_append {v : Value} {rest : Node → List Node}
    (h : ∀ used n, ComesTo admits part (fun x => bindFields ev scope v used (rest x)) n)
    (before : List Node) (used : List String) :
    ComesTo admits part (fun x => bindFields ev scope v used (before ++ rest x)) m := by
  induction before generalizing used m with
  | nil => exact h used m
  | cons y before ih =>
    cases y with
    | patternRest target | propertyPattern key target =>
      simp only [List.cons_append, bindFields]
      exact ComesTo.after _ fun w n _ => ComesTo.after _ fun _ o _ => ih _
    | _ =>
      simp only [List.cons_append, bindFields]
      split
      · exact ComesTo.after _ fun w n _ => ComesTo.after _ fun _ o _ => ih _
      · exact .const _

variable {around : Node → Node}

theorem comesTo_bindItems_rest
    (h : ∀ v n, ComesTo admits part (fun x => bind ev scope (around x) v) n) (before after : List Node)
    (vs : List Value) :
    ComesTo admits part
      (fun x => bindItems ev scope (before ++ .patternRest (around x) :: after) vs) m := by
  refine comesTo_bindItems_append (fun vs n => ?_) before vs
  simp only [bindItems]
  exact ComesTo.after _ fun v o _ => h v o

theorem comesTo_bindItems (inner : DefaultPlace)
    (h : ∀ v n, ComesTo admits part (fun x => bind ev scope (inner.fill x) v) n)
    (before after : List Node) (vs : List Value) :
    ComesTo admits part (fun x => bindItems ev scope (before ++ inner.fill x :: after) vs) m := by
  refine comesTo_bindItems_append (fun vs n => ?_) before vs
  have hcons (x : Node) : bindItems ev scope (inner.fill x :: after) vs = (do
      bind ev scope (inner.fill x) (vs.head?.getD .undefined)
      bindItems ev scope after vs.tail) := by
    cases inner <;> simp only [DefaultPlace.fill, bindItems]
  simp only [hcons]
  exact (h _ n).bind _

/-- Which key an item reads does not depend on the default in it, so it is told from any tree there. -/
theorem bindFields_fill (inner : DefaultPlace) (x y : Node) (v : Value) (used : List String)
    (after : List Node) :
    bindFields ev scope v used (inner.fill x :: after) =
      (plainKey? (inner.fill y)).elim (noBinding (inner.fill y)) (fun key => do
        bind ev scope (inner.fill x) (← v.property (.string key))
        bindFields ev scope v (key :: used) after) := by
  cases inner with
  | value target => cases target <;> simp only [DefaultPlace.fill, bindFields, plainKey?] <;> rfl
  | target inner value => cases inner <;> simp only [DefaultPlace.fill, bindFields, plainKey?] <;> rfl
  | _ =>
    simp only [DefaultPlace.fill, bindFields, plainKey?]
    rfl

theorem comesTo_bindFields (inner : DefaultPlace) {v : Value}
    (h : ∀ v n, ComesTo admits part (fun x => bind ev scope (inner.fill x) v) n)
    (after : List Node) (used : List String) :
    ComesTo admits part (fun x => bindFields ev scope v used (inner.fill x :: after)) m := by
  simp only [bindFields_fill inner _ (.constant .undefined)]
  cases plainKey? (inner.fill (.constant .undefined)) with
  | none => exact .const _
  | some key => exact ComesTo.after _ fun w o _ => (h w o).bind _

theorem comesTo_bind_objectPattern {v : Value} {rest : Node → List Node}
    (h : ∀ used n, ComesTo admits part (fun x => bindFields ev scope v used (rest x)) n)
    (before : List Node) :
    ComesTo admits part (fun x => bind ev scope (.objectPattern (before ++ rest x)) v) m := by
  simp only [bind]
  by_cases hv : v.isNullish = true
  · simp only [if_pos hv]
    exact .const _
  · simp only [if_neg hv]
    exact comesTo_bindFields_append h before []

/-- A value is bound to a parameter with the default in it evaluated where it is used. -/
theorem comesTo_bind (inner : DefaultPlace) (v : Value) :
    ComesTo admits (ev scope) (fun x => bind ev scope (inner.fill x) v) m := by
  induction inner generalizing v m with
  | value target =>
    cases v with
    | undefined =>
      simp only [DefaultPlace.fill, bind]
      exact ComesTo.self.bind _
    | _ =>
      simp only [DefaultPlace.fill, bind]
      exact .const _
  | target inner value ih =>
    cases v with
    | undefined =>
      simp only [DefaultPlace.fill, bind]
      exact ComesTo.after _ fun v n _ => ih v
    | _ =>
      simp only [DefaultPlace.fill, bind]
      exact ih _
  | item before inner after ih =>
    simp only [DefaultPlace.fill, bind]
    cases v.items? with
    | none => exact .const _
    | some vs => exact comesTo_bindItems inner (fun v n => ih v) before after vs
  | restItem before inner after ih =>
    simp only [DefaultPlace.fill, bind]
    cases v.items? with
    | none => exact .const _
    | some vs => exact comesTo_bindItems_rest (fun v n => ih v) before after vs
  | field before inner after ih =>
    exact comesTo_bind_objectPattern
      (fun used n => comesTo_bindFields inner (fun v n => ih v) after used) before
  | keyedField before key inner after ih | restField before inner after ih =>
    refine comesTo_bind_objectPattern (fun used n => ?_) before
    simp only [bindFields]
    exact ComesTo.after _ fun w o _ => (ih w).bind _

end

/-! ## Calls -/

/-- A call of a function evaluates an expression in it on its own, on top of the scope that the
function was written in. -/
theorem comesTo_call [Host] {depth : Nat} {scope : Scope} {m : Memory} (place : FunctionPlace) (tag : Tag)
    (args : List Value) :
    ComesTo (fun _ => True) (eval depth (m.frames.size :: scope))
      (fun x => apply (depth + 1) (.closure tag (place.fill scope x)) args) m := by
  have hcalled (n : Memory) : ComesTo (fun _ => True) (eval depth (m.frames.size :: scope)) (fun x => do
      bindItems (eval depth) (m.frames.size :: scope) (place.fill scope x).params args
      eval depth (m.frames.size :: scope) (place.fill scope x).body) n := by
    cases place with
    | body params =>
      simp only [FunctionPlace.fill]
      exact ComesTo.after _ fun _ o _ => .self
    | param before inner after body =>
      simp only [FunctionPlace.fill]
      exact (comesTo_bindItems inner (fun v n => comesTo_bind inner v) before after args).bind _
    | restParam before inner after body =>
      simp only [FunctionPlace.fill]
      exact (comesTo_bindItems_rest (fun v n => comesTo_bind inner v) before after args).bind _
  simp only [apply, FunctionPlace.scope_fill]
  refine ComesTo.after _ fun frame n hframe => ?_
  cases hframe
  exact hcalled _

end Script

end Comprehend
