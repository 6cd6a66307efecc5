import Comprehend.Proofs.Script.Evaluation

/-! # Places of expressions

An expression that is evaluated within another one, unless it is the target of a link, is evaluated
on its own: the enclosing expression comes to it at most once, from a memory that has nothing to do
with it, and goes on with its value. This holds of each place that an expression can stand in, and
so of places within places. -/

namespace Comprehend

/-! ## Trees around a tree -/

/-- A link of a chain, without what it is on. -/
inductive Link
  | member (name : Token)
  | index (key : Node)
  | call (args : List Node)

def Link.on (optional : Bool) (target : Node) : Link → Node
  | member name => .member optional target name
  | index key => .index optional target key
  | call args => .call optional target args

/-- A tree with links on it, the lowest first, each of them optional or not. -/
def Node.linked (x : Node) (links : List (Bool × Link)) : Node :=
  links.foldl (fun target link => link.2.on link.1 target) x

/-- A spread in a list of items or members, which is evaluated as a part of the list. -/
def Node.isSpread : Node → Bool
  | .spread _ => true
  | _ => false

/-- The items of a list around an expression that is one of them or spread among them. -/
structure Among where
  before : List Node
  spread : Bool
  after : List Node

def Among.fill (items : Among) (x : Node) : List Node :=
  items.before ++ (if items.spread then .spread x else x) :: items.after

/-- A place of an expression in another one. A place in a chain of links has the links above it. -/
inductive Place
  | item (items : Among)
  | field (before : List Node) (name : Option Token) (after : List Node)
  | test (yes no : Node)
  | yes (test no : Node)
  | no (test yes : Node)
  | first (op : LogicalOp) (rhs : Node)
  | second (op : LogicalOp) (lhs : Node)
  | left (group : OperatorGroup) (op : String) (rhs : Node)
  | right (group : OperatorGroup) (op : String) (lhs : Node)
  | base (exponent : Node)
  | exponent (base : Node)
  | operand (op : Token)
  | prefixUpdate (op : Token)
  | postfixUpdate (op : Token)
  | tag (template : Token)
  | target (optional : Bool) (link : Link) (above : List (Bool × Link))
  | key (optional : Bool) (target : Node) (above : List (Bool × Link))
  | argument (optional : Bool) (callee : Node) (args : Among) (above : List (Bool × Link))
  | newCallee (args : List Node)
  | newArgument (callee : Node) (args : Among)

namespace Place

/-- A member of an object, which has a name or is a spread. -/
def member (name : Option Token) (x : Node) : Node :=
  match name with
  | some name => .property name x
  | none => .spread x

def fill (x : Node) : Place → Node
  | item items => .array (items.fill x)
  | field fields name others => .object (fields ++ member name x :: others)
  | test y z => .ternary x y z
  | yes y z => .ternary y x z
  | no y z => .ternary y z x
  | first op y => .logical op x y
  | second op y => .logical op y x
  | left group op y => .binary group op x y
  | right group op y => .binary group op y x
  | base y => .power x y
  | exponent y => .power y x
  | operand op => .unary op x
  | prefixUpdate op => .prefixUpdate op x
  | postfixUpdate op => .postfixUpdate x op
  | tag template => .tagged x template
  | target optional link above => (link.on optional x).linked above
  | key optional y above => (Node.index optional y x).linked above
  | argument optional y args above => (Node.call optional y (args.fill x)).linked above
  | newCallee args => .construct x args
  | newArgument y args => .construct y (args.fill x)

/-- What stands in a place is no spread, which is part of a list, and under a link it is no link
itself, which would be part of the same chain. -/
def Admits : Place → Node → Prop
  | target .., x => x.isSpread = false ∧ x.isLink = false
  | _, x => x.isSpread = false

/-- A tree in a place that is in a place in turn, the innermost first. -/
def fillAll (places : List Place) (x : Node) : Node :=
  places.foldl (fun x place => place.fill x) x

def AdmitAll : List Place → Node → Prop
  | [], _ => True
  | place :: places, x => place.Admits x ∧ AdmitAll places (place.fill x)

end Place

theorem Link.isLink_on (optional : Bool) (target : Node) (link : Link) :
    (link.on optional target).isLink = true := by
  cases link <;> rfl

theorem Node.isLink_linked {x : Node} (hx : x.isLink = true) (links : List (Bool × Link)) :
    (x.linked links).isLink = true := by
  induction links generalizing x with
  | nil => exact hx
  | cons link links ih => exact ih (link.2.isLink_on link.1 x)

namespace Script

/-! ## Runs with an expression in them -/

/-- Runs with an expression in them: from a memory they either go the same way whatever the expression
is, or come to it in a memory that does not depend on it, and go on with its value. -/
def ComesTo (admits : Node → Prop) (part : Node → Run Value) (run : Node → Run α) (m : Memory) :
    Prop :=
  (∃ result, ∀ x, admits x → run x m = result) ∨
    ∃ o next, ∀ x, admits x → run x m = (part x >>= next) o

namespace ComesTo

variable {admits : Node → Prop} {part : Node → Run Value} {run : Node → Run α} {m : Memory}

theorem self : ComesTo admits part part m :=
  .inr ⟨m, pure, fun x _ => by rw [bind_pure]⟩

theorem const (a : Run α) : ComesTo admits part (fun _ => a) m :=
  .inl ⟨a m, fun _ _ => rfl⟩

theorem congr {run' : Node → Run α} (h : ComesTo admits part run m)
    (hrun : ∀ x, admits x → run' x = run x) : ComesTo admits part run' m := by
  rcases h with ⟨result, hresult⟩ | ⟨o, next, hnext⟩
  · exact .inl ⟨result, fun x hx => by rw [hrun x hx, hresult x hx]⟩
  · exact .inr ⟨o, next, fun x hx => by rw [hrun x hx, hnext x hx]⟩

/-- What comes after the expression does not depend on it but for its value. -/
theorem bind (h : ComesTo admits part run m) (f : α → Run β) :
    ComesTo admits part (fun x => run x >>= f) m := by
  rcases h with ⟨result, hresult⟩ | ⟨o, next, hnext⟩
  · refine .inl ⟨result >>= fun r => f r.1 r.2, fun x hx => ?_⟩
    rw [← hresult x hx]
    rfl
  · refine .inr ⟨o, fun v => next v >>= f, fun x hx => ?_⟩
    rw [← bind_assoc]
    change (run x m >>= fun r => f r.1 r.2) = ((part x >>= next) o >>= fun r => f r.1 r.2)
    rw [hnext x hx]

/-- What comes before the expression does not depend on it. -/
theorem after {run : β → Node → Run α} (a : Run β)
    (h : ∀ v n, a m = .ok (v, n) → ComesTo admits part (run v) n) :
    ComesTo admits part (fun x => a >>= (run · x)) m := by
  cases ha : a m with
  | error s => exact .inl ⟨.error s, fun x _ => Run.bind_of_error ha⟩
  | ok r =>
    rcases h r.1 r.2 ha with ⟨result, hresult⟩ | ⟨o, next, hnext⟩
    · exact .inl ⟨result, fun x hx => (Run.bind_of_ok ha).trans (hresult x hx)⟩
    · exact .inr ⟨o, next, fun x hx => (Run.bind_of_ok ha).trans (hnext x hx)⟩

/-- An expression within an expression that a run comes to. -/
theorem trans {around : Node → Node} {admits' : Node → Prop} {part' : Node → Run Value}
    (h' : ComesTo admits' part' run m) (hadmits : ∀ x, admits x → admits' (around x))
    (h : ∀ n, ComesTo admits part (fun x => part' (around x)) n) :
    ComesTo admits part (fun x => run (around x)) m := by
  rcases h' with ⟨result, hresult⟩ | ⟨o, next, hnext⟩
  · exact .inl ⟨result, fun x hx => hresult _ (hadmits x hx)⟩
  · have hrest : ComesTo admits part (fun x => part' (around x) >>= next) o := (h o).bind next
    rcases hrest with ⟨result, hresult⟩ | ⟨o', next', hnext'⟩
    · exact .inl ⟨result, fun x hx => (hnext _ (hadmits x hx)).trans (hresult x hx)⟩
    · exact .inr ⟨o', next', fun x hx => (hnext _ (hadmits x hx)).trans (hnext' x hx)⟩

theorem imp {admits' : Node → Prop} (h : ComesTo admits part run m)
    (hadmits : ∀ x, admits' x → admits x) : ComesTo admits' part run m :=
  Or.imp (fun ⟨result, hresult⟩ => ⟨result, fun x hx => hresult x (hadmits x hx)⟩)
    (fun ⟨o, next, hnext⟩ => ⟨o, next, fun x hx => hnext x (hadmits x hx)⟩) h

end ComesTo

/-! ## Lists -/

section

variable {ev : Node → Run Value} {call : Caller} {admits : Node → Prop} {m : Memory}

theorem spreadValues_cons {x : Node} (hx : x.isSpread = false) (xs : List Node) :
    spreadValues ev (x :: xs) = do return (← ev x) :: (← spreadValues ev xs) := by
  cases x <;> first | rfl | cases hx

theorem comesTo_spreadValues (items : Among) :
    ComesTo (·.isSpread = false) ev (fun x => spreadValues ev (items.fill x)) m := by
  obtain ⟨before, spread, after⟩ := items
  induction before generalizing m with
  | nil =>
    cases spread with
    | true => exact ComesTo.self.bind _
    | false => exact (ComesTo.self.bind _).congr fun x hx => spreadValues_cons hx after
  | cons y before ih =>
    cases hy : y.isSpread with
    | false =>
      exact (ComesTo.after (ev y) fun v n _ => ih.bind _).congr fun x _ => spreadValues_cons hy _
    | true =>
      obtain ⟨z, rfl⟩ : ∃ z, y = .spread z := by
        cases y <;> first | exact ⟨_, rfl⟩ | cases hy
      refine ComesTo.after (ev z) fun v n _ => ?_
      cases v.items? with
      | none => exact .const _
      | some vs => exact ih.bind _

/-- The name of a member as its key gives it. -/
def keyName (key : Token) : Run String :=
  if key.cls = .string then (Text.decodeLiteral key.text : Except Refusal String) else pure key.text

theorem objectFields_property (lookup : String → Run Value) (fields : List (String × Value))
    (key : Token) (x : Node) (xs : List Node) :
    objectFields ev lookup fields (.property key x :: xs) = (do
      let name ← keyName key
      let v ← ev x
      objectFields ev lookup (setField fields name v) xs) := by
  rw [objectFields, keyName]
  split <;> rfl

theorem comesTo_objectFields {lookup : String → Run Value} (before : List Node) (name : Option Token)
    (after : List Node) (fields : List (String × Value)) :
    ComesTo admits ev
      (fun x => objectFields ev lookup fields (before ++ Place.member name x :: after)) m := by
  induction before generalizing fields m with
  | nil =>
    cases name with
    | none => exact ComesTo.self.bind _
    | some key =>
      simp only [Place.member, List.nil_append, objectFields_property]
      exact ComesTo.after _ fun name n _ => ComesTo.self.bind _
  | cons y before ih =>
    cases y with
    | spread y =>
      refine ComesTo.after (ev y) fun v n _ => ?_
      cases v with
      | object t more => exact ih _
      | _ => exact ih _
    | shorthand t => exact ComesTo.after _ fun v n _ => ih _
    | property key y =>
      simp only [List.cons_append, objectFields_property]
      exact ComesTo.after _ fun name n _ => ComesTo.after _ fun v o _ => ih _
    | _ => exact .const _

/-! ## Chains of links -/

/-- What a link does with what it is on. -/
def linkOn (ev : Node → Run Value) (call : Caller) (v : Value) : Link → Run Value
  | .member name => v.property (.string name.text)
  | .index key => do v.property (← ev key)
  | .call args => callWith ev call v args

theorem link_on (optional : Bool) (target : Node) (l : Link) :
    link ev call (l.on optional target) = (do
      let base ← link ev call target
      linkFrom optional base (linkOn ev call · l)) := by
  cases l <;> rfl

theorem ComesTo.linked {around : Node → Node}
    (h : ComesTo admits ev (fun x => link ev call (around x)) m) (links : List (Bool × Link)) :
    ComesTo admits ev (fun x => link ev call ((around x).linked links)) m := by
  induction links generalizing around with
  | nil => exact h
  | cons l links ih =>
    have hstep : ComesTo admits ev (fun x => link ev call (l.2.on l.1 (around x))) m := by
      simp only [link_on]
      exact h.bind _
    exact ih hstep

theorem comesTo_linkFrom {optional : Bool} {base : Option Value} {go : Value → Node → Run Value}
    (h : ∀ v n, ComesTo admits ev (go v) n) :
    ComesTo admits ev (fun x => linkFrom optional base (go · x)) m := by
  cases base with
  | none => exact .const _
  | some v =>
    by_cases hv : (optional && v.isNullish) = true
    · simp only [linkFrom, if_pos hv]
      exact .const _
    · simp only [linkFrom, if_neg hv]
      exact (h v m).bind _

theorem comesTo_callWith (f : Value) (args : Among) :
    ComesTo (·.isSpread = false) ev (fun x => callWith ev call f (args.fill x)) m := by
  by_cases hf : f.isCallable = true
  · simp only [callWith, if_pos hf]
    exact (comesTo_spreadValues args).bind _
  · simp only [callWith, if_neg hf]
    exact .const _

theorem comesTo_construct (f : Value) (args : Among) :
    ComesTo (·.isSpread = false) ev (fun x => construct ev call f (args.fill x)) m := by
  cases f with
  | closure => exact .const _
  | _ =>
    simp only [construct]
    split
    · exact (comesTo_spreadValues args).bind _
    · exact .const _

end

/-! ## Places -/

section

variable [Host] {depth : Nat} {scope : Scope} {m : Memory}

theorem comesTo_eval_linked {admits : Node → Prop} {around : Node → Node}
    (haround : ∀ x, (around x).isLink = true)
    (h : ComesTo admits (eval depth scope)
      (fun x => link (eval depth scope) (apply depth) (around x)) m)
    (links : List (Bool × Link)) :
    ComesTo admits (eval depth scope) (fun x => eval (depth + 1) scope ((around x).linked links)) m :=
  ((h.linked links).bind _).congr fun x _ =>
    eval_of_isLink (Node.isLink_linked (haround x) links) depth scope

/-- An expression in a place is evaluated on its own, one level further down. -/
theorem comesTo_fill (place : Place) :
    ComesTo place.Admits (eval depth scope) (fun x => eval (depth + 1) scope (place.fill x)) m := by
  cases place with
  | item items =>
    simp only [Place.fill, eval]
    exact (comesTo_spreadValues items).bind _
  | field fields name others =>
    simp only [Place.fill, eval]
    exact (comesTo_objectFields fields name others []).bind _
  | test y z =>
    simp only [Place.fill, eval]
    exact ComesTo.self.bind _
  | yes y z =>
    simp only [Place.fill, eval]
    refine ComesTo.after _ fun v n _ => ?_
    cases v.isTruthy with
    | true => exact .self
    | false => exact .const _
  | no y z =>
    simp only [Place.fill, eval]
    refine ComesTo.after _ fun v n _ => ?_
    cases v.isTruthy with
    | true => exact .const _
    | false => exact .self
  | first op y =>
    simp only [Place.fill, eval]
    exact ComesTo.self.bind _
  | second op y =>
    simp only [Place.fill, eval]
    refine ComesTo.after _ fun v n _ => ?_
    cases needsSecond op v with
    | true => exact .self
    | false => exact .const _
  | left group op y =>
    simp only [Place.fill, eval]
    cases Operator.ofText? op with
    | none => exact .const _
    | some op => exact ComesTo.self.bind _
  | right group op y =>
    simp only [Place.fill, eval]
    cases Operator.ofText? op with
    | none => exact .const _
    | some op => exact ComesTo.after _ fun v n _ => ComesTo.self.bind _
  | base y =>
    simp only [Place.fill, eval]
    exact ComesTo.self.bind _
  | exponent y =>
    simp only [Place.fill, eval]
    exact ComesTo.after _ fun v n _ => ComesTo.after _ fun a o _ => ComesTo.self.bind _
  | operand op =>
    simp only [Place.fill, eval]
    split
    · exact .const _
    · exact ComesTo.self.bind _
  | prefixUpdate op | postfixUpdate op | tag template =>
    -- these are not evaluated, whatever they are of
    simp only [Place.fill, eval, Node.label]
    exact .const _
  | target optional l above =>
    refine comesTo_eval_linked (fun x => l.isLink_on optional x) ?_ above
    simp only [link_on]
    refine ((ComesTo.self.bind fun v => pure (some v)).congr fun x hx => ?_).bind _
    exact link_of_not_isLink hx.2 ..
  | key optional y above =>
    refine comesTo_eval_linked (fun x => rfl) ?_ above
    exact ComesTo.after _ fun base n _ => comesTo_linkFrom fun v o => ComesTo.self.bind _
  | argument optional y args above =>
    refine comesTo_eval_linked (fun x => rfl) ?_ above
    exact ComesTo.after _ fun base n _ => comesTo_linkFrom fun f o => comesTo_callWith f args
  | newCallee args =>
    simp only [Place.fill, eval]
    exact ComesTo.self.bind _
  | newArgument y args =>
    simp only [Place.fill, eval]
    exact ComesTo.after _ fun f n _ => comesTo_construct f args

/-- An expression in places within places is evaluated on its own. -/
theorem comesTo_fillAll (places : List Place) :
    ComesTo (Place.AdmitAll places) (eval depth scope)
      (fun x => eval (depth + places.length) scope (Place.fillAll places x)) m := by
  induction places generalizing depth m with
  | nil => exact ComesTo.self
  | cons place places ih =>
    have houter : ComesTo (Place.AdmitAll places) (eval (depth + 1) scope)
        (fun x => eval (depth + 1 + places.length) scope (Place.fillAll places x)) m := ih
    rw [Nat.add_right_comm] at houter
    exact houter.trans (fun x hx => hx.2) fun n => (comesTo_fill place).imp fun x hx => hx.1

end

end Script

end Comprehend
