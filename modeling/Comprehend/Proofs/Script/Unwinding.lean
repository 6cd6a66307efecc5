import Comprehend.Proofs.Script.FunctionPlace
import Comprehend.Proofs.Script.ShortCircuit

/-! # Chains cut short

An optional link whose base is missing ends the chain that it is in and nothing else: the links above
it are passed without a look at their keys and arguments, and what encloses the chain goes on with
undefined, as it would with the value of any other expression there. -/

namespace Comprehend.Script

/-- A chain with an optional link at the bottom. The links above it may be of any kind. -/
def optionalChain (base : Node) (first : Link) (above : List (Bool × Link)) : Node :=
  (first.on true base).linked above

/-- A run with an expression in it, in the place of the expression a chain whose base may be missing:
from a memory, it either never comes to the expression, or goes on with the value of it, and with
undefined if it finds the base of the chain missing. -/
def GoesOnUndefined [Host] (admits : Node → Prop) (depth : Nat) (scope : Scope) (base : Node) (first : Link)
    (above : List (Bool × Link)) (run : Node → Run Value) (m : Memory) : Prop :=
  (∃ result, ∀ x, admits x → run x m = result) ∨
    ∃ o next, (∀ x, admits x → run x m = (eval (depth + 1) scope x >>= next) o) ∧
      ∀ v n, eval (ownDepth depth base) scope base o = .ok (v, n) → v.isNullish = true →
        run (optionalChain base first above) m = next .undefined n

section

variable {depth : Nat} {scope : Scope} {base x : Node} {first : Link} {above : List (Bool × Link)}
variable {ev : Node → Run Value} {call : Caller} {m n : Memory} {v : Value}

/-- A base is evaluated as a link that is on it does, whether or not it is a chain itself. -/
theorem link_of_eval [Host] (h : eval (ownDepth depth x) scope x m = .ok (v, n)) :
    ∃ o, link (eval depth scope) (apply depth) x m = .ok (o, n) ∧ o.getD .undefined = v := by
  by_cases hx : x.isLink = true
  · rw [ownDepth, if_pos hx, eval_of_isLink hx] at h
    obtain ⟨o, n', hlink, hv⟩ := Run.bind_eq_ok h
    cases hv
    exact ⟨o, hlink, rfl⟩
  · rw [ownDepth, if_neg hx] at h
    refine ⟨some v, ?_, rfl⟩
    rw [link_of_not_isLink (by simpa using hx), Run.bind_of_ok h]
    rfl

/-- An optional link on a missing base ends the chain. -/
theorem link_on_missing {o : Option Value} (h : link ev call base m = .ok (o, n))
    (hmissing : (o.getD .undefined).isNullish = true) (first : Link) :
    link ev call (first.on true base) m = .ok (none, n) := by
  rw [link_on, Run.bind_of_ok h]
  cases o with
  | none => rfl
  | some v =>
    have hended : (true && v.isNullish) = true := hmissing
    simp only [linkFrom, if_pos hended]
    rfl

/-- A chain that has ended stays ended, whatever the links above are. -/
theorem link_linked_of_ended (h : link ev call x m = .ok (none, n)) (links : List (Bool × Link)) :
    link ev call (x.linked links) m = .ok (none, n) := by
  induction links generalizing x with
  | nil => exact h
  | cons l links ih =>
    refine ih ?_
    rw [link_on, Run.bind_of_ok h]
    rfl

theorem isLink_optionalChain : (optionalChain base first above).isLink = true :=
  Node.isLink_linked (first.isLink_on true base) above

theorem eval_optionalChain [Host] (h : eval (ownDepth depth base) scope base m = .ok (v, n))
    (hv : v.isNullish = true) :
    eval (depth + 1) scope (optionalChain base first above) m = .ok (.undefined, n) := by
  obtain ⟨o, hbase, rfl⟩ := link_of_eval h
  have hchain := link_linked_of_ended (link_on_missing hbase hv first) above
  rw [eval_of_isLink isLink_optionalChain, optionalChain, Run.bind_of_ok hchain]
  rfl

theorem evaluate_of_isLink [Host] (hx : x.isLink = true) (depth : Nat) (environment : Frame) :
    evaluate depth environment x = evaluateTree depth environment x := by
  cases x <;> first | rfl | cases hx

theorem ComesTo.goesOnUndefined [Host] {admits : Node → Prop} {run : Node → Run Value}
    (h : ComesTo admits (eval (depth + 1) scope) run m)
    (hadmits : admits (optionalChain base first above)) :
    GoesOnUndefined admits depth scope base first above run m := by
  rcases h with hsame | ⟨o, next, hnext⟩
  · exact .inl hsame
  · refine .inr ⟨o, next, hnext, fun v n hbase hv => ?_⟩
    rw [hnext _ hadmits, Run.bind_of_ok (eval_optionalChain hbase hv)]

end

/-- A chain whose base is missing is undefined, with nothing evaluated but the base, in every scope
and in every environment. What encloses it, be it an expression or the body or a parameter of a
function in a call, goes on with undefined. -/
theorem optionalChain_unwinds [Host] (base : Node) (first : Link) (above : List (Bool × Link)) (depth : Nat) :
    (∀ scope m v n, eval (ownDepth depth base) scope base m = .ok (v, n) → v.isNullish = true →
      eval (depth + 1) scope (optionalChain base first above) m = .ok (.undefined, n)) ∧
    (∀ environment m v n, evaluateTree (ownDepth depth base) environment base m = .ok (v, n) →
      v.isNullish = true →
      evaluate (depth + 1) environment (optionalChain base first above) m = .ok (.undefined, n)) ∧
    ∀ places, Place.AdmitAll places (optionalChain base first above) → ∀ scope m,
      GoesOnUndefined (Place.AdmitAll places) depth scope base first above
        (fun x => eval (depth + 1 + places.length) scope (Place.fillAll places x)) m ∧
      ∀ (place : FunctionPlace) tag args,
        GoesOnUndefined (Place.AdmitAll places) depth (m.frames.size :: scope) base first above
          (fun x => apply (depth + 1 + places.length + 1)
            (.closure tag (place.fill scope (Place.fillAll places x))) args) m := by
  refine ⟨fun scope m v n => eval_optionalChain, fun environment m v n hbase hv => ?_,
    fun places hadmits scope m => ⟨?_, fun place tag args => ?_⟩⟩
  · obtain ⟨frame, o, hframe, hbase⟩ := Run.bind_eq_ok hbase
    rw [evaluate_of_isLink isLink_optionalChain, evaluateTree, Run.bind_of_ok hframe]
    exact eval_optionalChain hbase hv
  · exact (comesTo_fillAll places).goesOnUndefined hadmits
  · exact ((comesTo_call place tag args).trans (fun _ _ => trivial)
      fun n => comesTo_fillAll places).goesOnUndefined hadmits

/-- A name that is bound to null, and links whose argument and key are bound to nothing. -/
def nullName : Node := .leaf .name ⟨.name, "a"⟩

def unboundLinks : List (Bool × Link) :=
  [(false, .call [.leaf .name ⟨.name, "f"⟩]), (true, .index (.leaf .name ⟨.name, "g"⟩))]

/-- The left of a sum, and the sum under a link: a link on the sum is none of the chain. -/
def lengthOfSum : List Place :=
  [.left .additive "+" (.leaf .string ⟨.string, "'!'"⟩),
    .target false (.member ⟨.propertyName, "length"⟩) []]

/-- A chain that is cut short, and the length of its sum with a text, which is `undefined!`. -/
theorem optionalChain_unwinds_lengthOfSum :
    let chain := optionalChain nullName (.member ⟨.propertyName, "b"⟩) unboundLinks
    let memory : Memory := ⟨#[[("a", .null)]], 1, []⟩
    evaluate 3 [("a", .null)] chain Memory.initial = .ok (.undefined, memory) ∧
      eval 3 [0] chain memory = .ok (.undefined, memory) ∧
      GoesOnUndefined (Place.AdmitAll lengthOfSum) 2 [0] nullName (.member ⟨.propertyName, "b"⟩)
        unboundLinks (fun x => eval 5 [0] (Place.fillAll lengthOfSum x)) memory ∧
      eval 5 [0] (Place.fillAll lengthOfSum chain) memory = .ok (.int 10, memory) := by
  have h := optionalChain_unwinds nullName (.member ⟨.propertyName, "b"⟩) unboundLinks 2
  obtain ⟨hscope, henvironment, hplaces⟩ := h
  have hadmits : Place.AdmitAll lengthOfSum
      (optionalChain nullName (.member ⟨.propertyName, "b"⟩) unboundLinks) :=
    ⟨rfl, ⟨rfl, rfl⟩, trivial⟩
  exact ⟨henvironment [("a", .null)] Memory.initial .null ⟨#[[("a", .null)]], 1, []⟩ rfl rfl,
    hscope [0] ⟨#[[("a", .null)]], 1, []⟩ .null ⟨#[[("a", .null)]], 1, []⟩ rfl rfl,
    (hplaces lengthOfSum hadmits [0] ⟨#[[("a", .null)]], 1, []⟩).1, rfl⟩

end Comprehend.Script
