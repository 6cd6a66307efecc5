import Comprehend.Proofs.Script.Evaluation

/-! # Names that keep their value

Evaluation leaves the frames that there are as they were, and binding a pattern changes no names but
those in the pattern. So a name that stands for a value in some scope stands for it as long as
nothing binds it. `SimulatesWith` is a simulation that keeps a property of the second memory: unlike
a sealed frame, such a property may be about a frame that is being filled. -/

namespace Comprehend.Script

variable {view : View}

/-! ## Names in patterns -/

mutual

/-- The names that a pattern binds. -/
def binders : Node → List String
  | .bindingName t => [t.text]
  | .patternDefault target _ => binders target
  | .arrayPattern items => bindersAll items
  | .objectPattern items => bindersAll items
  | .patternRest target => binders target
  | .propertyPattern _ target => binders target
  | _ => []

def bindersAll : List Node → List String
  | [] => []
  | x :: xs => binders x ++ bindersAll xs

end

/-! ## Names in memory -/

/-- A name that stands for a value in a scope, all of whose frames have been handed out. -/
structure Memory.Resolves (m : Memory) (scope : Scope) (name : String) (v : Value) : Prop where
  known : ∀ f ∈ scope, f < m.frames.size
  found : scope.findSome? (fun f => m.frames[f]?.bind (getField? · name)) = some v

/-- A property of memories that evaluation keeps, and setting any other name. -/
structure Survives (name : String) (I : Memory → Prop) : Prop where
  later : ∀ {m n : Memory}, I m → m.Precedes n → I n
  assign : ∀ {m : Memory} (f : Tag) {other : String} (v : Value), other ≠ name → I m →
    I { m with frames := m.frames.modify f (setField · other v) }

section

variable {m n : Memory} {scope : Scope} {name other : String} {v w : Value} {I J : Memory → Prop}

theorem lookupName_of_resolves (h : m.Resolves scope name v) :
    lookupName scope name m = .ok (v, m) := by
  have hlookup : Run.lookup? scope name m = .ok (some v, m) := by
    change Except.ok (_, m) = _
    rw [h.found]
  rw [lookupName, Run.bind_of_ok hlookup]
  rfl

theorem findSome?_congr {α β : Type} {f g : α → Option β} {xs : List α}
    (h : ∀ x ∈ xs, f x = g x) : xs.findSome? f = xs.findSome? g := by
  induction xs with
  | nil => rfl
  | cons x xs ih =>
    obtain ⟨hx, hxs⟩ := List.forall_mem_cons.1 h
    rw [List.findSome?_cons, List.findSome?_cons, hx, ih hxs]

theorem survives_resolves (scope : Scope) (name : String) (v : Value) :
    Survives name fun m => m.Resolves scope name v where
  later {m n} h hmn := by
    refine ⟨fun f hf => Nat.lt_of_lt_of_le (h.known f hf) hmn.size_le, ?_⟩
    rw [← h.found]
    exact findSome?_congr fun f hf => by rw [hmn.frame f (h.known f hf)]
  assign {m} f other w hother h := by
    refine ⟨fun g hg => by simpa using h.known g hg, ?_⟩
    rw [← h.found]
    refine findSome?_congr fun g hg => ?_
    rw [Array.getElem?_modify]
    split
    · cases m.frames[g]? with
      | none => rfl
      | some fields => simp [getField?_setField, hother]
    · rfl

theorem Survives.and (hI : Survives name I) (hJ : Survives name J) :
    Survives name fun m => I m ∧ J m where
  later h hmn := ⟨hI.later h.1 hmn, hJ.later h.2 hmn⟩
  assign f _ v hother h := ⟨hI.assign f v hother h.1, hJ.assign f v hother h.2⟩

/-- A new frame without variables hides nothing. -/
theorem Memory.Resolves.newFrame (h : m.Resolves scope name v) :
    Memory.Resolves { m with frames := m.frames.push [] } (m.frames.size :: scope) name v where
  known f hf := by
    rw [Array.size_push]
    rcases List.mem_cons.1 hf with rfl | hf
    · exact Nat.lt_succ_self _
    · exact Nat.lt_succ_of_lt (h.known f hf)
  found := by
    rw [List.findSome?_cons, Array.getElem?_push_size]
    show scope.findSome? _ = some v
    rw [← h.found]
    exact findSome?_congr fun f hf => by
      rw [Array.getElem?_push_lt (h.known f hf), Array.getElem?_eq_getElem (h.known f hf)]

end

theorem Pairing.Below.alikeFields {p q : Pairing view} (hpq : p.Below q) {vars vars' : Frame}
    (h : AlikeFields p vars vars') : AlikeFields q vars vars' :=
  h.imp fun _ _ hf => ⟨hf.1, hf.2.imp hpq.tags hpq.frames⟩

theorem Pairing.Below.alike {p q : Pairing view} (hpq : p.Below q) {v v' : Value} (h : Alike p v v') :
    Alike q v v' := h.imp hpq.tags hpq.frames

/-! ## Simulation that keeps a property -/

/-- Whenever the first run ends with a result, so does the second from any memory with a property,
and it ends in such a memory. -/
structure SimulatesWith (I : Memory → Prop) (p : Pairing view) (R : ResultRel view α β) (a : Run α)
    (b : Run β) : Prop where
  run : ∀ {m m' : Memory} {x : α} {n : Memory}, p.Holds m m' → I m' → a m = .ok (x, n) →
    ∃ q y n', b m' = .ok (y, n') ∧ p.Below q ∧ q.Holds n n' ∧ R q x y ∧ I n'

namespace SimulatesWith

variable {I : Memory → Prop} {p : Pairing view}

theorem pure {R : ResultRel view α β} {x : α} {y : β} (h : R p x y) :
    SimulatesWith I p R (Pure.pure x) (Pure.pure y) := by
  constructor
  intro m m' z n hm hI ha
  cases ha
  exact ⟨p, y, m', rfl, .refl p, hm, h, hI⟩

theorem bind {R : ResultRel view α β} {S : ResultRel view γ δ} {a : Run α} {b : Run β} {f : α → Run γ}
    {g : β → Run δ} (h : SimulatesWith I p R a b)
    (hf : ∀ q x y, p.Below q → R q x y → SimulatesWith I q S (f x) (g y)) :
    SimulatesWith I p S (a >>= f) (b >>= g) := by
  constructor
  intro m m' z o hm hI ha
  obtain ⟨x, n, hx, hz⟩ := Run.bind_eq_ok ha
  obtain ⟨q, y, n', hy, hpq, hn, hr, hI⟩ := h.run hm hI hx
  obtain ⟨r, w, o', hw, hqr, ho, hs, hI⟩ := (hf q x y hpq hr).run hn hI hz
  exact ⟨r, w, o', (Run.bind_of_ok hy).trans hw, hpq.trans hqr, ho, hs, hI⟩

theorem bind_right {R : ResultRel view α β} {S : ResultRel view α δ} {a : Run α} {b : Run β} {g : β → Run δ}
    (h : SimulatesWith I p R a b)
    (hg : ∀ q x y, p.Below q → R q x y → SimulatesWith I q S (Pure.pure x) (g y)) :
    SimulatesWith I p S a (b >>= g) := by
  rw [← bind_pure a]
  exact h.bind hg

theorem stop {R : ResultRel view α β} {s : Stop} {b : Run β} : SimulatesWith I p R (Run.stop s) b := by
  constructor
  intro m m' x n _ _ ha
  cases ha

theorem never {R : ResultRel view α β} {a : Run α} {b : Run β} (h : ∀ m x n, a m ≠ .ok (x, n)) :
    SimulatesWith I p R a b := by
  constructor
  intro m m' x n _ _ ha
  exact absurd ha (h m x n)

/-- A simulation that goes through with all frames sealed keeps what evaluation keeps. -/
theorem of_simulates {R : ResultRel view α β} {a : Run α} {b : Run β}
    (hI : ∀ {m n : Memory}, I m → m.Precedes n → I n)
    (h : ∀ left right, Simulates (p.sealing left right) R a b) : SimulatesWith I p R a b := by
  constructor
  intro m m' x n hm hm' ha
  obtain ⟨q, y, n', hb, hpq, hn, hr, -, hk⟩ := (Simulates.carries h).run hm ha
  exact ⟨q, y, n', hb, hpq, hn, hr, hI hm' hk⟩

/-- Only what the second run does from memories with the property matters. -/
theorem of_eq {R : ResultRel view α β} {a : Run α} {b b' : Run β} (hb : ∀ m, I m → b m = b' m)
    (h : SimulatesWith I p R a b') : SimulatesWith I p R a b := by
  constructor
  intro m m' x n hm hm' ha
  rw [hb m' hm']
  exact h.run hm hm' ha

end SimulatesWith

/-! ## Binding -/

section

variable {I : Memory → Prop} {name : String} {ev ev' : Evaluator} {scope scope' : Scope}

theorem assign_with (hI : Survives name I) {p : Pairing view} (hs : List.Forall₂ p.frames scope scope')
    {other : String} (hother : other ≠ name) {v v' : Value} (hv : Alike p v v') :
    SimulatesWith I p (Equal Unit) (scope.assign other v) (scope'.assign other v') := by
  cases hs with
  | nil => exact .pure rfl
  | @cons f f' fs fs' hf _ =>
    constructor
    intro m m' x n hm hm' ha
    have hopen : (p.sealing 0 0).Holds m m' :=
      ⟨hm.tag_lt, hm.tag_iff, hm.frame_iff, fun h => by
        obtain ⟨vars, vars', hv, hv', hvars⟩ := hm.frame h
        exact ⟨vars, vars', hv, hv', (p.below_sealing 0 0).alikeFields hvars⟩,
        Nat.zero_le _, Nat.zero_le _, fun hview => (hm.notes hview).below (p.below_sealing 0 0)⟩
    have hassign := Simulates.assign (p := p.sealing 0 0) hf (Nat.zero_le _) (Nat.zero_le _) other
      (hv.sealing 0 0)
    obtain ⟨q, y, n', hb, hpq, hn, hr, -, -⟩ := hassign.run hopen ha
    refine ⟨q, y, n', hb, (p.below_sealing 0 0).trans hpq.below, hn, hr, ?_⟩
    cases hb
    exact hI.assign f' v' hother hm'

/-- Evaluators that simulate each other in two scopes under a pairing and all larger ones, and keep a
property. -/
def EvaluatesWith (I : Memory → Prop) (p : Pairing view) (ev ev' : Node → Run Value) : Prop :=
  ∀ (q : Pairing view) (x : Node), p.Below q → SimulatesWith I q Alike (ev x) (ev' x)

theorem EvaluatesWith.below {p q : Pairing view} {ev ev' : Node → Run Value}
    (h : EvaluatesWith I p ev ev') (hpq : p.Below q) : EvaluatesWith I q ev ev' :=
  fun r x hqr => h r x (hpq.trans hqr)

mutual

/-- Binding a pattern keeps what is said of a name that is not in it. -/
theorem bindTo_with (hI : Survives name I) (x : Node) (hx : name ∉ binders x) {p : Pairing view}
    {v v' : Value} (he : EvaluatesWith I p (ev scope) (ev' scope'))
    (hs : List.Forall₂ p.frames scope scope') (hv : Alike p v v') :
    SimulatesWith I p (Equal Unit) (bind ev scope x v) (bind ev' scope' x v') := by
  cases x with
  | bindingName t =>
    simp only [bind]
    exact assign_with hI hs (fun h => hx (by simp [binders, h])) hv
  | patternDefault target x =>
    have whole := hv
    cases hv with
    | undefined =>
      simp only [bind]
      exact (he p x (.refl p)).bind fun q v v' hpq hv =>
        bindTo_with hI target hx (he.below hpq) (hs.imp fun _ _ => hpq.frames) hv
    | _ =>
      simp only [bind]
      exact bindTo_with hI target hx he hs whole
  | arrayPattern items =>
    have hi := hv.items?
    simp only [bind]
    generalize v.items? = x, v'.items? = y at hi
    cases hi with
    | none =>
      simp only [hv.text_eq]
      exact .of_simulates hI.later fun _ _ => Simulates.lift_bind fun _ => Simulates.stop
    | some hvs => exact bindItems_with hI items hx he hs hvs
  | objectPattern items =>
    simp only [bind, hv.isNullish_eq, hv.text_eq]
    split
    · exact .of_simulates hI.later fun _ _ => Simulates.lift_bind fun _ => Simulates.stop
    · exact bindFields_with hI items hx [] he hs hv
  | _ =>
    simp only [bind]
    exact .stop

theorem bindItems_with (hI : Survives name I) (xs : List Node) (hx : name ∉ bindersAll xs)
    {p : Pairing view} {vs vs' : List Value} (he : EvaluatesWith I p (ev scope) (ev' scope'))
    (hs : List.Forall₂ p.frames scope scope') (hvs : AlikeAll p vs vs') :
    SimulatesWith I p (Equal Unit) (bindItems ev scope xs vs) (bindItems ev' scope' xs vs') := by
  cases xs with
  | nil =>
    simp only [bindItems]
    exact .pure rfl
  | cons x xs =>
    obtain ⟨hx, hxs⟩ : name ∉ binders x ∧ name ∉ bindersAll xs := by
      simpa only [bindersAll, List.mem_append, not_or] using hx
    have head : Alike p (vs.head?.getD .undefined) (vs'.head?.getD .undefined) := by
      cases hvs with
      | nil => exact .undefined
      | cons hv _ => exact hv
    have tail : AlikeAll p vs.tail vs'.tail := by
      cases hvs with
      | nil => exact .nil
      | cons _ hvs => exact hvs
    cases x with
    | patternRest target =>
      simp only [bindItems]
      refine (SimulatesWith.of_simulates hI.later fun left right =>
        Simulates.newArray (hvs.below (p.below_sealing left right))).bind fun q v v' hpq hv => ?_
      exact bindTo_with hI target hx (he.below hpq) (hs.imp fun _ _ => hpq.frames) hv
    | _ =>
      simp only [bindItems]
      exact (bindTo_with hI _ hx he hs head).bind fun q _ _ hpq _ =>
        bindItems_with hI xs hxs (he.below hpq) (hs.imp fun _ _ => hpq.frames) (tail.below hpq)

theorem bindFields_with (hI : Survives name I) (xs : List Node) (hx : name ∉ bindersAll xs)
    (used : List String) {p : Pairing view} {v v' : Value}
    (he : EvaluatesWith I p (ev scope) (ev' scope')) (hs : List.Forall₂ p.frames scope scope')
    (hv : Alike p v v') :
    SimulatesWith I p (Equal Unit) (bindFields ev scope v used xs)
      (bindFields ev' scope' v' used xs) := by
  cases xs with
  | nil =>
    simp only [bindFields]
    exact .pure rfl
  | cons x xs =>
    obtain ⟨hx, hxs⟩ : name ∉ binders x ∧ name ∉ bindersAll xs := by
      simpa only [bindersAll, List.mem_append, not_or] using hx
    have plain (x : Node) (key : String)
        (bindTo : ∀ {q w w'}, EvaluatesWith I q (ev scope) (ev' scope') →
          List.Forall₂ q.frames scope scope' → Alike q w w' →
          SimulatesWith I q (Equal Unit) (bind ev scope x w) (bind ev' scope' x w')) :=
      (SimulatesWith.of_simulates hI.later fun left right =>
        Simulates.property (hv.sealing left right) (.string key)).bind fun q w w' hpq hw =>
        (bindTo (he.below hpq) (hs.imp fun _ _ => hpq.frames) hw).bind fun r _ _ hqr _ =>
          bindFields_with hI xs hxs (key :: used) (he.below (hpq.trans hqr))
            (hs.imp fun _ _ => (hpq.trans hqr).frames) ((hpq.trans hqr).alike hv)
    cases x with
    | patternRest target =>
      simp only [bindFields]
      refine (SimulatesWith.of_simulates hI.later fun left right =>
        Simulates.newObject ((p.below_sealing left right).alikeFields
          (Simulates.otherFields hv used))).bind fun q w w' hpq hw => ?_
      refine (bindTo_with hI target hx (he.below hpq) (hs.imp fun _ _ => hpq.frames) hw).bind
        fun r _ _ hqr _ => ?_
      exact bindFields_with hI xs hxs used (he.below (hpq.trans hqr))
        (hs.imp fun _ _ => (hpq.trans hqr).frames) ((hpq.trans hqr).alike hv)
    | propertyPattern key target =>
      simp only [bindFields]
      exact plain target key.text (bindTo_with hI target hx)
    | bindingName t =>
      simp only [bindFields, plainKey?]
      exact plain _ t.text (bindTo_with hI _ hx)
    | patternDefault target x =>
      cases target with
      | bindingName t =>
        simp only [bindFields, plainKey?]
        exact plain _ t.text (bindTo_with hI _ hx)
      | _ =>
        simp only [bindFields, plainKey?]
        exact .stop
    | _ =>
      simp only [bindFields, plainKey?]
      exact .stop

end

end

end Comprehend.Script
