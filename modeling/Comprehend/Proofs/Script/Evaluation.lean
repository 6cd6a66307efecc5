import Comprehend.Proofs.Script.Host

/-! # Evaluation up to identity

Evaluating one tree in scopes that are paired gives values alike, and a deeper evaluation gives what
a shallower one gave. Both are the same induction on the depth: the steps of an evaluation go
through the same lists, properties and calls in both runs. -/

namespace Comprehend.Script

variable {view : View}

/-- Evaluators that simulate each other in two scopes, now and under every larger pairing. -/
def SimulatesIn (p : Pairing view) (ev ev' : Node → Run Value) : Prop :=
  ∀ (q : Pairing view) (x : Node), p.Grows q → Simulates q Alike (ev x) (ev' x)

theorem SimulatesIn.mono {p q : Pairing view} {ev ev' : Node → Run Value} (h : SimulatesIn p ev ev')
    (hpq : p.Grows q) : SimulatesIn q ev ev' :=
  fun r x hqr => h r x (hpq.trans hqr)

/-- Scopes that are paired, whose innermost frames are not sealed. -/
structure Scope.Open (p : Pairing view) (scope scope' : Scope) : Prop where
  frames : List.Forall₂ p.frames scope scope'
  left_le : ∀ f ∈ scope.head?, p.left ≤ f
  right_le : ∀ f ∈ scope'.head?, p.right ≤ f

theorem Scope.Open.mono {p q : Pairing view} {scope scope' : Scope} (h : Scope.Open p scope scope')
    (hpq : p.Grows q) : Scope.Open q scope scope' where
  frames := h.frames.imp fun _ _ => hpq.frames
  left_le f hf := hpq.left ▸ h.left_le f hf
  right_le f hf := hpq.right ▸ h.right_le f hf

/-! ## Variables -/

theorem AlikeFields.setField {p : Pairing view} {fs fs' : List (String × Value)} {v v' : Value}
    (h : AlikeFields p fs fs') (hv : Alike p v v') (key : String) :
    AlikeFields p (Script.setField fs key v) (Script.setField fs' key v') := by
  induction h with
  | nil => exact .cons ⟨rfl, hv⟩ .nil
  | @cons f f' fs fs' hf hfs ih =>
    simp only [Script.setField, ← hf.1]
    by_cases hk : f.1 == key
    · simpa only [hk, if_true] using .cons ⟨rfl, hv⟩ hfs
    · simpa only [hk] using .cons hf ih

namespace Simulates

variable {p : Pairing view} {scope scope' : Scope} {v v' : Value}

theorem lookup? (h : List.Forall₂ p.frames scope scope') (name : String) :
    Simulates p (fun q => Option.Rel (Alike q)) (Run.lookup? scope name)
      (Run.lookup? scope' name) := by
  constructor
  intro m m' x n hm ha
  cases ha
  refine ⟨p, _, m', rfl, .refl p, hm, ?_, .refl .., .refl ..⟩
  induction h with
  | nil => exact .none
  | @cons f f' fs fs' hf _ ih =>
    obtain ⟨vars, vars', hv, hv', hvars⟩ := hm.frame hf
    have found := hvars.getField? name
    simp only [List.findSome?_cons, hv, hv', Option.bind_some]
    generalize getField? vars name = x, getField? vars' name = y at found
    cases found with
    | none => exact ih
    | some h => exact .some h

theorem lookupName (h : List.Forall₂ p.frames scope scope') (name : String) :
    Simulates p Alike (lookupName scope name) (lookupName scope' name) := by
  refine (lookup? h name).bind fun q x y _ hxy => ?_
  cases hxy with
  | none => exact stop
  | some hv => exact pure hv

theorem assign {f f' : Tag} (hf : p.frames f f') (hl : p.left ≤ f) (hr : p.right ≤ f')
    (name : String) (hv : Alike p v v') :
    Simulates p (Equal Unit) (Run.assign f name v) (Run.assign f' name v') := by
  have keeps {bound : Nat} {g : Tag} {w : Value} (m : Memory) (hb : bound ≤ g) :
      m.Keeps bound { m with frames := m.frames.modify g (setField · name w) } := by
    refine ⟨Nat.le_refl _, by simp, fun i hi => ?_⟩
    rw [Array.getElem?_modify, if_neg (Nat.ne_of_gt (Nat.lt_of_lt_of_le hi hb))]
  constructor
  intro m m' x n hm ha
  cases ha
  refine ⟨p, (), _, rfl, .refl p, ?_, rfl, keeps m hl, keeps m' hr⟩
  refine ⟨hm.tag_lt, hm.tag_iff, hm.frame_iff, ?_, by simpa using hm.left_le,
    by simpa using hm.right_le, hm.notes⟩
  intro g g' hg
  obtain ⟨vars, vars', hvars, hvars', hal⟩ := hm.frame hg
  by_cases h : f = g
  · have h' : f' = g' := (hm.frame_iff hf hg).mp h
    refine ⟨setField vars name v, setField vars' name v', ?_, ?_, hal.setField hv name⟩
    · rw [Array.getElem?_modify, if_pos h, hvars, Option.map_some]
    · rw [Array.getElem?_modify, if_pos h', hvars', Option.map_some]
  · have h' : ¬f' = g' := fun h' => h ((hm.frame_iff hf hg).mpr h')
    refine ⟨vars, vars', ?_, ?_, hal⟩
    · rw [Array.getElem?_modify, if_neg h, hvars]
    · rw [Array.getElem?_modify, if_neg h', hvars']

theorem assignIn (h : Scope.Open p scope scope') (name : String) (hv : Alike p v v') :
    Simulates p (Equal Unit) (scope.assign name v) (scope'.assign name v') := by
  obtain ⟨hf, hl, hr⟩ := h
  cases hf with
  | nil => exact pure rfl
  | cons hf _ => exact assign hf (hl _ rfl) (hr _ rfl) name hv

/-! ## Binding -/

theorem otherFields (h : Alike p v v') (used : List String) :
    AlikeFields p (otherFields v used) (otherFields v' used) := by
  have whole := h
  cases h with
  | object _ _ _ =>
    refine List.rel_filter (fun f f' hf => ?_) whole.fields
    simp only [hf.1]
  | _ => exact .nil

variable {ev ev' : Evaluator}

mutual

theorem bindTo (x : Node) {p : Pairing view} {v v' : Value} (he : SimulatesIn p (ev scope) (ev' scope'))
    (hs : Scope.Open p scope scope') (hv : Alike p v v') :
    Simulates p (Equal Unit) (Script.bind ev scope x v) (Script.bind ev' scope' x v') := by
  cases x with
  | bindingName t =>
    simp only [Script.bind]
    exact assignIn hs t.text hv
  | patternDefault target x =>
    have whole := hv
    cases hv with
    | undefined =>
      simp only [Script.bind]
      exact (he p x (.refl p)).bind fun q v v' hpq hv =>
        bindTo target (he.mono hpq) (hs.mono hpq) hv
    | _ =>
      simp only [Script.bind]
      exact bindTo target he hs whole
  | arrayPattern items =>
    have hi := hv.items?
    simp only [Script.bind]
    generalize v.items? = x, v'.items? = y at hi
    cases hi with
    | none =>
      simp only [hv.text_eq]
      exact lift_bind fun _ => stop
    | some hvs => exact bindItems items he hs hvs
  | objectPattern items =>
    simp only [Script.bind, hv.isNullish_eq, hv.text_eq]
    exact ite (fun _ => lift_bind fun _ => stop) fun _ => bindFields items [] he hs hv
  | _ =>
    simp only [Script.bind]
    exact stop

theorem bindItems (xs : List Node) {p : Pairing view} {vs vs' : List Value}
    (he : SimulatesIn p (ev scope) (ev' scope')) (hs : Scope.Open p scope scope')
    (hvs : AlikeAll p vs vs') :
    Simulates p (Equal Unit) (bindItems ev scope xs vs) (bindItems ev' scope' xs vs') := by
  cases xs with
  | nil =>
    simp only [Script.bindItems]
    exact pure rfl
  | cons x xs =>
    have head : Alike p (vs.head?.getD .undefined) (vs'.head?.getD .undefined) := by
      cases hvs with
      | nil => exact .undefined
      | cons hv _ => exact hv
    have tail : AlikeAll p vs.tail vs'.tail := by
      cases hvs with
      | nil => exact .nil
      | cons _ hvs => exact hvs
    cases x with
    | patternRest target =>
      simp only [Script.bindItems]
      exact (newArray hvs).bind fun q v v' hpq hv => bindTo target (he.mono hpq) (hs.mono hpq) hv
    | _ =>
      simp only [Script.bindItems]
      exact (bindTo _ he hs head).bind fun q _ _ hpq _ =>
        bindItems xs (he.mono hpq) (hs.mono hpq) (tail.mono hpq)

theorem bindFields (xs : List Node) (used : List String) {p : Pairing view} {v v' : Value}
    (he : SimulatesIn p (ev scope) (ev' scope')) (hs : Scope.Open p scope scope')
    (hv : Alike p v v') :
    Simulates p (Equal Unit) (bindFields ev scope v used xs) (bindFields ev' scope' v' used xs) := by
  cases xs with
  | nil =>
    simp only [Script.bindFields]
    exact pure rfl
  | cons x xs =>
    have plain (x : Node) (key : String)
        (bindTo : ∀ {q w w'}, SimulatesIn q (ev scope) (ev' scope') → Scope.Open q scope scope' →
          Alike q w w' →
          Simulates q (Equal Unit) (Script.bind ev scope x w) (Script.bind ev' scope' x w')) :=
      (property hv (.string key)).bind fun q w w' hpq hw =>
        (bindTo (he.mono hpq) (hs.mono hpq) hw).bind fun r _ _ hqr _ =>
          bindFields xs (key :: used) (he.mono (hpq.trans hqr)) (hs.mono (hpq.trans hqr))
            (hv.mono (hpq.trans hqr))
    cases x with
    | patternRest target =>
      simp only [Script.bindFields]
      refine (newObject (otherFields hv used)).bind fun q w w' hpq hw => ?_
      refine (bindTo target (he.mono hpq) (hs.mono hpq) hw).bind fun r _ _ hqr _ => ?_
      exact bindFields xs used (he.mono (hpq.trans hqr)) (hs.mono (hpq.trans hqr))
        (hv.mono (hpq.trans hqr))
    | propertyPattern key target =>
      simp only [Script.bindFields]
      exact plain target key.text (bindTo target)
    | bindingName t =>
      simp only [Script.bindFields, plainKey?]
      exact plain _ t.text (bindTo _)
    | patternDefault target x =>
      cases target with
      | bindingName t =>
        simp only [Script.bindFields, plainKey?]
        exact plain _ t.text (bindTo _)
      | _ =>
        simp only [Script.bindFields, plainKey?]
        exact stop
    | _ =>
      simp only [Script.bindFields, plainKey?]
      exact stop

end

/-! ## Parts of expressions -/

theorem spreadValues {ev ev' : Node → Run Value} (he : SimulatesIn p ev ev') (xs : List Node) :
    Simulates p AlikeAll (spreadValues ev xs) (spreadValues ev' xs) := by
  induction xs generalizing p with
  | nil => exact pure .nil
  | cons x xs ih =>
    cases x with
    | spread x =>
      refine (he p x (.refl p)).bind fun q v v' hpq hv => ?_
      have hi := hv.items?
      generalize v.items? = is, v'.items? = is' at hi
      cases hi with
      | none =>
        simp only [hv.text_eq]
        exact lift_bind fun _ => stop
      | some hvs =>
        exact (ih (he.mono hpq)).bind fun r _ _ hqr hws =>
          pure (List.rel_append (hvs.mono hqr) hws)
    | _ =>
      refine (he p _ (.refl p)).bind fun q v v' hpq hv => ?_
      exact (ih (he.mono hpq)).bind fun r _ _ hqr hws => pure (.cons (hv.mono hqr) hws)

theorem callWith {ev ev' : Node → Run Value} {call call' : Caller} (he : SimulatesIn p ev ev')
    (hc : SimulatesCalls p call call') {f f' : Value} (hf : Alike p f f') (args : List Node) :
    Simulates p Alike (callWith ev call f args) (callWith ev' call' f' args) := by
  simp only [Script.callWith, hf.isCallable_eq, hf.text_eq]
  refine ite (fun _ => ?_) fun _ => lift_bind fun _ => stop
  exact (spreadValues he args).bind fun q vs vs' hpq hvs => hc q _ _ _ _ hpq (hf.mono hpq) hvs

theorem linkFrom (optional : Bool) {base base' : Option Value} {go go' : Value → Run Value}
    (hb : Option.Rel (Alike p) base base')
    (hgo : ∀ v v', Alike p v v' → Simulates p Alike (go v) (go' v')) :
    Simulates p (fun q => Option.Rel (Alike q)) (linkFrom optional base go)
      (linkFrom optional base' go') := by
  cases hb with
  | none => exact pure .none
  | @some v v' hv =>
    simp only [Script.linkFrom, hv.isNullish_eq]
    refine ite (fun _ => pure .none) fun _ => ?_
    exact (hgo v v' hv).bind fun _ _ _ _ hw => pure (.some hw)

theorem link {ev ev' : Node → Run Value} {call call' : Caller} (x : Node) {p : Pairing view}
    (he : SimulatesIn p ev ev') (hc : SimulatesCalls p call call') :
    Simulates p (fun q => Option.Rel (Alike q)) (link ev call x) (link ev' call' x) := by
  cases x with
  | member optional target name =>
    simp only [Script.link]
    exact (link target he hc).bind fun q _ _ hpq hb =>
      linkFrom optional hb fun v v' hv => property hv (.string name.text)
  | index optional target key =>
    simp only [Script.link]
    refine (link target he hc).bind fun q _ _ hpq hb => linkFrom optional hb fun v v' hv => ?_
    exact (he q key hpq).bind fun r k k' hqr hk => property (hv.mono hqr) hk
  | call optional callee args =>
    simp only [Script.link]
    exact (link callee he hc).bind fun q _ _ hpq hb =>
      linkFrom optional hb fun v v' hv => callWith (he.mono hpq) (hc.mono hpq) hv args
  | _ =>
    simp only [Script.link]
    exact (he p _ (.refl p)).bind fun _ _ _ _ hv => pure (.some hv)

theorem setFields {fs fs' more more' : List (String × Value)} (h : AlikeFields p fs fs')
    (hm : AlikeFields p more more') :
    AlikeFields p (more.foldl (fun fs f => setField fs f.1 f.2) fs)
      (more'.foldl (fun fs f => setField fs f.1 f.2) fs') := by
  induction hm generalizing fs fs' with
  | nil => exact h
  | @cons f f' _ _ hf _ ih =>
    refine ih ?_
    simp only [← hf.1]
    exact h.setField hf.2 f.1

theorem objectFields {ev ev' : Node → Run Value} {lookup lookup' : String → Run Value}
    (he : SimulatesIn p ev ev')
    (hl : ∀ q name, p.Grows q → Simulates q Alike (lookup name) (lookup' name))
    {fs fs' : List (String × Value)} (hfs : AlikeFields p fs fs') (xs : List Node) :
    Simulates p AlikeFields (objectFields ev lookup fs xs) (objectFields ev' lookup' fs' xs) := by
  induction xs generalizing p fs fs' with
  | nil => exact pure hfs
  | cons x xs ih =>
    have next {q : Pairing view} {gs gs' : List (String × Value)} (hpq : p.Grows q)
        (hgs : AlikeFields q gs gs') :=
      ih (he.mono hpq) (fun r name hqr => hl r name (hpq.trans hqr)) hgs
    cases x with
    | spread x =>
      refine (he p x (.refl p)).bind fun q v v' hpq hv => ?_
      have whole := hv
      cases hv with
      | object _ _ _ => exact next hpq (setFields (hfs.mono hpq) whole.fields)
      | _ => exact next hpq (hfs.mono hpq)
    | shorthand t =>
      exact (hl p t.text (.refl p)).bind fun q v v' hpq hv =>
        next hpq ((hfs.mono hpq).setField hv t.text)
    | property key x =>
      simp only [Script.objectFields]
      have entry (name : String) :=
        (he p x (.refl p)).bind fun q v v' hpq hv =>
          next hpq ((hfs.mono hpq).setField hv name)
      split
      · exact lift_bind fun name => entry name
      · exact entry key.text
    | _ => exact stop

/-! ## Operations on values -/

theorem newRegexp (source flags : String) :
    Simulates p Alike (newRegexp source flags) (newRegexp source flags) := by
  unfold Script.newRegexp
  cases Regexp.compile source flags with
  | ok r => exact newTag.bind fun _ _ _ _ ht => pure (.regexp r ht)
  | error e => cases e <;> exact stop

theorem leafValue {scope scope' : Scope} (h : List.Forall₂ p.frames scope scope') (kind : LeafKind)
    (text : String) : Simulates p Alike (leafValue scope kind text) (leafValue scope' kind text) := by
  cases kind with
  | number => exact lift_bind fun _ => plain (.number _)
  | string => exact lift_bind fun _ => plain (.string _)
  | template =>
    simp only [Script.leafValue]
    exact ite (fun _ => stop) fun _ => lift_bind fun _ => plain (.string _)
  | regex => exact lift_bind fun _ => newRegexp _ _
  | name => exact lookupName h text

theorem unaryValue (op : String) {v v' : Value} (h : Alike p v v') :
    Simulates p Alike (unaryValue op v) (unaryValue op v') := by
  simp only [Script.unaryValue, h.typeName_eq, h.isTruthy_eq, h.toWord_eq, h.toNumber_eq]
  split
  · exact plain (.string _)
  · exact plain .undefined
  · exact plain (.bool _)
  · exact lift_bind fun _ => plain (.number _)
  · exact lift_bind fun _ => plain (.number _)
  · exact lift_bind fun _ => plain (.number _)

theorem powerValue (a b : Number) : Simulates p Alike (powerValue a b) (powerValue a b) := by
  refine lift_bind fun r => ?_
  cases r with
  | real n => exact plain (.number n)
  | complex re im => exact newTag.bind fun _ _ _ _ ht => pure (.complex re im ht)

theorem construct {ev ev' : Node → Run Value} {call call' : Caller} (he : SimulatesIn p ev ev')
    (hc : SimulatesCalls p call call') {f f' : Value} (hf : Alike p f f') (args : List Node) :
    Simulates p Alike (construct ev call f args) (construct ev' call' f' args) := by
  have whole := hf
  cases hf with
  | closure _ _ _ _ => exact stop
  | _ =>
    simp only [Script.construct, whole.isCallable_eq, whole.text_eq]
    refine ite (fun _ => ?_) fun _ => lift_bind fun _ => stop
    exact (spreadValues he args).bind fun q vs vs' hpq hvs => hc q _ _ _ _ hpq (whole.mono hpq) hvs

theorem newClosure {scope scope' : Scope} (h : List.Forall₂ p.frames scope scope')
    (params : List Node) (body : Node) :
    Simulates p Alike (newClosure scope params body) (newClosure scope' params body) :=
  newTag.bind fun _ _ _ hpq ht => pure (.closure params body ht (h.imp fun _ _ => hpq.frames))

end Simulates

/-! ## Evaluation -/

theorem needsSecond_eq {p : Pairing view} {v v' : Value} (h : Alike p v v') (op : LogicalOp) :
    needsSecond op v' = needsSecond op v := by
  cases op <;> simp only [needsSecond, h.isNullish_eq, h.isTruthy_eq]

namespace Simulates

variable [Host]

theorem eval_succ {p : Pairing view} {d d' : Nat} {scope scope' : Scope}
    (hs : List.Forall₂ p.frames scope scope')
    (he : SimulatesIn p (eval d scope) (eval d' scope'))
    (hc : SimulatesCalls p (apply d) (apply d')) (x : Node) :
    Simulates p Alike (eval (d + 1) scope x) (eval (d' + 1) scope' x) := by
  have lookup (q : Pairing view) (name : String) (hpq : p.Grows q) :=
    lookupName (hs.imp fun _ _ => hpq.frames) name
  have linked (x : Node) : Simulates p Alike
      (do return (← Script.link (eval d scope) (apply d) x).getD .undefined)
      (do return (← Script.link (eval d' scope') (apply d') x).getD .undefined) :=
    (link x he hc).bind fun _ _ _ _ h => pure (getD_undefined h)
  cases x with
  | leaf kind t =>
    simp only [eval]
    exact leafValue hs kind t.text
  | constant c =>
    simp only [eval]
    cases c with
    | true => exact plain (.bool _)
    | false => exact plain (.bool _)
    | null => exact plain .null
    | undefined => exact plain .undefined
  | array items =>
    simp only [eval]
    exact (spreadValues he items).bind fun _ _ _ _ h => newArray h
  | object members =>
    simp only [eval]
    exact (objectFields he lookup .nil members).bind fun _ _ _ _ h => newObject h
  | arrow params body =>
    simp only [eval]
    exact newClosure hs params body
  | function params body =>
    simp only [eval]
    exact newClosure hs params body
  | ternary test yes no =>
    simp only [eval]
    refine (he p test (.refl p)).bind fun q v v' hpq hv => ?_
    rw [hv.isTruthy_eq]
    exact ite (fun _ => he q yes hpq) fun _ => he q no hpq
  | logical op lhs rhs =>
    simp only [eval]
    refine (he p lhs (.refl p)).bind fun q v v' hpq hv => ?_
    rw [needsSecond_eq hv]
    exact ite (fun _ => he q rhs hpq) fun _ => pure hv
  | binary group op lhs rhs =>
    simp only [eval]
    cases Operator.ofText? op with
    | none => exact stop
    | some op =>
      refine (he p lhs (.refl p)).bind fun q a a' hpq ha => ?_
      refine (he q rhs hpq).bind fun r b b' hqr hb => of_holds fun m m' hm => ?_
      rw [Alike.operator_eq hm (ha.mono hqr) hb]
      exact lift_plain (Operator.apply_plain op a b)
  | power base exponent =>
    simp only [eval]
    refine (he p base (.refl p)).bind fun q a a' hpq ha => ?_
    rw [ha.toNumber_eq]
    refine lift_bind fun x => (he q exponent hpq).bind fun r b b' hqr hb => ?_
    rw [hb.toNumber_eq]
    exact lift_bind fun y => powerValue x y
  | unary op x =>
    simp only [eval]
    refine ite (fun _ => stop) fun _ => ?_
    exact (he p x (.refl p)).bind fun _ _ _ _ hv => unaryValue op.text hv
  | member optional target name =>
    simp only [eval]
    exact linked _
  | index optional target key =>
    simp only [eval]
    exact linked _
  | call optional callee args =>
    simp only [eval]
    exact linked _
  | construct callee args =>
    simp only [eval]
    exact (he p callee (.refl p)).bind fun q f f' hpq hf =>
      construct (he.mono hpq) (hc.mono hpq) hf args
  | _ =>
    simp only [eval]
    exact stop

variable [Host.Respects view]

theorem apply_succ {p : Pairing view} {d d' : Nat}
    (he : ∀ q scope scope', p.Grows q → List.Forall₂ q.frames scope scope' →
      SimulatesIn q (eval d scope) (eval d' scope'))
    (hc : SimulatesCalls p (apply d) (apply d')) :
    SimulatesCalls p (apply (d + 1)) (apply (d' + 1)) := by
  intro q f f' args args' hpq hf hargs
  have whole := hf
  cases hf with
  | @closure t t' s s' params body _ hs =>
    simp only [apply]
    have empty : AlikeFields q [] [] := .nil
    refine (newFrame empty).bind fun r g g' hqr ⟨hg, hl, hr⟩ => ?_
    have frames : List.Forall₂ r.frames (g :: s) (g' :: s') :=
      .cons hg (hs.imp fun _ _ => hqr.frames)
    have fresh : Scope.Open r (g :: s) (g' :: s') :=
      ⟨frames, by rintro _ ⟨⟩; exact hl, by rintro _ ⟨⟩; exact hr⟩
    have ev := he r _ _ (hpq.trans hqr) frames
    exact (bindItems params ev fresh (hargs.mono hqr)).bind fun o _ _ hro _ => ev o body hro
  | method m _ hv => exact callMethod (hc.mono hpq) hv m hargs
  | host f => exact Host.Respects.call f (hc.mono hpq) hargs
  | _ => exact stop

/-- Evaluation and calls at a depth are simulated by those at any depth that is no less. -/
theorem eval_apply {d d' : Nat} (hd : d ≤ d') (p : Pairing view) :
    (∀ scope scope', List.Forall₂ p.frames scope scope' →
      SimulatesIn p (eval d scope) (eval d' scope')) ∧
    SimulatesCalls p (apply d) (apply d') := by
  induction d generalizing d' p with
  | zero =>
    constructor
    · intro scope scope' _ q x _
      rw [eval]
      exact stop
    · intro q f f' args args' _ _ _
      rw [apply]
      exact stop
  | succ d ih =>
    obtain ⟨d', rfl⟩ : ∃ k, d' = k + 1 := ⟨d' - 1, by omega⟩
    have ih := ih (Nat.le_of_succ_le_succ hd)
    constructor
    · intro scope scope' hs q x hpq
      have hs := hs.imp fun _ _ => hpq.frames
      exact eval_succ hs ((ih q).1 scope scope' hs) (ih q).2 x
    · exact apply_succ (fun q scope scope' _ hs => (ih q).1 scope scope' hs) (ih p).2

theorem eval {p : Pairing view} {d d' : Nat} {scope scope' : Scope} (hd : d ≤ d')
    (hs : List.Forall₂ p.frames scope scope') (x : Node) :
    Simulates p Alike (eval d scope x) (eval d' scope' x) :=
  (eval_apply hd p).1 scope scope' hs p x (.refl p)

end Simulates

/-! ## Chains of links -/

/-- A chain of links that is evaluated on its own is undefined where it has ended. -/
theorem eval_of_isLink [Host] {x : Node} (hx : x.isLink = true) (d : Nat) (scope : Scope) :
    eval (d + 1) scope x = do
      return (← link (eval d scope) (apply d) x).getD .undefined := by
  cases x <;> first | rfl | cases hx

theorem link_of_not_isLink {x : Node} (hx : x.isLink = false) (ev : Node → Run Value)
    (call : Caller) : link ev call x = do return some (← ev x) := by
  cases x <;> first | rfl | cases hx

theorem evaluateText_eq [Host] {code : String} {x : Node} (h : parseExpression code = .ok x) (depth : Nat)
    (environment : Frame) : evaluateText depth environment code = evaluateTree depth environment x := by
  rw [evaluateText, h]

end Comprehend.Script
