import Comprehend.Proofs.Script.Conversion
import Comprehend.Proofs.Script.Simulation

/-! # Built-in methods on values alike

Properties and methods go through the items of their receiver and call what they are given, so on
receivers alike, with callers that simulate each other, they simulate each other too. -/

namespace Comprehend.Script

variable {view : View}

/-- Callers that simulate each other, now and under every larger pairing. -/
def SimulatesCalls (p : Pairing view) (call call' : Caller) : Prop :=
  ∀ (q : Pairing view) (f f' : Value) (args args' : List Value), p.Grows q → Alike q f f' →
    AlikeAll q args args' → Simulates q Alike (call f args) (call' f' args')

theorem SimulatesCalls.mono {p q : Pairing view} {call call' : Caller} (h : SimulatesCalls p call call')
    (hpq : p.Grows q) : SimulatesCalls q call call' :=
  fun r f f' args args' hqr => h r f f' args args' (hpq.trans hqr)

namespace Simulates

variable {p : Pairing view} {v v' w w' : Value} {vs vs' ws ws' : List Value}

/-- What is shown of a simulation may use that the pairing fits. -/
theorem of_holds {R : ResultRel view α β} {a : Run α} {b : Run β}
    (h : ∀ m m', p.Holds m m' → Simulates p R a b) : Simulates p R a b :=
  ⟨fun hm ha => (h _ _ hm).run hm ha⟩

theorem lift_bind {S : ResultRel view γ δ} {e : Except Refusal α} {f : α → Run γ} {g : α → Run δ}
    (h : ∀ x, Simulates p S (f x) (g x)) : Simulates p S (liftM e >>= f) (liftM e >>= g) := by
  constructor
  intro m m' x n hm ha
  cases e with
  | error _ => cases ha
  | ok y => exact (h y).run hm ha

/-- The result of a computation outside the machine, when it is plain. -/
theorem lift_plain {e : Except Stop Value} (h : GivesPlain e) :
    Simulates p Alike (liftM e) (liftM e) := by
  constructor
  intro m m' x n hm ha
  cases e with
  | error _ => cases ha
  | ok y =>
    cases ha
    exact ⟨p, x, m', rfl, .refl p, hm, (h x rfl).alike p, .refl .., .refl ..⟩

theorem lift_refusal_plain {e : Except Refusal Value} (h : GivesPlain e) :
    Simulates p Alike (liftM e) (liftM e) := by
  constructor
  intro m m' x n hm ha
  cases e with
  | error _ => cases ha
  | ok y =>
    cases ha
    exact ⟨p, x, m', rfl, .refl p, hm, (h x rfl).alike p, .refl .., .refl ..⟩

theorem ite {R : ResultRel view α β} {c : Prop} [Decidable c] {a a' : Run α} {b b' : Run β}
    (h : c → Simulates p R a b) (h' : ¬c → Simulates p R a' b') :
    Simulates p R (if c then a else a') (if c then b else b') := by
  split
  · exact h ‹_›
  · exact h' ‹_›

theorem plain (h : v.IsPlain) : Simulates p Alike (Pure.pure v) (Pure.pure v) := pure (h.alike p)

/-! ## Reading properties -/

theorem method? (h : Alike p v v') (found : Option Method) :
    Simulates p Alike (v.method? found) (v'.method? found) := by
  cases found with
  | none => exact plain .undefined
  | some m => exact newTag.bind fun _ _ _ hpq ht => pure (.method m ht (h.mono hpq))

end Simulates

theorem getD_undefined {p : Pairing view} {x y : Option Value} (h : Option.Rel (Alike p) x y) :
    Alike p (x.getD .undefined) (y.getD .undefined) := by
  cases h with
  | none => exact .undefined
  | some h => exact h

theorem AlikeAll.getElem? {p : Pairing view} {vs vs' : List Value} (h : AlikeAll p vs vs') (i : Nat) :
    Option.Rel (Alike p) vs[i]? vs'[i]? := by
  induction h generalizing i with
  | nil => simp
  | cons hv _ ih =>
    cases i with
    | zero => simpa using hv
    | succ i => simpa using ih i

theorem Value.charAt_plain (s : String) (i : Nat) : (Value.charAt s i).IsPlain := by
  unfold Value.charAt
  split
  · exact .string _
  · exact .undefined

namespace Simulates

variable {p : Pairing view} {v v' key key' : Value}

theorem property (hv : Alike p v v') (hk : Alike p key key') :
    Simulates p Alike (v.property key) (v'.property key') := by
  have whole := hv
  cases hv with
  | undefined =>
    simp only [Value.property, hk.text_eq]
    exact lift_bind fun _ => lift_bind fun _ => stop
  | null =>
    simp only [Value.property, hk.text_eq]
    exact lift_bind fun _ => lift_bind fun _ => stop
  | array _ hl _ =>
    simp only [Value.property, hk.text_eq, hk.index?_eq, hl]
    refine lift_bind fun i => ?_
    cases i with
    | some i => exact pure (getD_undefined (whole.all.getElem? i))
    | none => exact lift_bind fun _ => ite (fun _ => plain (.number _)) fun _ => method? whole _
  | string s =>
    simp only [Value.property, hk.text_eq, hk.index?_eq]
    refine lift_bind fun i => ?_
    cases i with
    | some i => exact plain (Value.charAt_plain s i)
    | none => exact lift_bind fun _ => ite (fun _ => plain (.number _)) fun _ => method? whole _
  | object _ _ _ =>
    simp only [Value.property, hk.text_eq]
    exact lift_bind fun name => pure (getD_undefined (whole.fields.getField? name))
  | regexp r _ =>
    simp only [Value.property, hk.text_eq]
    refine lift_bind fun name => ?_
    split
    · exact method? whole _
    · exact plain (.string _)
    · exact plain (.string _)
    · exact plain .undefined
  | _ =>
    simp only [Value.property, hk.text_eq, whole.isCallable_eq]
    refine ite (fun _ => lift_bind fun name => ?_) fun _ => plain .undefined
    split
    · exact method? whole _
    · exact method? whole _
    · exact plain .undefined

end Simulates

/-! ## Items -/

theorem Alike.items? {p : Pairing view} {v v' : Value} (h : Alike p v v') :
    Option.Rel (AlikeAll p) v.items? v'.items? := by
  have whole := h
  cases h with
  | array _ _ _ => exact .some whole.all
  | string s =>
    refine .some (List.forall₂_same.mpr fun v hv => ?_)
    obtain ⟨c, _, rfl⟩ := List.mem_map.mp hv
    exact .string _
  | _ => exact .none

theorem forall₂_isEmpty {α β : Type} {R : α → β → Prop} {xs : List α} {ys : List β}
    (h : List.Forall₂ R xs ys) : ys.isEmpty = xs.isEmpty := by
  cases h <;> rfl

theorem Alike.isNoArguments_eq {p : Pairing view} {v v' : Value} (h : Alike p v v') :
    v'.isNoArguments = v.isNoArguments := by
  have whole := h
  cases h with
  | array _ _ _ => exact forall₂_isEmpty whole.all
  | object _ _ _ => exact forall₂_isEmpty whole.fields
  | _ => rfl

theorem Simulates.iterate {p : Pairing view} {v v' : Value} (h : Alike p v v') :
    Simulates p AlikeAll v.iterate v'.iterate := by
  have whole := h
  cases h with
  | object _ hk _ =>
    simp only [Value.iterate]
    have key : ∀ fs : List (String × Value),
        fs.map (fun f => Value.string f.1) = (fs.map (·.1)).map .string := by simp
    rw [key, key, hk]
    refine .pure (List.forall₂_same.mpr fun v hv => ?_)
    obtain ⟨s, _, rfl⟩ := List.mem_map.mp hv
    exact .string s
  | array _ _ _ => exact .pure whole.all
  | string s => exact .pure (by simpa [Value.items?] using whole.items?)
  | _ => exact .stop

namespace AlikeAll

variable {p : Pairing view} {vs vs' : List Value}

theorem flattenOne (h : AlikeAll p vs vs') :
    AlikeAll p (Script.flattenOne vs) (Script.flattenOne vs') := by
  induction h with
  | nil => exact .nil
  | cons hv _ ih =>
    have whole := hv
    cases hv with
    | array _ _ _ => exact List.rel_append whole.all ih
    | _ => exact List.rel_append (.cons whole .nil) ih

theorem sliceList (h : AlikeAll p vs vs') (start : Int) (stop : Option Int) :
    AlikeAll p (Script.sliceList vs start stop) (Script.sliceList vs' start stop) := by
  unfold Script.sliceList
  rw [h.length_eq]
  exact List.forall₂_drop _ (List.forall₂_take _ h)

variable {m m' : Memory} {v v' : Value}

theorem includesValue_eq (hm : p.Holds m m') (h : AlikeAll p vs vs') (hv : Alike p v v') :
    includesValue vs' v' = includesValue vs v := by
  unfold includesValue
  induction h with
  | nil => rfl
  | cons hw _ ih =>
    rw [List.any_cons, List.any_cons, ih, Alike.strictEquals_eq hm hw hv]
    cases hw <;> cases hv <;> rfl

theorem indexOfValue_eq (hm : p.Holds m m') (h : AlikeAll p vs vs') (hv : Alike p v v') :
    indexOfValue vs' v' = indexOfValue vs v := by
  have key : vs'.findIdx? (·.strictEquals v') = vs.findIdx? (·.strictEquals v) := by
    induction h with
    | nil => rfl
    | cons hw _ ih => simp only [List.findIdx?_cons, Alike.strictEquals_eq hm hw hv, ih]
  rw [indexOfValue, indexOfValue, key]

end AlikeAll

/-! ## Calls -/

namespace Simulates

variable {p : Pairing view}

theorem mapItems {R : ResultRel view α β} {f : Value → Nat → Run α} {g : Value → Nat → Run β}
    (mono : ∀ {q r}, Pairing.Grows q r → ∀ {x y}, R q x y → R r x y)
    (h : ∀ q v v' i, p.Grows q → Alike q v v' → Simulates q R (f v i) (g v' i)) (i : Nat)
    {vs vs' : List Value} (hvs : AlikeAll p vs vs') :
    Simulates p (fun q => List.Forall₂ (R q)) (mapItems f i vs) (mapItems g i vs') := by
  induction vs generalizing p vs' i with
  | nil =>
    cases hvs
    exact pure .nil
  | cons v vs ih =>
    cases hvs with
    | cons hv hvs =>
      refine (h p _ _ i (.refl p) hv).bind fun q x y hpq hx => ?_
      have rest := ih (fun r w w' j hqr => h r w w' j (hpq.trans hqr)) (i + 1) (AlikeAll.mono hpq hvs)
      exact rest.bind fun r xs ys hqr hxs => pure (.cons (mono hqr hx) hxs)

theorem filterItems {f g : Value → Nat → Run Bool}
    (h : ∀ q v v' i, p.Grows q → Alike q v v' → Simulates q (Equal Bool) (f v i) (g v' i))
    (i : Nat) {vs vs' : List Value} (hvs : AlikeAll p vs vs') :
    Simulates p AlikeAll (filterItems f i vs) (filterItems g i vs') := by
  induction vs generalizing p vs' i with
  | nil =>
    cases hvs
    exact pure .nil
  | cons v vs ih =>
    cases hvs with
    | cons hv hvs =>
      refine (h p _ _ i (.refl p) hv).bind fun q keep _ hpq heq => ?_
      subst heq
      have rest := ih (fun r w w' j hqr => h r w w' j (hpq.trans hqr)) (i + 1) (AlikeAll.mono hpq hvs)
      refine rest.bind fun r xs ys hqr hxs => pure ?_
      cases keep with
      | true => exact .cons (hv.mono (hpq.trans hqr)) hxs
      | false => exact hxs

theorem truthy {a b : Run Value} (h : Simulates p Alike a b) :
    Simulates p (Equal Bool) (do return (← a).isTruthy) (do return (← b).isTruthy) :=
  h.bind fun _ _ _ _ hv => pure hv.isTruthy_eq.symm

theorem integerOf {v v' : Value} (h : Alike p v v') :
    Simulates p (Equal Int) (integerOf v) (integerOf v') := by
  simp only [Script.integerOf, h.toNumber_eq]
  exact lift_bind fun _ => lift _

variable {call call' : Caller} {v v' f f' : Value} {args args' items items' : List Value}

theorem arrayMethod (hcall : SimulatesCalls p call call') (hv : Alike p v v')
    (hitems : AlikeAll p items items') (m : Method) (hargs : AlikeAll p args args') :
    Simulates p Alike (arrayMethod call v items m args) (arrayMethod call' v' items' m args') := by
  have callback {f f' : Value} (hf : Alike p f f') (r : Pairing view) (w w' : Value)
      (i : Nat) (hpr : p.Grows r) (hw : Alike r w w') :
      Simulates r Alike (call f [w, .int i, v]) (call' f' [w', .int i, v']) :=
    hcall r _ _ _ _ hpr (hf.mono hpr) (.cons hw (.cons (.number _) (.cons (hv.mono hpr) .nil)))
  cases m with
  | filter =>
    rcases hargs with _ | ⟨hf, _ | ⟨hg, hargs⟩⟩
    · exact stop
    · refine (filterItems (fun r w w' i hpr hw => ?_) 0 hitems).bind fun _ _ _ _ h => newArray h
      exact truthy (callback hf r w w' i hpr hw)
    · exact stop
  | map =>
    rcases hargs with _ | ⟨hf, _ | ⟨hg, hargs⟩⟩
    · exact stop
    · exact (mapItems Alike.mono (callback hf) 0 hitems).bind fun _ _ _ _ h => newArray h
    · exact stop
  | flatMap =>
    rcases hargs with _ | ⟨hf, _ | ⟨hg, hargs⟩⟩
    · exact stop
    · refine (mapItems Alike.mono (callback hf) 0 hitems).bind fun _ _ _ _ h => newArray ?_
      exact AlikeAll.flattenOne h
    · exact stop
  | concat => exact newArray (List.rel_append hitems (AlikeAll.flattenOne hargs))
  | arrayIncludes =>
    rcases hargs with _ | ⟨hw, _ | ⟨hg, hargs⟩⟩
    · exact stop
    · refine of_holds fun m m' hm => ?_
      rw [Script.arrayMethod, Script.arrayMethod, AlikeAll.includesValue_eq hm hitems hw]
      exact plain (.bool _)
    · exact stop
  | indexOf =>
    rcases hargs with _ | ⟨hw, _ | ⟨hg, hargs⟩⟩
    · exact stop
    · refine of_holds fun m m' hm => ?_
      rw [Script.arrayMethod, Script.arrayMethod, AlikeAll.indexOfValue_eq hm hitems hw]
      exact plain (.number _)
    · exact stop
  | join =>
    rcases hargs with _ | ⟨hw, _ | ⟨hg, hargs⟩⟩
    · simp only [Script.arrayMethod, Alike.itemTexts_eq hitems]
      exact lift_bind fun _ => plain (.string _)
    · simp only [Script.arrayMethod, Alike.itemTexts_eq hitems, hw.text_eq]
      exact lift_bind fun _ => lift_bind fun _ => plain (.string _)
    · exact stop
  | slice =>
    rcases hargs with _ | ⟨hi, _ | ⟨hj, _ | ⟨hk, hargs⟩⟩⟩
    · exact newArray hitems
    · refine (integerOf hi).bind fun q i _ hpq heq => ?_
      subst heq
      exact newArray (AlikeAll.sliceList (AlikeAll.mono hpq hitems) i none)
    · have whole := hj
      cases hj with
      | undefined =>
        refine (integerOf hi).bind fun q i _ hpq heq => ?_
        subst heq
        exact newArray (AlikeAll.sliceList (AlikeAll.mono hpq hitems) i none)
      | _ =>
        refine (integerOf hi).bind fun q i _ hpq heq => ?_
        subst heq
        refine (integerOf (whole.mono hpq)).bind fun r j _ hqr heq => ?_
        subst heq
        exact newArray (AlikeAll.sliceList (AlikeAll.mono (hpq.trans hqr) hitems) i (some j))
    · cases hj <;> exact stop
  | _ => exact stop

theorem stringMethod (s : String) (m : Method) (hargs : AlikeAll p args args') :
    Simulates p Alike (stringMethod s m args) (stringMethod s m args') := by
  rcases hargs with _ | ⟨hv, _ | ⟨hw, hargs⟩⟩
  · cases m with
    | toUpperCase => exact plain (.string _)
    | toLowerCase => exact plain (.string _)
    | _ => exact stop
  · cases m with
    | includes =>
      simp only [Script.stringMethod, hv.text_eq]
      exact lift_bind fun _ => plain (.bool _)
    | startsWith =>
      simp only [Script.stringMethod, hv.text_eq]
      exact lift_bind fun _ => plain (.bool _)
    | endsWith =>
      simp only [Script.stringMethod, hv.text_eq]
      exact lift_bind fun _ => plain (.bool _)
    | _ => exact stop
  · cases m <;> exact stop

theorem callMethod (hcall : SimulatesCalls p call call') (hv : Alike p v v') (m : Method)
    (hargs : AlikeAll p args args') :
    Simulates p Alike (callMethod call v m args) (callMethod call' v' m args') := by
  have whole := hv
  cases hv with
  | array _ _ _ => exact arrayMethod hcall whole whole.all m hargs
  | string s => exact stringMethod s m hargs
  | _ =>
    rcases hargs with _ | ⟨ha, _ | ⟨hb, _ | ⟨hc, hargs⟩⟩⟩
    · cases m with
      | apply => exact hcall p _ _ _ _ (.refl p) whole .nil
      | call => exact hcall p _ _ _ _ (.refl p) whole .nil
      | test => first | exact stop | exact lift_bind fun _ => plain (.bool _)
      | _ => exact stop
    · cases m with
      | apply => exact hcall p _ _ _ _ (.refl p) whole .nil
      | call => exact hcall p _ _ _ _ (.refl p) whole .nil
      | test =>
        simp only [Script.callMethod, ha.text_eq]
        first | exact stop | exact lift_bind fun _ => plain (.bool _)
      | _ => exact stop
    · cases m with
      | apply =>
        simp only [Script.callMethod, hb.isNoArguments_eq]
        refine ite (fun _ => hcall p _ _ _ _ (.refl p) whole .nil) fun _ => ?_
        exact (iterate hb).bind fun q _ _ hpq hs => hcall q _ _ _ _ hpq (whole.mono hpq) hs
      | call => exact hcall p _ _ _ _ (.refl p) whole (.cons hb .nil)
      | _ => exact stop
    · cases m with
      | call => exact hcall p _ _ _ _ (.refl p) whole (.cons hb (.cons hc hargs))
      | _ => exact stop

end Simulates

end Comprehend.Script
