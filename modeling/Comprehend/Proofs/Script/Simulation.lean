import Comprehend.Proofs.Script.Pairing

/-! # Simulation of runs

`Simulates p R a b` says that from memories that the pairing fits, whenever `a` ends with a result
so does `b`, the results are related by `R` under a larger pairing that fits what the memories have
become, and neither run has touched a sealed frame. It is closed under sequencing, so the simulation
of a run is put together from those of its steps. -/

namespace Comprehend.Script

variable {view : View}

/-- A relation between results under a pairing. -/
abbrev ResultRel (view : View) (α β : Type) := Pairing view → α → β → Prop

structure Simulates (p : Pairing view) (R : ResultRel view α β) (a : Run α) (b : Run β) : Prop where
  run : ∀ {m m' : Memory} {x : α} {n : Memory}, p.Holds m m' → a m = .ok (x, n) →
    ∃ q y n', b m' = .ok (y, n') ∧ p.Grows q ∧ q.Holds n n' ∧ R q x y ∧
      m.Keeps p.left n ∧ m'.Keeps p.right n'

/-- Results that are the same. -/
abbrev Equal (α : Type) : ResultRel view α α := fun _ x y => x = y

/-- A run that goes on ends only after its first part has ended. -/
theorem Run.bind_eq_ok {a : Run α} {f : α → Run β} {m n : Memory} {y : β}
    (h : (a >>= f) m = .ok (y, n)) : ∃ x o, a m = .ok (x, o) ∧ f x o = .ok (y, n) := by
  change (a m >>= fun r => f r.1 r.2) = .ok (y, n) at h
  cases ha : a m with
  | error s => rw [ha] at h; cases h
  | ok r => rw [ha] at h; exact ⟨r.1, r.2, rfl, h⟩

theorem Run.bind_of_ok {a : Run α} {f : α → Run β} {m o : Memory} {x : α}
    (ha : a m = .ok (x, o)) : (a >>= f) m = f x o := by
  change (a m >>= fun r => f r.1 r.2) = _
  rw [ha]; rfl

theorem Run.bind_of_error {a : Run α} {f : α → Run β} {m : Memory} {s : Stop}
    (ha : a m = .error s) : (a >>= f) m = .error s := by
  change (a m >>= fun r => f r.1 r.2) = _
  rw [ha]; rfl

namespace Simulates

variable {p : Pairing view}

theorem pure {R : ResultRel view α β} {x : α} {y : β} (h : R p x y) :
    Simulates p R (Pure.pure x) (Pure.pure y) := by
  constructor
  intro m m' z n hm ha
  cases ha
  exact ⟨p, y, m', rfl, .refl p, hm, h, .refl .., .refl ..⟩

theorem bind {R : ResultRel view α β} {S : ResultRel view γ δ} {a : Run α} {b : Run β} {f : α → Run γ}
    {g : β → Run δ} (h : Simulates p R a b)
    (hf : ∀ q x y, p.Grows q → R q x y → Simulates q S (f x) (g y)) :
    Simulates p S (a >>= f) (b >>= g) := by
  constructor
  intro m m' z o hm ha
  obtain ⟨x, n, hx, hz⟩ := Run.bind_eq_ok ha
  obtain ⟨q, y, n', hy, hpq, hn, hr, hk, hk'⟩ := h.run hm hx
  obtain ⟨r, w, o', hw, hqr, ho, hs, hl, hl'⟩ := (hf q x y hpq hr).run hn hz
  rw [hpq.left] at hl
  rw [hpq.right] at hl'
  exact ⟨r, w, o', (Run.bind_of_ok hy).trans hw, hpq.trans hqr, ho, hs, hk.trans hl, hk'.trans hl'⟩

/-- Only the second run goes on. -/
theorem bind_right {R : ResultRel view α β} {S : ResultRel view α δ} {a : Run α} {b : Run β} {g : β → Run δ}
    (h : Simulates p R a b)
    (hg : ∀ q x y, p.Grows q → R q x y → Simulates q S (Pure.pure x) (g y)) :
    Simulates p S a (b >>= g) := by
  rw [← bind_pure a]
  exact h.bind hg

/-- Only the first run goes on. -/
theorem bind_left {R : ResultRel view α β} {S : ResultRel view γ β} {a : Run α} {b : Run β} {f : α → Run γ}
    (h : Simulates p R a b)
    (hf : ∀ q x y, p.Grows q → R q x y → Simulates q S (f x) (Pure.pure y)) :
    Simulates p S (a >>= f) b := by
  rw [← bind_pure b]
  exact h.bind hf

/-- A run that stops is simulated by any. -/
theorem stop {R : ResultRel view α β} {s : Stop} {b : Run β} : Simulates p R (Run.stop s) b := by
  constructor
  intro m m' x n _ ha
  cases ha

/-- So is one that never comes to an end. -/
theorem never {R : ResultRel view α β} {a : Run α} {b : Run β} (h : ∀ m x n, a m ≠ .ok (x, n)) :
    Simulates p R a b := by
  constructor
  intro m m' x n _ ha
  exact absurd ha (h m x n)

/-- A conversion of plain data goes the same way in both runs. -/
theorem lift {α : Type} (e : Except Refusal α) : Simulates p (Equal α) (liftM e) (liftM e) := by
  constructor
  intro m m' x n hm ha
  cases e with
  | error _ => cases ha
  | ok z =>
    cases ha
    exact ⟨p, x, m', rfl, .refl p, hm, rfl, .refl .., .refl ..⟩

theorem imp {R S : ResultRel view α β} {a : Run α} {b : Run β} (h : Simulates p R a b)
    (hrs : ∀ q x y, p.Grows q → R q x y → S q x y) : Simulates p S a b := by
  constructor
  intro m m' x n hm ha
  obtain ⟨q, y, n', hy, hpq, hn, hr, hk⟩ := h.run hm ha
  exact ⟨q, y, n', hy, hpq, hn, hrs q x y hpq hr, hk⟩

end Simulates

/-! ## Handing out identities and frames -/

/-- A pairing with one more pair of identities. -/
def Pairing.withTag (p : Pairing view) (t t' : Tag) : Pairing view :=
  { p with tags := fun u u' => p.tags u u' ∨ u = t ∧ u' = t' }

/-- A pairing with one more pair of frames. -/
def Pairing.withFrame (p : Pairing view) (f f' : Tag) : Pairing view :=
  { p with frames := fun g g' => p.frames g g' ∨ g = f ∧ g' = f' }

theorem Pairing.grows_withTag (p : Pairing view) (t t' : Tag) : p.Grows (p.withTag t t') :=
  ⟨.inl, id, rfl, rfl⟩

theorem Pairing.grows_withFrame (p : Pairing view) (f f' : Tag) : p.Grows (p.withFrame f f') :=
  ⟨id, .inl, rfl, rfl⟩

theorem Pairing.Holds.withTag {p : Pairing view} {m m' : Memory} (h : p.Holds m m') :
    (p.withTag m.fresh m'.fresh).Holds { m with fresh := m.fresh + 1 }
      { m' with fresh := m'.fresh + 1 } where
  tag_lt := by
    rintro t t' (ht | ⟨rfl, rfl⟩)
    · exact ⟨Nat.lt_succ_of_lt (h.tag_lt ht).1, Nat.lt_succ_of_lt (h.tag_lt ht).2⟩
    · exact ⟨Nat.lt_succ_self _, Nat.lt_succ_self _⟩
  tag_iff := by
    rintro t t' u u' (ht | ⟨rfl, rfl⟩) (hu | ⟨rfl, rfl⟩)
    · exact h.tag_iff ht hu
    · exact iff_of_false (Nat.ne_of_lt (h.tag_lt ht).1) (Nat.ne_of_lt (h.tag_lt ht).2)
    · exact iff_of_false (Nat.ne_of_gt (h.tag_lt hu).1) (Nat.ne_of_gt (h.tag_lt hu).2)
    · simp
  frame_iff := h.frame_iff
  frame hf := by
    obtain ⟨vars, vars', hv, hv', ha⟩ := h.frame hf
    exact ⟨vars, vars', hv, hv', ha.mono (p.grows_withTag ..)⟩
  left_le := h.left_le
  right_le := h.right_le
  notes hview := (h.notes hview).mono (p.grows_withTag ..)

theorem Pairing.Holds.withFrame {p : Pairing view} {m m' : Memory} {vars vars' : Frame}
    (h : p.Holds m m') (ha : AlikeFields p vars vars') :
    (p.withFrame m.frames.size m'.frames.size).Holds { m with frames := m.frames.push vars }
      { m' with frames := m'.frames.push vars' } := by
  have lt {f f'} (hf : p.frames f f') : f < m.frames.size ∧ f' < m'.frames.size := by
    obtain ⟨_, _, hv, hv', _⟩ := h.frame hf
    exact ⟨(Array.getElem?_eq_some_iff.mp hv).1, (Array.getElem?_eq_some_iff.mp hv').1⟩
  refine ⟨h.tag_lt, h.tag_iff, ?_, ?_, ?_, ?_, ?_⟩
  · rintro f f' g g' (hf | ⟨rfl, rfl⟩) (hg | ⟨rfl, rfl⟩)
    · exact h.frame_iff hf hg
    · exact iff_of_false (Nat.ne_of_lt (lt hf).1) (Nat.ne_of_lt (lt hf).2)
    · exact iff_of_false (Nat.ne_of_gt (lt hg).1) (Nat.ne_of_gt (lt hg).2)
    · simp
  · rintro f f' (hf | ⟨rfl, rfl⟩)
    · obtain ⟨vs, vs', hv, hv', hvs⟩ := h.frame hf
      refine ⟨vs, vs', ?_, ?_, hvs.mono (p.grows_withFrame ..)⟩
      · rw [Array.getElem?_push_lt (lt hf).1, ← hv, Array.getElem?_eq_getElem (lt hf).1]
      · rw [Array.getElem?_push_lt (lt hf).2, ← hv', Array.getElem?_eq_getElem (lt hf).2]
    · exact ⟨vars, vars', by simp, by simp, ha.mono (p.grows_withFrame ..)⟩
  · have := h.left_le
    simp only [Pairing.withFrame, Array.size_push]
    omega
  · have := h.right_le
    simp only [Pairing.withFrame, Array.size_push]
    omega
  · exact fun hview => (h.notes hview).mono (p.grows_withFrame ..)

namespace Simulates

variable {p : Pairing view}

/-- Identities handed out together are paired. -/
theorem newTag : Simulates p (fun q => q.tags) Run.newTag Run.newTag := by
  constructor
  intro m m' t n hm ha
  cases ha
  exact ⟨_, m'.fresh, _, rfl, p.grows_withTag .., hm.withTag, .inr ⟨rfl, rfl⟩,
    ⟨Nat.le_succ _, Nat.le_refl _, fun _ _ => rfl⟩, ⟨Nat.le_succ _, Nat.le_refl _, fun _ _ => rfl⟩⟩

theorem newArray {vs vs' : List Value} (h : AlikeAll p vs vs') :
    Simulates p Alike (Run.newArray vs) (Run.newArray vs') :=
  newTag.bind fun _ _ _ hpq ht => pure (.array_of_all ht (h.mono hpq))

theorem newObject {fs fs' : List (String × Value)} (h : AlikeFields p fs fs') :
    Simulates p Alike (Run.newObject fs) (Run.newObject fs') :=
  newTag.bind fun _ _ _ hpq ht => pure (.object_of_fields ht (h.mono hpq))

/-- New frames are paired, and neither is sealed. -/
theorem newFrame {vars vars' : Frame} (h : AlikeFields p vars vars') :
    Simulates p (fun q f f' => q.frames f f' ∧ q.left ≤ f ∧ q.right ≤ f') (Run.newFrame vars)
      (Run.newFrame vars') := by
  constructor
  intro m m' f n hm ha
  cases ha
  have keeps (bound : Nat) {o : Memory} {vs : Frame} (hb : bound ≤ o.frames.size) :
      o.Keeps bound { o with frames := o.frames.push vs } := by
    refine ⟨Nat.le_refl _, by simp, fun i hi => ?_⟩
    rw [Array.getElem?_push_lt (by omega), Array.getElem?_eq_getElem (by omega)]
  exact ⟨_, m'.frames.size, _, rfl, p.grows_withFrame .., hm.withFrame h,
    ⟨.inr ⟨rfl, rfl⟩, hm.left_le, hm.right_le⟩, keeps _ hm.left_le, keeps _ hm.right_le⟩

end Simulates

/-! ## Sealing -/

/-- The same pairs with other frames sealed. -/
def Pairing.sealing (p : Pairing view) (left right : Nat) : Pairing view :=
  { p with left := left, right := right }

theorem Pairing.below_sealing (p : Pairing view) (left right : Nat) :
    p.Below (p.sealing left right) := ⟨id, id⟩

theorem Alike.sealing {p : Pairing view} {v v' : Value} (h : Alike p v v') (left right : Nat) :
    Alike (p.sealing left right) v v' :=
  h.imp (p.below_sealing left right).tags (p.below_sealing left right).frames

theorem Pairing.Holds.sealing {p : Pairing view} {m m' : Memory} (h : p.Holds m m') :
    (p.sealing m.frames.size m'.frames.size).Holds m m' where
  tag_lt := h.tag_lt
  tag_iff := h.tag_iff
  frame_iff := h.frame_iff
  frame hf := by
    obtain ⟨vars, vars', hv, hv', ha⟩ := h.frame hf
    exact ⟨vars, vars', hv, hv', ha.imp fun _ _ hf => ⟨hf.1, hf.2.sealing ..⟩⟩
  left_le := Nat.le_refl _
  right_le := Nat.le_refl _
  notes hview := (h.notes hview).below (p.below_sealing ..)

theorem Memory.Keeps.of_le {bound bound' : Nat} {m n : Memory} (h : m.Keeps bound n)
    (hb : bound' ≤ bound) : m.Keeps bound' n :=
  ⟨h.fresh_le, h.size_le, fun i hi => h.frame i (Nat.lt_of_lt_of_le hi hb)⟩

/-- A memory after another one that has left all of its frames as they were. -/
abbrev Memory.Precedes (m n : Memory) : Prop := m.Keeps m.frames.size n

theorem Memory.Precedes.trans {m n o : Memory} (h : m.Precedes n) (h' : n.Precedes o) :
    m.Precedes o :=
  Keeps.trans h (h'.of_le h.size_le)

/-- A pairing that fits two memories fits what comes after them, as far as notes go too. -/
theorem Pairing.Holds.later {p : Pairing view} {m m' n n' : Memory} (h : p.Holds m m')
    (hk : m.Precedes n) (hk' : m'.Precedes n')
    (hnotes : view = .whole → AlikeAll p n.notes n'.notes) : p.Holds n n' where
  tag_lt ht :=
    ⟨Nat.lt_of_lt_of_le (h.tag_lt ht).1 hk.fresh_le,
      Nat.lt_of_lt_of_le (h.tag_lt ht).2 hk'.fresh_le⟩
  tag_iff := h.tag_iff
  frame_iff := h.frame_iff
  frame hf := by
    obtain ⟨vars, vars', hv, hv', ha⟩ := h.frame hf
    refine ⟨vars, vars', ?_, ?_, ha⟩
    · rw [hk.frame _ (Array.getElem?_eq_some_iff.mp hv).1, hv]
    · rw [hk'.frame _ (Array.getElem?_eq_some_iff.mp hv').1, hv']
  left_le := Nat.le_trans h.left_le hk.size_le
  right_le := Nat.le_trans h.right_le hk'.size_le
  notes := hnotes

/-- A simulation that goes through with all frames sealed, so that it changes none of those that
there are at its start. -/
structure Carries (p : Pairing view) (R : ResultRel view α β) (a : Run α) (b : Run β) : Prop where
  run : ∀ {m m' : Memory} {x : α} {n : Memory}, p.Holds m m' → a m = .ok (x, n) →
    ∃ q y n', b m' = .ok (y, n') ∧ p.Below q ∧ q.Holds n n' ∧ R q x y ∧
      m.Precedes n ∧ m'.Precedes n'

theorem Simulates.carries {p : Pairing view} {R : ResultRel view α β} {a : Run α} {b : Run β}
    (h : ∀ left right, Simulates (p.sealing left right) R a b) : Carries p R a b := by
  constructor
  intro m m' x n hm ha
  obtain ⟨q, y, n', hb, hpq, hn, hr, hk, hk'⟩ := (h _ _).run hm.sealing ha
  exact ⟨q, y, n', hb, (p.below_sealing ..).trans hpq.below, hn, hr, hk, hk'⟩

theorem Carries.pure {p : Pairing view} {R : ResultRel view α β} {x : α} {y : β} (h : R p x y) :
    Carries p R (Pure.pure x) (Pure.pure y) := by
  constructor
  intro m m' z n hm ha
  cases ha
  exact ⟨p, y, m', rfl, .refl p, hm, h, .refl .., .refl ..⟩

theorem Carries.bind {p : Pairing view} {R : ResultRel view α β} {S : ResultRel view γ δ} {a : Run α} {b : Run β}
    {f : α → Run γ} {g : β → Run δ} (h : Carries p R a b)
    (hf : ∀ q x y, p.Below q → R q x y → Carries q S (f x) (g y)) :
    Carries p S (a >>= f) (b >>= g) := by
  constructor
  intro m m' z o hm ha
  obtain ⟨x, n, hx, hz⟩ := Run.bind_eq_ok ha
  obtain ⟨q, y, n', hy, hpq, hn, hr, hk, hk'⟩ := h.run hm hx
  obtain ⟨r, w, o', hw, hqr, ho, hs, hl, hl'⟩ := (hf q x y hpq hr).run hn hz
  exact ⟨r, w, o', (Run.bind_of_ok hy).trans hw, hpq.trans hqr, ho, hs, hk.trans hl, hk'.trans hl'⟩

end Comprehend.Script
