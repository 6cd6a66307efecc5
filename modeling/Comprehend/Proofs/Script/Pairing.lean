import Comprehend.Script.Eval
import Mathlib.Data.List.Forall2

/-! # Values up to identity

Two runs of one script hand out identities and frames in different orders, so what they give is the
same only up to a pairing of the one's with the other's. `Alike` compares two values under a
pairing: plain data are equal, and identities and scopes are paired. `Pairing.Holds` says that a
pairing fits two memories: it is one-to-one, pairs only what has been handed out, and paired frames
have the same variables with values alike. The host has notes of its own in a memory, and whether
these are compared too is a matter of the view that is taken. -/

namespace Comprehend.Script

/-- What two memories are compared in: all that is in them, or what the script can see. -/
inductive View
  | whole
  | script
  deriving DecidableEq

/-- Identities and frames that stand for each other, under a view. Nothing is bound any more in the
frames below the two bounds. -/
structure Pairing (view : View) where
  tags : Tag → Tag → Prop
  frames : Tag → Tag → Prop
  left : Nat
  right : Nat

variable {view : View}

/-- Two values that differ in identities and frames only, and in those as the pairing says. -/
inductive Alike (p : Pairing view) : Value → Value → Prop
  | undefined : Alike p .undefined .undefined
  | null : Alike p .null .null
  | bool (b : Bool) : Alike p (.bool b) (.bool b)
  | number (n : Number) : Alike p (.number n) (.number n)
  | string (s : String) : Alike p (.string s) (.string s)
  | array {t t' : Tag} {vs vs' : List Value} : p.tags t t' → vs.length = vs'.length →
      (∀ (i : Nat) (v v' : Value), vs[i]? = some v → vs'[i]? = some v' → Alike p v v') →
      Alike p (.array t vs) (.array t' vs')
  | object {t t' : Tag} {fs fs' : List (String × Value)} : p.tags t t' →
      fs.map (·.1) = fs'.map (·.1) →
      (∀ (i : Nat) (f f' : String × Value), fs[i]? = some f → fs'[i]? = some f' →
        Alike p f.2 f'.2) → Alike p (.object t fs) (.object t' fs')
  | closure {t t' : Tag} {s s' : Scope} (params : List Node) (body : Node) : p.tags t t' →
      List.Forall₂ p.frames s s' → Alike p (.closure t ⟨params, body, s⟩) (.closure t' ⟨params, body, s'⟩)
  | method {t t' : Tag} {v v' : Value} (m : Method) : p.tags t t' → Alike p v v' →
      Alike p (.method t v m) (.method t' v' m)
  | host (f : HostFunction) : Alike p (.host f) (.host f)
  | regexp {t t' : Tag} (r : Regexp) : p.tags t t' → Alike p (.regexp t r) (.regexp t' r)
  | box {t t' : Tag} {v v' : Value} : p.tags t t' → Alike p v v' → Alike p (.box t v) (.box t' v')
  | complex {t t' : Tag} (re im : Float) : p.tags t t' → Alike p (.complex t re im) (.complex t' re im)

abbrev AlikeAll (p : Pairing view) : List Value → List Value → Prop := List.Forall₂ (Alike p)

/-- Fields of the same names in the same order, with values alike. -/
abbrev AlikeFields (p : Pairing view) : List (String × Value) → List (String × Value) → Prop :=
  List.Forall₂ fun f f' => f.1 = f'.1 ∧ Alike p f.2 f'.2

/-! ## Lists of values -/

theorem forall₂_of_getElem? {α β : Type} {R : α → β → Prop} :
    ∀ {xs : List α} {ys : List β}, xs.length = ys.length →
      (∀ (i : Nat) x y, xs[i]? = some x → ys[i]? = some y → R x y) → List.Forall₂ R xs ys
  | [], [], _, _ => .nil
  | x :: xs, y :: ys, hl, h => by
    refine .cons (h 0 x y rfl rfl) (forall₂_of_getElem? (by simpa using hl) ?_)
    intro i a b ha hb
    exact h (i + 1) a b (by simpa using ha) (by simpa using hb)

theorem forall₂_getElem? {α β : Type} {R : α → β → Prop} {xs : List α} {ys : List β}
    (h : List.Forall₂ R xs ys) (i : Nat) {x : α} {y : β} (hx : xs[i]? = some x)
    (hy : ys[i]? = some y) : R x y := by
  induction h generalizing i with
  | nil => simp at hx
  | cons hxy _ ih =>
    cases i with
    | zero => simp_all
    | succ i => exact ih i (by simpa using hx) (by simpa using hy)

namespace Alike

variable {p q : Pairing view} {v v' : Value} {t t' : Tag}

theorem array_of_all {vs vs' : List Value} (ht : p.tags t t') (h : AlikeAll p vs vs') :
    Alike p (.array t vs) (.array t' vs') :=
  .array ht h.length_eq fun i _ _ hv hv' => forall₂_getElem? h i hv hv'

theorem object_of_fields {fs fs' : List (String × Value)} (ht : p.tags t t')
    (h : AlikeFields p fs fs') : Alike p (.object t fs) (.object t' fs') := by
  refine .object ht ?_ fun i _ _ hf hf' => (forall₂_getElem? h i hf hf').2
  induction h with
  | nil => rfl
  | cons hf _ ih => simp [hf.1, ih]

theorem all {vs vs' : List Value} (h : Alike p (.array t vs) (.array t' vs')) :
    AlikeAll p vs vs' := by
  cases h with
  | array _ hl hs => exact forall₂_of_getElem? hl hs

theorem fields {fs fs' : List (String × Value)} (h : Alike p (.object t fs) (.object t' fs')) :
    AlikeFields p fs fs' := by
  cases h with
  | object _ hk hs =>
    refine forall₂_of_getElem? (by simpa using congrArg List.length hk) ?_
    intro i f f' hf hf'
    have key := congrArg (·[i]?) hk
    simp only [List.getElem?_map, hf, hf', Option.map_some, Option.some.injEq] at key
    exact ⟨key, hs i f f' hf hf'⟩

end Alike

/-! ## Growing pairings -/

/-- A pairing with more pairs, and the same frames sealed. -/
structure Pairing.Grows (p q : Pairing view) : Prop where
  tags : ∀ {t t'}, p.tags t t' → q.tags t t'
  frames : ∀ {f f'}, p.frames f f' → q.frames f f'
  left : q.left = p.left
  right : q.right = p.right

theorem Pairing.Grows.refl (p : Pairing view) : p.Grows p := ⟨id, id, rfl, rfl⟩

theorem Pairing.Grows.trans {p q r : Pairing view} (h : p.Grows q) (h' : q.Grows r) : p.Grows r :=
  ⟨h'.tags ∘ h.tags, h'.frames ∘ h.frames, h'.left.trans h.left, h'.right.trans h.right⟩

/-- What is alike stays so when more identities and frames are paired, under whatever view. -/
theorem Alike.imp {view' : View} {p : Pairing view} {q : Pairing view'} (ht : ∀ {t t'}, p.tags t t' → q.tags t t')
    (hf : ∀ {f f'}, p.frames f f' → q.frames f f') {v v' : Value} (h : Alike p v v') :
    Alike q v v' := by
  induction h with
  | undefined => exact .undefined
  | null => exact .null
  | bool b => exact .bool b
  | number n => exact .number n
  | string s => exact .string s
  | array h hl _ ih => exact .array (ht h) hl ih
  | object h hk _ ih => exact .object (ht h) hk ih
  | closure ps b h hs => exact .closure ps b (ht h) (hs.imp fun _ _ => hf)
  | method m h _ ih => exact .method m (ht h) ih
  | host f => exact .host f
  | regexp r h => exact .regexp r (ht h)
  | box h _ ih => exact .box (ht h) ih
  | complex re im h => exact .complex re im (ht h)

/-- A pairing with more pairs, whatever is sealed. -/
structure Pairing.Below (p q : Pairing view) : Prop where
  tags : ∀ {t t'}, p.tags t t' → q.tags t t'
  frames : ∀ {f f'}, p.frames f f' → q.frames f f'

theorem Pairing.Below.refl (p : Pairing view) : p.Below p := ⟨id, id⟩

theorem Pairing.Below.trans {p q r : Pairing view} (h : p.Below q) (h' : q.Below r) : p.Below r :=
  ⟨h'.tags ∘ h.tags, h'.frames ∘ h.frames⟩

theorem Pairing.Grows.below {p q : Pairing view} (h : p.Grows q) : p.Below q := ⟨h.tags, h.frames⟩

theorem Alike.mono {p q : Pairing view} (hpq : p.Grows q) {v v' : Value} (h : Alike p v v') :
    Alike q v v' := h.imp hpq.tags hpq.frames

theorem AlikeAll.mono {p q : Pairing view} (hpq : p.Grows q) {vs vs' : List Value}
    (h : AlikeAll p vs vs') : AlikeAll q vs vs' := h.imp fun _ _ hv => hv.mono hpq

theorem AlikeFields.mono {p q : Pairing view} (hpq : p.Grows q) {fs fs' : List (String × Value)}
    (h : AlikeFields p fs fs') : AlikeFields q fs fs' := h.imp fun _ _ hf => ⟨hf.1, hf.2.mono hpq⟩

theorem AlikeAll.below {p q : Pairing view} (hpq : p.Below q) {vs vs' : List Value}
    (h : AlikeAll p vs vs') : AlikeAll q vs vs' := h.imp fun _ _ hv => hv.imp hpq.tags hpq.frames

/-! ## Memories -/

/-- A pairing fits two memories. -/
structure Pairing.Holds (p : Pairing view) (m m' : Memory) : Prop where
  tag_lt : ∀ {t t'}, p.tags t t' → t < m.fresh ∧ t' < m'.fresh
  tag_iff : ∀ {t t' u u'}, p.tags t t' → p.tags u u' → (t = u ↔ t' = u')
  frame_iff : ∀ {f f' g g'}, p.frames f f' → p.frames g g' → (f = g ↔ f' = g')
  frame : ∀ {f f'}, p.frames f f' → ∃ vars vars', m.frames[f]? = some vars ∧
    m'.frames[f']? = some vars' ∧ AlikeFields p vars vars'
  left_le : p.left ≤ m.frames.size
  right_le : p.right ≤ m'.frames.size
  notes : view = .whole → AlikeAll p m.notes m'.notes

/-- A memory that has only grown: nothing is taken back, and the frames below a bound are as they
were. -/
structure Memory.Keeps (bound : Nat) (m n : Memory) : Prop where
  fresh_le : m.fresh ≤ n.fresh
  size_le : m.frames.size ≤ n.frames.size
  frame : ∀ i < bound, n.frames[i]? = m.frames[i]?

theorem Memory.Keeps.refl (bound : Nat) (m : Memory) : m.Keeps bound m :=
  ⟨Nat.le_refl _, Nat.le_refl _, fun _ _ => rfl⟩

theorem Memory.Keeps.trans {bound : Nat} {m n o : Memory} (h : m.Keeps bound n)
    (h' : n.Keeps bound o) : m.Keeps bound o :=
  ⟨Nat.le_trans h.fresh_le h'.fresh_le, Nat.le_trans h.size_le h'.size_le,
    fun i hi => (h'.frame i hi).trans (h.frame i hi)⟩

/-! ## One memory and itself -/

/-- Everything that has been handed out, paired with itself. -/
def Memory.selfPairing (m : Memory) : Pairing view where
  tags t t' := t = t' ∧ t < m.fresh
  frames f f' := f = f' ∧ f < m.frames.size
  left := m.frames.size
  right := m.frames.size

/-- A value that a memory knows: all identities and frames in it have been handed out. -/
def Memory.KnowsValue (m : Memory) (v : Value) : Prop := Alike (m.selfPairing : Pairing .whole) v v

/-- Variables with values that a memory knows. -/
def Memory.Knows (m : Memory) (vars : Frame) : Prop := ∀ f ∈ vars, m.KnowsValue f.2

/-- A memory whose variables and notes hold only what has been handed out. -/
structure Memory.Closed (m : Memory) : Prop where
  frames : ∀ (f : Nat) (vars : Frame), m.frames[f]? = some vars → m.Knows vars
  notes : ∀ v ∈ m.notes, m.KnowsValue v

theorem Memory.KnowsValue.alike {m : Memory} {v : Value} (h : m.KnowsValue v) :
    Alike (m.selfPairing : Pairing view) v v := by
  refine h.imp ?_ ?_
  · exact id
  · exact id

theorem Memory.Knows.alike {m : Memory} {vars : Frame} (h : m.Knows vars) :
    AlikeFields (m.selfPairing : Pairing view) vars vars :=
  List.forall₂_same.mpr fun f hf => ⟨rfl, (h f hf).alike⟩

theorem Memory.Closed.holds {m : Memory} (h : m.Closed) :
    (m.selfPairing : Pairing view).Holds m m where
  tag_lt := by
    rintro t _ ⟨rfl, ht⟩
    exact ⟨ht, ht⟩
  tag_iff := by
    rintro t _ u _ ⟨rfl, _⟩ ⟨rfl, _⟩
    rfl
  frame_iff := by
    rintro f _ g _ ⟨rfl, _⟩ ⟨rfl, _⟩
    rfl
  frame := by
    rintro f _ ⟨rfl, hf⟩
    exact ⟨_, _, Array.getElem?_eq_getElem hf, Array.getElem?_eq_getElem hf,
      (h.frames f _ (Array.getElem?_eq_getElem hf)).alike⟩
  left_le := Nat.le_refl _
  right_le := Nat.le_refl _
  notes _ := List.forall₂_same.mpr fun v hv => (h.notes v hv).alike

/-! ## Composition -/

/-- What is paired by way of a memory in between. -/
def Pairing.comp (p q : Pairing view) : Pairing view where
  tags t t'' := ∃ t', p.tags t t' ∧ q.tags t' t''
  frames f f'' := ∃ f', p.frames f f' ∧ q.frames f' f''
  left := p.left
  right := q.right

theorem forall₂_comp {α β γ : Type} {R : α → β → Prop} {S : β → γ → Prop} {T : α → γ → Prop}
    (h : ∀ x y z, R x y → S y z → T x z) {xs : List α} {ys : List β} {zs : List γ}
    (hr : List.Forall₂ R xs ys) (hs : List.Forall₂ S ys zs) : List.Forall₂ T xs zs := by
  induction hr generalizing zs with
  | nil =>
    cases hs
    exact .nil
  | cons hxy _ ih =>
    cases hs with
    | cons hyz hs => exact .cons (h _ _ _ hxy hyz) (ih hs)

theorem Alike.comp {p q : Pairing view} {v v' v'' : Value} (h : Alike p v v') (h' : Alike q v' v'') :
    Alike (p.comp q) v v'' := by
  induction h generalizing v'' with
  | undefined => cases h'; exact .undefined
  | null => cases h'; exact .null
  | bool b => cases h'; exact .bool b
  | number n => cases h'; exact .number n
  | string s => cases h'; exact .string s
  | @array t t' vs vs' ht hl _ ih =>
    cases h' with
    | @array _ t'' _ vs'' ht' hl' hs' =>
      refine .array ⟨t', ht, ht'⟩ (hl.trans hl') fun i v v'' hv hv'' => ?_
      obtain ⟨v', hv'⟩ : ∃ v', vs'[i]? = some v' := by
        have := (List.getElem?_eq_some_iff.mp hv).1
        exact ⟨_, List.getElem?_eq_getElem (hl ▸ this)⟩
      exact ih i v v' hv hv' (hs' i v' v'' hv' hv'')
  | @object t t' fs fs' ht hk _ ih =>
    cases h' with
    | @object _ t'' _ fs'' ht' hk' hs' =>
      refine .object ⟨t', ht, ht'⟩ (hk.trans hk') fun i f f'' hf hf'' => ?_
      obtain ⟨f', hf'⟩ : ∃ f', fs'[i]? = some f' := by
        have hlt := (List.getElem?_eq_some_iff.mp hf).1
        have hl : fs.length = fs'.length := by simpa using congrArg List.length hk
        exact ⟨_, List.getElem?_eq_getElem (hl ▸ hlt)⟩
      exact ih i f f' hf hf' (hs' i f' f'' hf' hf'')
  | @closure t t' s s' ps b ht hs =>
    cases h' with
    | closure _ _ ht' hs' =>
      exact .closure ps b ⟨t', ht, ht'⟩ (forall₂_comp (fun _ y _ h h' => ⟨y, h, h'⟩) hs hs')
  | @method t t' _ _ m ht _ ih =>
    cases h' with
    | method _ ht' hv' => exact .method m ⟨t', ht, ht'⟩ (ih hv')
  | host f => cases h'; exact .host f
  | @regexp t t' r ht =>
    cases h' with
    | regexp _ ht' => exact .regexp r ⟨t', ht, ht'⟩
  | @box t t' _ _ ht _ ih =>
    cases h' with
    | box ht' hv' => exact .box ⟨t', ht, ht'⟩ (ih hv')
  | @complex t t' re im ht =>
    cases h' with
    | complex _ _ ht' => exact .complex re im ⟨t', ht, ht'⟩

theorem AlikeAll.comp {p q : Pairing view} {vs vs' vs'' : List Value} (h : AlikeAll p vs vs')
    (h' : AlikeAll q vs' vs'') : AlikeAll (p.comp q) vs vs'' :=
  forall₂_comp (fun _ _ _ hv hv' => hv.comp hv') h h'

theorem AlikeFields.comp {p q : Pairing view} {fs fs' fs'' : List (String × Value)}
    (h : AlikeFields p fs fs') (h' : AlikeFields q fs' fs'') : AlikeFields (p.comp q) fs fs'' :=
  forall₂_comp (fun _ _ _ hf hf' => ⟨hf.1.trans hf'.1, hf.2.comp hf'.2⟩) h h'

theorem Pairing.Holds.comp {p q : Pairing view} {m m' m'' : Memory} (h : p.Holds m m')
    (h' : q.Holds m' m'') : (p.comp q).Holds m m'' where
  tag_lt := by
    rintro t t'' ⟨t', ht, ht'⟩
    exact ⟨(h.tag_lt ht).1, (h'.tag_lt ht').2⟩
  tag_iff := by
    rintro t t'' u u'' ⟨t', ht, ht'⟩ ⟨u', hu, hu'⟩
    exact (h.tag_iff ht hu).trans (h'.tag_iff ht' hu')
  frame_iff := by
    rintro f f'' g g'' ⟨f', hf, hf'⟩ ⟨g', hg, hg'⟩
    exact (h.frame_iff hf hg).trans (h'.frame_iff hf' hg')
  frame := by
    rintro f f'' ⟨f', hf, hf'⟩
    obtain ⟨vars, vars', hv, hv', ha⟩ := h.frame hf
    obtain ⟨_, vars'', hw, hw', hb⟩ := h'.frame hf'
    rw [hv', Option.some.injEq] at hw
    subst hw
    exact ⟨vars, vars'', hv, hw', ha.comp hb⟩
  left_le := h.left_le
  right_le := h'.right_le
  notes hview := (h.notes hview).comp (h'.notes hview)

/-- Two memories that have both grown from one: what it knew stands for itself. -/
theorem Pairing.Below.comp {m : Memory} {p q : Pairing view} (hp : m.selfPairing.Below p)
    (hq : m.selfPairing.Below q) : m.selfPairing.Below (p.comp q) where
  tags := by
    rintro t _ ⟨rfl, ht⟩
    exact ⟨t, hp.tags ⟨rfl, ht⟩, hq.tags ⟨rfl, ht⟩⟩
  frames := by
    rintro f _ ⟨rfl, hf⟩
    exact ⟨f, hp.frames ⟨rfl, hf⟩, hq.frames ⟨rfl, hf⟩⟩

end Comprehend.Script
