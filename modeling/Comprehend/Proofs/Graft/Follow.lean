import Comprehend.Proofs.Graft.Tokens
import Comprehend.Proofs.Syntax.Guarded
import Comprehend.Proofs.Syntax.Kept
import Comprehend.Proofs.Syntax.Sole

/-! # Readers side by side

A reader is run at a place in a text and at the place that it comes to with pieces put in. `Follows`
says that what the first run reads is read by the second one again, with as many pieces in it as were
passed on the way. Each way that readers are put together keeps it so. -/

namespace Comprehend

open Comprehend.Text Comprehend.Lexeme Comprehend.Parser

namespace Grafting

variable {G : Grafting} {α β : Type}

/-! ## What is lost -/

/-- Some literal of a tree is spelled like a stretch of the text that a tag stands in. -/
def Spoiled (G : Grafting) (x : Node) : Prop :=
  ∃ t : Token, Node.Within (.token t) x ∧ t.cls ∈ [TokenClass.string, .template, .regex] ∧
    G.Covered t.text.toList

/-- Nothing comes of a tree, or of what is left behind it. -/
def Lost (G : Grafting) (stop : List Char → Prop) (x : Node) (r : List Char) : Prop :=
  G.Spoiled x ∨ stop r

/-- The same of the trees of a list. -/
def AllLost (G : Grafting) (stop : List Char → Prop) (xs : List Node) (r : List Char) : Prop :=
  (∃ x ∈ xs, G.Spoiled x) ∨ stop r

/-- What is left does not matter. -/
abbrev never : List Char → Prop := fun _ => False

theorem Spoiled.within {x y : Node} (h : G.Spoiled x) (hy : Node.Within x y) : G.Spoiled y := by
  obtain ⟨t, ht, hclass, hcovered⟩ := h
  exact ⟨t, ht.trans hy, hclass, hcovered⟩

theorem Spoiled.child {x y : Node} (h : G.Spoiled x) (hy : x ∈ y.children) : G.Spoiled y :=
  h.within (.child (.self x) hy)

theorem Lost.mono {stop stop' : List Char → Prop} {x : Node} {r : List Char} (h : G.Lost stop x r)
    (hstop : stop r → stop' r) : G.Lost stop' x r := h.imp_right hstop

/-! ## Where the second run comes to -/

/-- The second run gives what comes of an outcome with some pieces put in, and comes to the same
place. -/
def Image (G : Grafting) (P : Nat → α → α → Prop) (gs : List Graft) (o o' : α × List Char) : Prop :=
  ∃ done ahead, gs = done ++ ahead ∧ P done.length o.1 o'.1 ∧ G.Place Solid ahead o.2 o'.2

/-- At places of some kind the outcomes of a reader are kept among those of another one, if that has
fuel enough for what is put in. -/
def Follows (G : Grafting) (K : List Graft → List Char → List Char → Prop)
    (L : α → List Char → Prop) (P : Nat → α → α → Prop) (fuel fuel' : Nat)
    (f f' : List Char → Outcomes α) : Prop :=
  ∀ ⦃gs cs cs'⦄, K gs cs cs' → fuel + Graft.weight gs ≤ fuel' →
    Outcomes.Kept (OneWay G.text) L (G.Image P gs) (f cs) (f' cs')

theorem weight_append (gs gs' : List Graft) :
    Graft.weight (gs ++ gs') = Graft.weight gs + Graft.weight gs' := by
  simp [Graft.weight]

section

variable {K K' : List Graft → List Char → List Char → Prop} {L : α → List Char → Prop}
  {M : β → List Char → Prop} {P : Nat → α → α → Prop} {Q : Nat → β → β → Prop}
  {fuel fuel' : Nat} {f f' g g' : List Char → Outcomes α} {gs : List Graft} {cs cs' : List Char}

theorem Image.one {x x' : α} (hx : P 0 x x') (h : G.Place Solid gs cs cs') :
    G.Image P gs (x, cs) (x', cs') := ⟨[], gs, rfl, hx, h⟩

/-- What is passed later adds to what has been passed. -/
theorem Image.later {m : Nat} {done ahead : List Graft} {o o' : α × List Char}
    (h : G.Image (fun n => P (m + n)) ahead o o') (hm : done.length = m) :
    G.Image P (done ++ ahead) o o' := by
  obtain ⟨done', ahead', rfl, hP, hplace⟩ := h
  refine ⟨done ++ done', ahead', by rw [List.append_assoc], ?_, hplace⟩
  rw [List.length_append, hm]
  exact hP

theorem Follows.from (h : G.Follows K L P fuel fuel' f f')
    (hK : ∀ gs cs cs', K' gs cs cs' → K gs cs cs') : G.Follows K' L P fuel fuel' f f' :=
  fun _ _ _ hp hf => h (hK _ _ _ hp) hf

theorem Follows.mono {L' : α → List Char → Prop} (h : G.Follows K L P fuel fuel' f f')
    (hL : ∀ x r, L x r → L' x r) : G.Follows K L' P fuel fuel' f f' :=
  fun _ _ _ hp hf => (h hp hf).mono hL fun _ _ => id

theorem Follows.succ (h : G.Follows K L P fuel fuel' f f') :
    G.Follows K L P (fuel + 1) (fuel' + 1) f f' :=
  fun _ _ _ hp hf => h hp (by omega)

theorem Follows.nil : G.Follows K L P fuel fuel' (fun _ => []) f' :=
  fun _ _ _ _ _ => .empty _

theorem Follows.one {x x' : α} (hx : P 0 x x') :
    G.Follows (G.Place Solid) L P fuel fuel' (one x) (one x') :=
  fun _ _ _ hp _ => .one (.one hx hp)

/-- Both runs go on. -/
theorem kept_andThen {os os' : Outcomes α} {g g' : α → List Char → Outcomes β}
    (h : os.Kept (OneWay G.text) L (G.Image P gs) os') (hf : fuel + Graft.weight gs ≤ fuel')
    (hlost : ∀ x r, L x r → ∀ o ∈ g x r, M o.1 o.2)
    (hg : ∀ m x x', P m x x' →
      G.Follows (G.Place Solid) M (fun n => Q (m + n)) fuel fuel' (g x) (g' x')) :
    (os.andThen g).Kept (OneWay G.text) M (G.Image Q gs) (os'.andThen g') := by
  refine h.andThen hlost fun o o' ho => ?_
  obtain ⟨done, ahead, rfl, hP, hplace⟩ := ho
  have hweight := weight_append done ahead
  exact (hg _ _ _ hP hplace (by omega)).mono (fun _ _ => id) fun _ _ h => h.later rfl

theorem Follows.andThen {g g' : α → List Char → Outcomes β} (h : G.Follows K L P fuel fuel' f f')
    (hlost : ∀ x r, L x r → ∀ o ∈ g x r, M o.1 o.2)
    (hg : ∀ m x x', P m x x' →
      G.Follows (G.Place Solid) M (fun n => Q (m + n)) fuel fuel' (g x) (g' x')) :
    G.Follows K M Q fuel fuel' (fun r => (f r).andThen g) fun r => (f' r).andThen g' :=
  fun _ _ _ hp hf => kept_andThen (h hp hf) hf hlost hg

theorem Follows.giving {g g' : α → β} (h : G.Follows K L P fuel fuel' f f')
    (hlost : ∀ x r, L x r → M (g x) r) (hg : ∀ m x x', P m x x' → Q m (g x) (g' x')) :
    G.Follows K M Q fuel fuel' (fun r => (f r).giving g) fun r => (f' r).giving g' := by
  simp only [giving_eq_andThen]
  refine h.andThen (fun x r hx o ho => ?_) fun m x x' hx => .one (hg m x x' hx)
  obtain rfl := List.mem_singleton.1 ho
  exact hlost x r hx

/-- Two readers that there is no choice between where a text can be cut in one way only. -/
theorem Follows.append (hf : G.Follows K L P fuel fuel' f f') (hg : G.Follows K L P fuel fuel' g g')
    (hW : ∀ gs cs cs', K gs cs cs' → OneWay G.text → f cs = [] ∧ f' cs' = []) :
    G.Follows K L P fuel fuel' (fun r => f r ++ g r) fun r => f' r ++ g' r :=
  fun _ _ _ hp hfuel => (hf hp hfuel).append (hg hp hfuel) (hW _ _ _ hp)

/-! ## Marks and tokens -/

theorem Follows.mark {scan : List Char → Option (List Char)} (hs : Alike K K' scan)
    (hf : G.Follows K L P fuel fuel' f f') (hg : G.Follows K' L P fuel fuel' g g') :
    G.Follows K L P fuel fuel' (fun r => match scan r with | some u => g u | none => f r)
      fun r => match scan r with | some u => g' u | none => f' r := by
  intro gs cs cs' hp hfuel
  have hm := hs hp
  have hnone := hf hp hfuel
  dsimp only
  generalize scan cs = m, scan cs' = m' at hm ⊢
  cases hm with
  | none => exact hnone
  | some hr => exact hg hr hfuel

/-- The same with the alternatives in the other order. -/
theorem Follows.unmarked {scan : List Char → Option (List Char)} (hs : Alike K K' scan)
    (hf : G.Follows K L P fuel fuel' f f') (hg : G.Follows K' L P fuel fuel' g g') :
    G.Follows K L P fuel fuel' (fun r => match scan r with | none => f r | some u => g u)
      fun r => match scan r with | none => f' r | some u => g' u := by
  intro gs cs cs' hp hfuel
  have hm := hs hp
  have hnone := hf hp hfuel
  dsimp only
  generalize scan cs = m, scan cs' = m' at hm ⊢
  cases hm with
  | none => exact hnone
  | some hr => exact hg hr hfuel

theorem Follows.ofScan {γ : Type} {scan : List Char → Option (γ × List Char)}
    {g g' : γ → List Char → Outcomes α} (hs : AlikeTokens K K' scan)
    (hf : G.Follows K L P fuel fuel' f f') (hg : ∀ t, G.Follows K' L P fuel fuel' (g t) (g' t))
    {k k' : List Char → Outcomes α} (hk : ∀ r, k r = (scan r).elim (f r) fun p => g p.1 p.2)
    (hk' : ∀ r, k' r = (scan r).elim (f' r) fun p => g' p.1 p.2) :
    G.Follows K L P fuel fuel' k k' := by
  intro gs cs cs' hp hfuel
  have hm := hs hp
  have hnone := hf hp hfuel
  rw [hk, hk']
  generalize scan cs = m, scan cs' = m' at hm ⊢
  cases hm with
  | none => exact hnone
  | @some p p' hr =>
    obtain ⟨t, r⟩ := p
    obtain ⟨t', r'⟩ := p'
    obtain ⟨rfl, hr⟩ := hr
    exact hg t' hr hfuel

theorem Follows.scan {scan : List Char → Scan} {g g' : List Char → List Char → Outcomes α}
    (hs : AlikeTokens K K' scan) (hf : G.Follows K L P fuel fuel' f f')
    (hg : ∀ t, G.Follows K' L P fuel fuel' (g t) (g' t)) :
    G.Follows K L P fuel fuel' (fun r => match scan r with | some (t, u) => g t u | none => f r)
      fun r => match scan r with | some (t, u) => g' t u | none => f' r :=
  .ofScan hs hf hg (fun r => by cases scan r <;> rfl) fun r => by cases scan r <;> rfl

/-- The same with the alternatives in the other order. -/
theorem Follows.unscanned {scan : List Char → Scan} {g g' : List Char → List Char → Outcomes α}
    (hs : AlikeTokens K K' scan) (hf : G.Follows K L P fuel fuel' f f')
    (hg : ∀ t, G.Follows K' L P fuel fuel' (g t) (g' t)) :
    G.Follows K L P fuel fuel' (fun r => match scan r with | none => f r | some (t, u) => g t u)
      fun r => match scan r with | none => f' r | some (t, u) => g' t u :=
  .ofScan hs hf hg (fun r => by cases scan r <;> rfl) fun r => by cases scan r <;> rfl

theorem Follows.cond (c : Prop) [Decidable c] (hf : G.Follows K L P fuel fuel' f f')
    (hg : G.Follows K L P fuel fuel' g g') :
    G.Follows K L P fuel fuel' (fun r => if c then f r else g r) fun r => if c then f' r else g' r := by
  by_cases hc : c
  · simpa only [hc, if_true] using hf
  · simpa only [hc, if_false] using hg

/-- Where a tag comes next behind an operand, all is lost. -/
theorem Follows.of_plains {F : List Char → Prop} (h : G.Follows (G.Plains F) L P fuel fuel' f f')
    (hlost : ∀ r, Stray r → ∀ o ∈ f r, L o.1 o.2) : G.Follows (G.Place F) L P fuel fuel' f f' := by
  intro gs cs cs' hp hfuel
  rcases hp.plains_or_tagged with hp | ⟨front, -, ht⟩
  · exact h hp hfuel
  · exact .of_lost (hlost cs ht.stray) _

/-- A tag that is taken for a name loses all. -/
theorem Follows.of_untagged {F : List Char → Prop} (h : G.Follows (G.Plains F) L P fuel fuel' f f')
    (hlost : ∀ r q, word (skipBlanks r) = some (listTag.toList, q) → Dull q →
      ∀ o ∈ f r, L o.1 o.2) : G.Follows (G.Place F) L P fuel fuel' f f' := by
  intro gs cs cs' hp hfuel
  rcases hp.plains_or_tagged with hp | ⟨front, -, ht⟩
  · exact h hp hfuel
  · obtain ⟨q, hq, hdull⟩ := ht.scan_word
    exact .of_lost (hlost cs q hq hdull) _

/-- What the first run finds the second run finds too. -/
def Found (K K' : List Graft → List Char → List Char → Prop)
    (scan : List Char → Option (List Char)) : Prop :=
  ∀ ⦃gs cs cs' u⦄, K gs cs cs' → scan cs = some u → ∃ u', scan cs' = some u' ∧ K' gs u u'

theorem Alike.found {scan : List Char → Option (List Char)} (h : Alike K K' scan) :
    Found K K' scan := by
  intro gs cs cs' u hp hu
  have hm := h hp
  rw [hu] at hm
  cases hu' : scan cs' with
  | none =>
    rw [hu'] at hm
    cases hm
  | some u' =>
    rw [hu'] at hm
    cases hm with
    | some hr => exact ⟨u', rfl, hr⟩

/-- A tag is nothing that is looked for. -/
theorem Found.of_plains {F : List Char → Prop} {scan : List Char → Option (List Char)}
    (h : Found (G.Plains F) K' scan)
    (hnone : ∀ r w, skipBlanks r = 'l' :: w → scan r = none) : Found (G.Place F) K' scan := by
  intro gs cs cs' u hp hu
  rcases hp.plains_or_tagged with hp | ⟨front, -, ht⟩
  · exact h hp hu
  · obtain ⟨b, -, ht⟩ := ht
    obtain ⟨w, hw⟩ := ht.tag
    rw [hnone cs w hw] at hu
    cases hu

theorem Found.bind {K'' : List Graft → List Char → List Char → Prop}
    {scan next : List Char → Option (List Char)} (h : Found K K' scan) (hn : Found K' K'' next) :
    Found K K'' fun r => (scan r).bind next := by
  intro gs cs cs' u hp hu
  obtain ⟨v, hv, hu⟩ := Option.bind_eq_some_iff.1 hu
  obtain ⟨v', hv', hplace⟩ := h hp hv
  obtain ⟨u', hu', hplace'⟩ := hn hplace hu
  exact ⟨u', Option.bind_eq_some_iff.2 ⟨v', hv', hu'⟩, hplace'⟩

/-- A mark has to come next. -/
theorem Follows.required {scan : List Char → Option (List Char)} (hs : Found K K' scan)
    (hg : G.Follows K' L P fuel fuel' g g') :
    G.Follows K L P fuel fuel' (fun r => match scan r with | some u => g u | none => [])
      fun r => match scan r with | some u => g' u | none => [] := by
  intro gs cs cs' hp hfuel
  dsimp only
  cases hu : scan cs with
  | none => exact .empty _
  | some u =>
    obtain ⟨u', hu', hplace⟩ := hs hp hu
    rw [hu']
    exact hg hplace hfuel

/-- The same with the alternatives in the other order. -/
theorem Follows.demanded {scan : List Char → Option (List Char)} (hs : Found K K' scan)
    (hg : G.Follows K' L P fuel fuel' g g') :
    G.Follows K L P fuel fuel' (fun r => match scan r with | none => [] | some u => g u)
      fun r => match scan r with | none => [] | some u => g' u := by
  intro gs cs cs' hp hfuel
  dsimp only
  cases hu : scan cs with
  | none => exact .empty _
  | some u =>
    obtain ⟨u', hu', hplace⟩ := hs hp hu
    rw [hu']
    exact hg hplace hfuel

/-- A literal that the first run does not find may end in what is put in. -/
theorem Follows.literal {F : List Char → Prop} {L₀ : List Char → Prop} {scan : List Char → Scan}
    {g g' : List Char → List Char → Outcomes α} (hs : G.AlikeLiterals L₀ scan)
    (hf : G.Follows (G.Plains F) L P fuel fuel' f f')
    (hnone : ∀ cs, scan (skipBlanks cs) = none → ∀ t r, (∃ c u u', skipBlanks cs = c :: u ∧
      scan (c :: u') = some (t, r)) → ∀ o ∈ f cs, L o.1 o.2)
    (hlost : ∀ t r, L₀ t ∨ Stray r → ∀ o ∈ g t r, L o.1 o.2)
    (hg : ∀ t, G.Follows (G.Place Solid) L P fuel fuel' (g t) (g' t)) :
    G.Follows (G.Plains F) L P fuel fuel'
      (fun r => match scan (skipBlanks r) with | some (t, u) => g t u | none => f r)
      fun r => match scan (skipBlanks r) with | some (t, u) => g' t u | none => f' r := by
  intro gs cs cs' hp hfuel
  have hkept := hf hp hfuel
  obtain ⟨front, -, -, hplain⟩ := hp
  dsimp only
  cases hown : scan (skipBlanks cs) with
  | none =>
    cases hother : scan (skipBlanks cs') with
    | none => exact hkept
    | some p =>
      refine .of_lost (hnone cs hown p.1 p.2 ?_) _
      obtain ⟨b, -, hat, hc⟩ := hplain
      clear hat
      generalize hu : skipBlanks cs = u, hu' : skipBlanks cs' = u' at hc
      cases hc with
      | nil =>
        rw [hu] at hown
        rw [hu', hown] at hother
        cases hother
      | cons c h => exact ⟨c, _, _, rfl, by rw [← hu', hother]⟩
  | some p =>
    obtain ⟨t, r⟩ := p
    rcases hs hplain hown with hl | ⟨r', hother, hplace⟩
    · exact .of_lost (hlost t r hl) _
    · rw [hother]
      exact hg t hplace hfuel

theorem mark_of_tag {s : String} (hs : s.toList.head?.all (· != 'l') = true)
    (hne : isCoherent s.toList = true) {r w : List Char} (hr : skipBlanks r = 'l' :: w) :
    Parser.mark s r = none := by
  cases hl : s.toList with
  | nil =>
    rw [hl] at hne
    cases hne
  | cons a as =>
    rw [Parser.mark, hr, after_of_ne hl (by simpa [hl] using hs)]

theorem found_mark {F F' : List Char → Prop} {s : String} (hs : isCoherent s.toList = true)
    (hl : s.toList.head?.all (· != 'l') = true) (hF : ∀ v, F' (v ++ s.toList)) :
    Found (G.Place F) (G.Place F') (Parser.mark s) :=
  (alike_mark hs hF).found.of_plains fun _ _ => mark_of_tag hl hs

theorem Follows.closedBy {s : String} {M : α → List Char → Prop}
    (h : G.Follows K L P fuel fuel' f f') (hs : isCoherent s.toList = true)
    (hl : s.toList.head?.all (· != 'l') = true)
    (hsolid : s.toList.getLast?.any (· != '.') = true)
    (hL : ∀ x r u, L x r → Parser.mark s r = some u → M x u) :
    G.Follows K M P fuel fuel' (fun r => (f r).closedBy s) fun r => (f' r).closedBy s := by
  refine h.andThen (fun x r hx o ho => ?_) fun m x x' hx => ?_
  · split at ho
    · next u hu =>
      obtain rfl := List.mem_singleton.1 ho
      exact hL x r _ hx hu
    · cases ho
  · exact .required (found_mark hs hl (solid_append hsolid)) (.one hx)

end

end Grafting

end Comprehend
