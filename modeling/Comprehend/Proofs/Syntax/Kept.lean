import Comprehend.Proofs.Syntax.Parameter

/-! # Outcomes that are kept

Two readers are run side by side, and the outcomes of the first one come again among those of the
second, in the same order, each as another outcome that stands for it. The second reader may give
more, and an outcome of the first may be lost, as long as nothing can come of it. Where the first
reader has no choice, what it gives comes first again. `Kept` says so, and it goes through each of the
ways that readers are put together. -/

namespace Comprehend.Parser

open Comprehend.Text Comprehend.Lexeme

/-- The outcomes of one reader come in order among those of another one, each as an outcome that `I`
relates it to, but for those that are lost. -/
inductive Outcomes.InOrder (L : α → List Char → Prop) (I : α × List Char → α × List Char → Prop) :
    Outcomes α → Outcomes α → Prop
  | nil : InOrder L I [] []
  | lost {x : α} {r : List Char} {os os' : Outcomes α} (hx : L x r) (h : InOrder L I os os') :
      InOrder L I ((x, r) :: os) os'
  | met {o o' : α × List Char} {os os' : Outcomes α} (ho : I o o') (h : InOrder L I os os') :
      InOrder L I (o :: os) (o' :: os')
  | more {o' : α × List Char} {os os' : Outcomes α} (h : InOrder L I os os') :
      InOrder L I os (o' :: os')

/-- All outcomes but one are lost, and that one comes first among those of the other reader. -/
def Outcomes.Led (L : α → List Char → Prop) (I : α × List Char → α × List Char → Prop)
    (os os' : Outcomes α) : Prop :=
  (∀ o ∈ os, L o.1 o.2) ∨ ∃ o o' more, os' = o' :: more ∧ I o o' ∧ ∀ p ∈ os, L p.1 p.2 ∨ p = o

/-- The outcomes of one reader are kept among those of another one, and in the lead where `W` says
that there is no choice. -/
structure Outcomes.Kept (W : Prop) (L : α → List Char → Prop)
    (I : α × List Char → α × List Char → Prop) (os os' : Outcomes α) : Prop where
  inOrder : Outcomes.InOrder L I os os'
  led : W → Outcomes.Led L I os os'

section

variable {W : Prop} {L : α → List Char → Prop} {I : α × List Char → α × List Char → Prop}
  {M : β → List Char → Prop} {J : β × List Char → β × List Char → Prop} {os os' qs qs' : Outcomes α}

namespace Outcomes.InOrder

theorem append (h : InOrder L I os os') (h' : InOrder L I qs qs') :
    InOrder L I (os ++ qs) (os' ++ qs') := by
  induction h with
  | nil => exact h'
  | lost hx _ ih => exact .lost hx ih
  | met ho _ ih => exact .met ho ih
  | more _ ih => exact .more ih

/-- Where all is lost the other reader may give anything. -/
theorem of_lost (h : ∀ o ∈ os, L o.1 o.2) (os' : Outcomes α) : InOrder L I os os' := by
  induction os with
  | nil =>
    induction os' with
    | nil => exact .nil
    | cons o' os' ih => exact .more ih
  | cons o os ih =>
    obtain ⟨ho, hos⟩ := List.forall_mem_cons.1 h
    exact .lost ho (ih hos)

theorem empty (os' : Outcomes α) : InOrder L I [] os' := of_lost (fun _ h => nomatch h) os'

theorem mono {K : α → List Char → Prop} {I' : α × List Char → α × List Char → Prop}
    (h : InOrder L I os os') (hK : ∀ x r, L x r → K x r) (hI : ∀ o o', I o o' → I' o o') :
    InOrder K I' os os' := by
  induction h with
  | nil => exact .nil
  | lost hx _ ih => exact .lost (hK _ _ hx) ih
  | met ho _ ih => exact .met (hI _ _ ho) ih
  | more _ ih => exact .more ih

/-- An outcome is lost or comes again. -/
theorem lost_or_met (h : InOrder L I os os') : ∀ o ∈ os, L o.1 o.2 ∨ ∃ o' ∈ os', I o o' := by
  induction h with
  | nil => exact nofun
  | lost hx _ ih => exact List.forall_mem_cons.2 ⟨.inl hx, ih⟩
  | @met o o' os os' ho _ ih =>
    refine List.forall_mem_cons.2 ⟨.inr ⟨o', List.mem_cons_self, ho⟩, fun p hp => ?_⟩
    exact (ih p hp).imp_right fun ⟨p', hp', h⟩ => ⟨p', List.mem_cons_of_mem o' hp', h⟩
  | @more o' os os' _ ih =>
    intro p hp
    exact (ih p hp).imp_right fun ⟨p', hp', h⟩ => ⟨p', List.mem_cons_of_mem o' hp', h⟩

theorem mem_right (h : InOrder L I os os') : InOrder L (fun o o' => I o o' ∧ o' ∈ os') os os' := by
  induction h with
  | nil => exact .nil
  | lost hx _ ih => exact .lost hx ih
  | @met o o' os os' ho _ ih =>
    exact .met ⟨ho, List.mem_cons_self⟩
      (ih.mono (fun _ _ => id) fun _ _ h => ⟨h.1, List.mem_cons_of_mem o' h.2⟩)
  | @more o' os os' _ ih =>
    exact .more (ih.mono (fun _ _ => id) fun _ _ h => ⟨h.1, List.mem_cons_of_mem o' h.2⟩)

/-- Nothing but lost outcomes may come of a lost one. -/
theorem andThen {g g' : α → List Char → Outcomes β} (h : InOrder L I os os')
    (hlost : ∀ x r, L x r → ∀ o ∈ g x r, M o.1 o.2)
    (hmet : ∀ o o', I o o' → InOrder M J (g o.1 o.2) (g' o'.1 o'.2)) :
    InOrder M J (os.andThen g) (os'.andThen g') := by
  induction h with
  | nil => exact .nil
  | @lost x r os os' hx _ ih => exact (of_lost (hlost x r hx) []).append ih
  | @met o o' os os' ho _ ih => exact (hmet o o' ho).append ih
  | @more o' os os' _ ih => exact (empty (g' o'.1 o'.2)).append ih

/-- What is read up to a rest of some kind is read again, if nothing lost is read so far. -/
theorem upTo {stop : List Char → Bool} {f : α → α} (h : InOrder L I os os')
    (hlost : ∀ o ∈ os, stop o.2 = true → ¬ L o.1 o.2)
    (hmet : ∀ o ∈ os, ∀ o', stop o.2 = true → I o o' → stop o'.2 = true ∧ o'.1 = f o.1) :
    List.Sublist ((os.upTo stop).map f) (os'.upTo stop) := by
  induction h with
  | nil => exact List.Sublist.slnil
  | @lost x r os os' hx _ ih =>
    rw [upTo_cons, if_neg fun hstop => hlost (x, r) List.mem_cons_self hstop hx]
    exact ih (fun o ho => hlost o (List.mem_cons_of_mem _ ho)) fun o ho =>
      hmet o (List.mem_cons_of_mem _ ho)
  | @met o o' os os' ho _ ih =>
    have ih := ih (fun p hp => hlost p (List.mem_cons_of_mem _ hp)) fun p hp =>
      hmet p (List.mem_cons_of_mem _ hp)
    rw [upTo_cons, upTo_cons]
    by_cases hstop : stop o.2 = true
    · obtain ⟨hstop', heq⟩ := hmet o List.mem_cons_self o' hstop ho
      rw [if_pos hstop, if_pos hstop', List.map_cons, heq]
      exact ih.cons_cons _
    · rw [if_neg hstop]
      split
      · exact ih.cons _
      · exact ih
  | @more o' os os' _ ih =>
    rw [upTo_cons]
    split
    · exact (ih hlost hmet).cons _
    · exact ih hlost hmet

end Outcomes.InOrder

namespace Outcomes.Led

theorem mono {K : α → List Char → Prop} {I' : α × List Char → α × List Char → Prop}
    (h : Led L I os os') (hK : ∀ x r, L x r → K x r) (hI : ∀ o o', I o o' → I' o o') :
    Led K I' os os' := by
  rcases h with h | ⟨o, o', more, hos', ho, h⟩
  · exact .inl fun p hp => hK _ _ (h p hp)
  · exact .inr ⟨o, o', more, hos', hI _ _ ho, fun p hp => (h p hp).imp_left (hK _ _)⟩

theorem mem_right (h : Led L I os os') : Led L (fun o o' => I o o' ∧ o' ∈ os') os os' := by
  rcases h with h | ⟨o, o', more, hos', ho, h⟩
  · exact .inl h
  · exact .inr ⟨o, o', more, hos', ⟨ho, hos' ▸ List.mem_cons_self⟩, h⟩

theorem of_isPrefix (h : Led L I os os') (hos : os' <+: qs) : Led L I os qs := by
  rcases h with h | ⟨o, o', more, hos', ho, h⟩
  · exact .inl h
  · obtain ⟨behind, rfl⟩ := hos
    exact .inr ⟨o, o', more ++ behind, by rw [hos', List.cons_append], ho, h⟩

theorem andThen {g g' : α → List Char → Outcomes β} (h : Led L I os os')
    (hlost : ∀ x r, L x r → ∀ o ∈ g x r, M o.1 o.2)
    (hmet : ∀ o o', I o o' → Led M J (g o.1 o.2) (g' o'.1 o'.2)) :
    Led M J (os.andThen g) (os'.andThen g') := by
  rcases h with h | ⟨o, o', more, rfl, ho, h⟩
  · refine .inl fun p hp => ?_
    obtain ⟨x, r, hx, hp⟩ := mem_andThen.1 hp
    exact hlost x r (h _ hx) p hp
  · -- what is not lost comes of the one outcome that is not
    have honly : ∀ p ∈ os.andThen g, M p.1 p.2 ∨ p ∈ g o.1 o.2 := by
      intro p hp
      obtain ⟨x, r, hx, hp⟩ := mem_andThen.1 hp
      rcases h _ hx with hl | rfl
      · exact .inl (hlost x r hl p hp)
      · exact .inr hp
    rcases hmet o o' ho with hall | ⟨q, q', more', hos', hq, hall⟩
    · exact .inl fun p hp => (honly p hp).elim id (hall p)
    · refine .inr ⟨q, q', more' ++ Outcomes.andThen more g', ?_, hq, fun p hp => ?_⟩
      · rw [Outcomes.andThen, List.flatMap_cons, hos', List.cons_append]
        rfl
      · exact (honly p hp).elim .inl (hall p)

/-- What is not lost comes first again. -/
theorem head {x : α} {r : List Char} (h : Led L I os os')
    (hx : (x, r) ∈ os) (hlost : ¬ L x r) : ∃ o' more, os' = o' :: more ∧ I (x, r) o' := by
  rcases h with h | ⟨o, o', more, hos', ho, h⟩
  · exact absurd (h _ hx) hlost
  · obtain rfl := (h _ hx).resolve_left hlost
    exact ⟨o', more, hos', ho⟩

end Outcomes.Led

namespace Outcomes.Kept

/-- Where all is lost the other reader may give anything. -/
theorem of_lost (h : ∀ o ∈ os, L o.1 o.2) (os' : Outcomes α) : Kept W L I os os' :=
  ⟨.of_lost h os', fun _ => .inl h⟩

theorem empty (os' : Outcomes α) : Kept W L I [] os' := .of_lost (fun _ h => nomatch h) os'

theorem met {o o' : α × List Char} (ho : I o o') (h : Outcomes.InOrder L I os os')
    (hW : W → os = []) : Kept W L I (o :: os) (o' :: os') := by
  refine ⟨.met ho h, fun hw => .inr ⟨o, o', os', rfl, ho, fun p hp => .inr ?_⟩⟩
  rw [hW hw] at hp
  exact List.mem_singleton.1 hp

theorem one {x x' : α} {r r' : List Char} (h : I (x, r) (x', r')) :
    Kept W L I (Parser.one x r) (Parser.one x' r') := .met h .nil fun _ => rfl

/-- One reader behind another one, if there is no choice between the two. -/
theorem append (h : Kept W L I os os') (h' : Kept W L I qs qs') (hW : W → os = [] ∧ os' = []) :
    Kept W L I (os ++ qs) (os' ++ qs') := by
  refine ⟨h.inOrder.append h'.inOrder, fun hw => ?_⟩
  rw [(hW hw).1, (hW hw).2]
  exact h'.led hw

theorem of_isPrefix (h : Kept W L I os os') (hos : os' <+: qs) : Kept W L I os qs := by
  refine ⟨?_, fun hw => (h.led hw).of_isPrefix hos⟩
  obtain ⟨more, rfl⟩ := hos
  simpa using h.inOrder.append (.empty more)

theorem mono {K : α → List Char → Prop} {I' : α × List Char → α × List Char → Prop}
    (h : Kept W L I os os') (hK : ∀ x r, L x r → K x r) (hI : ∀ o o', I o o' → I' o o') :
    Kept W K I' os os' :=
  ⟨h.inOrder.mono hK hI, fun hw => (h.led hw).mono hK hI⟩

theorem lost_or_met (h : Kept W L I os os') : ∀ o ∈ os, L o.1 o.2 ∨ ∃ o' ∈ os', I o o' :=
  h.inOrder.lost_or_met

theorem mem_right (h : Kept W L I os os') : Kept W L (fun o o' => I o o' ∧ o' ∈ os') os os' :=
  ⟨h.inOrder.mem_right, fun hw => (h.led hw).mem_right⟩

/-- Where nothing comes again all is lost. -/
theorem lost_of_nil (h : Kept W L I os []) : ∀ o ∈ os, L o.1 o.2 := fun o ho =>
  (h.lost_or_met o ho).resolve_right fun ⟨_, h, _⟩ => nomatch h

/-- Nothing but lost outcomes may come of a lost one. -/
theorem andThen {g g' : α → List Char → Outcomes β} (h : Kept W L I os os')
    (hlost : ∀ x r, L x r → ∀ o ∈ g x r, M o.1 o.2)
    (hmet : ∀ o o', I o o' → Kept W M J (g o.1 o.2) (g' o'.1 o'.2)) :
    Kept W M J (os.andThen g) (os'.andThen g') :=
  ⟨h.inOrder.andThen hlost fun o o' ho => (hmet o o' ho).inOrder,
    fun hw => (h.led hw).andThen hlost fun o o' ho => (hmet o o' ho).led hw⟩

theorem giving {f f' : α → β} (h : Kept W L I os os') (hlost : ∀ x r, L x r → M (f x) r)
    (hmet : ∀ x r x' r', I (x, r) (x', r') → J (f x, r) (f' x', r')) :
    Kept W M J (os.giving f) (os'.giving f') := by
  rw [giving_eq_andThen, giving_eq_andThen]
  refine h.andThen (fun x r hx o ho => ?_) fun o o' ho => .one (hmet _ _ _ _ ho)
  obtain rfl := List.mem_singleton.1 ho
  exact hlost x r hx

end Outcomes.Kept

end

end Comprehend.Parser
