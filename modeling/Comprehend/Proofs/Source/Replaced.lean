import Comprehend.Proofs.Source.Candidates

/-! # Replacing an occurrence

An occurrence that no other match overlaps can be replaced by inert text, and the others are found
where they were, as far as they stand in front of it, and moved on otherwise. Whether an occurrence is
kept or overlapped stays as it was, too. -/

namespace Comprehend

open Text Lexeme

namespace Occurrence

/-- An occurrence with other offsets. -/
def moved (f : Nat → Nat) (o : Occurrence) : Occurrence :=
  { o with start := f o.start, stop := f o.stop }

@[simp] theorem raw_moved (f : Nat → Nat) (o : Occurrence) : (o.moved f).raw = o.raw := rfl

@[simp] theorem start_moved (f : Nat → Nat) (o : Occurrence) : (o.moved f).start = f o.start := rfl

@[simp] theorem stop_moved (f : Nat → Nat) (o : Occurrence) : (o.moved f).stop = f o.stop := rfl

/-- Where a position is once an occurrence is replaced by text of a length. -/
def position (o : Occurrence) (length p : Nat) : Nat :=
  if p ≤ o.start then p else o.start + length + (p - o.stop)

theorem position_of_le {o : Occurrence} {p : Nat} (h : p ≤ o.start) (length : Nat) :
    o.position length p = p := if_pos h

theorem position_of_ge {o : Occurrence} {p : Nat} (hpos : o.start < o.stop) (h : o.stop ≤ p)
    (length : Nat) : o.position length p = o.start + length + (p - o.stop) :=
  if_neg (by omega)

theorem moved_of_le {o c : Occurrence} (hpos : c.start ≤ c.stop) (h : c.stop ≤ o.start)
    (length : Nat) : c.moved (o.position length) = c := by
  rw [moved, position_of_le h, position_of_le (hpos.trans h)]

/-- An occurrence that overlaps another one only if it is the same. -/
def Apart (o c : Occurrence) : Prop := c = o ∨ c.stop ≤ o.start ∨ o.stop ≤ c.start

instance (o c : Occurrence) : Decidable (o.Apart c) := inferInstanceAs (Decidable (_ ∨ _))

end Occurrence

namespace Surface

variable {surface : Surface} {before : Option Char} {a cs s t u v z : List Char} {o : Occurrence}

theorem candidates_offset (surface : Surface) (k : Nat) (cs : List Char) :
    ∀ (before : Option Char) (offset skip : Nat), candidates surface before (offset + k) skip cs =
      (candidates surface before offset skip cs).map (·.moved (· + k)) := by
  induction cs with
  | nil => exact fun _ _ _ => by simp [candidates]
  | cons c cs ih =>
    intro before offset skip
    have hnext (skip : Nat) : candidates surface (some c) (offset + k + 1) skip cs =
        (candidates surface (some c) (offset + 1) skip cs).map (·.moved (· + k)) := by
      rw [Nat.add_right_comm, ih]
    cases skip with
    | succ skip => rw [candidates, candidates, hnext]
    | zero =>
      rw [candidates, candidates]
      cases surface.matchAt before (c :: cs) with
      | none => exact hnext 0
      | some found =>
        simp only [List.map_cons, hnext]
        congr 1
        simp [Occurrence.moved, Nat.add_right_comm]

theorem mayPrecede_endOf {c : Char} (hc : mayPrecedeTag c = true) {t : List Char}
    (h : ∃ w, t = w ++ [c]) (before : Option Char) : (endOf before t).all mayPrecedeTag = true := by
  obtain ⟨w, rfl⟩ := h
  simpa [endOf] using hc

section

variable (hstart : o.start = u.length) (hstop : o.stop = u.length + t.length)
include hstart hstop

theorem not_straddles_of_apart (htz : t ≠ [])
    (hapart : ∀ c ∈ candidates surface none 0 0 (u ++ (t ++ z)), o.Apart c) :
    ∀ c ∈ candidates surface none 0 0 (u ++ (t ++ z)), ¬ Straddles (0 + u.length) c := by
  intro c hc ⟨hfirst, hlast⟩
  rw [Nat.zero_add] at hfirst hlast
  have hpos := List.length_pos_of_ne_nil htz
  rcases hapart c hc with rfl | h | h <;> omega

/-- The matches of a text around an occurrence that they are apart from. -/
theorem candidates_around (ht : t ≠ [])
    (hapart : ∀ c ∈ candidates surface none 0 0 (u ++ (t ++ z)), o.Apart c) :
    candidates surface none 0 0 (u ++ (t ++ z)) = candidates surface none 0 0 u ++
      (candidates surface (endOf none u) u.length 0 t ++
        candidates surface (endOf (endOf none u) t) (u.length + t.length) 0 z) := by
  have hleft := candidates_append (Nat.zero_le _) (not_straddles_of_apart hstart hstop ht hapart)
  rw [Nat.zero_add] at hleft
  rw [hleft] at hapart ⊢
  rw [candidates_append (Nat.zero_le _)]
  intro c hc ⟨hfirst, hlast⟩
  have hbounds := candidates_bounds _ _ _ _ _ c hc
  rcases hapart c (List.mem_append_right _ hc) with rfl | h | h <;> omega

/-- With inert text in the place of an occurrence the other matches are the same. -/
theorem candidates_replaced (ht : IsMatch a v t) (hs : Inert s)
    (hapart : ∀ c ∈ candidates surface none 0 0 (u ++ (t ++ z)), o.Apart c) :
    candidates surface none 0 0 (u ++ (s ++ z)) =
      ((candidates surface none 0 0 (u ++ (t ++ z))).filter (· ≠ o)).map
        (·.moved (o.position s.length)) := by
  have hne := ht.ne_nil
  have hpos := List.length_pos_of_ne_nil hne
  have hfree : ∀ c ∈ candidates surface none 0 0 (u ++ (s ++ z)), ¬ Straddles (0 + u.length) c := by
    refine not_straddles_inert (t := v ++ ['\x60'] ++ z) hs ht.opens (Nat.zero_le _) ?_ z
    have := not_straddles_of_apart hstart hstop hne hapart
    rwa [ht.eq, List.append_assoc, List.cons_append] at this
  have hbehind : candidates surface (endOf (endOf none u) s) (u.length + s.length) 0 z =
      (candidates surface (endOf (endOf none u) t) (u.length + t.length) 0 z).map
        (·.moved (o.position s.length)) := by
    have hbefore : (endOf (endOf none u) s).all mayPrecedeTag =
        (endOf (endOf none u) t).all mayPrecedeTag := by
      rw [mayPrecede_endOf (by decide) hs.closed, mayPrecede_endOf (by decide) ht.closed]
    rw [candidates_before hbefore, ← Nat.zero_add (u.length + s.length),
      ← Nat.zero_add (u.length + t.length), candidates_offset, candidates_offset, List.map_map]
    refine List.map_congr_left fun c _ => ?_
    have hmove (p : Nat) : o.position s.length (p + (u.length + t.length)) =
        p + (u.length + s.length) := by
      rw [Occurrence.position_of_ge (by omega) (by omega)]
      omega
    simp only [Function.comp_apply, Occurrence.moved, hmove]
  rw [candidates_append (Nat.zero_le _) hfree, Nat.zero_add,
    candidates_passed (fun v w hvw hw before => hs.matchAt_eq_none hvw hw z), hbehind,
    candidates_around hstart hstop hne hapart, List.filter_append, List.filter_append,
    List.map_append, List.map_append]
  have haround := candidates_around hstart hstop hne hapart
  have hfront : ((candidates surface none 0 0 u).filter (· ≠ o)).map (·.moved (o.position s.length)) =
      candidates surface none 0 0 u := by
    rw [List.filter_eq_self.2 fun c hc => ?_]
    · refine (List.map_congr_left fun c hc => ?_).trans (List.map_id _)
      have := candidates_bounds _ _ _ _ _ c hc
      exact Occurrence.moved_of_le (by omega) (by omega) _
    · have := candidates_bounds _ _ _ _ _ c hc
      refine decide_eq_true fun heq => ?_
      subst heq
      omega
  have hinside : (candidates surface (endOf none u) u.length 0 t).filter (· ≠ o) = [] := by
    refine List.filter_eq_nil_iff.2 fun c hc => ?_
    have := candidates_bounds _ _ _ _ _ c hc
    rcases hapart c (by simp [haround, hc]) with rfl | h | h
    · simp
    · omega
    · omega
  have hback : (candidates surface (endOf (endOf none u) t) (u.length + t.length) 0 z).filter
      (· ≠ o) = candidates surface (endOf (endOf none u) t) (u.length + t.length) 0 z := by
    refine List.filter_eq_self.2 fun c hc => decide_eq_true fun heq => ?_
    have := candidates_bounds _ _ _ _ _ c hc
    subst heq
    omega
  rw [hfront, hinside, hback, List.map_nil, List.nil_append]

theorem search_replaced (ht : IsMatch a v t) (hs : Inert s)
    (hapart : ∀ c ∈ candidates surface none 0 0 (u ++ (t ++ z)), o.Apart c) :
    search surface none 0 0 (u ++ (s ++ z)) =
      ((search surface none 0 0 (u ++ (t ++ z))).filter (· ≠ o)).map
        (·.moved (o.position s.length)) := by
  rw [search_eq_filter, candidates_replaced hstart hstop ht hs hapart, List.filter_map,
    search_eq_filter, List.filter_filter, List.filter_filter]
  simp only [Function.comp_def, Occurrence.raw_moved, Bool.and_comm]

end

/-- A match stands where its offsets say, behind the character in front of that place. -/
theorem matchAt_of_mem_candidates {offset skip : Nat}
    (h : o ∈ candidates surface before offset skip cs) :
    ∃ m r, surface.matchAt (endOf before (cs.take (o.start - offset)))
        (cs.drop (o.start - offset)) = some (m, r) ∧
      o = ⟨surface, o.start, o.start + m.length, String.ofList (body m)⟩ := by
  induction cs generalizing before offset skip with
  | nil => simp [candidates] at h
  | cons c cs ih =>
    have later {skip : Nat} (h : o ∈ candidates surface (some c) (offset + 1) skip cs) :
        ∃ m r, surface.matchAt (endOf before ((c :: cs).take (o.start - offset)))
            ((c :: cs).drop (o.start - offset)) = some (m, r) ∧
          o = ⟨surface, o.start, o.start + m.length, String.ofList (body m)⟩ := by
      have hbounds := candidates_bounds _ _ _ _ _ o h
      have hsub : o.start - offset = o.start - (offset + 1) + 1 := by omega
      rw [hsub, List.drop_succ_cons, List.take_succ_cons, endOf_cons]
      exact ih h
    cases skip with
    | succ skip =>
      rw [candidates] at h
      exact later h
    | zero =>
      rw [candidates] at h
      cases hm : surface.matchAt before (c :: cs) with
      | none =>
        rw [hm] at h
        exact later h
      | some found =>
        rw [hm] at h
        rcases List.mem_cons.1 h with rfl | h
        · exact ⟨found.1, found.2, by simpa using hm, rfl⟩
        · exact later h

theorem matchAt_inj {other : Surface} {before' : Option Char} {m m' r r' : List Char}
    (h : surface.matchAt before cs = some (m, r)) (h' : other.matchAt before' cs = some (m', r')) :
    surface = other ∧ m = m' := by
  cases surface <;> cases other
  case taggedTemplate.taggedTemplate =>
    obtain ⟨hb, -⟩ := tagged_eq_some h
    obtain ⟨hb', -⟩ := tagged_eq_some h'
    rw [matchAt, tagged, if_pos hb] at h
    rw [matchAt, tagged, if_pos hb', h] at h'
    exact ⟨rfl, (Prod.mk.inj (Option.some.inj h')).1⟩
  case markedLiteral.markedLiteral =>
    rw [matchAt] at h h'
    rw [h] at h'
    exact ⟨rfl, (Prod.mk.inj (Option.some.inj h')).1⟩
  case taggedTemplate.markedLiteral =>
    obtain ⟨-, gap, t, -, -, rfl, rfl⟩ := tagged_eq_some h
    cases h'
  case markedLiteral.taggedTemplate =>
    obtain ⟨-, gap, t, -, -, rfl, rfl⟩ := tagged_eq_some h'
    cases h

/-- Matches of a text that start alike are the same, also of two surfaces. -/
theorem eq_of_start_eq {other : Surface} {c : Occurrence}
    (ho : o ∈ candidates surface none 0 0 cs) (hc : c ∈ candidates other none 0 0 cs)
    (h : o.start = c.start) : o = c := by
  obtain ⟨m, r, hm, ho⟩ := matchAt_of_mem_candidates ho
  obtain ⟨m', r', hm', hc⟩ := matchAt_of_mem_candidates hc
  rw [h] at hm
  obtain ⟨rfl, rfl⟩ := matchAt_inj hm hm'
  rw [ho, hc, h]

end Surface

namespace Occurrence

variable {o : Occurrence} {os : List Occurrence}

/-- Which occurrences are kept does not depend on one that none of the others overlaps. -/
theorem disjointFrom_filter (ho : ∀ c ∈ os, o.Apart c ∧ c.start < c.stop)
    (hpos : o.start < o.stop) (hsorted : os.Pairwise (·.start ≤ ·.start)) :
    ∀ {p q : Nat}, q ≤ p → (∀ c ∈ os, c ≠ o → (p ≤ c.start ↔ q ≤ c.start)) →
      disjointFrom q (os.filter (· ≠ o)) = (disjointFrom p os).filter (· ≠ o) := by
  induction os with
  | nil => exact fun _ _ => rfl
  | cons c os ih =>
    intro p q hqp hiff
    obtain ⟨⟨-, hc⟩, hos⟩ := List.forall_mem_cons.1 ho
    obtain ⟨hfirst, hsorted⟩ := List.pairwise_cons.1 hsorted
    obtain ⟨hciff, hrest⟩ := List.forall_mem_cons.1 hiff
    have ih {p q : Nat} := ih hos hsorted (p := p) (q := q)
    by_cases heq : c = o
    · subst heq
      rw [List.filter_cons_of_neg (by simp), disjointFrom]
      split_ifs with hp
      · rw [List.filter_cons_of_neg (by simp)]
        -- what starts behind the occurrence starts behind everything in front of it
        refine ih (by omega) fun d hd hne => ?_
        have hstart := hfirst d hd
        have hd' := (hos d hd).2
        rcases (hos d hd).1 with rfl | h | h
        · exact absurd rfl hne
        · omega
        · omega
      · exact ih hqp hrest
    · rw [List.filter_cons_of_pos (by simpa using heq), disjointFrom, disjointFrom]
      by_cases hp : p ≤ c.start
      · rw [if_pos hp, if_pos ((hciff heq).1 hp), List.filter_cons_of_pos (by simpa using heq)]
        rw [ih (Nat.le_refl _) fun _ _ _ => Iff.rfl]
      · rw [if_neg hp, if_neg (mt (hciff heq).2 hp)]
        exact ih hqp hrest

/-- Which occurrences are kept depends on the order of their offsets alone. -/
theorem disjointFrom_map {f : Nat → Nat}
    (hf : ∀ c ∈ os, ∀ d ∈ os, c.stop ≤ d.start ↔ f c.stop ≤ f d.start) :
    ∀ {p q : Nat}, (∀ c ∈ os, p ≤ c.start ↔ q ≤ f c.start) →
      disjointFrom q (os.map (·.moved f)) = (disjointFrom p os).map (·.moved f) := by
  induction os with
  | nil => exact fun _ => rfl
  | cons c os ih =>
    intro p q hiff
    obtain ⟨hc, hrest⟩ := List.forall_mem_cons.1 hiff
    have ih {p q : Nat} := ih (fun c hc d hd => hf c (.tail _ hc) d (.tail _ hd)) (p := p) (q := q)
    rw [List.map_cons, disjointFrom, disjointFrom, start_moved, stop_moved]
    by_cases hp : p ≤ c.start
    · rw [if_pos hp, if_pos (hc.1 hp), List.map_cons]
      rw [ih fun d hd => hf c List.mem_cons_self d (.tail _ hd)]
    · rw [if_neg hp, if_neg (mt hc.2 hp)]
      exact ih hrest

/-- The occurrences of all surfaces, in the order of the surfaces. -/
def listed (surfaces : List Surface) (source : String) : List Occurrence :=
  surfaces.flatMap (·.find source)

/-- The occurrences of all surfaces, in the order of the text. -/
def ordered (surfaces : List Surface) (source : String) : List Occurrence :=
  (listed surfaces source).mergeSort fun a b => a.start ≤ b.start

theorem find_eq (surfaces : List Surface) (source : String) :
    find surfaces source = disjointFrom 0 (ordered surfaces source) := rfl

theorem disjointFrom_sublist (os : List Occurrence) : ∀ p, (disjointFrom p os).Sublist os := by
  induction os with
  | nil => exact fun _ => .slnil
  | cons o os ih =>
    intro p
    rw [disjointFrom]
    split_ifs
    · exact (ih _).cons_cons _
    · exact (ih _).cons _

theorem perm_ordered (surfaces : List Surface) (source : String) :
    (ordered surfaces source).Perm (listed surfaces source) := List.mergeSort_perm _ _

theorem pairwise_ordered (surfaces : List Surface) (source : String) :
    (ordered surfaces source).Pairwise (·.start ≤ ·.start) := by
  have hsorted : (ordered surfaces source).Pairwise fun a b => decide (a.start ≤ b.start) = true :=
    List.pairwise_mergeSort (fun a b c hab hbc => by simp at *; omega) (fun a b => by simp; omega) _
  exact hsorted.imp of_decide_eq_true

theorem exists_candidates_of_mem_listed {surfaces : List Surface} {source : String}
    (h : o ∈ listed surfaces source) :
    ∃ surface ∈ surfaces, o ∈ surface.candidates none 0 0 source.toList := by
  obtain ⟨surface, hsurface, ho⟩ := List.mem_flatMap.1 h
  rw [Surface.find, Surface.search_eq_filter] at ho
  exact ⟨surface, hsurface, List.mem_of_mem_filter ho⟩

theorem start_lt_of_mem_listed {surfaces : List Surface} {source : String}
    (h : o ∈ listed surfaces source) : o.start < o.stop := by
  obtain ⟨surface, -, ho⟩ := exists_candidates_of_mem_listed h
  exact (Surface.candidates_bounds _ _ _ _ _ o ho).2.1

theorem mem_listed_of_mem_find {surfaces : List Surface} {source : String}
    (h : o ∈ find surfaces source) : o ∈ listed surfaces source :=
  (perm_ordered _ _).mem_iff.1 ((disjointFrom_sublist _ 0).subset h)

/-- No surface has a match that overlaps an occurrence, but for the occurrence itself. -/
def Alone (surfaces : List Surface) (source : String) (o : Occurrence) : Prop :=
  ∀ surface ∈ surfaces, ∀ c ∈ surface.candidates none 0 0 source.toList, o.Apart c

instance (surfaces : List Surface) (source : String) (o : Occurrence) :
    Decidable (o.Alone surfaces source) :=
  inferInstanceAs (Decidable (∀ surface ∈ surfaces, ∀ c ∈ surface.candidates none 0 0 source.toList,
    o.Apart c))

theorem Alone.apart {surfaces : List Surface} {source : String} (h : o.Alone surfaces source)
    {c : Occurrence} (hc : c ∈ listed surfaces source) : o.Apart c := by
  obtain ⟨surface, hsurface, hc⟩ := exists_candidates_of_mem_listed hc
  exact h surface hsurface c hc

/-- An order of offsets is kept by what is apart from the replaced occurrence. -/
theorem le_iff_position_le {c d : Occurrence} {length : Nat} (hlength : 0 < length)
    (hpos : o.start < o.stop) (hc : o.Apart c) (hd : o.Apart d) (hc' : c ≠ o) (hd' : d ≠ o)
    (hcpos : c.start < c.stop) (hdpos : d.start < d.stop) :
    (c.stop ≤ d.start ↔ o.position length c.stop ≤ o.position length d.start) ∧
      (c.start ≤ d.start → o.position length c.start ≤ o.position length d.start) := by
  unfold position
  rcases hc with rfl | hc | hc
  · exact absurd rfl hc'
  all_goals
    rcases hd with rfl | hd | hd
    · exact absurd rfl hd'
    all_goals split_ifs <;> omega

/-- It is apart from what is moved because of another one behind it, as before. -/
theorem Apart.moved {c d : Occurrence} {length : Nat} (h : d.Apart c) (hc : o.Apart c) (hne : c ≠ o)
    (hd : d.stop ≤ o.start) (hcpos : c.start < c.stop) (hopos : o.start < o.stop) :
    d.Apart (c.moved (o.position length)) := by
  rcases hc with rfl | hc | hc
  · exact absurd rfl hne
  · rwa [moved_of_le hcpos.le hc]
  · refine .inr (.inr ?_)
    rw [start_moved, position_of_ge hopos hc]
    omega

section

variable {surfaces : List Surface} {text text' : String} {a s t u v z : List Char}
  (htext : text.toList = u ++ (t ++ z)) (htext' : text'.toList = u ++ (s ++ z))
  (hstart : o.start = u.length) (hstop : o.stop = u.length + t.length)
  (ht : Surface.IsMatch a v t) (hs : Surface.Inert s) (halone : o.Alone surfaces text)
include htext htext' hstart hstop ht hs halone

theorem listed_replaced : listed surfaces text' =
    ((listed surfaces text).filter (· ≠ o)).map (·.moved (o.position s.length)) := by
  rw [listed, listed, List.filter_flatMap, List.map_flatMap]
  refine List.flatMap_congr fun surface hsurface => ?_
  have hapart := halone surface hsurface
  rw [htext] at hapart
  rw [Surface.find, Surface.find, htext, htext']
  exact Surface.search_replaced hstart hstop ht hs hapart

theorem alone_replaced {c : Occurrence} (hc : c.Alone surfaces text) (hstop' : c.stop ≤ o.start) :
    c.Alone surfaces text' := by
  have hlength := List.length_pos_of_ne_nil ht.ne_nil
  intro surface hsurface d hd
  have hapart := halone surface hsurface
  rw [htext] at hapart
  rw [htext', Surface.candidates_replaced hstart hstop ht hs hapart, ← htext] at hd
  obtain ⟨e, he, rfl⟩ := List.mem_map.1 hd
  obtain ⟨he, hne⟩ := List.mem_filter.1 he
  exact (hc surface hsurface e he).moved (halone surface hsurface e he) (by simpa using hne) hstop'
    (Surface.candidates_bounds _ _ _ _ _ e he).2.1 (by omega)

theorem ordered_replaced : ordered surfaces text' =
    ((ordered surfaces text).filter (· ≠ o)).map (·.moved (o.position s.length)) := by
  have hpos := List.length_pos_of_ne_nil hs.ne_nil
  have hlength := List.length_pos_of_ne_nil ht.ne_nil
  have hopos : o.start < o.stop := by omega
  have hlisted := listed_replaced htext htext' hstart hstop ht hs halone
  have hperm : (ordered surfaces text').Perm
      (((ordered surfaces text).filter (· ≠ o)).map (·.moved (o.position s.length))) := by
    refine (perm_ordered _ _).trans ?_
    rw [hlisted]
    exact (((perm_ordered _ _).filter _).map _).symm
  have hsorted : (((ordered surfaces text).filter (· ≠ o)).map
      (·.moved (o.position s.length))).Pairwise (·.start ≤ ·.start) := by
    refine List.pairwise_map.2 ?_
    refine ((pairwise_ordered surfaces text).filter _).imp_of_mem fun {c d} hc hd hcd => ?_
    obtain ⟨hc, hc'⟩ := List.mem_filter.1 hc
    obtain ⟨hd, hd'⟩ := List.mem_filter.1 hd
    have hc := (perm_ordered _ _).mem_iff.1 hc
    have hd := (perm_ordered _ _).mem_iff.1 hd
    exact (le_iff_position_le hpos hopos (halone.apart hc) (halone.apart hd) (by simpa using hc')
      (by simpa using hd') (start_lt_of_mem_listed hc) (start_lt_of_mem_listed hd)).2 hcd
  refine List.Perm.eq_of_pairwise (fun a b ha hb hab hba => ?_) (pairwise_ordered _ _) hsorted hperm
  obtain ⟨surface, -, ha⟩ := exists_candidates_of_mem_listed ((perm_ordered _ _).mem_iff.1 ha)
  obtain ⟨other, -, hb⟩ := exists_candidates_of_mem_listed
    ((perm_ordered _ _).mem_iff.1 (hperm.mem_iff.2 hb))
  exact Surface.eq_of_start_eq ha hb (Nat.le_antisymm hab hba)

/-- With inert text in the place of an occurrence that stands alone the others are found again. -/
theorem find_replaced : find surfaces text' =
    ((find surfaces text).filter (· ≠ o)).map (·.moved (o.position s.length)) := by
  have hpos := List.length_pos_of_ne_nil hs.ne_nil
  have hlength := List.length_pos_of_ne_nil ht.ne_nil
  have hopos : o.start < o.stop := by omega
  have hordered {c : Occurrence} (hc : c ∈ ordered surfaces text) :
      o.Apart c ∧ c.start < c.stop := by
    have hc := (perm_ordered _ _).mem_iff.1 hc
    exact ⟨halone.apart hc, start_lt_of_mem_listed hc⟩
  rw [find_eq, find_eq, ordered_replaced htext htext' hstart hstop ht hs halone,
    ← disjointFrom_filter (fun c hc => hordered hc) hopos (pairwise_ordered _ _) (Nat.le_refl 0)
      fun _ _ _ => Iff.rfl]
  refine disjointFrom_map (fun c hc d hd => ?_) fun c _ => by simp
  obtain ⟨hc, hc'⟩ := List.mem_filter.1 hc
  obtain ⟨hd, hd'⟩ := List.mem_filter.1 hd
  exact (le_iff_position_le hpos hopos (hordered hc).1 (hordered hd).1 (by simpa using hc')
    (by simpa using hd') (hordered hc).2 (hordered hd).2).1

end

end Occurrence

end Comprehend
