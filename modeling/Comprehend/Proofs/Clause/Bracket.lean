import Comprehend.Clause.Parser

/-! # Brackets and keywords

Which brackets are open after some tokens is a stack, and each reader of the notation keeps what it
needs of it: the first keeps all of it and refuses a text whose brackets do not match, the others
count. Once the brackets match, a group ends at the bracket that closes it, and a keyword counts
where nothing is open. -/

namespace Comprehend.ClauseToken

/-- The brackets that have to close after some tokens, innermost first; none if a token closes what
is not open. -/
def pending : List (List Char) → List ClauseToken → Option (List (List Char))
  | stack, [] => some stack
  | stack, t :: ts =>
    match t.kind with
    | .opening => pending (t.closer :: stack) ts
    | .closing =>
      match stack with
      | [] => none
      | close :: stack => if close = t.text then pending stack ts else none
    | _ => pending stack ts

/-- All brackets match. -/
def IsBalanced (ts : List ClauseToken) : Prop := pending [] ts = some []

section

variable {stack rest base final : List (List Char)} {close : List Char} {w : String}
  {t : ClauseToken} {ts us ls rs : List ClauseToken} {depth : Nat}

theorem pending_append (stack : List (List Char)) (ts us : List ClauseToken) :
    pending stack (ts ++ us) = (pending stack ts).bind fun rest => pending rest us := by
  fun_induction pending stack ts <;> simp_all [pending]

theorem pending_other (ho : t.kind ≠ .opening) (hc : t.kind ≠ .closing)
    (stack : List (List Char)) (ts : List ClauseToken) :
    pending stack (t :: ts) = pending stack ts := by
  cases hk : t.kind <;> simp_all [pending]

/-- Brackets that were open before do not matter to those opened and closed since. -/
theorem pending_above (h : pending stack ts = some rest) (base : List (List Char)) :
    pending (stack ++ base) ts = some (rest ++ base) := by
  fun_induction pending stack ts with
  | case1 =>
    cases h
    rfl
  | case2 stack t ts hk ih => simpa [pending, hk] using ih h
  | case3 | case5 => cases h
  | case4 t ts hk stack ih => simpa [pending, hk] using ih h
  | case6 stack t ts hk hk' ih =>
    have ih := ih h
    cases hkind : t.kind <;> simp_all [pending]

theorem IsBalanced.append (h : IsBalanced ts) (h' : IsBalanced us) : IsBalanced (ts ++ us) := by
  rw [IsBalanced, pending_append, h]
  exact h'

theorem kind_of_isKeyword (h : t.isKeyword w = true) : t.kind = .word := by
  simp only [isKeyword, Bool.and_eq_true, beq_iff_eq] at h
  exact h.1.1.1

theorem text_of_isKeyword (h : t.isKeyword w = true) : t.text = w.toList := by
  simp only [isKeyword, Bool.and_eq_true, beq_iff_eq] at h
  exact h.1.1.2

theorem pending_keyword (h : t.isKeyword w = true) (stack : List (List Char))
    (ts : List ClauseToken) : pending stack (t :: ts) = pending stack ts := by
  simp only [pending, kind_of_isKeyword h]

/-! ## Groups -/

/-- A group ends at the bracket that closes it. -/
theorem group_closes (hp : pending (stack ++ close :: base) ts = some final)
    (h : group stack.length ts = some (ls, rs)) :
    ∃ k, k.kind = .closing ∧ k.text = close ∧ ts = ls ++ k :: rs ∧ pending stack ls = some [] ∧
      pending base rs = some final := by
  induction ts generalizing stack ls with
  | nil => cases h
  | cons t ts ih =>
    cases hk : t.kind with
    | opening =>
      simp only [group, hk, Option.map_eq_some_iff, Prod.exists, Prod.mk.injEq] at h
      obtain ⟨ls, _, h, rfl, rfl⟩ := h
      simp only [pending, hk] at hp
      have hp : pending ((t.closer :: stack) ++ close :: base) ts = some final := hp
      obtain ⟨k, hkind, htext, rfl, hls, hrs⟩ := ih hp h
      exact ⟨k, hkind, htext, rfl, by simpa [pending, hk] using hls, hrs⟩
    | closing =>
      cases stack with
      | nil =>
        simp only [group, hk, List.length_nil, Option.some.injEq, Prod.mk.injEq] at h
        obtain ⟨rfl, rfl⟩ := h
        simp only [pending, hk, List.nil_append] at hp
        split at hp
        · next heq => exact ⟨t, hk, heq.symm, rfl, rfl, hp⟩
        · cases hp
      | cons c stack =>
        simp only [group, hk, List.length_cons, Option.map_eq_some_iff, Prod.exists,
          Prod.mk.injEq] at h
        obtain ⟨ls, _, h, rfl, rfl⟩ := h
        simp only [pending, hk, List.cons_append] at hp
        split at hp
        · next heq =>
          obtain ⟨k, hkind, htext, rfl, hls, hrs⟩ := ih hp h
          exact ⟨k, hkind, htext, rfl, by simpa [pending, hk, heq] using hls, hrs⟩
        · cases hp
    | _ =>
      simp only [group, hk, Option.map_eq_some_iff, Prod.exists, Prod.mk.injEq] at h
      obtain ⟨ls, _, h, rfl, rfl⟩ := h
      simp only [pending, hk] at hp
      obtain ⟨k, hkind, htext, rfl, hls, hrs⟩ := ih hp h
      exact ⟨k, hkind, htext, rfl, by simpa [pending, hk] using hls, hrs⟩

/-- A group that closes ends somewhere. -/
theorem exists_group (hp : pending (stack ++ close :: base) ts = some final)
    (hfinal : final.length ≤ base.length) : ∃ p, group stack.length ts = some p := by
  induction ts generalizing stack with
  | nil =>
    cases hp
    simp only [List.length_append, List.length_cons] at hfinal
    omega
  | cons t ts ih =>
    cases hk : t.kind with
    | opening =>
      simp only [pending, hk] at hp
      have hp : pending ((t.closer :: stack) ++ close :: base) ts = some final := hp
      obtain ⟨p, h⟩ := ih hp
      exact ⟨_, by simp only [group, hk]; rw [← List.length_cons, h, Option.map_some]⟩
    | closing =>
      cases stack with
      | nil => exact ⟨([], ts), by simp [group, hk]⟩
      | cons c stack =>
        simp only [pending, hk, List.cons_append] at hp
        split at hp
        · obtain ⟨p, h⟩ := ih hp
          exact ⟨_, by simp only [group, hk, List.length_cons]; rw [h, Option.map_some]⟩
        · cases hp
    | _ =>
      simp only [pending, hk] at hp
      obtain ⟨p, h⟩ := ih hp
      exact ⟨_, by simp only [group, hk]; rw [h, Option.map_some]⟩

/-- A group is what stands in front of its closing bracket. -/
theorem group_append (hk : t.kind = .closing) (hls : pending stack ls = some []) :
    group stack.length (ls ++ t :: rs) = some (ls, rs) := by
  fun_induction pending stack ls with
  | case1 =>
    cases hls
    simp [group, hk]
  | case2 stack u ts hu ih => simpa [group, hu] using ih hls
  | case3 | case5 => cases hls
  | case4 u ts hu stack ih => simpa [group, hu] using ih hls
  | case6 stack u ts ho hc ih =>
    have ih := ih hls
    cases hkind : u.kind <;> simp_all [group]

/-! ## Keywords -/

theorem cutAt_other (ho : t.kind ≠ .opening) (hc : t.kind ≠ .closing)
    (h : cutAt w depth (t :: ts) = none) :
    (depth == 0 && t.isKeyword w) = false ∧ cutAt w depth ts = none := by
  cases hk : t.kind with
  | opening => exact absurd hk ho
  | closing => exact absurd hk hc
  | _ =>
    simp only [cutAt, hk] at h
    split at h
    · cases h
    · next hcut => exact ⟨Bool.eq_false_iff.2 hcut, Option.map_eq_none_iff.1 h⟩

/-- A cut is made at the first keyword where nothing is open. -/
theorem cutAt_cuts (hp : pending stack ts = some final)
    (h : cutAt w stack.length ts = some (ls, rs)) :
    ∃ k : ClauseToken, k.isKeyword w = true ∧ ts = ls ++ k :: rs ∧ pending stack ls = some [] ∧
      pending [] rs = some final ∧ cutAt w stack.length ls = none := by
  induction ts generalizing stack ls with
  | nil => cases h
  | cons t ts ih =>
    cases hk : t.kind with
    | opening =>
      simp only [cutAt, hk, Option.map_eq_some_iff, Prod.exists, Prod.mk.injEq] at h
      obtain ⟨ls, _, h, rfl, rfl⟩ := h
      simp only [pending, hk] at hp
      obtain ⟨k, hkey, rfl, hls, hrs, hnone⟩ := ih hp h
      exact ⟨k, hkey, rfl, by simpa [pending, hk] using hls, hrs, by simpa [cutAt, hk] using hnone⟩
    | closing =>
      simp only [cutAt, hk, Option.map_eq_some_iff, Prod.exists, Prod.mk.injEq] at h
      obtain ⟨ls, _, h, rfl, rfl⟩ := h
      cases stack with
      | nil => simp [pending, hk] at hp
      | cons c stack =>
        simp only [pending, hk] at hp
        split at hp
        · next heq =>
          obtain ⟨k, hkey, rfl, hls, hrs, hnone⟩ := ih hp h
          exact ⟨k, hkey, rfl, by simpa [pending, hk, heq] using hls, hrs,
            by simpa [cutAt, hk] using hnone⟩
        · cases hp
    | _ =>
      simp only [cutAt, hk] at h
      simp only [pending, hk] at hp
      split at h
      · next hcut =>
        cases h
        simp only [Bool.and_eq_true, beq_iff_eq, List.length_eq_zero_iff] at hcut
        obtain ⟨rfl, hkey⟩ := hcut
        exact ⟨t, hkey, rfl, rfl, hp, rfl⟩
      · next hcut =>
        simp only [Option.map_eq_some_iff, Prod.exists, Prod.mk.injEq] at h
        obtain ⟨ls, _, h, rfl, rfl⟩ := h
        obtain ⟨k, hkey, rfl, hls, hrs, hnone⟩ := ih hp h
        exact ⟨k, hkey, rfl, by simpa [pending, hk] using hls, hrs,
          by simpa [cutAt, hk, hcut] using hnone⟩

/-- Tokens without a keyword where nothing is open are passed over. -/
theorem cutAt_append (hp : pending stack ls = some rest) (h : cutAt w stack.length ls = none)
    (rs : List ClauseToken) :
    cutAt w stack.length (ls ++ rs) = (cutAt w rest.length rs).map fun p => (ls ++ p.1, p.2) := by
  fun_induction pending stack ls with
  | case1 =>
    cases hp
    simp
  | case2 stack u ts hu ih =>
    simp only [cutAt, hu, Option.map_eq_none_iff] at h
    simp only [List.cons_append, cutAt, hu]
    rw [← List.length_cons, ih hp h, Option.map_map]
    rfl
  | case3 | case5 => cases hp
  | case4 u ts hu stack ih =>
    simp only [cutAt, hu, Option.map_eq_none_iff] at h
    simp only [List.cons_append, cutAt, hu]
    rw [List.length_cons, Nat.add_sub_cancel] at h ⊢
    rw [ih hp h, Option.map_map]
    rfl
  | case6 stack u ts ho hc ih =>
    cases hk : u.kind with
    | opening => exact absurd hk ho
    | closing => exact absurd hk hc
    | _ =>
      simp only [cutAt, hk] at h
      split at h
      · cases h
      · next hcut =>
        rw [Option.map_eq_none_iff] at h
        simp only [List.cons_append, cutAt, hk, hcut]
        rw [if_neg Bool.false_ne_true, ih hp h, Option.map_map]
        rfl

theorem cutAt_keyword (hk : t.isKeyword w = true) (ts : List ClauseToken) :
    cutAt w 0 (t :: ts) = some ([], ts) := by
  simp [cutAt, kind_of_isKeyword hk, hk]

/-- No keyword counts inside a bracket that stays open. -/
theorem cutAt_inside (hp : pending stack ls = some rest) : cutAt w (stack.length + 1) ls = none := by
  fun_induction pending stack ls with
  | case1 => rfl
  | case2 stack u ts hu ih => simpa [cutAt, hu] using ih hp
  | case3 | case5 => cases hp
  | case4 u ts hu stack ih => simpa [cutAt, hu] using ih hp
  | case6 stack u ts ho hc ih =>
    have ih := ih hp
    cases hk : u.kind <;> simp_all [cutAt]

/-! ## Whole groups -/

variable {o k : ClauseToken}

theorem pending_group (ho : o.kind = .opening) (hk : k.kind = .closing) (hc : k.text = o.closer)
    (hls : IsBalanced ls) (stack : List (List Char)) (rs : List ClauseToken) :
    pending stack (o :: ls ++ k :: rs) = pending stack rs := by
  have hinside : pending (o.closer :: stack) ls = some (o.closer :: stack) := pending_above hls _
  simp only [List.cons_append, pending, ho, pending_append, hinside, Option.bind_some, hk, hc,
    if_true]

theorem cutAt_group (ho : o.kind = .opening) (hk : k.kind = .closing) (hls : IsBalanced ls)
    (w : String) (rs : List ClauseToken) :
    cutAt w 0 (o :: ls ++ k :: rs) =
      (cutAt w 0 rs).map fun p => (o :: ls ++ k :: p.1, p.2) := by
  have hinside : pending [o.closer] ls = some [o.closer] := pending_above hls _
  have hnone : cutAt w [o.closer].length ls = none := cutAt_inside hls
  have hpass := cutAt_append hinside hnone (k :: rs)
  simp only [List.length_cons, List.length_nil, Nat.zero_add] at hpass
  simp only [List.cons_append, cutAt, ho, hpass, hk, Nat.sub_self, Option.map_map]
  rfl

end

end Comprehend.ClauseToken
