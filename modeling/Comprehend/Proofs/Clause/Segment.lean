import Comprehend.Proofs.Clause.Bracket
import Comprehend.Proofs.Clause.Lexing

/-! # Segments

The loop keywords outside all brackets cut the tokens of a text into segments. Nothing is lost by
the cutting, the brackets of every segment match, and no segment has a loop keyword of its own that
counts. -/

namespace Comprehend.ClauseToken

/-- A loop keyword and the segment behind it. -/
abbrev Loop := ClauseToken × List ClauseToken

/-- A segment: its brackets match, and no loop keyword in it counts. -/
structure IsSegment (ts : List ClauseToken) : Prop where
  balanced : IsBalanced ts
  whole : cutAt "for" 0 ts = none

/-- A loop keyword with a segment. -/
structure IsLoop (p : Loop) : Prop where
  keyword : p.1.isKeyword "for" = true
  segment : IsSegment p.2

/-- All tokens of some loops. -/
def loopTokens (ps : List Loop) : List ClauseToken := ps.flatMap fun p => p.1 :: p.2

theorem loopTokens_cons (p : Loop) (ps : List Loop) :
    loopTokens (p :: ps) = p.1 :: (p.2 ++ loopTokens ps) := rfl

/-- The number of loop keywords where nothing is open. -/
def loopCount : (depth : Nat) → List ClauseToken → Nat
  | _, [] => 0
  | depth, t :: ts =>
    match t.kind with
    | .opening => loopCount (depth + 1) ts
    | .closing => loopCount (depth - 1) ts
    | _ => if depth == 0 && t.isKeyword "for" then loopCount depth ts + 1 else loopCount depth ts

section

variable {raw : String} {stack : List (List Char)} {offset : Nat} {t : ClauseToken}
  {ts first : List ClauseToken} {ss : List (List ClauseToken)} {ps : List Loop}

/-- Cutting a text whose brackets match gives its segments. -/
theorem segments_eq_ok (h : segments raw stack offset ts = .ok ss) :
    ∃ first ps, ss = first :: ps.map (·.2) ∧ ts = first ++ loopTokens ps ∧
      pending stack first = some [] ∧ cutAt "for" stack.length first = none ∧
      ∀ p ∈ ps, IsLoop p := by
  fun_induction segments raw stack offset ts generalizing ss with
  | case1 =>
    cases h
    exact ⟨[], [], rfl, rfl, rfl, rfl, List.forall_mem_nil _⟩
  | case2 | case4 | case6 => cases h
  | case3 =>
    rename_i hk ih
    obtain ⟨us, hus, rfl⟩ := map_eq_ok h
    obtain ⟨first, ps, rfl, rfl, hp, hc, hps⟩ := ih hus
    exact ⟨_ :: first, ps, rfl, rfl, by simpa [pending, hk] using hp,
      by simpa [cutAt, hk] using hc, hps⟩
  | case5 =>
    rename_i hk _ ih
    obtain ⟨us, hus, rfl⟩ := map_eq_ok h
    obtain ⟨first, ps, rfl, rfl, hp, hc, hps⟩ := ih hus
    exact ⟨_ :: first, ps, rfl, rfl, by simpa [pending, hk] using hp,
      by simpa [cutAt, hk] using hc, hps⟩
  | case7 =>
    rename_i t ts _ _ hcut ho hcl ih
    obtain ⟨us, hus, rfl⟩ := map_eq_ok h
    obtain ⟨first, ps, rfl, rfl, hp, hc, hps⟩ := ih hus
    simp only [Bool.and_eq_true, List.isEmpty_iff] at hcut
    obtain ⟨rfl, hkey⟩ := hcut
    exact ⟨[], (t, first) :: ps, rfl, rfl, rfl, rfl, List.forall_mem_cons.2 ⟨⟨hkey, hp, hc⟩, hps⟩⟩
  | case8 =>
    rename_i t ts _ _ hcut ho hcl ih
    obtain ⟨us, hus, rfl⟩ := map_eq_ok h
    obtain ⟨first, ps, rfl, rfl, hp, hc, hps⟩ := ih hus
    refine ⟨t :: first, ps, rfl, rfl, ?_, ?_, hps⟩
    · cases hk : t.kind <;> simp_all [pending]
    · cases hk : t.kind <;> simp_all [cutAt]

/-! ## Putting segments together -/

theorem segments_opening (hk : t.kind = .opening) :
    segments raw stack offset (t :: ts) =
      (segments raw (t.closer :: stack) (offset + t.before.length + t.text.length) ts).map
        (intoFirst t) := by
  cases stack <;> simp only [segments, hk]

theorem segments_closing (hk : t.kind = .closing) :
    segments raw (t.text :: stack) offset (t :: ts) =
      (segments raw stack (offset + t.before.length + t.text.length) ts).map (intoFirst t) := by
  simp only [segments, hk, if_true]

theorem segments_other (ho : t.kind ≠ .opening) (hc : t.kind ≠ .closing)
    (hcut : (stack.isEmpty && t.isKeyword "for") = false) :
    segments raw stack offset (t :: ts) =
      (segments raw stack (offset + t.before.length + t.text.length) ts).map (intoFirst t) := by
  cases stack <;> cases hk : t.kind <;>
    first
    | contradiction
    | simp only [segments, hk, hcut, Bool.false_eq_true, if_false]

theorem segments_keyword (hk : t.isKeyword "for" = true) :
    segments raw [] offset (t :: ts) =
      (segments raw [] (offset + t.before.length + t.text.length) ts).map ([] :: ·) := by
  simp only [segments, kind_of_isKeyword hk, hk, List.isEmpty_nil, Bool.and_self, if_true]

/-- Tokens that close what is open, and have no loop keyword that counts, are the first segment. -/
theorem segments_append (hp : pending stack first = some [])
    (hc : cutAt "for" stack.length first = none)
    (h : ∀ offset, segments raw [] offset ts = .ok ([] :: ss)) (offset : Nat) :
    segments raw stack offset (first ++ ts) = .ok (first :: ss) := by
  fun_induction pending stack first generalizing offset with
  | case1 =>
    cases hp
    exact h offset
  | case2 stack u us hu ih =>
    simp only [cutAt, hu, Option.map_eq_none_iff] at hc
    rw [List.cons_append, segments_opening hu, ih hp hc]
    rfl
  | case3 | case5 => cases hp
  | case4 u us hu stack ih =>
    simp only [cutAt, hu, Option.map_eq_none_iff] at hc
    rw [List.cons_append, segments_closing hu, ih hp hc]
    rfl
  | case6 stack u us ho hcl ih =>
    obtain ⟨hcut, hc⟩ := cutAt_other ho hcl hc
    have hpass : (stack.isEmpty && u.isKeyword "for") = false := by cases stack <;> exact hcut
    rw [List.cons_append, segments_other ho hcl hpass, ih hp hc]
    rfl

/-- The segments of loops that are put together. -/
theorem segments_loopTokens (hps : ∀ p ∈ ps, IsLoop p) (offset : Nat) :
    segments raw [] offset (loopTokens ps) = .ok ([] :: ps.map (·.2)) := by
  induction ps generalizing offset with
  | nil => rfl
  | cons p ps ih =>
    obtain ⟨hp, hps⟩ := List.forall_mem_cons.1 hps
    have hrest := segments_append hp.segment.balanced hp.segment.whole (ih hps)
    rw [loopTokens_cons, segments_keyword hp.keyword, hrest]
    rfl

/-! ## Counting loops -/

theorem loopCount_append (hp : pending stack first = some [])
    (hc : cutAt "for" stack.length first = none) (ts : List ClauseToken) :
    loopCount stack.length (first ++ ts) = loopCount 0 ts := by
  fun_induction pending stack first with
  | case1 =>
    cases hp
    rfl
  | case2 stack u us hu ih =>
    simp only [cutAt, hu, Option.map_eq_none_iff] at hc
    simpa [loopCount, hu] using ih hp hc
  | case3 | case5 => cases hp
  | case4 u us hu stack ih =>
    simp only [cutAt, hu, Option.map_eq_none_iff] at hc
    simpa [loopCount, hu] using ih hp hc
  | case6 stack u us ho hcl ih =>
    obtain ⟨hcut, hc⟩ := cutAt_other ho hcl hc
    have ih := ih hp hc
    cases hk : u.kind <;> simp_all [loopCount]

/-- There are as many loops as loop keywords that count. -/
theorem loopCount_loopTokens (hps : ∀ p ∈ ps, IsLoop p) : loopCount 0 (loopTokens ps) = ps.length := by
  induction ps with
  | nil => rfl
  | cons p ps ih =>
    obtain ⟨hp, hps⟩ := List.forall_mem_cons.1 hps
    have hsegment : loopCount 0 (p.2 ++ loopTokens ps) = loopCount 0 (loopTokens ps) :=
      loopCount_append hp.segment.balanced hp.segment.whole (loopTokens ps)
    rw [loopTokens_cons]
    simp only [loopCount, kind_of_isKeyword hp.keyword, hp.keyword, BEq.rfl, Bool.and_self, if_true]
    rw [hsegment, ih hps, List.length_cons]

end

end Comprehend.ClauseToken
