import Comprehend.Proofs.Chain.Stage
import Comprehend.Proofs.Clause.Reading

/-! # Strict and lenient readings

Both readings cut a text in the same way and are refused alike where it cannot be cut. From then on
a lenient one is never refused: where a strict one would be, it makes a notice and goes on. So a
strict reading is the lenient one up to its first notice, and a refusal in the place of that. -/

namespace Comprehend

open ClauseToken

/-- The fault that a strict reading has in the place of a notice of a lenient one. -/
def Notice.refusal? : Notice → Option Fault
  | .droppedClause fault => some fault
  | .ignoredText segment rest => some (.clause (.trailing rest) segment)
  | _ => none

/-- A notice that stands for a clause refused. -/
def Notice.RefusesClause (n : Notice) : Prop :=
  ∃ fault, n.refusal? = some fault ∧ fault.family = .clause

namespace Noted

section

variable {α β : Type}

/-- The result if nothing is passed over, and what the first notice stands for otherwise. -/
def strictly (a : Noted α) : Noted α :=
  match a.notices.findSome? Notice.refusal? with
  | some fault => ⟨[], .error fault⟩
  | none => ⟨[], a.result⟩

@[simp] theorem strictly_quiet (result : Except Fault α) :
    (⟨[], result⟩ : Noted α).strictly = ⟨[], result⟩ := rfl

theorem strictly_of_nil {a : Noted α} (h : a.notices = []) : a.strictly = ⟨[], a.result⟩ := by
  rw [strictly, h]
  rfl

theorem strictly_of_refuses {a : Noted α} (hne : a.notices ≠ [])
    (h : ∀ n ∈ a.notices, n.RefusesClause) :
    ∃ fault, fault.family = .clause ∧ a.strictly = ⟨[], .error fault⟩ := by
  obtain ⟨n, ns, hn⟩ := List.exists_cons_of_ne_nil hne
  obtain ⟨fault, hrefusal, hfamily⟩ := h n (hn ▸ List.mem_cons_self)
  exact ⟨fault, hfamily, by simp [strictly, hn, hrefusal]⟩

/-- The first notice of two parts is looked for in each of them. -/
theorem strictly_bind (a : Noted α) (f : α → Noted β) :
    (a >>= f).strictly = a.strictly >>= fun x => (f x).strictly := by
  rcases a with ⟨ns, fault | x⟩
  · cases h : ns.findSome? Notice.refusal? <;> simp [bind, Noted.bind, strictly, h]
  · cases h : ns.findSome? Notice.refusal? with
    | some fault => simp [bind, Noted.bind, strictly, List.findSome?_append, h]
    | none =>
      cases hf : (f x).notices.findSome? Notice.refusal? <;>
        simp [bind, Noted.bind, strictly, List.findSome?_append, h, hf]

end

end Noted

/-! ## One segment -/

section

variable {segment : List ClauseToken} {segments : List (List ClauseToken)}

/-- A segment is a clause, or it is refused, or it is a clause with a remainder. -/
theorem Clause.ofSegment_cases (hrun : IsRun segment) (hb : IsBalanced segment) :
    (∃ clause, ∀ strict, Clause.ofSegment strict segment = ⟨[], .ok clause⟩) ∨
    (∃ cause, ∀ strict, Clause.ofSegment strict segment =
      ⟨[], .error (.clause cause (spannedText segment))⟩) ∨
    ∃ clause rest,
      Clause.ofSegment false segment = ⟨[.ignoredText (spannedText segment) rest], .ok clause⟩ ∧
      Clause.ofSegment true segment =
        ⟨[], .error (.clause (.trailing rest) (spannedText segment))⟩ := by
  rcases Clause.splits_or_fault hrun hb with ⟨p, hp⟩ | hfault
  · by_cases hnil : p.remainder = []
    · exact .inl ⟨p.clause, fun strict => by
        rw [Clause.ofSegment_of_splits hp]
        simp [hnil]⟩
    · exact .inr (.inr ⟨p.clause, spannedText p.remainder, by
        simp [Clause.ofSegment_of_splits hp, hnil], by
        simp [Clause.ofSegment_of_splits hp, hnil]⟩)
  · exact .inr (.inl hfault)

namespace Comprehension

/-- A lenient reading that goes on from a comprehension is not refused, each of its notices stands
for a clause refused, and without a notice nothing is dropped. -/
structure Tolerates (c : Comprehension) (a : Noted Comprehension) : Prop where
  result : ∃ d, a.result = .ok d ∧ (a.notices = [] → d.dropped = c.dropped)
  refuses : ∀ n ∈ a.notices, n.RefusesClause

theorem tolerates_addSegment (hrun : IsRun segment) (hb : IsBalanced segment) (c : Comprehension) :
    c.Tolerates (addSegment false c segment) := by
  rcases Clause.ofSegment_cases hrun hb with ⟨clause, h⟩ | ⟨cause, h⟩ | ⟨clause, rest, h, -⟩
  · exact ⟨by simp [addSegment, h], by simp [addSegment, h]⟩
  · exact ⟨by simp [addSegment, h],
      by simp [addSegment, h, Notice.RefusesClause, Notice.refusal?, Fault.family]⟩
  · exact ⟨by simp [addSegment, h],
      by simp [addSegment, h, Notice.RefusesClause, Notice.refusal?, Fault.family]⟩

theorem addSegment_strict (hrun : IsRun segment) (hb : IsBalanced segment) (c : Comprehension) :
    addSegment true c segment = (addSegment false c segment).strictly := by
  rcases Clause.ofSegment_cases hrun hb with ⟨clause, h⟩ | ⟨cause, h⟩ | ⟨clause, rest, h, h'⟩
  · simp [addSegment, h]
  · simp [addSegment, h, Noted.strictly, Notice.refusal?]
  · simp [addSegment, h, h', Noted.strictly, Notice.refusal?]

/-! ## All segments -/

theorem tolerates_addSegments (hrun : ∀ s ∈ segments, IsRun s)
    (hb : ∀ s ∈ segments, IsBalanced s) (c : Comprehension) :
    c.Tolerates (addSegments false c segments) := by
  induction segments generalizing c with
  | nil => exact ⟨⟨c, rfl, fun _ => rfl⟩, nofun⟩
  | cons s segments ih =>
    obtain ⟨hs, hrun⟩ := List.forall_mem_cons.1 hrun
    obtain ⟨hsb, hb⟩ := List.forall_mem_cons.1 hb
    obtain ⟨⟨d, hd, hkept⟩, hfirst⟩ := tolerates_addSegment hs hsb c
    obtain ⟨⟨e, he, hkept'⟩, hrest⟩ := ih hrun hb d
    have hadd : addSegments false c (s :: segments) =
        ⟨(addSegment false c s).notices ++ (addSegments false d segments).notices, .ok e⟩ := by
      simp [addSegments, bind, Noted.bind, hd, he]
    rw [hadd]
    refine ⟨⟨e, rfl, fun h => ?_⟩, fun n hn => ?_⟩
    · obtain ⟨hnil, hnil'⟩ := List.append_eq_nil_iff.1 h
      rw [hkept' hnil', hkept hnil]
    · exact (List.mem_append.1 hn).elim (hfirst n) (hrest n)

theorem addSegments_strict (hrun : ∀ s ∈ segments, IsRun s) (hb : ∀ s ∈ segments, IsBalanced s)
    (c : Comprehension) :
    addSegments true c segments = (addSegments false c segments).strictly := by
  induction segments generalizing c with
  | nil => rfl
  | cons s segments ih =>
    obtain ⟨hs, hrun⟩ := List.forall_mem_cons.1 hrun
    obtain ⟨hsb, hb⟩ := List.forall_mem_cons.1 hb
    rw [addSegments, addSegments, Noted.strictly_bind, addSegment_strict hs hsb c]
    exact congrArg (_ >>= ·) (funext fun d => ih hrun hb d)

end Comprehension

end

/-! ## A whole text -/

namespace Comprehension

/-- A text that cannot be cut into a yield and loops is refused by both readings alike, and any
other is read by adding the segments of its loops. -/
theorem parse_cases (raw : String) :
    (∃ fault, fault.family = .comprehension ∧
      ∀ strict, Comprehension.parse strict raw = ⟨[], .error fault⟩) ∨
    ∃ (c : Comprehension) (segments : List (List ClauseToken)), c.dropped = [] ∧
      (∀ s ∈ segments, IsRun s) ∧ (∀ s ∈ segments, IsBalanced s) ∧
      ∀ strict, Comprehension.parse strict raw = addSegments strict c segments := by
  cases hts : tokens? raw.toList with
  | none => exact .inl ⟨.noTokens raw, rfl, fun _ => by
    simp only [Comprehension.parse, hts]
    rfl⟩
  | some tokens =>
    cases hss : ClauseToken.segments raw [] 0 tokens with
    | error fault =>
      exact .inl ⟨fault, family_of_segments hss, fun _ => by
        simp only [Comprehension.parse, hts, hss]
        rfl⟩
    | ok ss =>
      obtain ⟨head, ps, rfl, rfl, hbalanced, hwhole, hps⟩ := segments_eq_ok hss
      by_cases hpsne : ps = []
      · subst hpsne
        exact .inl ⟨.noLoop raw, rfl, fun _ => by
          simp only [Comprehension.parse, hts, hss]
          rfl⟩
      by_cases hne : head = []
      · subst hne
        obtain ⟨p, ps, rfl⟩ := List.exists_cons_of_ne_nil hpsne
        exact .inl ⟨.emptyYield raw, rfl, fun _ => by
          simp only [Comprehension.parse, hts, hss]
          rfl⟩
      have hrun : IsRun (head ++ loopTokens ps) := (tokens?_eq_some.1 hts).isRun
      exact .inr ⟨⟨spannedText head, [], []⟩, ps.map (·.2), rfl,
        List.forall_mem_map.2 hrun.right.segment_isRun,
        List.forall_mem_map.2 fun p hp => (hps p hp).segment.balanced,
        fun _ => parse_of_loops hts hne hpsne ⟨hbalanced, hwhole⟩ hps⟩

/-- A strict reading is a lenient one up to its first notice, and the refusal that the notice stands
for from there. -/
theorem parse_strictly (raw : String) :
    Comprehension.parse true raw = (Comprehension.parse false raw).strictly := by
  rcases parse_cases raw with ⟨fault, -, h⟩ | ⟨c, segments, -, hrun, hb, h⟩
  · rw [h, h, Noted.strictly_quiet]
  · rw [h, h, addSegments_strict hrun hb]

/-- A strict reading refuses exactly what a lenient one makes notices about. -/
theorem parse_strict (raw : String) :
    (∀ c, (Comprehension.parse true raw).result = .ok c ↔
      (Comprehension.parse false raw).result = .ok c ∧ c.dropped = [] ∧
        (Comprehension.parse false raw).notices = []) ∧
    (∀ fault, fault.family = .comprehension →
      ((Comprehension.parse false raw).result = .error fault ↔
        (Comprehension.parse true raw).result = .error fault)) ∧
    ((∃ fault, fault.family = .clause ∧ (Comprehension.parse true raw).result = .error fault) ↔
      (∃ c, (Comprehension.parse false raw).result = .ok c) ∧
        (Comprehension.parse false raw).notices ≠ []) := by
  rw [parse_strictly]
  rcases parse_cases raw with ⟨fault, hfamily, h⟩ | ⟨c, segments, hdropped, hrun, hb, h⟩
  · rw [h]
    refine ⟨fun c => ⟨nofun, nofun⟩, fun _ _ => Iff.rfl, ⟨?_, fun ⟨⟨_, hc⟩, _⟩ => nomatch hc⟩⟩
    rintro ⟨_, hclause, herror⟩
    cases herror
    rw [hfamily] at hclause
    cases hclause
  · rw [h]
    obtain ⟨⟨d, hd, hkept⟩, hrefuses⟩ := tolerates_addSegments hrun hb c
    by_cases hquiet : (addSegments false c segments).notices = []
    · rw [Noted.strictly_of_nil hquiet, hquiet, hd]
      refine ⟨fun e => ⟨fun he => ?_, And.left⟩, fun _ _ => Iff.rfl, ⟨nofun, fun h => absurd rfl h.2⟩⟩
      cases he
      exact ⟨rfl, (hkept hquiet).trans hdropped, rfl⟩
    · obtain ⟨fault, hclause, hstrictly⟩ := Noted.strictly_of_refuses hquiet hrefuses
      rw [hstrictly, hd]
      refine ⟨fun e => ⟨nofun, fun h => absurd h.2.2 hquiet⟩, fun _ hfamily => ⟨nofun, fun he => ?_⟩,
        fun _ => ⟨⟨d, rfl⟩, hquiet⟩, fun _ => ⟨fault, hclause, rfl⟩⟩
      cases he
      rw [hclause] at hfamily
      cases hfamily

end Comprehension

end Comprehend
