import Comprehend.Proofs.Source.Scan

/-! # The occurrences of a text

Whatever surfaces are searched, the occurrences that are found lie in the text one after another, so
that their offsets, and with them the places that notices name, tell them apart. -/

namespace Comprehend

open Text Lexeme

namespace Surface

variable {surface : Surface} {before : Option Char} {cs m r : List Char}

theorem marked_eq_some (h : marked cs = some (m, r)) :
    ∃ body, body ≠ [] ∧ '\x60' ∉ body ∧
      m = listMarker.toList ++ '\x60' :: body ++ ['\x60'] ∧ cs = m ++ r := by
  unfold marked at h
  split at h
  · next u ha =>
    dsimp only at h
    split at h
    · next c body v hbody hrest =>
      cases h
      have hne : u.takeWhile (· != '\x60') ≠ [] := by
        rw [hbody]
        exact List.cons_ne_nil _ _
      have hquote : '\x60' ∉ u.takeWhile (· != '\x60') := fun hmem => by
        simpa using List.mem_takeWhile_imp hmem
      refine ⟨u.takeWhile (· != '\x60'), hne, hquote, rfl, ?_⟩
      have hu : u.takeWhile (· != '\x60') ++ '\x60' :: r = u := by
        rw [← hrest, List.takeWhile_append_dropWhile]
      rw [Parser.append_of_after ha]
      simp [hu]
    · cases h
  · cases h

/-- What is between the backticks. -/
theorem body_enclosed {mark : List Char} (h : '\x60' ∉ mark) :
    body (mark ++ '\x60' :: (cs ++ ['\x60'])) = cs := by
  have hmark : ∀ c ∈ mark, (c != '\x60') = true := fun c hc => by
    simpa using fun hq : c = '\x60' => h (hq ▸ hc)
  rw [body, List.dropWhile_append_of_pos hmark]
  simp

/-- A match is a stretch of the text, and not an empty one. -/
theorem matchAt_eq_some (h : surface.matchAt before cs = some (m, r)) :
    cs = m ++ r ∧ 0 < m.length := by
  cases surface with
  | taggedTemplate =>
    obtain ⟨-, -, -, -, -, -, happ⟩ := tagged_eq_some h
    exact ⟨happ, tagged_ne_nil h⟩
  | markedLiteral =>
    obtain ⟨body, -, -, rfl, happ⟩ := marked_eq_some h
    exact ⟨happ, by simp⟩

/-- All matches of a surface, those that do not count among them; otherwise as in a search. -/
def candidates (surface : Surface) : (before : Option Char) → (offset skip : Nat) → List Char →
    List Occurrence
  | _, _, _, [] => []
  | _, offset, skip + 1, c :: cs => candidates surface (some c) (offset + 1) skip cs
  | before, offset, 0, c :: cs =>
    match surface.matchAt before (c :: cs) with
    | none => candidates surface (some c) (offset + 1) 0 cs
    | some (matched, _) =>
      ⟨surface, offset, offset + matched.length, String.ofList (body matched)⟩ ::
        candidates surface (some c) (offset + 1) (matched.length - 1) cs

/-- A search finds the matches that count. -/
theorem search_eq_filter (surface : Surface) (cs : List Char) :
    ∀ (before : Option Char) (offset skip : Nat), search surface before offset skip cs =
      (candidates surface before offset skip cs).filter (surface.accepts ·.raw.toList) := by
  induction cs with
  | nil => exact fun _ _ _ => by simp [search, candidates]
  | cons c cs ih =>
    intro before offset skip
    cases skip with
    | succ skip => rw [search, candidates, ih]
    | zero =>
      rw [search, candidates]
      cases surface.matchAt before (c :: cs) with
      | none => exact ih _ _ _
      | some found => simp [List.filter_cons, ih]

/-- The matches of a surface lie in the text that is searched. -/
theorem candidates_bounds (surface : Surface) (cs : List Char) :
    ∀ (before : Option Char) (offset skip : Nat),
      ∀ o ∈ candidates surface before offset skip cs,
        offset + skip ≤ o.start ∧ o.start < o.stop ∧ o.stop ≤ offset + cs.length := by
  induction cs with
  | nil => exact fun _ _ _ => by simp [candidates]
  | cons c cs ih =>
    intro before offset skip o ho
    rw [List.length_cons]
    cases skip with
    | succ skip =>
      rw [candidates] at ho
      have := ih _ _ _ o ho
      omega
    | zero =>
      rw [candidates] at ho
      split at ho
      · have := ih _ _ _ o ho
        omega
      · next m r hm =>
        obtain ⟨happ, hpos⟩ := matchAt_eq_some hm
        have hlength := congrArg List.length happ
        rw [List.length_cons, List.length_append] at hlength
        rcases List.mem_cons.1 ho with rfl | ho
        · exact ⟨Nat.le_refl _, by dsimp only; omega, by dsimp only; omega⟩
        · have := ih _ _ _ o ho
          omega

/-- The occurrences that a search finds lie in the text that is searched. -/
theorem search_bounds (surface : Surface) (cs : List Char) (before : Option Char)
    (offset skip : Nat) : ∀ o ∈ search surface before offset skip cs,
      offset + skip ≤ o.start ∧ o.start < o.stop ∧ o.stop ≤ offset + cs.length := by
  intro o ho
  rw [search_eq_filter] at ho
  exact candidates_bounds surface cs before offset skip o (List.mem_of_mem_filter ho)

/-- A search finds nothing in what is to be passed over. -/
theorem search_skip (surface : Surface) {before : Option Char} {offset skip : Nat} {cs : List Char}
    (h : cs.length ≤ skip) : search surface before offset skip cs = [] := by
  refine List.eq_nil_iff_forall_not_mem.2 fun o ho => ?_
  have := search_bounds surface cs before offset skip o ho
  omega

end Surface

namespace Occurrence

/-- Occurrences in order from a position on, each after the one before it has ended. -/
inductive InOrder (length : Nat) : (position : Nat) → List Occurrence → Prop
  | nil {position : Nat} (h : position ≤ length) : InOrder length position []
  | cons {position : Nat} {o : Occurrence} {os : List Occurrence} (hstart : position ≤ o.start)
    (hstop : o.start < o.stop) (hos : InOrder length o.stop os) : InOrder length position (o :: os)

theorem inOrder_disjointFrom {length : Nat} {os : List Occurrence}
    (h : ∀ o ∈ os, o.start < o.stop ∧ o.stop ≤ length) :
    ∀ {position : Nat}, position ≤ length → InOrder length position (disjointFrom position os) := by
  induction os with
  | nil => exact fun hp => .nil hp
  | cons o os ih =>
    intro position hp
    obtain ⟨ho, hos⟩ := List.forall_mem_cons.1 h
    rw [disjointFrom]
    split_ifs with hstart
    · exact .cons hstart ho.1 (ih hos ho.2)
    · exact ih hos hp

/-- The occurrences of a text are in order. -/
theorem inOrder_find (surfaces : List Surface) (source : String) :
    InOrder source.toList.length 0 (find surfaces source) := by
  refine inOrder_disjointFrom (fun o ho => ?_) (Nat.zero_le _)
  obtain ⟨surface, -, ho⟩ := List.mem_flatMap.1 (List.mem_mergeSort.1 ho)
  have := Surface.search_bounds surface source.toList none 0 0 o ho
  omega

theorem InOrder.le_start {length position : Nat} {os : List Occurrence}
    (h : InOrder length position os) : ∀ o ∈ os, position ≤ o.start := by
  induction h with
  | nil => simp
  | cons hstart hstop _ ih =>
    exact List.forall_mem_cons.2 ⟨hstart, fun o ho => by have := ih o ho; omega⟩

theorem InOrder.pairwise {length position : Nat} {os : List Occurrence}
    (h : InOrder length position os) : os.Pairwise (·.stop ≤ ·.start) := by
  induction h with
  | nil => exact .nil
  | cons _ _ hos ih => exact .cons hos.le_start ih

theorem InOrder.position_lt {length position : Nat} {o : Occurrence} {os : List Occurrence}
    (h : InOrder length position (o :: os)) : position < length := by
  cases h with
  | cons hstart hstop hos =>
    have : ∀ {position os}, InOrder length position os → position ≤ length := fun h => by
      induction h with
      | nil h => exact h
      | cons => omega
    have := this hos
    omega

theorem eq_of_toString_eq {m n : Nat} (h : toString m = toString n) : m = n := by
  have hdigits := congrArg (fun s : String => Nat.ofDigitChars 10 s.toList 0) h
  simpa [Nat.toString_eq_ofList_toDigits] using hdigits

/-- Occurrences that start apart are named apart. -/
theorem start_eq_of_place_eq {o p : Occurrence} (h : o.place = p.place) : o.start = p.start := by
  have hchars := congrArg String.toList h
  unfold place at hchars
  cases ho : o.surface <;> cases hp : p.surface <;> rw [ho, hp] at hchars
  case taggedTemplate.taggedTemplate | markedLiteral.markedLiteral =>
    refine eq_of_toString_eq (String.toList_inj.1 ?_)
    simpa [Surface.name] using hchars
  all_goals simp [Surface.name] at hchars

theorem InOrder.nodup_place {length position : Nat} {os : List Occurrence}
    (h : InOrder length position os) : (os.map place).Nodup := by
  induction h with
  | nil => exact List.nodup_nil
  | @cons position o os hstart hstop hos ih =>
    refine List.nodup_cons.2 ⟨fun hmem => ?_, ih⟩
    obtain ⟨p, hp, hplace⟩ := List.mem_map.1 hmem
    have hstarts := start_eq_of_place_eq hplace
    have := hos.le_start p hp
    omega

end Occurrence

end Comprehend
