import Comprehend.Proofs.Chain.Variable
import Comprehend.Proofs.Syntax.Opening
import Comprehend.Source.Expansion

/-! # What is searched for

A match of a surface is a stretch of the text, which the character in front of it decides on too. Where
nothing in a text is marked, its occurrences are its tagged templates, one after another. -/

namespace Comprehend

open Text Lexeme

/-! ## What is matched -/

namespace Surface

variable {before : Option Char} {cs m r : List Char}

/-- A match is the tag, white space and a template. -/
theorem tagged_eq_some (h : tagged before cs = some (m, r)) :
    before.all mayPrecedeTag = true ∧ ∃ gap t, (∀ c ∈ gap, isSpace c = true) ∧
      template t = some (t, []) ∧ m = listTag.toList ++ gap ++ t ∧ cs = m ++ r := by
  unfold tagged at h
  split at h
  · next hb =>
    refine ⟨hb, ?_⟩
    cases ha : after listTag cs with
    | none =>
      rw [ha] at h
      cases h
    | some u =>
      rw [ha] at h
      obtain ⟨⟨t, s⟩, ht, h⟩ := Option.map_eq_some_iff.1 h
      cases h
      refine ⟨u.takeWhile isSpace, t, fun c hc => List.mem_takeWhile_imp hc, ?_, rfl, ?_⟩
      · simpa using template_append ht []
      · rw [Parser.append_of_after ha, List.append_assoc, List.append_assoc, append_of_template ht,
          List.takeWhile_append_dropWhile]
  · cases h

theorem tagged_ne_nil (h : tagged before cs = some (m, r)) : 0 < m.length := by
  obtain ⟨-, gap, t, -, -, rfl, -⟩ := tagged_eq_some h
  simp [listTag]

/-! ## What stands in front -/

/-- The character in front of what comes after a text. -/
def endOf (before : Option Char) (u : List Char) : Option Char := u.getLast?.or before

@[simp] theorem endOf_nil (before : Option Char) : endOf before [] = before := rfl

theorem endOf_append (before : Option Char) (u v : List Char) :
    endOf before (u ++ v) = endOf (endOf before u) v := by
  simp [endOf, List.getLast?_append, Option.or_assoc]

theorem endOf_cons (before : Option Char) (c : Char) (u : List Char) :
    endOf before (c :: u) = endOf (some c) u := endOf_append before [c] u

theorem lt_of_isNamePart {c : Char} (h : isNamePart c = true) : c.toNat < 128 := by
  rcases isNamePart_iff_toNat.1 h with h | h | rfl | rfl
  · omega
  · omega
  · decide
  · decide

/-- No tag stands right behind a name. -/
theorem mayPrecedeTag_of_isNamePart {c : Char} (h : isNamePart c = true) :
    mayPrecedeTag c = false := by
  rw [mayPrecedeTag, isWord_of_ascii (lt_of_isNamePart h)]
  simp only [isNamePart, Bool.or_eq_true] at h
  simp only [Bool.not_eq_false', Bool.or_eq_true]
  exact .inl h

end Surface

/-! ## What comes of a text -/

namespace Expansion

section

variable {settings : ExpansionSettings} {place place' raw : String}

theorem result_passingOver {α : Type} {a b : Noted α} (h : a.result = b.result) :
    (passingOver settings place a).result = (passingOver settings place' b).result := by
  unfold passingOver
  rw [h]
  split
  · rfl
  · split_ifs <;> rfl

/-- Where a text stands shows in notices only. -/
theorem result_chain? (place place' : String) :
    (chain? settings place raw).result = (chain? settings place' raw).result := by
  simp only [chain?, Noted.result_bind]
  congr 1
  refine result_passingOver ?_
  simp only [Noted.result_bind]
  congr 1
  funext c
  split <;> rfl

end

/-- The text up to a place is the text up to an earlier one and what comes next. -/
theorem take_between (source : List Char) {position offset : Nat} (h : position ≤ offset)
    (n : Nat) :
    (source.drop position).take (offset + n - position) =
      (source.drop position).take (offset - position) ++ (source.drop offset).take n := by
  rw [show offset + n - position = (offset - position) + n by omega, List.take_add, List.drop_drop,
    show position + (offset - position) = offset by omega]

end Expansion

/-! ## The occurrences of a text -/

namespace Surface

theorem search_marked {cs : List Char} (h : ¬ listMarker.toList <:+: cs) :
    ∀ {before : Option Char} {offset skip : Nat},
      search .markedLiteral before offset skip cs = [] := by
  induction cs with
  | nil => exact fun {_ _ _} => by rw [search]
  | cons c cs ih =>
    intro before offset skip
    have hcs : ¬ listMarker.toList <:+: cs := fun hc => h (hc.trans (List.suffix_cons c cs).isInfix)
    cases skip with
    | succ skip => rw [search, ih hcs]
    | zero =>
      have hnone : marked (c :: cs) = none := by
        have : after listMarker (c :: cs) = none := by
          refine Option.eq_none_iff_forall_not_mem.2 fun r hr => h ?_
          exact ⟨[], r, by rw [List.nil_append, ← Parser.append_of_after hr]⟩
        rw [marked, this]
      rw [search, matchAt, hnone]
      exact ih hcs

/-- Occurrences come in order, each after the one before it has ended. -/
theorem search_inOrder (cs : List Char) : ∀ (before : Option Char) (offset skip : Nat),
    (∀ o ∈ search .taggedTemplate before offset skip cs, offset + skip ≤ o.start ∧ o.start ≤ o.stop) ∧
      (search .taggedTemplate before offset skip cs).Pairwise fun a b => a.stop ≤ b.start := by
  induction cs with
  | nil => exact fun _ _ _ => by simp [search]
  | cons c cs ih =>
    intro before offset skip
    cases skip with
    | succ skip =>
      rw [search]
      have h := ih (some c) (offset + 1) skip
      exact ⟨fun o ho => ⟨by have := (h.1 o ho).1; omega, (h.1 o ho).2⟩, h.2⟩
    | zero =>
      rw [search, matchAt]
      cases hm : tagged before (c :: cs) with
      | none =>
        have h := ih (some c) (offset + 1) 0
        exact ⟨fun o ho => ⟨by have := (h.1 o ho).1; omega, (h.1 o ho).2⟩, h.2⟩
      | some p =>
        have hpos := tagged_ne_nil hm
        have h := ih (some c) (offset + 1) (p.1.length - 1)
        have later : ∀ o ∈ search .taggedTemplate (some c) (offset + 1) (p.1.length - 1) cs,
            offset + p.1.length ≤ o.start ∧ o.start ≤ o.stop := fun o ho =>
          ⟨by have := (h.1 o ho).1; omega, (h.1 o ho).2⟩
        simp only
        split_ifs
        · refine ⟨List.forall_mem_cons.2 ⟨⟨Nat.le_refl _, Nat.le_add_right _ _⟩, fun o ho => ?_⟩,
            List.pairwise_cons.2 ⟨fun o ho => (later o ho).1, h.2⟩⟩
          exact ⟨by have := (later o ho).1; omega, (later o ho).2⟩
        · exact ⟨fun o ho => ⟨by have := (later o ho).1; omega, (later o ho).2⟩, h.2⟩

end Surface

namespace Occurrence

theorem disjointFrom_of_inOrder {os : List Occurrence} (h : os.Pairwise fun a b => a.stop ≤ b.start) :
    ∀ {stop : Nat}, (∀ o ∈ os, stop ≤ o.start) → disjointFrom stop os = os := by
  induction os with
  | nil => exact fun {_} _ => rfl
  | cons o os ih =>
    intro stop hs
    obtain ⟨ho, hos⟩ := List.pairwise_cons.1 h
    rw [disjointFrom, if_pos (hs o (by simp)), ih hos ho]

/-- Where no literal is marked, the occurrences are those of the tagged templates. -/
theorem find_of_unmarked {source : String} (h : ¬ listMarker.toList <:+: source.toList) :
    find Surface.all source = Surface.search .taggedTemplate none 0 0 source.toList := by
  have hmarked : Surface.search .markedLiteral none 0 0 source.toList = [] := Surface.search_marked h
  obtain ⟨hstart, hpairs⟩ := Surface.search_inOrder source.toList none 0 0
  have hsorted : (Surface.search .taggedTemplate none 0 0 source.toList).Pairwise
      fun a b => decide (a.start ≤ b.start) = true := by
    refine List.Pairwise.imp_of_mem (fun ha _ hab => ?_) hpairs
    exact decide_eq_true ((hstart _ ha).2.trans hab)
  have hall : Surface.all.flatMap (·.find source) =
      Surface.search .taggedTemplate none 0 0 source.toList := by
    simp [Surface.all, Surface.find, hmarked]
  rw [find, hall, List.mergeSort_of_pairwise hsorted, disjointFrom_of_inOrder hpairs]
  exact fun o _ => Nat.zero_le _

end Occurrence

end Comprehend
