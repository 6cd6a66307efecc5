import Comprehend.Proofs.Clause.Canonical
import Comprehend.Proofs.Syntax.Guarded

/-! # Where the operands of a comprehension stand

Every operand of a comprehension is a run of its tokens, and it starts at the start of the text or
behind a bracket or a keyword. It is therefore a piece of the text that does not start right behind
a backslash. -/

namespace Comprehend

open Comprehend.Text Comprehend.Lexeme Comprehend.Parser

namespace ClauseToken

section

variable {cs : List Char} {k : ClauseToken} {ts us : List ClauseToken}

/-- Tokens with the blanks in front of them make up the text. -/
theorem Lexes.exists_append (h : Lexes cs (ts ++ us)) :
    ∃ r, cs = ts.flatMap (fun t => t.before ++ t.text) ++ r ∧ Lexes r us := by
  induction ts generalizing cs with
  | nil => exact ⟨cs, rfl, h⟩
  | cons t ts ih =>
    cases h with
    | @token _ text r kind _ hs hr =>
      obtain ⟨v, hv, hus⟩ := ih hr
      have hsplit : cs = cs.takeWhile isBlank ++ (text ++ r) := by
        rw [append_of_scan hs]
        exact List.takeWhile_append_dropWhile.symm
      refine ⟨v, ?_, hus⟩
      rw [List.flatMap_cons, List.append_assoc, ← hv, List.append_assoc]
      exact hsplit

/-- A run of tokens at the start of a text. -/
theorem Lexes.stands (h : Lexes cs (ts ++ us)) : Stands cs (spanned ts) := by
  obtain ⟨r, hcs, -⟩ := h.exists_append
  cases ts with
  | nil => exact ⟨cs, .refl cs⟩
  | cons t ts =>
    have hblank : ∀ c ∈ t.before, c ≠ '\\' := by
      cases h
      rintro c hc rfl
      cases List.mem_takeWhile_imp hc
    rw [List.flatMap_cons, List.append_assoc, List.append_assoc] at hcs
    refine ⟨r, ?_⟩
    rw [hcs, spanned, List.append_assoc]
    exact cut_append (getLast?_ne hblank) _

/-- What stands behind a token that does not end in a backslash. -/
theorem Lexes.cut (h : Lexes cs (ts ++ k :: us)) {u : List Char} {c : Char} (hk : k.text = u ++ [c])
    (hc : c ≠ '\\') : ∃ r, Cut cs r ∧ Lexes r us := by
  have hsplit : ts ++ k :: us = (ts ++ [k]) ++ us := by simp
  rw [hsplit] at h
  obtain ⟨r, rfl, hr⟩ := h.exists_append
  refine ⟨r, cut_append ?_ r, hr⟩
  rw [List.flatMap_append, List.flatMap_singleton, hk, ← List.append_assoc, ← List.append_assoc,
    List.getLast?_concat]
  exact fun h => hc (Option.some.inj h)

end

end ClauseToken

open ClauseToken

/-! ## Clauses -/

/-- The operands of a clause stand in a text. -/
structure Clause.StandsIn (cs : List Char) (c : Clause) : Prop where
  pattern : Stands cs c.pattern.toList
  iterable : Stands cs c.iterable.toList
  condition : ∀ test, c.condition = some test → Stands cs test.toList

theorem Clause.StandsIn.of_cut {cs r : List Char} {c : Clause} (hcut : Cut cs r) (h : c.StandsIn r) :
    c.StandsIn cs where
  pattern := h.pattern.of_cut hcut
  iterable := h.iterable.of_cut hcut
  condition test htest := (h.condition test htest).of_cut hcut

section

variable {cs : List Char} {segment tail rest before after : List ClauseToken} {p : Parts}
  {condition : Option (List ClauseToken)}

theorem ClauseToken.Lexes.stands_text (h : Lexes cs (before ++ after)) :
    Stands cs (spannedText before).toList := by
  rw [spannedText, String.toList_ofList]
  exact h.stands

theorem ClauseToken.Condition.stands (h : Condition tail condition rest) (hcs : Lexes cs (tail ++ after)) :
    ∀ test, condition.map spannedText = some test → Stands cs test.toList := by
  rintro test htest
  cases h with
  | absent => cases htest
  | @present k o c inside rest hk ho hc hinside hne =>
    cases htest
    have hopen : Lexes cs ([k] ++ o :: (inside ++ (c :: rest ++ after))) := by simpa using hcs
    obtain ⟨r, hcut, hr⟩ := hopen.cut (u := []) (text_eq ho) (by decide)
    exact hr.stands_text.of_cut hcut

theorem ClauseToken.Splits.standsIn (h : Splits segment p) (hcs : Lexes cs (segment ++ after)) :
    p.clause.StandsIn cs := by
  cases h with
  | @intro o k c pattern iterable tail remainder condition ho hpattern hpne hquiet hk hiterable hine
      hc hcondition =>
    have hopen : Lexes cs ([] ++ o :: (pattern ++ (k :: (iterable ++ (c :: (tail ++ after)))))) := by
      simpa using hcs
    obtain ⟨r, hcut, hr⟩ := hopen.cut (u := []) (text_eq ho) (by decide)
    have hkeyword : k.text = ['o'] ++ ['f'] := text_of_isKeyword hk
    obtain ⟨s, hcut', hs⟩ := hr.cut hkeyword (by decide)
    have hclose : c.text = [] ++ [')'] := text_eq hc
    obtain ⟨q, hcut'', hq⟩ := hs.cut hclose (by decide)
    exact
      { pattern := hr.stands_text.of_cut hcut
        iterable := hs.stands_text.of_cut (hcut.trans hcut')
        condition := fun test htest =>
          (hcondition.stands hq test htest).of_cut ((hcut.trans hcut').trans hcut'') }

end

/-- The operands of a comprehension stand in its text. -/
theorem Comprehension.stands_of_parse {strict : Bool} {raw : String} {c : Comprehension}
    (h : (Comprehension.parse strict raw).result = .ok c) :
    Stands raw.toList c.yield.toList ∧ ∀ clause ∈ c.clauses, clause.StandsIn raw.toList := by
  obtain ⟨head, ps, hts, hne, hpsne, hhead, hps⟩ := exists_loops h
  have hlexes : Lexes raw.toList (head ++ loopTokens ps) := tokens?_eq_some.1 hts
  rw [parse_of_loops hts hne hpsne hhead hps] at h
  refine ⟨?_, ?_⟩
  · rw [yield_of_addSegments h]
    exact hlexes.stands_text
  · refine forall_addSegments (List.forall_mem_map.2 fun p hp clause hclause => ?_)
      (fun _ hmem => absurd hmem List.not_mem_nil) h
    obtain ⟨before, after, rfl⟩ := List.append_of_mem hp
    have hsplit : head ++ loopTokens (before ++ p :: after) =
        (head ++ loopTokens before) ++ p.1 :: (p.2 ++ loopTokens after) := by
      simp [loopTokens]
    rw [hsplit] at hlexes
    have hfor : p.1.text = ['f', 'o'] ++ ['r'] := text_of_isKeyword (hps p hp).keyword
    obtain ⟨r, hcut, hr⟩ := hlexes.cut hfor (by decide)
    obtain ⟨parts, hparts, rfl⟩ := Clause.exists_splits hr.isRun.left (hps p hp).segment.balanced hclause
    exact (hparts.standsIn hr).of_cut hcut

end Comprehend
