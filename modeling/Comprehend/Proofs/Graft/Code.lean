import Comprehend.Proofs.Chain.Printed
import Comprehend.Proofs.Graft.Site
import Comprehend.Proofs.Syntax.Readers

/-! # What is put in for a template

A chain is put in as calls of methods, the last one closed by its parenthesis. Such a text is an
operand wherever a list-tagged template is one: it starts no arrow function and with no sign, nothing
in front of it runs into it, and what stands behind it goes on with the call. -/

namespace Comprehend

open Comprehend.Text Comprehend.Lexeme Comprehend.Parser Comprehend.Layout

namespace Parser

variable {u : List Char} {x : Node} {s : Nat}

/-- No operand starts with a character that a mark may go on with, but for the point of a number. -/
theorem heads_of_markTail {c : Char} (hc : c ∈ ">*?|&=<+-".toList) (fuel : Nat) (cs : List Char) :
    heads fuel (c :: cs) = [] := by
  have hplain : (">*?|&=<+-".toList.all fun d => !isBlank d && !isNameStart d && !d.isDigit &&
      d != '.' && d != 'n' && !(['(', '[', '\x7b', '/', '\x60', '\'', '"'].contains d)) = true := by
    decide
  have hplain := List.all_eq_true.1 hplain c hc
  simp only [Bool.and_eq_true, Bool.not_eq_true', bne_iff_ne, List.contains_eq_mem,
    decide_eq_false_iff_not] at hplain
  obtain ⟨⟨⟨⟨⟨hblank, hname⟩, hdigit⟩, hdot⟩, hn⟩, hquote⟩ := hplain
  have hskip : skipBlanks (c :: cs) = c :: cs := skipBlanks_of_ne hblank cs
  have hprimary : primary fuel (c :: cs) = [] := by
    cases fuel with
    | zero => rfl
    | succ fuel =>
      rw [primary_of_plain hskip hquote, word_of_ne hname, number_of_ne hdigit hdot]
      rfl
  have hnew : keyword "new" (skipBlanks (c :: cs)) = none := by
    rw [hskip, keyword, after_of_ne rfl (Ne.symm hn), Option.filter_none]
  rw [heads, hnew]
  simp only [hprimary]
  rfl

/-- What links may follow starts with no such character. -/
theorem Reads.not_markTail (h : Reads s u x) (hs : 18 ≤ s) :
    startsWith markTails.contains u = false := by
  obtain ⟨c, cs, rfl, -⟩ := h.item
  refine Bool.eq_false_iff.2 fun hc => ?_
  have hdot : (c == '.') = false := h.noDot hs
  have hmember : c ∈ '.' :: ">*?|&=<+-".toList := List.contains_iff_mem.1 hc
  rcases List.mem_cons.1 hmember with rfl | hmember
  · cases hdot
  · have hstarts : Starts Parser.links (c :: cs) x := h.links hs
    obtain ⟨k, x₀, r₀, -, ⟨more, hheads⟩, -⟩ :=
      @hstarts (32 * (c :: cs).length) [')'] rfl (Nat.le_add_right _ _)
    rw [List.cons_append, heads_of_markTail hmember] at hheads
    cases hheads

/-- A method call on what a text is read as stands for an operand anywhere. -/
theorem standsIn_methodCall (method : String) {us : List (List Char)} {xs : List Node}
    (hm : word method.toList = some (method.toList, [])) (hx : Reads s u x) (hs : 18 ≤ s)
    (hxs : List.Forall₂ (ReadsPart element) us xs) :
    StandsIn (u ++ '.' :: method.toList ++ '(' :: (commas us ++ [')']))
      (.call false (.member false x ⟨.propertyName, method⟩) xs) := by
  have hcall := reads_methodCall method hm hx hs hxs
  have hmember : Starts links (u ++ '.' :: method.toList)
      (.member false x (token .propertyName method.toList)) :=
    Starts.member walks_links (hx.links hs) hm
  rw [token_toList] at hmember
  have hbehind (rest : List Char) : u ++ '.' :: method.toList ++ '(' :: (commas us ++ [')']) ++ rest =
      u ++ '.' :: (method.toList ++ '(' :: (commas us ++ [')']) ++ rest) := by simp
  refine ⟨hcall.item, hcall.spread, fun fuel rest => ?_, fun rest => ?_, ?_,
    StartsBefore.call hmember (fun _ => rfl) hxs⟩
  · rw [hbehind]
    exact hx.noHead (by omega) rfl rfl
  · rw [hbehind]
    exact hx.noSign (by omega) rfl
  · obtain ⟨c, cs, rfl, -⟩ := hx.item
    exact hx.not_markTail hs

end Parser

/-- The text of a chain stands for an operand anywhere. -/
theorem Chain.Generated.standsIn {g : Node} (h : Generated g) (hchain : g.isChain = true)
    (hd : g.PlainOperands) (hclean : Clean (pieces (some ⟨.es2019, false⟩) g)) :
    StandsIn (text (some ⟨.es2019, false⟩) g)
      (g.spelled (Node.methodCall .propertyName .arrow)) := by
  cases h with
  | operand hx =>
    rw [hx.isChain_eq_false] at hchain
    cases hchain
  | @link op source body param hs hp hb =>
    obtain ⟨hds, hdp, hdb⟩ := hd.link
    rw [pieces_chain, clean_link, clean_source] at hclean
    obtain ⟨s, t, hreceiver, hsource, hcallback⟩ := reads_parts hp hdp hclean.2
      (hs.reads hds hclean.1) (hb.reads hdb (clean_arrowBody.1 hclean.2.callback))
    have hcall := standsIn_methodCall _ (word_method op) hsource (hreceiver rfl)
      (.cons hcallback.element.toReadsPart .nil)
    have htext : text (some ⟨.es2019, false⟩) (.chain op source param body) =
        chars (Layout.source ⟨.es2019, false⟩ source (pieces (some ⟨.es2019, false⟩) source)) ++
          '.' :: op.method.toList ++ '(' :: (commas [chars (callback ⟨.es2019, false⟩ param.isPattern
            (printedParam param) (Layout.arrowBody body (pieces (some ⟨.es2019, false⟩) body)))] ++ [')']) := by
      rw [text, pieces_chain]
      simp [Layout.link, methodCall, commas]
    rw [htext]
    exact hcall

end Comprehend
