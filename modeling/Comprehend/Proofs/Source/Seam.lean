import Comprehend.Proofs.Chain.Guarded
import Comprehend.Proofs.Source.Expanded
import Comprehend.Proofs.Source.Replaced

/-! # The seams of an expansion

Program text is put in the place of an occurrence, next to the characters that the occurrence stood
next to. A tag has nothing in front of it that a name could go on from, but a marker may have, since
a comment parts words by itself. Whether a word then runs into the program text depends on how that
starts: with a bracket, or in one dialect with the name of the library. It always ends with a
parenthesis, so nothing runs on behind it. -/

namespace Comprehend

open Comprehend.Text Comprehend.Lexeme Comprehend.Layout

/-- Two characters side by side that belong to one word. -/
def Fuses (before after : Option Char) : Prop :=
  ∃ c ∈ before, ∃ d ∈ after, isNamePart c = true ∧ isNamePart d = true

theorem not_fuses_of_left {before after : Option Char}
    (h : ∀ c ∈ before, isNamePart c = false) : ¬Fuses before after := by
  rintro ⟨c, hc, d, -, hpart, -⟩
  rw [h c hc] at hpart
  cases hpart

theorem not_fuses_of_right {before after : Option Char}
    (h : ∀ d ∈ after, isNamePart d = false) : ¬Fuses before after := by
  rintro ⟨c, -, d, hd, -, hpart⟩
  rw [h d hd] at hpart
  cases hpart

/-! ## How program text starts -/

/-- A text that starts with a character of no word. -/
def StartsApart (u : List Char) : Prop := ∃ c w, u = c :: w ∧ isNamePart c = false

section

variable {style : ChainStyle} {dialect : Dialect} {op : Combinator} {ps qs : List Piece}
  {u : List Char}

theorem StartsApart.append (h : StartsApart u) (v : List Char) : StartsApart (u ++ v) := by
  obtain ⟨c, w, rfl, hc⟩ := h
  exact ⟨c, w ++ v, rfl, hc⟩

theorem startsApart_parenthesized (ps : List Piece) : StartsApart (chars (parenthesized ps)) := by
  rw [chars_parenthesized]
  exact ⟨'(', _, rfl, rfl⟩

theorem exists_chars_cons {s : String} {c : Char} {t : List Char} (h : s.toList = c :: t)
    (ps : List Piece) : ∃ w, chars (.text s :: ps) = c :: w := by
  rw [chars_text, h]
  exact ⟨_, rfl⟩

/-- A method call starts as what it is called on, or with the list that flattens it. -/
theorem startsApart_link (hd : style.dialect ≠ .lodash) (h : StartsApart (chars ps)) :
    StartsApart (chars (link style op ps qs)) := by
  have hcall (method : String) : StartsApart (chars (methodCall method ps qs)) := by
    rw [methodCall, List.append_assoc, chars_append]
    exact h.append _
  obtain ⟨dialect, parenthesize⟩ := style
  cases dialect with
  | es2019 => exact hcall _
  | es5 =>
    cases op with
    | flatMap =>
      obtain ⟨w, hw⟩ := exists_chars_cons (s := "[].concat.apply([], ") rfl
        (methodCall "map" ps qs ++ [.text ")"])
      exact ⟨'[', w, hw, rfl⟩
    | filter | map => exact hcall _
  | lodash => exact absurd rfl hd

/-- With its sources in parentheses, a chain of method calls starts with a bracket. -/
theorem startsApart_text (hd : dialect ≠ .lodash) (g : Node) (h : g.isChain = true) :
    StartsApart (text (some ⟨dialect, true⟩) g) := by
  cases g with
  | chain op x param body =>
    rw [text, pieces_chain]
    refine startsApart_link hd ?_
    by_cases hchain : x.isChain = true
    · rw [source, if_pos hchain, chars_slot_zero]
      exact startsApart_text hd x hchain
    · rw [source, if_neg hchain, if_pos rfl]
      exact startsApart_parenthesized _
  | _ => cases h

theorem exists_text_lodash (g : Node) (h : g.isChain = true) (parenthesize : Bool) :
    ∃ w, text (some ⟨.lodash, parenthesize⟩) g = '_' :: w := by
  cases g with
  | chain op x param body =>
    rw [text, pieces_chain]
    exact exists_chars_cons (t := '.' :: op.method.toList ++ ['(']) (by simp) _
  | _ => cases h

end

/-! ## What an occurrence stands behind -/

theorem isNamePart_of_mayPrecedeTag {c : Char} (h : Surface.mayPrecedeTag c = true) :
    isNamePart c = false := by
  simp only [Surface.mayPrecedeTag, Bool.not_eq_true', Bool.or_eq_false_iff,
    beq_eq_false_iff_ne] at h
  obtain ⟨⟨hword, hdollar⟩, -⟩ := h
  refine Bool.eq_false_iff.2 fun hpart => ?_
  have hascii : c.toNat < 128 := by
    rcases isNamePart_iff_toNat.1 hpart with h | h | rfl | rfl
    · omega
    · omega
    · decide
    · decide
  rw [isWord_of_ascii hascii] at hword
  rw [isNamePart, hword, Bool.false_or, beq_iff_eq] at hpart
  exact hdollar hpart

theorem Occurrence.isNamePart_before {surfaces : List Surface} {text : String} {o : Occurrence}
    (h : o ∈ Occurrence.find surfaces text) (hs : o.surface = .taggedTemplate) :
    ∀ c ∈ (text.toList.take o.start).getLast?, isNamePart c = false := by
  obtain ⟨surface, -, ho⟩ := exists_candidates_of_mem_listed (mem_listed_of_mem_find h)
  obtain ⟨m, r, hm, heq⟩ := Surface.matchAt_of_mem_candidates ho
  obtain rfl : surface = .taggedTemplate := by
    rw [heq] at hs
    exact hs
  rw [Nat.sub_zero] at hm
  obtain ⟨hbefore, -⟩ := Surface.tagged_eq_some hm
  intro c hc
  refine isNamePart_of_mayPrecedeTag ?_
  rw [Surface.endOf, Option.or_none, Option.mem_def.1 hc] at hbefore
  exact hbefore

namespace Expansion

variable {settings : ExpansionSettings} {o : Occurrence} {code : String}

/-- Program text is that of a chain. -/
theorem exists_chain_of_code? (h : (code? settings o).result = .ok (some code)) :
    ∃ g : Node, g.isChain = true ∧
      code.toList = text (some ⟨settings.style.dialect, o.surface.parenthesizesSources⟩) g := by
  obtain ⟨chain, hchain, hcode⟩ := bind_eq_ok h
  cases chain with
  | none => cases hcode
  | some g =>
    obtain ⟨c, hg⟩ := chain?_ok hchain
    refine ⟨g, isChain_of_generate hg, ?_⟩
    simp only [passingOver] at hcode
    split at hcode
    · next out hout =>
      cases hcode
      exact toList_of_settle hout
    · split_ifs at hcode <;> cases hcode

/-- At a seam a word runs into the program text exactly where it stands in front of a marker and the
dialect starts with the name of the library; nothing ever runs on behind the program text. -/
theorem source_seams {text : String} (ho : o ∈ Occurrence.find settings.surfaces text)
    (h : (code? settings o).result = .ok (some code)) :
    (Fuses (text.toList.take o.start).getLast? code.toList.head? ↔
      settings.style.dialect = .lodash ∧ o.surface = .markedLiteral ∧
        ∃ c ∈ (text.toList.take o.start).getLast?, isNamePart c = true) ∧
    ¬Fuses code.toList.getLast? (text.toList.drop o.stop).head? := by
  obtain ⟨g, hg, hcode⟩ := exists_chain_of_code? h
  constructor
  · constructor
    · intro hfuses
      have hmarked : o.surface = .markedLiteral := by
        cases hs : o.surface with
        | markedLiteral => rfl
        | taggedTemplate =>
          exact absurd hfuses (not_fuses_of_left (Occurrence.isNamePart_before ho hs))
      have hlodash : settings.style.dialect = .lodash := by
        by_contra hd
        rw [hmarked] at hcode
        obtain ⟨d, w, hw, hpart⟩ := startsApart_text hd g hg
        refine not_fuses_of_right (fun e he => ?_) hfuses
        rw [hcode.trans hw] at he
        cases he
        exact hpart
      obtain ⟨c, hc, -, -, hpart, -⟩ := hfuses
      exact ⟨hlodash, hmarked, c, hc, hpart⟩
    · rintro ⟨hlodash, -, c, hc, hpart⟩
      rw [hlodash] at hcode
      obtain ⟨w, hw⟩ := exists_text_lodash g hg o.surface.parenthesizesSources
      exact ⟨c, hc, '_', by rw [hcode, hw]; rfl, hpart, rfl⟩
  · obtain ⟨w, hw⟩ := Chain.exists_text_of_isChain hg
    refine not_fuses_of_left fun c hc => ?_
    rw [hcode, hw, List.getLast?_concat] at hc
    cases hc
    rfl

end Expansion

theorem Expansion.source_seams_returned :
    let settings : ExpansionSettings :=
      ⟨{ Settings.standard with style := ⟨.lodash, false⟩ }, Surface.all, false⟩
    let text := "return/*list*/\x60x for (x of xs)\x60"
    Fuses (text.toList.take 6).getLast? "_.map((xs), x => x)".toList.head? ∧
      (Expansion.source settings text).result = .ok "return_.map((xs), x => x)" := by
  intro settings text
  let o : Occurrence := ⟨.markedLiteral, 6, 31, "x for (x of xs)"⟩
  have hfound : Occurrence.find settings.surfaces text = [o] := by
    rw [Occurrence.find, List.mergeSort_of_pairwise (by decide +kernel)]
    decide +kernel
  have ho : o ∈ Occurrence.find settings.surfaces text := hfound ▸ List.mem_cons_self
  have hcode : (Expansion.code? settings o).result = .ok (some "_.map((xs), x => x)") := by
    decide +kernel
  refine ⟨(Expansion.source_seams ho hcode).1.2 ⟨rfl, rfl, 'n', by decide, rfl⟩, ?_⟩
  rw [Expansion.source, hfound]
  decide +kernel

end Comprehend
