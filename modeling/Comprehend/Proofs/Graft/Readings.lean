import Comprehend.Proofs.Graft.Expression
import Comprehend.Proofs.Syntax.Redundant

/-! # Whole texts with templates replaced

A text with some of its templates replaced has the readings of the text, each with its templates
replaced, as long as no literal of a reading is spelled like a stretch of the text that a tag stands
in and a reading has no more templates to replace than the text. -/

namespace Comprehend

open Comprehend.Text Comprehend.Lexeme Comprehend.Parser

namespace Parser

/-- More fuel than a text needs makes no difference. -/
theorem expression_of_fuel {cs : List Char} {fuel : Nat} (h : fuelFor cs ≤ fuel) :
    expression fuel cs = expression (fuelFor cs) cs := by
  have hagree {k : Nat} (hk : fuelFor cs ≤ k) :
      (expression fuel (cs ++ [')'])).leaving [')'] = (expression k cs).map (behind [')']) :=
    ((readersAgree closing_paren fuel k).expression (n := cs.length + 1) (by
      rw [fuelFor, depthPerChar] at h hk
      omega)).leaving cs (Nat.lt_succ_self _)
  have hbehind : Function.Injective (behind [')'] : Node × List Char → Node × List Char) := by
    intro p q heq
    obtain ⟨hnode, hrest⟩ := Prod.mk.inj heq
    exact Prod.ext hnode (List.append_cancel_right hrest)
  refine List.map_injective_iff.2 hbehind ?_
  rw [← hagree h, hagree (Nat.le_refl _)]

/-- A text that starts with nothing an expression starts with. -/
structure Unread (cs : List Char) : Prop where
  unary : unaryAt cs = none
  update : updateAt cs = none
  new : keyword "new" (skipBlanks cs) = none
  primary (fuel : Nat) : Parser.primary fuel cs = []
  paren : mark "(" cs = none
  name : plainName cs = none

theorem unread_of_blanks {cs : List Char} (hu : skipBlanks cs = []) : Unread cs where
  unary := by rw [← Grafting.unaryAt_skipBlanks, hu]; rfl
  update := by rw [← Grafting.updateAt_skipBlanks, hu]; rfl
  new := by rw [hu]; rfl
  primary fuel := by
    cases fuel with
    | zero => rfl
    | succ fuel => rw [Parser.primary, hu]
  paren := by rw [mark, hu]; rfl
  name := by rw [plainName, hu]; rfl

/-- White space that is no blank of the grammar starts nothing either. -/
theorem unread_of_space {cs u : List Char} {c : Char} (hu : skipBlanks cs = c :: u)
    (hspace : isSpace c = true) (hblank : isBlank c = false) : Unread cs := by
  have hne {d : Char} (hd : isSpace d = false) : d ≠ c := by
    rintro rfl
    rw [hspace] at hd
    cases hd
  have hname : isNameStart c = false := Bool.eq_false_iff.2 fun hname => by
    rw [isSpace_eq_false_of_isNamePart (isNamePart_of_isNameStart hname)] at hspace
    cases hspace
  have hdigit : c.isDigit = false := Bool.eq_false_iff.2 fun hdigit => by
    rw [isSpace_eq_false_of_isNamePart (isNamePart_of_isDigit c hdigit)] at hspace
    cases hspace
  have hmem {ds : List Char} (hds : ds.all (fun d => !isSpace d) = true) : c ∉ ds := fun hc =>
    hne (by simpa using List.all_eq_true.1 hds c hc) rfl
  obtain ⟨hunary, hupdate⟩ := unaryAt_of_ne hname hblank (hmem (by decide)) u
  refine ⟨?_, ?_, ?_, fun fuel => ?_, ?_, ?_⟩
  · rwa [← Grafting.unaryAt_skipBlanks, hu]
  · rwa [← Grafting.updateAt_skipBlanks, hu]
  · rw [hu]
    exact keyword_of_ne rfl (hne (by decide)) u
  · cases fuel with
    | zero => rfl
    | succ fuel =>
      rw [primary_of_plain hu (hmem (by decide)), word_of_ne hname,
        number_of_ne hdigit (Ne.symm (hne (by decide)))]
      rfl
  · rw [mark, hu]
    exact after_of_ne rfl (hne (by decide)) u
  · rw [plainName, hu, word_of_ne hname]
    rfl

theorem Unread.expression {cs : List Char} (h : Unread cs) (fuel : Nat) :
    Parser.expression fuel cs = [] := by
  have hhead (fuel : Nat) : arrowHead fuel cs = [] := by
    cases fuel with
    | zero => rfl
    | succ fuel =>
      rw [arrowHead, h.paren]
      simp only [h.name]
  cases fuel with
  | zero => rfl
  | succ fuel =>
    rw [Parser.expression, hhead]
    exact (noOperand h.unary h.update h.new h.primary fuel).ternary

theorem unread_of_spaces {cs : List Char} (h : ∀ c ∈ cs, isSpace c = true) : Unread cs := by
  cases hu : skipBlanks cs with
  | nil => exact unread_of_blanks hu
  | cons c u =>
    have hmem : c ∈ cs := (List.dropWhile_suffix isBlank).mem (show c ∈ skipBlanks cs by simp [hu])
    have hfirst := Grafting.startsWith_skipBlanks cs
    rw [hu] at hfirst
    exact unread_of_space hu (h c hmem) hfirst

theorem isBlankText_of_mem_readings {text : String} {x : Node} (h : x ∈ readings text) :
    isBlankText text = false := by
  refine Bool.eq_false_iff.2 fun hblank => ?_
  obtain ⟨r, ho, -⟩ := mem_upTo.1 h
  rw [(unread_of_spaces (List.all_eq_true.1 hblank)).expression] at ho
  cases ho

end Parser

namespace Grafting

variable {G : Grafting} {gs : List Graft} {text text' : String}

/-- Where the one text ends but for blanks, so does the other. -/
theorem Place.isBlankRest {F : List Char → Prop} {r r' : List Char} (h : G.Place F gs r r')
    (hr : isBlankRest r = true) : gs = [] ∧ isBlankRest r' = true := by
  have hnil : skipBlanks r = [] := List.isEmpty_iff.1 hr
  rcases h.plains_or_tagged with ⟨front, -, -, b, -, -, hc⟩ | ⟨front, -, b, -, hg⟩
  · rw [hnil] at hc
    generalize hu : skipBlanks r' = u' at hc
    cases hc with
    | nil hgs => exact ⟨hgs, by rw [Parser.isBlankRest, hu, List.isEmpty_nil]⟩
  · obtain ⟨w, hw⟩ := hg.tag
    rw [hnil] at hw
    cases hw

/-- What is read to the end of the text is read to the end of the other one. -/
theorem Image.whole {o o' : Node × List Char} (h : G.Image (PutNode G.put) gs o o')
    (ho : isBlankRest o.2 = true) (hcount : o.1.replacements G.put ≤ gs.length) :
    isBlankRest o'.2 = true ∧ o'.1 = o.1.replaced G.put := by
  obtain ⟨done, ahead, rfl, hput, hplace⟩ := h
  obtain ⟨rfl, hblank⟩ := hplace.isBlankRest ho
  exact ⟨hblank, hput.eq (by simpa using hcount)⟩

theorem not_lost_of_isBlankRest {x : Node} {r : List Char} (hr : Parser.isBlankRest r = true)
    (hx : ¬ G.Spoiled x) : ¬ G.Lost Stalled x r := fun hl =>
  hl.elim hx fun hstalled => hstalled.ne_nil (List.isEmpty_iff.1 hr)

section

variable (hat : G.At [] gs text.toList text'.toList)
include hat

theorem kept_expression :
    (expression (fuelFor text.toList) text.toList).Kept (OneWay G.text) (G.Lost Stalled)
      (G.Image (PutNode G.put) gs) (expression (fuelFor text'.toList) text'.toList) := by
  let fuel := fuelFor text'.toList + (fuelFor text.toList + Graft.weight gs)
  have hfuel : expression fuel text'.toList = expression (fuelFor text'.toList) text'.toList :=
    expression_of_fuel (Nat.le_add_right _ _)
  rw [← hfuel]
  exact (readersFollow G _ fuel).expression ⟨[], trivial, hat⟩ (Nat.le_add_left _ _)

variable (hx : ∀ x ∈ readings text, ¬ G.Spoiled x ∧ x.replacements G.put ≤ gs.length)
include hx

/-- The readings come again in their order, with the templates replaced. -/
theorem sublist_readings :
    List.Sublist ((readings text).map (Node.replaced G.put)) (readings text') := by
  refine (kept_expression hat).inOrder.upTo (fun o ho hblank => ?_) fun o ho o' hblank hi => ?_
  · exact not_lost_of_isBlankRest hblank (hx o.1 (mem_upTo.2 ⟨o.2, ho, hblank⟩)).1
  · exact hi.whole hblank (hx o.1 (mem_upTo.2 ⟨o.2, ho, hblank⟩)).2

/-- Where the text can be cut in one way only, its reading comes first. -/
theorem head?_readings (hway : OneWay text.toList) {t : Node} (ht : (readings text).head? = some t) :
    (readings text').head? = some (t.replaced G.put) := by
  have hmem : t ∈ readings text := List.mem_of_head? ht
  obtain ⟨r, ho, hblank⟩ := mem_upTo.1 hmem
  have hled := (kept_expression hat).led (hat.text ▸ hway)
  obtain ⟨o', more, hos', hi⟩ := hled.head ho (not_lost_of_isBlankRest hblank (hx t hmem).1)
  obtain ⟨hblank', heq⟩ := hi.whole hblank (hx t hmem).2
  rw [readings, hos', upTo_cons, if_pos hblank', List.head?_cons, heq]

end

end Grafting

end Comprehend
