import Comprehend.Syntax.Parser
import Mathlib.Data.List.Forall2

/-! # The outcome a reader prefers

A reader gives its outcomes in order, and what reads back a printed text is the first of them.
`Leads` says which one that is, and it goes through each of the ways that readers are put
together. -/

namespace Comprehend.Parser

open Comprehend.Text Comprehend.Lexeme

/-- The first outcome. -/
def Leads (os : Outcomes α) (x : α) (r : List Char) : Prop := ∃ more, os = (x, r) :: more

namespace Leads

variable {os : Outcomes α} {x : α} {r : List Char}

theorem one (x : α) (r : List Char) : Leads (Parser.one x r) x r := ⟨[], rfl⟩

theorem cons (x : α) (r : List Char) (more : Outcomes α) : Leads ((x, r) :: more) x r := ⟨more, rfl⟩

theorem giving (h : Leads os x r) (f : α → β) : Leads (os.giving f) (f x) r := by
  obtain ⟨more, rfl⟩ := h
  exact ⟨_, rfl⟩

theorem andThen {f : α → List Char → Outcomes β} {y : β} {t : List Char} (h : Leads os x r)
    (hf : Leads (f x r) y t) : Leads (os.andThen f) y t := by
  obtain ⟨more, rfl⟩ := h
  obtain ⟨others, hf⟩ := hf
  refine ⟨others ++ Outcomes.andThen more f, ?_⟩
  rw [Outcomes.andThen, List.flatMap_cons, hf]
  rfl

theorem closedBy {spelling : String} {t : List Char} (h : Leads os x r)
    (hm : mark spelling r = some t) : Leads (os.closedBy spelling) x t := by
  refine h.andThen ?_
  rw [hm]
  exact one x t

theorem ne_nil (h : Leads os x r) : os ≠ [] := by
  obtain ⟨more, rfl⟩ := h
  exact List.cons_ne_nil _ _

/-- What comes first comes first in a longer list. -/
theorem of_isPrefix {os' : Outcomes α} (h : Leads os x r) (hos : os <+: os') : Leads os' x r := by
  obtain ⟨more, rfl⟩ := h
  obtain ⟨others, rfl⟩ := hos
  exact ⟨more ++ others, rfl⟩

end Leads

/-! ## Blanks -/

@[simp] theorem skipBlanks_space (cs : List Char) : skipBlanks (' ' :: cs) = skipBlanks cs := rfl

@[simp] theorem mark_space (spelling : String) (cs : List Char) :
    mark spelling (' ' :: cs) = mark spelling cs := rfl

/-- A blank before an expression, a pattern or a part of one is passed over. -/
structure SkipsBlanks (fuel : Nat) (cs : List Char) : Prop where
  expression : expression fuel (' ' :: cs) = expression fuel cs
  arrowHead : arrowHead fuel (' ' :: cs) = arrowHead fuel cs
  ternary : ternary fuel (' ' :: cs) = ternary fuel cs
  joined : ∀ level, joined fuel level (' ' :: cs) = joined fuel level cs
  power : power fuel (' ' :: cs) = power fuel cs
  unary : unary fuel (' ' :: cs) = unary fuel cs
  update : update fuel (' ' :: cs) = update fuel cs
  operand : operand fuel (' ' :: cs) = operand fuel cs
  primary : primary fuel (' ' :: cs) = primary fuel cs
  element : element fuel (' ' :: cs) = element fuel cs
  objectMember : objectMember fuel (' ' :: cs) = objectMember fuel cs
  patternElement : patternElement fuel (' ' :: cs) = patternElement fuel cs
  bindingTarget : bindingTarget fuel (' ' :: cs) = bindingTarget fuel cs
  objectPatternItem : objectPatternItem fuel (' ' :: cs) = objectPatternItem fuel cs

theorem skipsBlanks (fuel : Nat) (cs : List Char) : SkipsBlanks fuel cs := by
  induction fuel with
  | zero => constructor <;> intros <;> rfl
  | succ fuel ih =>
    have plain : plainName (' ' :: cs) = plainName cs := rfl
    have unaryAt : unaryAt (' ' :: cs) = unaryAt cs := rfl
    have updateAt : updateAt (' ' :: cs) = updateAt cs := rfl
    constructor
    · simp only [Parser.expression, ih.arrowHead, ih.ternary]
    · simp only [Parser.arrowHead, mark_space, plain]
    · simp only [Parser.ternary, ih.joined]
    · intro level
      simp only [Parser.joined, ih.joined, ih.power]
    · simp only [Parser.power, unaryAt, ih.unary, ih.update]
    · simp only [Parser.unary, unaryAt, ih.update]
    · simp only [Parser.update, updateAt, ih.operand]
    · simp only [Parser.operand, skipBlanks_space, ih.primary]
    · simp only [Parser.primary, skipBlanks_space]
    · simp only [Parser.element, mark_space, ih.expression]
    · simp only [Parser.objectMember, mark_space, skipBlanks_space]
    · simp only [Parser.patternElement, mark_space, ih.bindingTarget]
    · simp only [Parser.bindingTarget, mark_space, plain]
    · simp only [Parser.objectPatternItem, mark_space, skipBlanks_space]

/-! ## Lists -/

/-- Texts with commas between. -/
def commas : List (List Char) → List Char
  | [] => []
  | [u] => u
  | u :: us => u ++ ',' :: ' ' :: commas us

theorem commas_cons_cons (u v : List Char) (us : List (List Char)) :
    commas (u :: v :: us) = u ++ ',' :: ' ' :: commas (v :: us) := rfl

/-- Whether an item of a list can end here: nothing is left, or a comma or a closing bracket comes
next. -/
def closes (cs : List Char) : Bool :=
  match skipBlanks cs with
  | [] => true
  | c :: _ => ",)]\x7d".toList.contains c

theorem mark_of_closes {rest : List Char} (h : closes rest = true) {s : String} {a : Char}
    {as : List Char} (hs : s.toList = a :: as) (ha : ",)]\x7d".toList.contains a = false) :
    mark s rest = none := by
  rw [mark, after, hs]
  unfold closes at h
  split at h
  · next hr =>
    rw [hr]
    rfl
  · next c cs hr =>
    have : a ≠ c := by
      rintro rfl
      rw [ha] at h
      cases h
    simp [hr, List.isPrefixOf?, this]

theorem closes_comma (cs : List Char) : closes (',' :: cs) = true := rfl

/-- An item that is read wherever a list can go on or end. -/
def ReadsItem (item : List Char → Outcomes α) (u : List Char) (x : α) : Prop :=
  ∀ rest, closes rest = true → Leads (item (u ++ rest)) x rest

theorem items_space {item : List Char → Outcomes α} (hb : ∀ cs, item (' ' :: cs) = item cs)
    (more : Nat) (cs : List Char) : items item more (' ' :: cs) = items item more cs := by
  cases more with
  | zero => rfl
  | succ more => rw [items, items, hb]

theorem Leads.items {item : List Char → Outcomes α} (hb : ∀ cs, item (' ' :: cs) = item cs)
    {us : List (List Char)} {xs : List α} {u : List Char} {x : α}
    (h : List.Forall₂ (ReadsItem item) (u :: us) (x :: xs)) {more : Nat} (hm : us.length < more)
    {rest : List Char} (hr : closes rest = true) (hc : mark "," rest = none) :
    Leads (items item more (commas (u :: us) ++ rest)) (x :: xs) rest := by
  induction us generalizing u x xs more with
  | nil =>
    obtain ⟨more, rfl⟩ : ∃ k, more = k + 1 := ⟨more - 1, by omega⟩
    cases h with
    | cons hu hus =>
      cases hus
      refine (hu rest hr).andThen ?_
      rw [hc]
      exact one [x] rest
  | cons v us ih =>
    obtain ⟨more, rfl⟩ : ∃ k, more = k + 1 := ⟨more - 1, by omega⟩
    cases h with
    | @cons _ _ _ xs hu hus =>
      cases xs with
      | nil => cases hus
      | cons y xs =>
        have hm : us.length < more := by simpa using hm
        have next := ih hus hm
        rw [commas_cons_cons, List.append_assoc, List.cons_append, List.cons_append]
        refine (hu _ (closes_comma _)).andThen ?_
        have hmark (cs : List Char) : mark "," (',' :: cs) = some cs := rfl
        rw [hmark]
        simp only [items_space hb]
        obtain ⟨others, hothers⟩ := next
        simp only [hothers]
        exact ⟨_, rfl⟩

/-- A mark does not stand at a text that starts with another character. -/
theorem mark_cons_of_ne {s : String} {a c : Char} {as cs : List Char} (hs : s.toList = a :: as)
    (hb : isBlank c = false) (hne : a ≠ c) : mark s (c :: cs) = none := by
  have hskip : skipBlanks (c :: cs) = c :: cs := by
    rw [skipBlanks, List.dropWhile_cons, hb]
    rfl
  rw [mark, hskip, after, hs]
  simp [List.isPrefixOf?, hne]

/-- Whether an item of a list can start with a character. -/
def opensItem (c : Char) : Bool := !isSpace c && !",)]\x7d".toList.contains c

/-- A text that starts like an item of a list. -/
def OpensItem (u : List Char) : Prop := ∃ c cs, u = c :: cs ∧ opensItem c = true

theorem OpensItem.append {u : List Char} (h : OpensItem u) (rest : List Char) :
    OpensItem (u ++ rest) := by
  obtain ⟨c, cs, rfl, hc⟩ := h
  exact ⟨c, cs ++ rest, rfl, hc⟩

theorem OpensItem.mark_eq_none {u : List Char} (h : OpensItem u) {spelling : String}
    (hs : spelling ∈ [",", ")", "]", "\x7d"]) : mark spelling u = none := by
  obtain ⟨c, cs, rfl, hc⟩ := h
  simp only [opensItem, Bool.and_eq_true, Bool.not_eq_true'] at hc
  have hblank : isBlank c = false := Bool.eq_false_iff.2 fun hb => by
    simp [isSpace_of_isBlank hb] at hc
  have hne (a : Char) (ha : ",)]\x7d".toList.contains a = true) : a ≠ c := by
    rintro rfl
    rw [hc.2] at ha
    cases ha
  simp only [List.mem_cons, List.not_mem_nil, or_false] at hs
  rcases hs with rfl | rfl | rfl | rfl
  · exact mark_cons_of_ne rfl hblank (hne ',' rfl)
  · exact mark_cons_of_ne rfl hblank (hne ')' rfl)
  · exact mark_cons_of_ne rfl hblank (hne ']' rfl)
  · exact mark_cons_of_ne rfl hblank (hne '\x7d' rfl)

theorem length_le_commas (u : List Char) (us : List (List Char)) :
    us.length ≤ (commas (u :: us)).length := by
  induction us generalizing u with
  | nil => exact Nat.zero_le _
  | cons v us ih =>
    have := ih v
    simp only [commas_cons_cons, List.length_append, List.length_cons] at *
    omega

/-- What can stand in front of a list: nothing or a blank. -/
def Gap (gap : List Char) : Prop := gap = [] ∨ gap = [' ']

theorem Gap.nil : Gap [] := .inl rfl

theorem Gap.mark {gap : List Char} (hg : Gap gap) (spelling : String) (cs : List Char) :
    mark spelling (gap ++ cs) = mark spelling cs := by
  rcases hg with rfl | rfl <;> rfl

theorem opensItem_commas {u : List Char} {us : List (List Char)} (h : OpensItem u) :
    OpensItem (commas (u :: us)) := by
  cases us with
  | nil => exact h
  | cons v us => exact h.append _

section

variable {item : List Char → Outcomes α} {us : List (List Char)} {xs : List α} {close : String}
  {gap rest k : List Char}

theorem items_gap (hg : Gap gap) (hb : ∀ cs, item (' ' :: cs) = item cs) (more : Nat)
    (cs : List Char) : items item more (gap ++ cs) = items item more cs := by
  rcases hg with rfl | rfl
  · rfl
  · exact items_space hb more cs

theorem Leads.items_gap (hg : Gap gap) (hb : ∀ cs, item (' ' :: cs) = item cs) {u : List Char}
    (h : List.Forall₂ (ReadsItem item) (u :: us) xs) (hr : closes rest = true)
    (hc : Parser.mark "," rest = none) :
    Leads (Parser.items item ((gap ++ (commas (u :: us) ++ rest)).length + 1)
      (gap ++ (commas (u :: us) ++ rest))) xs rest := by
  have hlen := length_le_commas u us
  cases xs with
  | nil => cases h
  | cons x xs =>
    rw [Parser.items_gap hg hb]
    refine Leads.items hb h ?_ hr hc
    simp only [List.length_append]
    omega

theorem Leads.itemsTo (hclose : close ∈ [",", ")", "]", "\x7d"]) (hg : Gap gap)
    (hb : ∀ cs, item (' ' :: cs) = item cs) (h : List.Forall₂ (ReadsItem item) us xs)
    (ho : ∀ u ∈ us, OpensItem u) (hr : closes rest = true) (hc : Parser.mark "," rest = none)
    (hk : Parser.mark close rest = some k) :
    Leads (Parser.itemsTo close item (gap ++ (commas us ++ rest))) xs k := by
  rw [Parser.itemsTo, hg.mark]
  cases us with
  | nil =>
    cases h
    rw [commas, List.nil_append, hk]
    exact .one [] k
  | cons u us =>
    have opens : OpensItem (commas (u :: us) ++ rest) :=
      (opensItem_commas (ho u (by simp))).append rest
    rw [opens.mark_eq_none hclose]
    exact (Leads.items_gap hg hb h hr hc).closedBy hk

theorem Leads.itemsToSpare (hclose : close ∈ [",", ")", "]", "\x7d"]) (hg : Gap gap)
    (hb : ∀ cs, item (' ' :: cs) = item cs) (h : List.Forall₂ (ReadsItem item) us xs)
    (ho : ∀ u ∈ us, OpensItem u) (hr : closes rest = true) (hc : Parser.mark "," rest = none)
    (hk : Parser.mark close rest = some k) :
    Leads (Parser.itemsToSpare close item (gap ++ (commas us ++ rest))) xs k := by
  rw [Parser.itemsToSpare, hg.mark, hg.mark]
  cases us with
  | nil =>
    cases h
    rw [commas, List.nil_append, hk]
    exact .one [] k
  | cons u us =>
    have opens : OpensItem (commas (u :: us) ++ rest) :=
      (opensItem_commas (ho u (by simp))).append rest
    rw [opens.mark_eq_none hclose, opens.mark_eq_none (by simp)]
    refine (Leads.items_gap hg hb h hr hc).andThen ?_
    rw [hc, Option.getD_none, hk]
    exact .one xs k

end

end Comprehend.Parser
