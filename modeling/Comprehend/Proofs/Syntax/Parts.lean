import Comprehend.Proofs.Syntax.Opening

/-! # Parts in lists

Arguments, items, members and patterns stand in lists, each read up to the comma or the bracket that
comes next. -/

namespace Comprehend.Parser

open Comprehend.Text Comprehend.Lexeme

/-- A text that a reader of parts takes for a tree. -/
structure ReadsPart (part : Nat → List Char → Outcomes Node) (u : List Char) (x : Node) : Prop where
  opens : OpensItem u
  reads : ∀ ⦃fuel⦄, 32 * u.length < fuel → ReadsItem (part fuel) u x

/-- A part of an expression. Read as a part of a pattern, it is not run over. -/
structure ReadsOver (part pattern : Nat → List Char → Outcomes Node) (u : List Char) (x : Node) : Prop
    extends ReadsPart part u x where
  cover : ∀ fuel, CoversItem (pattern fuel) u

theorem length_le_of_mem_commas {u : List Char} {us : List (List Char)} (h : u ∈ us) :
    u.length ≤ (commas us).length := by
  induction us with
  | nil => cases h
  | cons v us ih =>
    cases us with
    | nil =>
      obtain rfl := List.mem_singleton.1 h
      exact Nat.le_refl _
    | cons w us =>
      rw [commas_cons_cons, List.length_append]
      rcases List.mem_cons.1 h with rfl | h
      · omega
      · have := ih h
        simp only [List.length_cons]
        omega

section

variable {part : Nat → List Char → Outcomes Node} {us : List (List Char)} {xs : List Node}

theorem readsItems (h : List.Forall₂ (ReadsPart part) us xs) {fuel : Nat}
    (hf : 32 * (commas us).length < fuel) : List.Forall₂ (ReadsItem (part fuel)) us xs := by
  have hlen : ∀ u ∈ us, 32 * u.length < fuel := fun u hu => by
    have := length_le_of_mem_commas hu
    omega
  clear hf
  induction h with
  | nil => exact .nil
  | cons hu _ ih =>
    exact .cons (hu.reads (hlen _ (by simp))) (ih fun v hv => hlen v (by simp [hv]))

theorem opensItems (h : List.Forall₂ (ReadsPart part) us xs) : ∀ u ∈ us, OpensItem u := by
  induction h with
  | nil => exact fun u hu => absurd hu (List.not_mem_nil)
  | cons hu _ ih => exact List.forall_mem_cons.2 ⟨hu.opens, ih⟩

variable {close : String} {gap rest k : List Char}

theorem Leads.partsTo (hclose : close ∈ [",", ")", "]", "\x7d"]) (hg : Gap gap)
    (hb : ∀ fuel cs, part fuel (' ' :: cs) = part fuel cs) (h : List.Forall₂ (ReadsPart part) us xs)
    {fuel : Nat} (hf : 32 * (commas us).length < fuel) (hr : closes rest = true)
    (hc : mark "," rest = none) (hk : mark close rest = some k) :
    Leads (Parser.itemsTo close (part fuel) (gap ++ (commas us ++ rest))) xs k :=
  .itemsTo hclose hg (hb fuel) (readsItems h hf) (opensItems h) hr hc hk

theorem Leads.partsToSpare (hclose : close ∈ [",", ")", "]", "\x7d"]) (hg : Gap gap)
    (hb : ∀ fuel cs, part fuel (' ' :: cs) = part fuel cs) (h : List.Forall₂ (ReadsPart part) us xs)
    {fuel : Nat} (hf : 32 * (commas us).length < fuel) (hr : closes rest = true)
    (hc : mark "," rest = none) (hk : mark close rest = some k) :
    Leads (Parser.itemsToSpare close (part fuel) (gap ++ (commas us ++ rest))) xs k :=
  .itemsToSpare hclose hg (hb fuel) (readsItems h hf) (opensItems h) hr hc hk

end

/-- The arguments of a call. -/
theorem Leads.arguments {us : List (List Char)} {xs : List Node}
    (h : List.Forall₂ (ReadsPart element) us xs) {fuel : Nat}
    (hf : 32 * (commas us).length < fuel) (rest : List Char) :
    Leads (Parser.itemsTo ")" (element fuel) (commas us ++ ')' :: rest)) xs rest :=
  Leads.partsTo (show ")" ∈ _ by simp) .nil (fun fuel cs => (skipsBlanks fuel cs).element) h hf
    rfl rfl rfl

/-! ## Parts of expressions -/

section

variable {level : Nat} {u : List Char} {x : Node}

theorem Reads.expression (h : Reads level u x) {fuel : Nat} {rest : List Char} (he : Ends 0 rest)
    (hf : 32 * u.length ≤ fuel) : Leads (expression fuel (u ++ rest)) x rest :=
  h.at' 0 (Nat.zero_le _) (by omega) he hf

theorem Reads.expression_space (h : Reads level u x) {fuel : Nat} {rest : List Char}
    (he : Ends 0 rest) (hf : 32 * u.length ≤ fuel) :
    Leads (Parser.expression fuel (' ' :: (u ++ rest))) x rest := by
  rw [(skipsBlanks _ _).expression]
  exact h.expression he hf

theorem Opens.coversElement (h : Opens level u) (fuel : Nat) : CoversItem (patternElement fuel) u := by
  intro rest hr o ho
  have he := Ends.of_closes hr
  cases fuel with
  | zero => cases ho
  | succ fuel =>
    rw [patternElement, h.spread] at ho
    obtain ⟨x, r, hx, ho⟩ := mem_andThen.1 ho
    have hcov := h.cover he.free _ hx
    cases fuel with
    | zero => cases ho
    | succ fuel =>
      rw [defaulted] at ho
      split at ho
      · next r' hm =>
        obtain ⟨y, hy, -⟩ := mem_giving.1 ho
        rcases hcov with rfl | hs
        · rw [mark_of_closes hr rfl rfl] at hm
          cases hm
        · rw [hs.default r' hm fuel] at hy
          cases hy
      · obtain rfl := List.mem_singleton.1 ho
        exact hcov

theorem Opens.coversSpread (h : Opens level u) (fuel : Nat) :
    CoversItem (patternElement fuel) ("...".toList ++ u) := by
  intro rest hr o ho
  cases fuel with
  | zero => cases ho
  | succ fuel =>
    have hm : mark "..." ("...".toList ++ u ++ rest) = some (u ++ rest) := rfl
    rw [patternElement, hm] at ho
    obtain ⟨y, hy, -⟩ := mem_giving.1 ho
    exact h.cover (Ends.of_closes hr).free (y, o.2) hy

theorem Reads.element (h : Reads level u x) : ReadsOver element patternElement u x where
  opens := h.item
  reads := by
    intro fuel hf rest hr
    obtain ⟨fuel, rfl⟩ : ∃ f, fuel = f + 1 := ⟨fuel - 1, by omega⟩
    rw [Parser.element, h.spread]
    exact h.expression (.of_closes hr) (by omega)
  cover := h.toOpens.coversElement

theorem Reads.spreadElement (h : Reads level u x) :
    ReadsOver Parser.element patternElement ("...".toList ++ u) (.spread x) where
  opens := ⟨'.', _, rfl, rfl⟩
  reads := by
    intro fuel hf rest hr
    obtain ⟨fuel, rfl⟩ : ∃ f, fuel = f + 1 := ⟨fuel - 1, by omega⟩
    have hm : mark "..." ("...".toList ++ u ++ rest) = some (u ++ rest) := rfl
    rw [Parser.element, hm]
    refine Leads.giving (h.expression (.of_closes hr) ?_) _
    simp at hf
    omega
  cover := h.toOpens.coversSpread

theorem plainName_eq_some {cs w r : List Char} (h : plainName cs = some (w, r)) :
    word (skipBlanks cs) = some (w, r) ∧ isReserved w = false := by
  obtain ⟨hw, hres⟩ := Option.filter_eq_some_iff.1 h
  exact ⟨hw, by simpa using hres⟩

theorem bindingTarget_of_plainName {cs w r : List Char} (h : plainName cs = some (w, r))
    (fuel : Nat) : bindingTarget (fuel + 1) cs = one (.bindingName (token .name w)) r := by
  obtain ⟨hw, -⟩ := plainName_eq_some h
  have hmark {s : String} {a : Char} {as : List Char} (hs : s.toList = a :: as)
      (ha : isNameStart a = false) : mark s cs = none := by
    have := mark_of_word hw hs ha
    rwa [mark, skipBlanks_of_word hw] at this
  rw [bindingTarget, hmark rfl rfl]
  simp only [hmark (s := "\x7b") rfl rfl, h]

theorem Opens.coversSpreadMember (h : Opens level u) (fuel : Nat) :
    CoversItem (objectPatternItem fuel) ("...".toList ++ u) := by
  intro rest hr o ho
  cases fuel with
  | zero => cases ho
  | succ fuel =>
    have hm : mark "..." ("...".toList ++ u ++ rest) = some (u ++ rest) := rfl
    rw [objectPatternItem, hm] at ho
    split at ho
    · next hm =>
      cases hm
      split at ho
      · next w r hw =>
        obtain rfl := List.mem_singleton.1 ho
        have := h.cover (f := 1) (Ends.of_closes hr).free (.bindingName (token .name w), r)
        rw [bindingTarget_of_plainName hw] at this
        exact this (List.mem_singleton.2 rfl)
      · cases ho
    · next hm => cases hm

theorem Reads.spreadMember (h : Reads level u x) :
    ReadsOver objectMember objectPatternItem ("...".toList ++ u) (.spread x) where
  opens := ⟨'.', _, rfl, rfl⟩
  reads := by
    intro fuel hf rest hr
    obtain ⟨fuel, rfl⟩ : ∃ f, fuel = f + 1 := ⟨fuel - 1, by omega⟩
    have hm : mark "..." ("...".toList ++ u ++ rest) = some (u ++ rest) := rfl
    rw [objectMember, hm]
    refine Leads.giving (h.expression (.of_closes hr) ?_) _
    simp at hf
    omega
  cover := h.toOpens.coversSpreadMember

/-- The key of a property: a literal or any word. -/
inductive IsKey : TokenClass → List Char → Prop
  | string {t : List Char} (h : Lexeme.string t = some (t, [])) : IsKey .string t
  | word {w : List Char} (h : Lexeme.word w = some (w, [])) : IsKey .propertyName w

theorem IsKey.opens {cls : TokenClass} {k : List Char} (h : IsKey cls k) : OpensItem k := by
  cases h with
  | string h =>
    obtain ⟨c, t, rfl, hc⟩ := string_eq_some h
    exact ⟨c, t, rfl, by rcases hc with rfl | rfl <;> rfl⟩
  | word h =>
    obtain ⟨c, t, rfl, hc, -⟩ := word_eq_some h
    exact ⟨c, t, rfl, opensItem_of_isNameStart hc⟩

theorem skipBlanks_of_opensItem {u : List Char} (h : OpensItem u) (rest : List Char) :
    skipBlanks (u ++ rest) = u ++ rest := by
  obtain ⟨c, cs, rfl, hc⟩ := h
  exact skipBlanks_of_ne (isBlank_of_opensItem hc) _

theorem IsKey.spread {cls : TokenClass} {k : List Char} (h : IsKey cls k) (rest : List Char) :
    mark "..." (k ++ rest) = none := by
  cases h with
  | string h =>
    obtain ⟨c, t, rfl, hc⟩ := string_eq_some h
    rcases hc with rfl | rfl <;> rfl
  | word h =>
    obtain ⟨c, t, rfl, hc, -⟩ := word_eq_some h
    refine mark_cons_of_ne rfl (isBlank_of_opensItem (opensItem_of_isNameStart hc)) ?_
    rintro rfl
    cases hc

/-- A key, the colon after it and what follows. -/
def keyed (k v : List Char) : List Char := k ++ ':' :: ' ' :: v

theorem Reads.property (h : Reads level u x) {cls : TokenClass} {k : List Char} (hk : IsKey cls k) :
    ReadsOver objectMember objectPatternItem (keyed k u) (.property (token cls k) x) where
  opens := hk.opens.append _
  reads := by
    intro fuel hf rest hr
    obtain ⟨fuel, rfl⟩ : ∃ f, fuel = f + 1 := ⟨fuel - 1, by omega⟩
    have hlen : 32 * u.length ≤ fuel := by
      simp only [keyed, List.length_append, List.length_cons] at hf
      omega
    have hx := (h.expression_space (.of_closes hr) hlen).giving (Node.property (token cls k) ·)
    have hm : mark ":" (':' :: ' ' :: u ++ rest) = some (' ' :: (u ++ rest)) := rfl
    rw [keyed, List.append_assoc, objectMember, hk.spread]
    simp only [skipBlanks_of_opensItem hk.opens]
    cases hk with
    | string hk =>
      simp only [string_append hk, hm]
      exact hx
    | word hk =>
      have hfree : Free (':' :: ' ' :: u ++ rest) := rfl
      have hw := word_append hk hfree
      simp only [string_of_word hw, hw, hm]
      exact hx
  cover := by
    intro fuel rest hr o ho
    cases fuel with
    | zero => cases ho
    | succ fuel =>
      have hm : mark ":" (':' :: ' ' :: u ++ rest) = some (' ' :: (u ++ rest)) := rfl
      rw [keyed, List.append_assoc, objectPatternItem, hk.spread] at ho
      simp only [skipBlanks_of_opensItem hk.opens] at ho
      cases hk with
      | string hk =>
        obtain ⟨c, t, rfl, hc⟩ := string_eq_some hk
        have hn : isNameStart c = false := by rcases hc with rfl | rfl <;> rfl
        rw [List.cons_append, word_of_ne hn] at ho
        cases ho
      | word hk =>
        have hfree : Free (':' :: ' ' :: u ++ rest) := rfl
        have hw := word_append hk hfree
        simp only [hw, hm] at ho
        obtain ⟨y, hy, -⟩ := mem_giving.1 ho
        rw [(skipsBlanks _ _).patternElement] at hy
        exact h.toOpens.coversElement fuel hr (y, o.2) hy

end

/-! ## Names -/

/-- A word that is a name. -/
structure IsName (w : List Char) : Prop where
  word : word w = some (w, [])
  free : isReserved w = false

theorem IsName.key {w : List Char} (h : IsName w) : IsKey .propertyName w := .word h.word

theorem IsName.append {w rest : List Char} (h : IsName w) (hr : Free rest) :
    Lexeme.word (w ++ rest) = some (w, rest) := word_append h.word hr

theorem IsName.shorthand {w : List Char} (h : IsName w) :
    ReadsOver objectMember objectPatternItem w (.shorthand (token .name w)) where
  opens := h.key.opens
  reads := by
    intro fuel hf rest hr
    obtain ⟨fuel, rfl⟩ : ∃ f, fuel = f + 1 := ⟨fuel - 1, by omega⟩
    have hw := h.append (Ends.of_closes hr).free
    rw [objectMember, h.key.spread]
    simp only [skipBlanks_of_word hw, string_of_word hw, hw,
      mark_of_closes hr (s := ":") rfl rfl, h.free]
    exact .one _ _
  cover := by
    intro fuel rest hr o ho
    cases fuel with
    | zero => cases ho
    | succ fuel =>
      have hw := h.append (Ends.of_closes hr).free
      rw [objectPatternItem, h.key.spread] at ho
      simp only [skipBlanks_of_word hw, hw, mark_of_closes hr (s := ":") rfl rfl, h.free,
        Bool.false_eq_true, if_false] at ho
      cases fuel with
      | zero => cases ho
      | succ fuel =>
        rw [defaulted, mark_of_closes hr rfl rfl] at ho
        obtain rfl := List.mem_singleton.1 ho
        exact .inl rfl

end Comprehend.Parser
