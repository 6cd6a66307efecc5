import Comprehend.Proofs.Syntax.Standing

/-! # Printing and reading back

A tree that was read from text prints to a text that is read as the same tree, unless a default in
one of its patterns is an arrow function: the printer leaves it without the parentheses that the
grammar asks for there. The same is said of a tree with templates replaced, which may be printed
with one thing in their place and read with another. -/

namespace Comprehend

open Comprehend.Parser Comprehend.Layout Comprehend.Lexeme

/-! ## All trees -/

namespace Node

/-- A tree that reads well with templates replaced: no default is an arrow function, what is printed
in the place of a template is read as what is read there, and callees start from a call in print
where they do when read. -/
structure Readable (style : Option ChainStyle) (r s : Token → Option Node) (t : Node) : Prop where
  defaults : t.PlainDefaults
  templates : ∀ template, Within (.tagged listName template) t →
    Option.Rel (fun x y => Reads y.level (text style x) y) (r template) (s template)
  callees : ∀ callee args, Within (.construct callee args) t →
    (callee.replaced r).startsFromCall = (callee.replaced s).startsFromCall

theorem Readable.child {style : Option ChainStyle} {r s : Token → Option Node} {x y : Node}
    (h : x.Readable style r s) (hy : y ∈ x.children) : y.Readable style r s where
  defaults := h.defaults.child hy
  templates _ hw := h.templates _ (.child hw hy)
  callees _ _ hw := h.callees _ _ (.child hw hy)

theorem Readable.param {style : Option ChainStyle} {r s : Token → Option Node} {ps : List Node}
    {x p : Node} (h : x.Readable style r s) (hx : .params ps ∈ x.children) (hp : p ∈ ps) :
    p.Readable style r s :=
  (h.child hx).child (show p ∈ (Node.params ps).children from hp)

end Node

theorem readsAs_replaced {style : Option ChainStyle} {r s : Token → Option Node}
    (hr : Node.Fits r) (hs : Node.Fits s) {x : Node} {t : List Char} (hf : Formed .expression x)
    (ht : template t = some (t, []))
    (hrs : x = .listName → Option.Rel (fun x y => Reads y.level (text style x) y)
      (r (token .template t)) (s (token .template t)))
    (hx : StandsFor style (x.replaced r) (x.replaced s)) :
    ReadsAs style .expression ((Node.tagged x (token .template t)).replaced r)
      ((Node.tagged x (token .template t)).replaced s) := by
  by_cases hname : x = .listName
  · subst hname
    have hkept := readsAs_tagged hx ht
    have hboth := hrs rfl
    change ReadsAs style .expression ((r (token .template t)).getD _) ((s (token .template t)).getD _)
    revert hboth
    rcases r (token .template t) with _ | g <;> rcases s (token .template t) with _ | g' <;>
      intro hboth
    · exact hkept
    · cases hboth
    · cases hboth
    · cases hboth with
      | some hg => exact hg
  · rw [hf.replaced_tagged hr hname, hf.replaced_tagged hs hname]
    exact readsAs_tagged hx ht

section

variable {style : Option ChainStyle} {r s : Token → Option Node} {phrase : Phrase} {x : Node}

/-- A tree with templates replaced is read as it should be. -/
theorem Parser.Formed.readsAs (hr : Node.Fits r) (hs : Node.Fits s) (h : Formed phrase x)
    (hg : x.Readable style r s) : ReadsAs style phrase (x.replaced r) (x.replaced s) := by
  have stands {x : Node} (h : ReadsAs style .expression (x.replaced r) (x.replaced s)) :
      StandsFor style (x.replaced r) (x.replaced s) := ⟨.replaced hr hs x, h⟩
  induction h with
  | name h => exact reads_of_text h.reads (by simp [Node.replaced, text, pieces, token])
  | number h => exact reads_of_text (reads_number h) (by simp [Node.replaced, text, pieces, token])
  | string h => exact reads_of_text (reads_string h) (by simp [Node.replaced, text, pieces, token])
  | template h =>
    exact reads_of_text (reads_template h) (by simp [Node.replaced, text, pieces, token])
  | regex h => exact reads_of_text (reads_regex h) (by simp [Node.replaced, text, pieces, token])
  | constant value =>
    exact reads_of_text (reads_constant value) (by simp [Node.replaced, text, pieces])
  | @array xs h ih =>
    have hxs := forall₂_map_text style xs fun x hx => ih x hx (hg.child hx)
    simp only [Node.replaced, Node.allReplaced_eq_map]
    exact reads_of_text (reads_array hxs) (by simp [text, pieces, bracketed])
  | @object xs h ih =>
    have hxs := forall₂_map_text style xs fun x hx => ih x hx (hg.child hx)
    simp only [Node.replaced, Node.allReplaced_eq_map]
    exact reads_of_text (reads_object hxs) (by simp only [text, pieces, chars_braced])
  | @arrow ps x hp hx ihp ihx =>
    have hps := forall₂_map_text style ps fun p hp => ihp p hp (hg.param (by simp [Node.children]) hp)
    have hbody := stands (ihx (hg.child (by simp [Node.children])))
    simp only [Node.replaced, Node.allReplaced_eq_map]
    by_cases hname : ∃ name, ps = [.bindingName name]
    · obtain ⟨name, rfl⟩ := hname
      obtain ⟨w, hw, rfl⟩ := (hp _ List.mem_cons_self).isName_of_pattern
      exact readsAs_arrow_name hw hbody
    · exact readsAs_arrow (Node.map_replaced_ne hr fun name hps => hname ⟨name, hps⟩) hps hbody
  | @function ps x hp hx ihp ihx =>
    have hps := forall₂_map_text style ps fun p hp => ihp p hp (hg.param (by simp [Node.children]) hp)
    simp only [Node.replaced, Node.allReplaced_eq_map]
    exact readsAs_function hps (stands (ihx (hg.child (by simp [Node.children]))))
  | @ternary x y z hx hy hz ihx ihy ihz =>
    exact readsAs_ternary (stands (ihx (hg.child (by simp [Node.children]))))
      (stands (ihy (hg.child (by simp [Node.children]))))
      (stands (ihz (hg.child (by simp [Node.children]))))
  | @logical op x y hx hy ihx ihy =>
    exact readsAs_logical (stands (ihx (hg.child (by simp [Node.children]))))
      (stands (ihy (hg.child (by simp [Node.children]))))
  | @binary group op x y hop hx hy ihx ihy =>
    exact readsAs_binary hop (stands (ihx (hg.child (by simp [Node.children]))))
      (stands (ihy (hg.child (by simp [Node.children]))))
  | @power x y hx hy ihx ihy =>
    exact readsAs_power (stands (ihx (hg.child (by simp [Node.children]))))
      (stands (ihy (hg.child (by simp [Node.children]))))
  | @sign c x hm hx ih =>
    exact readsAs_sign hr hm hx (stands (ih (hg.child (by simp [Node.children]))))
  | @signWord op x hop hx ih =>
    exact readsAs_signWord hop (stands (ih (hg.child (by simp [Node.children]))))
  | @prefixUpdate op x hop hx ih =>
    exact readsAs_prefixUpdate hop (stands (ih (hg.child (by simp [Node.children]))))
  | @postfixUpdate op x hop hx ih =>
    exact readsAs_postfixUpdate hop (stands (ih (hg.child (by simp [Node.children]))))
  | @link optional x w hx hw ih =>
    exact readsAs_link optional (stands (ih (hg.child (by simp [Node.children])))) hw
  | @index optional x y hx hy ihx ihy =>
    exact readsAs_index optional (stands (ihx (hg.child (by simp [Node.children]))))
      (stands (ihy (hg.child (by simp [Node.children]))))
  | @call optional x xs hx h ihx ih =>
    have hxs := readsParts (forall₂_map_text style xs fun y hy =>
      ih y hy (hg.child (by simp [Node.children, hy])))
    simp only [Node.replaced, Node.allReplaced_eq_map]
    exact readsAs_call optional (stands (ihx (hg.child (by simp [Node.children])))) hxs
  | @construct x xs hx h ihx ih =>
    have hxs := readsParts (forall₂_map_text style xs fun y hy =>
      ih y hy (hg.child (by simp [Node.children, hy])))
    simp only [Node.replaced, Node.allReplaced_eq_map]
    refine readsAs_construct (stands (ihx (hg.child (by simp [Node.children]))))
      (hg.callees x xs (.self _)) (fun t ht => ?_) hxs
    obtain rfl := Node.leaf_of_replaced hs ht
    exact ⟨hx, rfl⟩
  | @tagged x t hx ht ih =>
    exact readsAs_replaced hr hs hx ht (fun h => hg.templates _ (h ▸ .self _))
      (stands (ih (hg.child (by simp [Node.children]))))
  | @element x hx ih => exact Reads.element (ih hg)
  | @spreadElement x hx ih =>
    simpa [ReadsAs, Node.replaced, text, pieces] using
      Reads.spreadElement (ih (hg.child (by simp [Node.children])))
  | @spreadMember x hx ih =>
    simpa [ReadsAs, Node.replaced, text, pieces] using
      Reads.spreadMember (ih (hg.child (by simp [Node.children])))
  | @property cls k x hk hx ih =>
    simpa [ReadsAs, Node.replaced, text, pieces, keyed, token] using
      Reads.property (ih (hg.child (by simp [Node.children]))) hk
  | shorthand h => simpa [ReadsAs, Node.replaced, text, pieces, token] using h.shorthand
  | @pattern p hp ih => exact ReadsTarget.element (ih hg)
  | @default p x hp hx ihp ihx =>
    simpa [ReadsAs, Node.replaced, text, pieces, infixed] using
      ReadsTarget.default (ihp (hg.child (by simp [Node.children])))
        (ihx (hg.child (by simp [Node.children]))) (Node.one_le_level_replaced hs hg.defaults.default)
  | @rest p hp ih =>
    simpa [ReadsAs, Node.replaced, text, pieces] using
      ReadsTarget.rest (ih (hg.child (by simp [Node.children])))
  | bindingName h => simpa [ReadsAs, Node.replaced, text, pieces, token] using h.target
  | @arrayPattern ps h ih =>
    have hps := forall₂_map_text style ps fun p hp => ih p hp (hg.child hp)
    simpa [ReadsAs, Node.replaced, Node.allReplaced_eq_map, text, pieces, bracketed] using
      ReadsTarget.array hps
  | @objectPattern ps h ih =>
    have hps := forall₂_map_text style ps fun p hp => ih p hp (hg.child hp)
    simpa [ReadsAs, Node.replaced, Node.allReplaced_eq_map, text, pieces, chars_braced] using
      ReadsTarget.object hps
  | @propertyItem w p hw hp ih =>
    simpa [ReadsAs, Node.replaced, text, pieces, keyed, token] using
      ReadsPart.propertyItem (ih (hg.child (by simp [Node.children]))) hw
  | nameItem h => simpa [ReadsAs, Node.replaced, text, pieces, token] using h.item
  | @defaultItem w x h hx ih =>
    simpa [ReadsAs, Node.replaced, text, pieces, infixed, token] using
      h.defaultItem (ih (hg.child (by simp [Node.children])))
        (Node.one_le_level_replaced hs hg.defaults.default)
  | restItem h => simpa [ReadsAs, Node.replaced, text, pieces, token] using h.restItem

theorem Parser.Formed.readsBack (h : Formed phrase x) (hd : x.PlainDefaults) :
    ReadsBack style phrase x := by
  have hreadable : x.Readable style (fun _ => none) (fun _ => none) :=
    ⟨hd, fun _ _ => .none, fun _ _ _ => rfl⟩
  have hreads := h.readsAs Node.fits_none Node.fits_none hreadable
  rwa [Node.replaced_none] at hreads

end

/-! ## Printing to the end -/

namespace Layout

section

variable {fault : Fault} {x : Node} {ps : List Piece}

@[simp] theorem refuse_mem_parenthesized :
    .refuse fault ∈ parenthesized ps ↔ .refuse fault ∈ ps := by
  simp [parenthesized]

@[simp] theorem refuse_mem_slot {p : Nat} : .refuse fault ∈ slot p x ps ↔ .refuse fault ∈ ps := by
  unfold slot
  split <;> simp

@[simp] theorem refuse_mem_receiver : .refuse fault ∈ receiver x ps ↔ .refuse fault ∈ ps := by
  unfold receiver
  split <;> simp

@[simp] theorem refuse_mem_constructed :
    .refuse fault ∈ constructed x ps ↔ .refuse fault ∈ ps := by
  unfold constructed
  split <;> simp

@[simp] theorem refuse_mem_arrowBody : .refuse fault ∈ arrowBody x ps ↔ .refuse fault ∈ ps := by
  unfold arrowBody
  split <;> simp

end

/-- Pieces without a refusal. -/
def Clean (ps : List Piece) : Prop := ∀ fault, Piece.refuse fault ∉ ps

@[simp] theorem clean_nil : Clean [] := fun _ h => absurd h List.not_mem_nil

@[simp] theorem clean_append {ps qs : List Piece} : Clean (ps ++ qs) ↔ Clean ps ∧ Clean qs := by
  simp only [Clean, List.mem_append, not_or]
  exact forall_and

@[simp] theorem clean_text {s : String} {ps : List Piece} : Clean (.text s :: ps) ↔ Clean ps := by
  simp [Clean]

@[simp] theorem clean_checkpoint {ps : List Piece} : Clean (.checkpoint :: ps) ↔ Clean ps := by
  simp [Clean]

@[simp] theorem clean_parenthesized {ps : List Piece} : Clean (parenthesized ps) ↔ Clean ps := by
  simp [Clean]

@[simp] theorem clean_slot {p : Nat} {x : Node} {ps : List Piece} :
    Clean (slot p x ps) ↔ Clean ps := by
  simp [Clean]

@[simp] theorem clean_receiver {x : Node} {ps : List Piece} : Clean (receiver x ps) ↔ Clean ps := by
  simp [Clean]

@[simp] theorem clean_constructed {x : Node} {ps : List Piece} :
    Clean (constructed x ps) ↔ Clean ps := by
  simp [Clean]

@[simp] theorem clean_arrowBody {x : Node} {ps : List Piece} :
    Clean (arrowBody x ps) ↔ Clean ps := by
  simp [Clean]

section

variable {style : Option ChainStyle} {xs : List Node}

@[simp] theorem clean_listed {first : Bool} :
    Clean (listed style first xs) ↔ ∀ x ∈ xs, Clean (pieces style x) := by
  induction xs generalizing first with
  | nil => simp [listed]
  | cons x xs ih => cases first <;> simp [listed, ih]

@[simp] theorem clean_braced :
    Clean (braced xs (listed style true xs)) ↔ ∀ x ∈ xs, Clean (pieces style x) := by
  cases xs with
  | nil => simp [braced]
  | cons x xs =>
    rw [braced, if_neg (by simp), clean_append, clean_text, clean_listed]
    simp

@[simp] theorem clean_parameters :
    Clean (parameters xs (listed style true xs)) ↔ ∀ x ∈ xs, Clean (pieces style x) := by
  by_cases hn : ∃ name, xs = [.bindingName name]
  · obtain ⟨name, rfl⟩ := hn
    simp [parameters, pieces]
  · rw [parameters_of_ne fun name hname => hn ⟨name, hname⟩, clean_parenthesized, clean_listed]

end

theorem settleFrom_of_clean {ps : List Piece} (h : Clean ps) {limit : Int} {written : String}
    {size : Nat} (hl : ((size + (plain ps).length : Nat) : Int) ≤ limit) :
    settleFrom limit written size ps = .ok (written ++ plain ps) := by
  induction ps generalizing written size with
  | nil => simp [settleFrom, plain]
  | cons p ps ih =>
    cases p with
    | text s =>
      rw [settleFrom, ih (clean_text.1 h) (by rw [plain, String.length_append] at hl; omega), plain,
        String.append_assoc]
    | checkpoint =>
      have hsize : ¬ limit < (size : Int) := by omega
      rw [settleFrom, if_neg hsize]
      exact ih (clean_checkpoint.1 h) hl
    | refuse fault => exact absurd List.mem_cons_self (h fault)

theorem settle_of_clean {ps : List Piece} (h : Clean ps) {limit : Int}
    (hl : ((plain ps).length : Int) ≤ limit) : settle limit ps = .ok (plain ps) := by
  rw [settle, settleFrom_of_clean h (by simpa using hl), String.empty_append]

end Layout

theorem Parser.Formed.clean {style : Option ChainStyle} {phrase : Phrase} {x : Node} (h : Formed phrase x) :
    Clean (pieces style x) := by
  induction h with
  | @array xs h ih | @object xs h ih | @arrayPattern xs h ih | @objectPattern xs h ih =>
    simpa [pieces] using ih
  | @arrow ps x hp hx ihp ihx | @function ps x hp hx ihp ihx => simpa [pieces, ihx] using ihp
  | @call optional x xs hx h ihx ih | @construct x xs hx h ihx ih => simpa [pieces, ihx] using ih
  | _ => simp_all [pieces]

/-! ## Reading a whole text -/

theorem isBlankText_of_opensItem {u : List Char} (h : OpensItem u) :
    Text.isBlankText (String.ofList u) = false := by
  obtain ⟨c, cs, rfl, hc⟩ := h
  simp only [opensItem, Bool.and_eq_true, Bool.not_eq_true'] at hc
  simp [Text.isBlankText, hc.1]

theorem Leads.whole {os : Outcomes Node} {x : Node} (h : Leads os x []) : whole? os = some x := by
  obtain ⟨more, rfl⟩ := h
  rfl

/-- A text that reads as a tree is read as the tree. -/
theorem parseExpression_of_reads {level : Nat} {u : List Char} {x : Node} (h : Reads level u x) :
    parseExpression (String.ofList u) = .ok x := by
  have hread : Leads (Parser.expression (fuelFor u) (u ++ [])) x [] :=
    h.expression (.of_closes rfl) (by simp only [fuelFor, depthPerChar]; omega)
  rw [List.append_nil] at hread
  have hwhole : expression? (String.ofList u) = some x := by
    rw [expression?, String.toList_ofList]
    exact Leads.whole hread
  rw [parseExpression, isBlankText_of_opensItem h.item, hwhole]
  rfl

/-- A text that reads as a pattern is read as the pattern. -/
theorem parsePattern_of_reads {u : List Char} {p : Node} (h : ReadsPart patternElement u p) :
    parsePattern (String.ofList u) = .ok p := by
  have hfuel : 32 * u.length < fuelFor u := by simp only [fuelFor, depthPerChar]; omega
  have hread : Leads (patternElement (fuelFor u) (u ++ [])) p [] := h.reads hfuel [] rfl
  rw [List.append_nil] at hread
  have hwhole : pattern? (String.ofList u) = some p := by
    rw [pattern?, String.toList_ofList]
    exact Leads.whole hread
  rw [parsePattern, isBlankText_of_opensItem h.opens, hwhole]
  rfl

/-- A tree that was read prints to a text that is read as the same tree. -/
theorem parseExpression_printTree {source : String} {t : Node}
    (h : parseExpression source = .ok t) (hd : t.PlainDefaults) :
    ∃ printed : String, (∀ limit : Int, printed.length ≤ limit → printTree limit t = .ok printed) ∧
      parseExpression printed = .ok t := by
  have hf := formed_of_parseExpression h
  have hclean : Clean (slot 0 t (pieces none t)) := clean_slot.2 hf.clean
  refine ⟨plain (slot 0 t (pieces none t)), fun limit hl => settle_of_clean hclean hl, ?_⟩
  have hreads : Reads t.level (text none t) t := hf.readsBack hd
  rw [text, ← chars_slot_zero t] at hreads
  simpa [chars] using parseExpression_of_reads hreads

/-- The tree of a product in a sum. -/
def productInSum : Node :=
  .binary .additive "+" (.binary .multiplicative "*" (.leaf .name ⟨.name, "a"⟩)
    (.leaf .name ⟨.name, "b"⟩)) (.leaf .name ⟨.name, "c"⟩)

theorem parseExpression_printTree_productInSum : ∃ printed : String,
    (∀ limit : Int, printed.length ≤ limit → printTree limit productInSum = .ok printed) ∧
      parseExpression printed = .ok productInSum := by
  have hread : parseExpression "a*b+c" = .ok productInSum := rfl
  have hproduct : (Node.binary .multiplicative "*" (.leaf .name ⟨.name, "a"⟩)
      (.leaf .name ⟨.name, "b"⟩)).PlainDefaults :=
    .of_children (by simp)
      (by simp [Node.children, Node.PlainDefaults.token, Node.PlainDefaults.leaf])
  exact parseExpression_printTree hread (.of_children (by simp [productInSum]) (by
    simp [productInSum, Node.children, Node.PlainDefaults.token, Node.PlainDefaults.leaf,
      hproduct]))

/-- A pattern that was read prints to a text that is read as the same pattern. -/
theorem parsePattern_printTree {source : String} {p : Node}
    (h : parsePattern source = .ok p) (hd : p.PlainDefaults) :
    ∃ printed : String, (∀ limit : Int, printed.length ≤ limit → printTree limit p = .ok printed) ∧
      parsePattern printed = .ok p := by
  have hf := formed_of_parsePattern h
  have hclean : Clean (slot 0 p (pieces none p)) := clean_slot.2 hf.clean
  refine ⟨plain (slot 0 p (pieces none p)), fun limit hl => settle_of_clean hclean hl, ?_⟩
  have hreads : ReadsPart patternElement (text none p) p := hf.readsBack hd
  rw [text, ← chars_slot_zero p] at hreads
  simpa [chars] using parsePattern_of_reads hreads

/-- The pattern of an object with a renamed property that has a default. -/
def renamedPattern : Node :=
  .objectPattern [.propertyPattern ⟨.propertyName, "b"⟩
    (.patternDefault (.bindingName ⟨.name, "c"⟩) (.leaf .number ⟨.number, "1"⟩))]

/-- The pattern of a list with that object in it and a rest. -/
def listPattern : Node :=
  .arrayPattern [.bindingName ⟨.name, "a"⟩, renamedPattern, .patternRest (.bindingName ⟨.name, "d"⟩)]

theorem formed_listPattern : Formed .pattern listPattern := by
  have hdefault : Formed .pattern (.patternDefault (.bindingName ⟨.name, "c"⟩)
      (.leaf .number ⟨.number, "1"⟩)) :=
    .default (.bindingName (w := ['c']) ⟨rfl, rfl⟩) (.number (t := ['1']) rfl)
  have hrenamed : Formed .pattern renamedPattern :=
    .pattern (.objectPattern (List.forall_mem_singleton.2 (.propertyItem (w := ['b']) rfl hdefault)))
  refine .pattern (.arrayPattern ?_)
  rintro p (_ | ⟨_, _ | ⟨_, _ | ⟨_, ⟨⟩⟩⟩⟩)
  · exact .pattern (.bindingName (w := ['a']) ⟨rfl, rfl⟩)
  · exact hrenamed
  · exact .rest (.bindingName (w := ['d']) ⟨rfl, rfl⟩)

theorem plainDefaults_listPattern : listPattern.PlainDefaults := by
  have name (w : String) : (Node.bindingName ⟨.name, w⟩).PlainDefaults :=
    .of_children (by simp) (by simpa [Node.children] using Node.PlainDefaults.token _)
  have hdefault : (Node.patternDefault (.bindingName ⟨.name, "c"⟩)
      (.leaf .number ⟨.number, "1"⟩)).PlainDefaults :=
    .of_children (by simp) (by simp [Node.children, name, Node.PlainDefaults.leaf])
  have hproperty : (Node.propertyPattern ⟨.propertyName, "b"⟩ (.patternDefault
      (.bindingName ⟨.name, "c"⟩) (.leaf .number ⟨.number, "1"⟩))).PlainDefaults :=
    .of_children (by simp) (by simp [Node.children, hdefault, Node.PlainDefaults.token])
  have hrenamed : renamedPattern.PlainDefaults :=
    .of_children (by simp [renamedPattern]) (by simp [renamedPattern, Node.children, hproperty])
  have hrest : (Node.patternRest (.bindingName ⟨.name, "d"⟩)).PlainDefaults :=
    .of_children (by simp) (by simp [Node.children, name])
  exact .of_children (by simp [listPattern]) (by simp [listPattern, Node.children, name, hrenamed, hrest])

theorem parsePattern_printTree_listPattern : ∃ printed : String,
    (∀ limit : Int, printed.length ≤ limit → printTree limit listPattern = .ok printed) ∧
      parsePattern printed = .ok listPattern := by
  have hreads : ReadsPart patternElement (text none listPattern) listPattern :=
    formed_listPattern.readsBack plainDefaults_listPattern
  have hread : parsePattern "[a, { b: c = 1 }, ...d]" = .ok listPattern := parsePattern_of_reads hreads
  exact parsePattern_printTree hread plainDefaults_listPattern

end Comprehend
