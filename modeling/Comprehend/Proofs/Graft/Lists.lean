import Comprehend.Proofs.Graft.Follow

/-! # Lists side by side

A list is read by its items, with commas between, up to a closing mark. What is put in for an item
may let the second run read one more behind a comma that the first run leaves standing: then the
closing mark does not follow, and the first run comes to nothing. -/

namespace Comprehend

open Comprehend.Text Comprehend.Lexeme Comprehend.Parser
open Comprehend.Parser.Agree (moreItems items_succ items_of_nil moreItems_of_none moreItems_of_nil
  moreItems_of_ne_nil)

namespace Grafting

variable {G : Grafting} {fuel fuel' : Nat} {item item' : List Char → Outcomes Node}
  {E : List Char → Prop}

/-- A comma is left standing, with something of some kind behind it. -/
def Standing (E : List Char → Prop) (r : List Char) : Prop := ∃ u, mark "," r = some u ∧ E u

/-- A list that its closing mark does not follow. -/
abbrev Unclosed (E : List Char → Prop) (r : List Char) : Prop := Stalled r ∨ Standing E r

theorem solid_mark {s : String} (hs : s.toList.getLast?.any (· != '.') = true) (v : List Char) :
    Solid (v ++ s.toList) := solid_append hs v

/-- The mark that closes a list. -/
structure IsClosing (close : String) : Prop where
  averse : isAverse close = true
  symbol : isSymbol close = true
  solid : close.toList.getLast?.any (· != '.') = true
  unequal : close.toList.head?.all (fun c => c != ',' && c != '=') = true

namespace IsClosing

variable {close : String} {F : List Char → Prop} {r : List Char}

theorem alike (hc : IsClosing close) : Alike (G.Place F) (G.Place Solid) (mark close) :=
  alike_averse hc.averse (solid_mark hc.solid)

end IsClosing

theorem IsClosing.untagged {close : String} (hc : IsClosing close) :
    close.toList.head?.all (· != 'l') = true := by
  obtain ⟨a, as, hl, ha⟩ := exists_of_isSymbol hc.symbol
  rw [hl, List.head?_cons, Option.all_some, bne_iff_ne]
  rintro rfl
  cases ha.1

theorem closing_round : IsClosing ")" := ⟨by decide, by decide, by decide, by decide⟩

theorem closing_square : IsClosing "]" := ⟨by decide, by decide, by decide, by decide⟩

theorem closing_curly : IsClosing "\x7d" := ⟨by decide, by decide, by decide, by decide⟩

theorem Unclosed.mark_eq_none {close : String} {r : List Char} (hc : IsClosing close)
    (h : Unclosed E r) : mark close r = none := by
  obtain ⟨a, as, hl, ha⟩ := exists_of_isSymbol hc.symbol
  have hne : a ≠ ',' ∧ a ≠ '=' := by simpa [hl] using hc.unequal
  rcases h with h | ⟨u, hu, -⟩
  · exact h.mark_eq_none hl ⟨ha.1, ha.2, hne.2⟩
  · have hr : skipBlanks r = ',' :: u := append_of_after hu
    rw [mark, hr, after_of_ne hl hne.1]

/-- Nor behind a spare comma, if it is left standing for that reason. -/
theorem Unclosed.spare_eq_none {close : String} {r : List Char} (hc : IsClosing close)
    (h : Unclosed (fun u => mark close u = none) r) : mark close ((mark "," r).getD r) = none := by
  rcases h with h | ⟨u, hu, hnone⟩
  · rw [h.mark_eq_none (s := ",") rfl (by decide), Option.getD_none]
    exact Unclosed.mark_eq_none (E := fun _ => True) hc (.inl h)
  · rwa [hu, Option.getD_some]

/-- The items of two runs. -/
structure ItemsFollow (G : Grafting) (fuel fuel' : Nat) (item item' : List Char → Outcomes Node) :
    Prop where
  follows : G.Follows (G.Place Anywhere) (G.Lost Stalled) (PutNode G.put) fuel fuel' item item'
  leaves : ∀ r, ∀ o ∈ item' r, o.2 <:+ r

/-- An item is part of every list that it starts. -/
theorem mem_of_moreItems {item : List Char → Outcomes α} {more : Nat} {x : α} {r : List Char}
    {o : List α × List Char} (ho : o ∈ moreItems item more x r) : x ∈ o.1 := by
  unfold moreItems at ho
  split at ho
  · obtain rfl := List.mem_singleton.1 ho
    exact List.mem_singleton_self x
  · split at ho
    · obtain rfl := List.mem_singleton.1 ho
      exact List.mem_singleton_self x
    · obtain ⟨xs, -, heq⟩ := mem_giving.1 ho
      rw [← heq]
      exact List.mem_cons_self

section

variable (h : G.ItemsFollow fuel fuel' item item')
include h

omit h in
theorem kept_moreItems
    (hE : ∀ gs u u' more, G.Place Anywhere gs u u' → items item' more u' ≠ [] → E u)
    {more more' : Nat}
    (ih : ∀ gs cs cs', G.Place Anywhere gs cs cs' → fuel + Graft.weight gs ≤ fuel' →
      cs'.length < more' → (items item more cs).Kept (OneWay G.text) (G.AllLost (Unclosed E))
        (G.Image (PutNodes G.put) gs) (items item' more' cs'))
    {gs : List Graft} {r r' : List Char} {m : Nat} {x x' : Node} (hx : PutNode G.put m x x')
    (hp : G.Place Solid gs r r') (hfuel : fuel + Graft.weight gs ≤ fuel')
    (hlen : r'.length ≤ more') :
    (moreItems item more x r).Kept (OneWay G.text) (G.AllLost (Unclosed E))
      (G.Image (fun n => PutNodes G.put (m + n)) gs) (moreItems item' more' x' r') := by
  have hsingle : PutNodes G.put (m + 0) [x] [x'] := PutNodes.cons hx .nil
  have hend : (one [x] r).Kept (OneWay G.text) (G.AllLost (Unclosed E))
      (G.Image (fun n => PutNodes G.put (m + n)) gs) (one [x'] r') := .one (.one hsingle hp)
  have hcomma : Alike (G.Place Solid) (G.Place Anywhere) (mark ",") :=
    alike_averse (by decide) fun _ => trivial
  have hm := hcomma hp
  cases hu : mark "," r with
  | none => rwa [moreItems_of_none hu, moreItems_of_none ((hcomma.eq_none_iff hp).1 hu)]
  | some u =>
    rw [hu] at hm
    generalize hu' : mark "," r' = m' at hm
    cases hm with
    | @some u u' hplace =>
      have hshort := (shorter_of_mark (by decide) hu').2
      have hrest := ih gs u u' hplace hfuel (by omega)
      by_cases hnil : items item more u = []
      · rw [moreItems_of_nil hu hnil]
        by_cases hnil' : items item' more' u' = []
        · rwa [moreItems_of_nil hu' hnil']
        · refine .of_lost (fun o ho => ?_) _
          obtain rfl := List.mem_singleton.1 ho
          exact .inr (.inr ⟨u, hu, hE gs u u' more' hplace hnil'⟩)
      · rw [moreItems_of_ne_nil hu hnil]
        have hspoiled (xs : List Node) (v : List Char) (hv : G.AllLost (Unclosed E) xs v) :
            G.AllLost (Unclosed E) (x :: xs) v :=
          hv.imp_left fun ⟨y, hy, hs⟩ => ⟨y, List.mem_cons_of_mem x hy, hs⟩
        by_cases hnil' : items item' more' u' = []
        · rw [hnil'] at hrest
          refine .of_lost (fun o ho => ?_) _
          obtain ⟨xs, hxs, heq⟩ := mem_giving.1 ho
          rw [← heq]
          exact hspoiled xs o.2 (hrest.lost_of_nil _ hxs)
        · rw [moreItems_of_ne_nil hu' hnil']
          refine hrest.giving hspoiled fun xs v xs' v' hv => ?_
          obtain ⟨done, ahead, hgs, hxs, hplace⟩ := hv
          exact ⟨done, ahead, hgs, PutNodes.cons hx hxs, hplace⟩

theorem ItemsFollow.kept_items
    (hE : ∀ gs u u' more, G.Place Anywhere gs u u' → items item' more u' ≠ [] → E u)
    (more more' : Nat) {gs : List Graft} {cs cs' : List Char} (hp : G.Place Anywhere gs cs cs')
    (hfuel : fuel + Graft.weight gs ≤ fuel') (hlen : cs'.length < more') :
    (items item more cs).Kept (OneWay G.text) (G.AllLost (Unclosed E)) (G.Image (PutNodes G.put) gs)
      (items item' more' cs') := by
  induction more generalizing more' gs cs cs' with
  | zero => exact .empty _
  | succ more ih =>
    obtain ⟨more', rfl⟩ : ∃ k, more' = k + 1 := ⟨more' - 1, by omega⟩
    rw [items_succ, items_succ]
    refine (h.follows hp hfuel).mem_right.andThen (fun x r hx o ho => ?_) fun o o' ho => ?_
    · rcases hx with hx | hx
      · exact .inl ⟨x, mem_of_moreItems ho, hx⟩
      · rw [moreItems_of_none (hx.mark_eq_none rfl (by decide))] at ho
        obtain rfl := List.mem_singleton.1 ho
        exact .inr (.inl hx)
    · obtain ⟨⟨done, ahead, rfl, hx, hplace⟩, hmem⟩ := ho
      have hweight := weight_append done ahead
      have hshort := (h.leaves cs' o' hmem).length_le
      have hrest := kept_moreItems hE (fun gs cs cs' => ih more') hx hplace (by omega) (by omega)
      exact hrest.mono (fun _ _ => id) fun _ _ hi => hi.later rfl

theorem ItemsFollow.items
    (hE : ∀ gs u u' more, G.Place Anywhere gs u u' → Parser.items item' more u' ≠ [] → E u) :
    G.Follows (G.Place Anywhere) (G.AllLost (Unclosed E)) (PutNodes G.put) fuel fuel'
      (fun r => Parser.items item (r.length + 1) r) fun r => Parser.items item' (r.length + 1) r :=
  fun _ _ cs' hp hfuel => h.kept_items hE _ (cs'.length + 1) hp hfuel (Nat.lt_succ_self _)

theorem ItemsFollow.itemsTo {close : String} (hc : IsClosing close) :
    G.Follows (G.Place Anywhere) (G.AllLost never) (PutNodes G.put) fuel fuel'
      (Parser.itemsTo close item) (Parser.itemsTo close item') := by
  change G.Follows _ _ _ _ _ (fun r => _) fun r => _
  simp only [Parser.itemsTo]
  refine .mark (hc.alike) ?_ (.one PutNodes.nil)
  refine (h.items (E := fun _ => True) fun _ _ _ _ _ _ => trivial).closedBy
    (Bool.and_eq_true_iff.1 hc.averse).1 hc.untagged hc.solid fun xs r u hx hu => ?_
  refine hx.imp_right fun hr => ?_
  rw [hr.mark_eq_none hc] at hu
  cases hu

/-- The same where a comma may stand before the closing mark. -/
theorem ItemsFollow.itemsToSpare {close : String} (hc : IsClosing close)
    (hnone : ∀ r u, mark close r = some u → item' r = []) :
    G.Follows (G.Place Anywhere) (G.AllLost never) (PutNodes G.put) fuel fuel'
      (Parser.itemsToSpare close item) (Parser.itemsToSpare close item') := by
  change G.Follows _ _ _ _ _ (fun r => _) fun r => _
  simp only [Parser.itemsToSpare]
  have hcomma {F : List Char → Prop} : Alike (G.Place F) (G.Place Anywhere) (mark ",") :=
    alike_averse (by decide) fun _ => trivial
  refine .mark hc.alike ?_ (.one PutNodes.nil)
  refine .mark (hcomma.bind hc.alike) ?_ (.one PutNodes.nil)
  have hitems := h.items (E := fun u => mark close u = none) fun gs u u' more hp hne => by
    cases hu : mark close u with
    | none => rfl
    | some v =>
      have hfound : mark close u' ≠ none := fun hu' => by
        rw [(hc.alike.eq_none_iff hp).2 hu'] at hu
        cases hu
      obtain ⟨v', hu'⟩ := Option.ne_none_iff_exists'.1 hfound
      exact absurd (items_of_nil (hnone u' v' hu') more) hne
  refine hitems.andThen (fun xs r hx o ho => ?_) fun m xs xs' hxs => ?_
  · split at ho
    · next u hu =>
      obtain rfl := List.mem_singleton.1 ho
      refine hx.imp_right fun hr => ?_
      rw [hr.spare_eq_none hc] at hu
      cases hu
    · cases ho
  · have hspare : Alike (G.Place Solid) (G.Place Solid) fun r => mark close ((mark "," r).getD r) :=
      .spare hcomma hc.alike hc.alike
    exact .mark hspare .nil (.one hxs)

end

end Grafting

end Comprehend
