import Comprehend.Proofs.Syntax.Closing

/-! # Readers of a text with more text behind it

A reader that is given more text behind its own may read on into it. Its outcomes that do not are
those that it gives on the text alone, and the ways that readers are put together keep it so. -/

namespace Comprehend

open Comprehend.Text Comprehend.Lexeme

namespace Parser

/-- The outcomes that leave all of what stands behind a text. -/
def Outcomes.leaving (z : List Char) (os : Outcomes α) : Outcomes α :=
  os.filter fun o => z.length ≤ o.2.length

/-- Two readers agree on the texts below a length: those outcomes of the first one that leave all of
what stands behind such a text are the outcomes of the second one on the text alone. -/
structure Agree (z : List Char) (n : Nat) (f f' : List Char → Outcomes α) : Prop where
  leaves : ∀ r, ∀ o ∈ f r, o.2 <:+ r
  leaves' : ∀ r, ∀ o ∈ f' r, o.2 <:+ r
  leaving : ∀ r, r.length < n → (f (r ++ z)).leaving z = (f' r).map (behind z)

theorem leaving_cons (z : List Char) (o : α × List Char) (os : Outcomes α) :
    Outcomes.leaving z (o :: os) =
      if z.length ≤ o.2.length then o :: os.leaving z else os.leaving z := by
  simp [Outcomes.leaving, List.filter_cons]

theorem leaving_behind (z : List Char) (os : Outcomes α) :
    Outcomes.leaving z (os.map (behind z)) = os.map (behind z) := by
  refine List.filter_eq_self.2 fun o ho => ?_
  obtain ⟨p, -, rfl⟩ := List.mem_map.1 ho
  simp [behind]

theorem leaving_of_shorter {z : List Char} {os : Outcomes α}
    (h : ∀ o ∈ os, o.2.length < z.length) : os.leaving z = [] :=
  List.filter_eq_nil_iff.2 fun o ho => by simpa using h o ho

/-- What goes on from an outcome that has read on leaves no more. -/
theorem leaving_andThen {z : List Char} {g : α → List Char → Outcomes β}
    (hg : ∀ x r, ∀ o ∈ g x r, o.2 <:+ r) (os : Outcomes α) :
    (os.andThen g).leaving z = (os.leaving z).flatMap fun o => (g o.1 o.2).leaving z := by
  have hsplit : (os.andThen g).leaving z = os.flatMap fun o => (g o.1 o.2).leaving z :=
    List.filter_flatMap
  rw [hsplit]
  induction os with
  | nil => rfl
  | cons o os ih =>
    rw [List.flatMap_cons, ih List.filter_flatMap, leaving_cons]
    split
    · rfl
    · next ho =>
      rw [leaving_of_shorter fun o' ho' => ((hg o.1 o.2 o' ho').length_le).trans_lt (not_le.1 ho),
        List.nil_append]

theorem giving_eq_andThen (os : Outcomes α) (f : α → β) :
    os.giving f = os.andThen fun x r => one (f x) r := by
  induction os with
  | nil => rfl
  | cons o os ih =>
    rw [Outcomes.giving] at ih ⊢
    rw [List.map_cons, ih]
    rfl

/-- A closing mark may also be found behind a text of blanks. -/
structure Closes (z : List Char) (s : String) : Prop where
  behind : ∀ r, mark s (r ++ z) = (mark s r).map (· ++ z) ∨
    skipBlanks r = [] ∧ ∃ u, mark s (r ++ z) = some u ∧ u.length < z.length
  shorter : ∀ {r u}, mark s r = some u → u <:+ r ∧ u.length < r.length

theorem Closes.of_isMark {z : List Char} (hz : Closing z) {s : String} (hs : IsMark s) :
    Closes z s :=
  ⟨fun r => .inl ((marks_mark hz hs).behind r), (marks_mark hz hs).shorter⟩

theorem shorter_of_mark {s : String} {r u : List Char} (hs : s.toList ≠ []) (h : mark s r = some u) :
    u <:+ r ∧ u.length < r.length := by
  have hskip : skipBlanks r <:+ r := List.dropWhile_suffix _
  have hu := shorter_of_append (append_of_after h).symm hs
  exact ⟨hu.1.trans hskip, hu.2.trans_le hskip.length_le⟩

theorem mark_paren {w : List Char} (hz : Closing (')' :: w)) (r : List Char) :
    mark ")" (r ++ ')' :: w) =
      if skipBlanks r = [] then some w else (mark ")" r).map (· ++ ')' :: w) := by
  rw [mark, mark, skipBlanks_closing hz]
  cases skipBlanks r with
  | nil => rfl
  | cons c u =>
    have hafter (v : List Char) : after ")" (c :: v) = if c = ')' then some v else none := by
      by_cases hc : c = ')'
      · rw [if_pos hc, hc]
        rfl
      · rw [if_neg hc, after_of_ne (s := ")") rfl (Ne.symm hc)]
    rw [if_neg (List.cons_ne_nil c u), List.cons_append, hafter, hafter]
    split <;> rfl

theorem closes_paren {z : List Char} (hz : Closing z) : Closes z ")" := by
  refine ⟨fun r => ?_, shorter_of_mark (by decide)⟩
  obtain ⟨w, rfl, hw⟩ := hz
  rw [mark_paren ⟨w, rfl, hw⟩]
  by_cases hblank : skipBlanks r = []
  · exact .inr ⟨hblank, w, if_pos hblank, by simp⟩
  · exact .inl (if_neg hblank)

theorem Closes.mark_eq_none {z : List Char} {s : String} (hs : Closes z s) {r : List Char}
    (hr : skipBlanks r = []) : mark s r = none := by
  cases h : mark s r with
  | none => rfl
  | some u =>
    rw [mark, hr] at h
    cases (hs.shorter (r := []) h).2

theorem skipBlanks_of_suffix {r u : List Char} (hr : skipBlanks r = []) (hu : u <:+ r) :
    skipBlanks u = [] :=
  List.dropWhile_eq_nil_iff.2 fun c hc => List.dropWhile_eq_nil_iff.1 hr c (hu.mem hc)

theorem suffix_of_mem_one {x : α} {r : List Char} {o : α × List Char} (ho : o ∈ one x r) :
    o.2 <:+ r := by
  obtain rfl := List.mem_singleton.1 ho
  exact List.suffix_refl r

namespace Agree

variable {z : List Char} {m n : Nat} {f f' g g' : List Char → Outcomes α}

theorem mono (h : Agree z n f f') (hm : m ≤ n) : Agree z m f f' :=
  ⟨h.leaves, h.leaves', fun r hr => h.leaving r (hr.trans_le hm)⟩

theorem nil : Agree z n (fun _ => ([] : Outcomes α)) fun _ => [] :=
  ⟨nofun, nofun, fun _ _ => rfl⟩

theorem one (x : α) : Agree z n (one x) (one x) :=
  ⟨fun _ _ => suffix_of_mem_one, fun _ _ => suffix_of_mem_one,
    fun r _ => leaving_behind z (Parser.one x r)⟩

theorem leaving_andThen {g g' : α → List Char → Outcomes β} {os os' : Outcomes α}
    (hos : os.leaving z = os'.map (behind z)) (hshort : ∀ o ∈ os', o.2.length < n)
    (hg : ∀ x, Agree z n (g x) (g' x)) :
    (os.andThen g).leaving z = (os'.andThen g').map (behind z) := by
  have hnext : ∀ o ∈ os', (g o.1 (o.2 ++ z)).leaving z = (g' o.1 o.2).map (behind z) :=
    fun o ho => (hg o.1).leaving o.2 (hshort o ho)
  calc (os.andThen g).leaving z
      = (os'.map (behind z)).flatMap fun o => (g o.1 o.2).leaving z := by
        rw [Parser.leaving_andThen fun x => (hg x).leaves, hos]
    _ = os'.flatMap fun o => (g' o.1 o.2).map (behind z) := by
        rw [List.flatMap_map]
        exact List.flatMap_congr hnext
    _ = (os'.andThen g').map (behind z) := (List.map_flatMap ..).symm

theorem andThen {g g' : α → List Char → Outcomes β} (h : Agree z n f f')
    (hg : ∀ x, Agree z n (g x) (g' x)) :
    Agree z n (fun r => (f r).andThen g) fun r => (f' r).andThen g' := by
  refine ⟨fun r o ho => ?_, fun r o ho => ?_, fun r hr => ?_⟩
  · obtain ⟨x, u, hx, ho⟩ := mem_andThen.1 ho
    exact ((hg x).leaves u o ho).trans (h.leaves r _ hx)
  · obtain ⟨x, u, hx, ho⟩ := mem_andThen.1 ho
    exact ((hg x).leaves' u o ho).trans (h.leaves' r _ hx)
  · exact leaving_andThen (h.leaving r hr)
      (fun o ho => (h.leaves' r o ho).length_le.trans_lt hr) hg

theorem giving (h : Agree z n f f') (g : α → β) :
    Agree z n (fun r => (f r).giving g) fun r => (f' r).giving g := by
  simp only [giving_eq_andThen]
  exact h.andThen fun x => .one (g x)

theorem append (hf : Agree z n f f') (hg : Agree z n g g') :
    Agree z n (fun r => f r ++ g r) fun r => f' r ++ g' r := by
  refine ⟨fun r o ho => ?_, fun r o ho => ?_, fun r hr => ?_⟩
  · exact (List.mem_append.1 ho).elim (hf.leaves r o) (hg.leaves r o)
  · exact (List.mem_append.1 ho).elim (hf.leaves' r o) (hg.leaves' r o)
  · rw [List.map_append, ← hf.leaving r hr, ← hg.leaving r hr]
    exact List.filter_append ..

theorem cond (c : Prop) [Decidable c] (hf : Agree z n f f') (hg : Agree z n g g') :
    Agree z n (fun r => if c then f r else g r) fun r => if c then f' r else g' r := by
  by_cases hc : c
  · simpa only [hc, if_true] using hf
  · simpa only [hc, if_false] using hg

theorem ofTest {p : List Char → Bool} (hp : ∀ r, p (r ++ z) = p r) (hf : Agree z n f f')
    (hg : Agree z n g g') {k k' : List Char → Outcomes α}
    (hk : ∀ r, k r = if p r then f r else g r) (hk' : ∀ r, k' r = if p r then f' r else g' r) :
    Agree z n k k' := by
  refine ⟨fun r o ho => ?_, fun r o ho => ?_, fun r hr => ?_⟩
  · rw [hk] at ho
    split at ho
    · exact hf.leaves r o ho
    · exact hg.leaves r o ho
  · rw [hk'] at ho
    split at ho
    · exact hf.leaves' r o ho
    · exact hg.leaves' r o ho
  · rw [hk, hk', hp]
    split
    · exact hf.leaving r hr
    · exact hg.leaving r hr

/-! ## Marks and tokens -/

theorem ofScan {scan : List Char → Option (β × List Char)} {g g' : β → List Char → Outcomes α}
    (hs : Scans z scan) (hf : Agree z n f f') (hg : ∀ x, Agree z (n - 1) (g x) (g' x))
    {k k' : List Char → Outcomes α} (hk : ∀ r, k r = (scan r).elim (f r) fun p => g p.1 p.2)
    (hk' : ∀ r, k' r = (scan r).elim (f' r) fun p => g' p.1 p.2) : Agree z n k k' := by
  refine ⟨fun r o ho => ?_, fun r o ho => ?_, fun r hr => ?_⟩
  · rw [hk] at ho
    cases hu : scan r with
    | none => exact hf.leaves r o (by rwa [hu] at ho)
    | some p => exact ((hg p.1).leaves p.2 o (by rwa [hu] at ho)).trans (hs.shorter hu).1
  · rw [hk'] at ho
    cases hu : scan r with
    | none => exact hf.leaves' r o (by rwa [hu] at ho)
    | some p => exact ((hg p.1).leaves' p.2 o (by rwa [hu] at ho)).trans (hs.shorter hu).1
  · rw [hk, hk', hs.behind]
    cases hu : scan r with
    | none => exact hf.leaving r hr
    | some p =>
      have hshort := (hs.shorter hu).2
      exact (hg p.1).leaving p.2 (by omega)

theorem ofMark {scan : List Char → Option (List Char)} (hs : Marks z scan)
    (hf : Agree z n f f') (hg : Agree z (n - 1) g g') {k k' : List Char → Outcomes α}
    (hk : ∀ r, k r = (scan r).elim (f r) g) (hk' : ∀ r, k' r = (scan r).elim (f' r) g') :
    Agree z n k k' := by
  refine .ofScan (hs.token ()) hf (fun _ => hg) (fun r => ?_) fun r => ?_
  · rw [hk]
    cases scan r <;> rfl
  · rw [hk']
    cases scan r <;> rfl

theorem mark {scan : List Char → Option (List Char)} (hs : Marks z scan)
    (hf : Agree z n f f') (hg : Agree z (n - 1) g g') :
    Agree z n (fun r => match scan r with | some u => g u | none => f r)
      fun r => match scan r with | some u => g' u | none => f' r :=
  .ofMark hs hf hg (fun r => by cases scan r <;> rfl) fun r => by cases scan r <;> rfl

/-- The same with the alternatives in the other order. -/
theorem unmarked {scan : List Char → Option (List Char)} (hs : Marks z scan)
    (hf : Agree z n f f') (hg : Agree z (n - 1) g g') :
    Agree z n (fun r => match scan r with | none => f r | some u => g u)
      fun r => match scan r with | none => f' r | some u => g' u :=
  .ofMark hs hf hg (fun r => by cases scan r <;> rfl) fun r => by cases scan r <;> rfl

theorem scan {scan : List Char → Scan} {g g' : List Char → List Char → Outcomes α}
    (hs : Scans z scan) (hf : Agree z n f f') (hg : ∀ x, Agree z (n - 1) (g x) (g' x)) :
    Agree z n (fun r => match scan r with | some (x, u) => g x u | none => f r)
      fun r => match scan r with | some (x, u) => g' x u | none => f' r :=
  .ofScan hs hf hg (fun r => by cases scan r <;> rfl) fun r => by cases scan r <;> rfl

theorem unscanned {scan : List Char → Scan} {g g' : List Char → List Char → Outcomes α}
    (hs : Scans z scan) (hf : Agree z n f f') (hg : ∀ x, Agree z (n - 1) (g x) (g' x)) :
    Agree z n (fun r => match scan r with | none => f r | some (x, u) => g x u)
      fun r => match scan r with | none => f' r | some (x, u) => g' x u :=
  .ofScan hs hf hg (fun r => by cases scan r <;> rfl) fun r => by cases scan r <;> rfl

theorem leaf {scan : List Char → Scan} (hs : Scans z scan) (kind : LeafKind) (cls : TokenClass) :
    Agree z n (fun r => leafOutcomes kind cls (scan r)) fun r => leafOutcomes kind cls (scan r) := by
  unfold leafOutcomes
  exact .scan hs .nil fun t => .one (Node.leaf kind (token cls t))

theorem closing {s : String} (hs : Closes z s) (x : α) :
    Agree z n (fun r => match Parser.mark s r with | some u => Parser.one x u | none => [])
      fun r => match Parser.mark s r with | some u => Parser.one x u | none => [] := by
  have hleaves (r : List Char) : ∀ o ∈ (match Parser.mark s r with
      | some u => Parser.one x u
      | none => []), o.2 <:+ r := by
    intro o ho
    split at ho
    · next u hu =>
      rw [List.mem_singleton.1 ho]
      exact (hs.shorter hu).1
    · cases ho
  refine ⟨hleaves, hleaves, fun r hr => ?_⟩
  rcases hs.behind r with hmark | ⟨hblank, u, hmark, hu⟩
  · rw [hmark]
    cases Parser.mark s r with
    | none => rfl
    | some u => exact leaving_behind z (Parser.one x u)
  · rw [hmark, hs.mark_eq_none hblank]
    exact leaving_of_shorter fun o ho => by rwa [List.mem_singleton.1 ho]

theorem closedBy {s : String} (hs : Closes z s) (h : Agree z n f f') :
    Agree z n (fun r => (f r).closedBy s) fun r => (f' r).closedBy s :=
  h.andThen fun x => .closing hs x

/-! ## Lists -/

/-- What follows an item of a list. -/
def moreItems (item : List Char → Outcomes α) (more : Nat) (x : α) (r : List Char) :
    Outcomes (List α) :=
  match Parser.mark "," r with
  | none => Parser.one [x] r
  | some r' =>
    match items item more r' with
    | [] => Parser.one [x] r
    | os => os.giving (x :: ·)

theorem items_succ (item : List Char → Outcomes α) (more : Nat) (cs : List Char) :
    items item (more + 1) cs = (item cs).andThen (moreItems item more) := rfl

section

variable {item item' : List Char → Outcomes α}

theorem moreItems_of_none {more : Nat} {x : α} {r : List Char} (h : Parser.mark "," r = none) :
    moreItems item more x r = Parser.one [x] r := by
  rw [moreItems, h]

theorem moreItems_of_nil {more : Nat} {x : α} {r u : List Char} (h : Parser.mark "," r = some u)
    (hnil : items item more u = []) : moreItems item more x r = Parser.one [x] r := by
  simp only [moreItems, h, hnil]

theorem moreItems_of_ne_nil {more : Nat} {x : α} {r u : List Char}
    (h : Parser.mark "," r = some u) (hne : items item more u ≠ []) :
    moreItems item more x r = (items item more u).giving (x :: ·) := by
  obtain ⟨o, os, hos⟩ := List.exists_cons_of_ne_nil hne
  simp only [moreItems, h, hos]

theorem items_of_nil {r : List Char} (h : item r = []) (more : Nat) : items item more r = [] := by
  cases more with
  | zero => rfl
  | succ more => rw [items_succ, h, andThen_nil]

theorem items_leaves (h : ∀ r, ∀ o ∈ item r, o.2 <:+ r) (more : Nat) :
    (∀ r, ∀ o ∈ items item more r, o.2 <:+ r) ∧
      ∀ x r, ∀ o ∈ moreItems item more x r, o.2 <:+ r := by
  have hnext {more : Nat} (ih : ∀ r, ∀ o ∈ items item more r, o.2 <:+ r) (x : α) :
      ∀ r, ∀ o ∈ moreItems item more x r, o.2 <:+ r := by
    intro r o ho
    unfold moreItems at ho
    split at ho
    · exact suffix_of_mem_one ho
    · next v hcomma =>
      split at ho
      · exact suffix_of_mem_one ho
      · obtain ⟨xs, hxs, -⟩ := mem_giving.1 ho
        exact (ih v _ hxs).trans (shorter_of_mark (by decide) hcomma).1
  induction more with
  | zero => exact ⟨nofun, hnext nofun⟩
  | succ more ih =>
    have hitems : ∀ r, ∀ o ∈ items item (more + 1) r, o.2 <:+ r := by
      intro r o ho
      obtain ⟨x, u, hx, ho⟩ := mem_andThen.1 (items_succ item more r ▸ ho)
      exact (hnext ih.1 x u o ho).trans (h r _ hx)
    exact ⟨hitems, hnext hitems⟩

theorem andThen_andThen (os : Outcomes α) (f : α → List Char → Outcomes β)
    (g : β → List Char → Outcomes γ) :
    (os.andThen f).andThen g = os.andThen fun x r => (f x r).andThen g :=
  List.flatMap_assoc

theorem giving_andThen (os : Outcomes α) (f : α → β) (g : β → List Char → Outcomes γ) :
    (os.giving f).andThen g = os.andThen fun x r => g (f x) r :=
  List.flatMap_map ..

/-- A list and what closes it. Behind the last item that either reader takes a comma may be left
standing, and the one may take an item where the other finds none; but then neither list is closed
there. -/
theorem items_andThen (hz : Closing z) (hitem : Agree z n item item')
    {k : List α → List Char → Outcomes β} (hk : ∀ xs, Agree z n (k xs) (k xs))
    (hstop : ∀ xs {u v}, Parser.mark "," u = some v →
      (k xs u ≠ [] → item (v ++ z) = []) ∧ (k xs (u ++ z) ≠ [] → item' v = []))
    {more more' : Nat} {r : List Char} (hr : r.length < n) (hm : (r ++ z).length < more)
    (hm' : r.length < more') :
    ((items item more (r ++ z)).andThen k).leaving z =
      ((items item' more' r).andThen k).map (behind z) := by
  induction more generalizing more' r k with
  | zero => omega
  | succ more ih =>
    obtain ⟨more', rfl⟩ : ∃ m, more' = m + 1 := ⟨more' - 1, by omega⟩
    rw [items_succ, items_succ, andThen_andThen, andThen_andThen]
    suffices hmore : ∀ x, Agree z (r.length + 1) (fun u => (moreItems item more x u).andThen k)
        fun u => (moreItems item' more' x u).andThen k from
      ((hitem.mono hr).andThen hmore).leaving r (by omega)
    intro x
    refine ⟨fun u o ho => ?_, fun u o ho => ?_, fun u hu => ?_⟩
    · obtain ⟨xs, v, hxs, ho⟩ := mem_andThen.1 ho
      exact ((hk xs).leaves v o ho).trans ((items_leaves hitem.leaves more).2 x u _ hxs)
    · obtain ⟨xs, v, hxs, ho⟩ := mem_andThen.1 ho
      exact ((hk xs).leaves v o ho).trans ((items_leaves hitem.leaves' more').2 x u _ hxs)
    · have hcomma := (marks_mark hz (s := ",") (by decide)).behind u
      cases hv : Parser.mark "," u with
      | none =>
        rw [hv] at hcomma
        rw [moreItems_of_none hv, moreItems_of_none hcomma, andThen_one, andThen_one]
        exact (hk [x]).leaving u (by omega)
      | some v =>
        rw [hv] at hcomma
        have hshort := (shorter_of_mark (by decide) hv).2
        have hbound : (v ++ z).length < more := by
          simp only [List.length_append] at hm ⊢
          omega
        have hrest := ih (fun xs => hk (x :: xs)) (fun xs => hstop (x :: xs)) (by omega) hbound
          (show v.length < more' by omega)
        by_cases hlong : items item more (v ++ z) = []
        · rw [moreItems_of_nil hcomma hlong, andThen_one]
          by_cases hown : items item' more' v = []
          · rw [moreItems_of_nil hv hown, andThen_one]
            exact (hk [x]).leaving u (by omega)
          · have hstopped : k [x] (u ++ z) = [] := by
              by_contra hne
              exact hown (items_of_nil ((hstop [x] hv).2 hne) more')
            rw [moreItems_of_ne_nil hv hown, giving_andThen, ← hrest, hlong, hstopped]
            rfl
        · rw [moreItems_of_ne_nil hcomma hlong, giving_andThen, hrest]
          by_cases hown : items item' more' v = []
          · have hstopped : k [x] u = [] := by
              by_contra hne
              exact hlong (items_of_nil ((hstop [x] hv).1 hne) more)
            rw [moreItems_of_nil hv hown, andThen_one, hown, hstopped]
            rfl
          · rw [moreItems_of_ne_nil hv hown, giving_andThen]

/-- A whole list with what closes it. -/
theorem listed (hz : Closing z) (hitem : Agree z n item item')
    {k : List α → List Char → Outcomes β} (hk : ∀ xs, Agree z n (k xs) (k xs))
    (hstop : ∀ xs {u v}, Parser.mark "," u = some v →
      (k xs u ≠ [] → item (v ++ z) = []) ∧ (k xs (u ++ z) ≠ [] → item' v = [])) :
    Agree z n (fun r => (items item (r.length + 1) r).andThen k)
      fun r => (items item' (r.length + 1) r).andThen k := by
  refine ⟨fun r o ho => ?_, fun r o ho => ?_, fun r hr => ?_⟩
  · obtain ⟨xs, u, hxs, ho⟩ := mem_andThen.1 ho
    exact ((hk xs).leaves u o ho).trans ((items_leaves hitem.leaves _).1 r _ hxs)
  · obtain ⟨xs, u, hxs, ho⟩ := mem_andThen.1 ho
    exact ((hk xs).leaves u o ho).trans ((items_leaves hitem.leaves' _).1 r _ hxs)
  · exact items_andThen hz hitem hk hstop hr (by omega) (by omega)

/-- The marks that close a list. -/
abbrev closers : List String := [")", "]", "\x7d"]

theorem mark_of_comma {close : String} (hclose : close ∈ closers) {r u : List Char}
    (h : Parser.mark "," r = some u) : Parser.mark close r = none := by
  have hr : skipBlanks r = ',' :: u := append_of_after h
  fin_cases hclose <;> rw [Parser.mark, hr] <;> rfl

theorem closes_of_mem {close : String} (hz : Closing z) (hclose : close ∈ closers) :
    Closes z close := by
  fin_cases hclose
  · exact closes_paren hz
  · exact .of_isMark hz (by decide)
  · exact .of_isMark hz (by decide)

theorem itemsTo {close : String} (hz : Closing z) (hclose : close ∈ closers)
    (hitem : Agree z n item item') :
    Agree z n (Parser.itemsTo close item) (Parser.itemsTo close item') := by
  have hcloses := closes_of_mem hz hclose
  have hlist : Agree z n (fun r => (items item (r.length + 1) r).closedBy close)
      fun r => (items item' (r.length + 1) r).closedBy close := by
    refine .listed hz hitem (fun xs => .closing hcloses xs) fun xs {u v} hcomma => ?_
    have hbehind := (marks_mark hz (s := ",") (by decide)).behind u
    rw [hcomma] at hbehind
    exact ⟨fun h => by simp [mark_of_comma hclose hcomma] at h,
      fun h => by simp [mark_of_comma hclose hbehind] at h⟩
  have hleaves {item : List Char → Outcomes α} (r : List Char)
      (h : ∀ o ∈ (items item (r.length + 1) r).closedBy close, o.2 <:+ r) :
      ∀ o ∈ Parser.itemsTo close item r, o.2 <:+ r := by
    intro o ho
    unfold Parser.itemsTo at ho
    split at ho
    · next u hu =>
      rw [List.mem_singleton.1 ho]
      exact (hcloses.shorter hu).1
    · exact h o ho
  refine ⟨fun r => hleaves r (hlist.leaves r), fun r => hleaves r (hlist.leaves' r),
    fun r hr => ?_⟩
  rw [Parser.itemsTo, Parser.itemsTo]
  rcases hcloses.behind r with hmark | ⟨hblank, u, hmark, hu⟩
  · rw [hmark]
    cases Parser.mark close r with
    | none => exact hlist.leaving r hr
    | some u => exact leaving_behind z (Parser.one [] u)
  · -- nothing is left but blanks, so the list is closed in what stands behind or not at all
    have hopen : (items item' (r.length + 1) r).closedBy close = [] := by
      refine List.eq_nil_iff_forall_not_mem.2 fun o ho => ?_
      obtain ⟨v, hv, hclosed⟩ := mem_closedBy.1 ho
      have hsuffix := (items_leaves hitem.leaves' _).1 r _ hv
      rw [hcloses.mark_eq_none (skipBlanks_of_suffix hblank hsuffix)] at hclosed
      cases hclosed
    simp only [hmark, hcloses.mark_eq_none hblank, hopen]
    exact leaving_of_shorter fun o ho => by rwa [List.mem_singleton.1 ho]

theorem itemsToSpare {close : String} (hz : Closing z) (hmark : IsMark close)
    (hitem : Agree z n item item')
    (hshut : ∀ {r u}, Parser.mark close r = some u → item r = [] ∧ item' r = []) :
    Agree z n (Parser.itemsToSpare close item) (Parser.itemsToSpare close item') := by
  have hcomma : Marks z (Parser.mark ",") := marks_mark hz (by decide)
  have hend := marks_mark hz hmark
  have hlist := listed hz hitem
    (k := fun xs r => match Parser.mark close ((Parser.mark "," r).getD r) with
      | some r => Parser.one xs r
      | none => [])
    (fun xs => .mark (marks_spare hz (by decide) hmark) .nil (.one xs)) fun xs {u v} hu => by
      have hbehind := hcomma.behind u
      rw [hu] at hbehind
      simp only [hu, hbehind, Option.getD_some, Option.map_some, hend.behind]
      cases hv : Parser.mark close v with
      | none => simp
      | some w => simp [hshut hv, (hshut ((hend.behind v).trans (by rw [hv, Option.map_some]))).1]
  exact .mark hend (.mark (hcomma.bind hend) hlist (.one [])) (.one [])

end

end Agree

end Parser

end Comprehend
