import Comprehend.Proofs.Syntax.Follow

/-! # Texts that read as a tree

`Reads` says of a text, a tree and a level that wherever the text stands in front of something that
does not go on with it, the tree is what the readers of that level and of all looser ones prefer to
read there. A text can be read tighter than it need be, so it is enough to know each text at the
level of its outermost operator. Where the reader of a level gathers operands or links from left to
right, what a text is the start of matters too, and `JoinsAt` and `Starts` let the reader go on. -/

namespace Comprehend.Parser

open Comprehend.Text Comprehend.Lexeme

/-- The reader of a level. Those from 2 to 13 are joined operands. -/
def reader : (level fuel : Nat) → List Char → Outcomes Node
  | 0 => expression
  | 1 => ternary
  | 14 => power
  | 15 => unary
  | 16 => update
  | 17 => operand
  | level => fun fuel => joined fuel (level - 2)

theorem reader_joined {k : Nat} (hk : k ≤ 11) (fuel : Nat) (cs : List Char) :
    reader (2 + k) fuel cs = joined fuel k cs := by
  interval_cases k <;> rfl

/-- A text that is read at a level as a tree. The deeper the level, the less fuel it needs. -/
def ReadsAt (level : Nat) (u : List Char) (x : Node) : Prop :=
  ∀ ⦃f : Nat⦄ ⦃rest : List Char⦄, Ends level rest → 32 * u.length ≤ f + level →
    Leads (reader level f (u ++ rest)) x rest

/-- A text that is read as the first operands of a level. -/
def JoinsAt (k : Nat) (u : List Char) (x : Node) : Prop :=
  ∀ ⦃fuel : Nat⦄ ⦃rest r : List Char⦄ ⦃y : Node⦄, Ends (3 + k) rest →
    32 * u.length ≤ fuel + (2 + k) →
    (∀ f, fuel + (2 + k) < f + 32 * u.length → Leads (joinedTail f k x rest) y r) →
    Leads (joined fuel k (u ++ rest)) y r

/-- What an operand starts with: a construction or a primary expression, and whether links may
follow. -/
def heads (fuel : Nat) (cs : List Char) : Outcomes (Node × Bool) :=
  match keyword "new" (skipBlanks cs) with
  | some r => construction fuel r
  | none => (primary fuel cs).giving (·, true)

/-- A text that in front of some rests is read as an operand up to some link: a walk over all links
comes first to what the walk from there comes to. -/
def StartsBefore (P : List Char → Prop) (walk : Nat → Node → List Char → Outcomes Node)
    (u : List Char) (x : Node) : Prop :=
  ∀ ⦃f : Nat⦄ ⦃rest : List Char⦄, P rest → 32 * u.length ≤ f + 18 →
    ∃ k x₀ r₀, f + 18 < k + 32 * u.length ∧ Leads (heads f (u ++ rest)) (x₀, true) r₀ ∧
      walk k x rest <+: walk f x₀ r₀

/-- A text that is read as an operand up to some link. -/
abbrev Starts : (Nat → Node → List Char → Outcomes Node) → List Char → Node → Prop :=
  StartsBefore Free

/-- How the texts of a level start, as far as that decides what they are tried as. -/
structure Opens (level : Nat) (u : List Char) : Prop where
  item : OpensItem u
  spread : ∀ rest, mark "..." (u ++ rest) = none
  cover : ∀ {f rest}, Free rest → ∀ o ∈ bindingTarget f (u ++ rest), o.2 = rest ∨ Stuck o.2
  noHead : 1 ≤ level → ∀ {fuel rest}, Free rest → mark "=>" rest = none →
    arrowHead fuel (u ++ rest) = []
  noSign : 16 ≤ level → ∀ {rest}, Free rest →
    unaryAt (u ++ rest) = none ∧ updateAt (u ++ rest) = none
  noNew : 20 ≤ level → ∀ {rest}, Free rest → keyword "new" (skipBlanks (u ++ rest)) = none
  noDot : 18 ≤ level → startsWith (· == '.') u = false

/-- A text that reads as a tree at a level and at all looser ones. -/
structure Reads (level : Nat) (u : List Char) (x : Node) : Prop extends Opens level u where
  at' : ∀ t ≤ level, t ≤ 17 → ReadsAt t u x
  joins : ∀ k ≤ 10, 2 + k ≤ level → JoinsAt k u x
  links : 18 ≤ level → Starts links u x
  memberLinks : 19 ≤ level → Starts memberLinks u x

theorem Opens.mono {s t : Nat} {u : List Char} (h : Opens t u) (hst : s ≤ t) : Opens s u where
  item := h.item
  spread := h.spread
  cover := h.cover
  noHead hs := h.noHead (hs.trans hst)
  noSign hs := h.noSign (hs.trans hst)
  noNew hs := h.noNew (hs.trans hst)
  noDot hs := h.noDot (hs.trans hst)

theorem Reads.mono {s t : Nat} {u : List Char} {x : Node} (h : Reads t u x) (hst : s ≤ t) :
    Reads s u x where
  toOpens := h.toOpens.mono hst
  at' r hr := h.at' r (hr.trans hst)
  joins k hk hs := h.joins k hk (hs.trans hst)
  links hs := h.links (hs.trans hst)
  memberLinks hs := h.memberLinks (hs.trans hst)

theorem Opens.length_pos {level : Nat} {u : List Char} (h : Opens level u) : 0 < u.length := by
  obtain ⟨c, cs, rfl, -⟩ := h.item
  exact Nat.succ_pos _

/-! ## From a level to the looser ones -/

section

variable {u : List Char} {x : Node}

theorem ReadsAt.expression {level : Nat} (ho : Opens level u) (hl : 1 ≤ level)
    (h : ReadsAt 1 u x) : ReadsAt 0 u x := by
  intro fuel rest he hf
  have hu := ho.length_pos
  obtain ⟨fuel, rfl⟩ : ∃ f, fuel = f + 1 := ⟨fuel - 1, by omega⟩
  change Leads (Parser.expression (fuel + 1) (u ++ rest)) x rest
  rw [Parser.expression, ho.noHead hl he.free (he.arrow (by omega))]
  exact h (he.mono (by omega)) (by omega)

theorem ReadsAt.ternary (hu : 0 < u.length) (h : ReadsAt 2 u x) : ReadsAt 1 u x := by
  intro fuel rest he hf
  obtain ⟨fuel, rfl⟩ : ∃ f, fuel = f + 1 := ⟨fuel - 1, by omega⟩
  change Leads (Parser.ternary (fuel + 1) (u ++ rest)) x rest
  rw [Parser.ternary]
  refine Leads.andThen (h (f := fuel) (he.mono (by omega)) (by omega)) ?_
  rw [he.question (by omega)]
  exact .one x rest

theorem ReadsAt.joins (hu : 0 < u.length) {k : Nat} (hk : k ≤ 10) (h : ReadsAt (3 + k) u x) :
    JoinsAt k u x := by
  intro fuel rest r y he hf hw
  obtain ⟨fuel, rfl⟩ : ∃ f, fuel = f + 1 := ⟨fuel - 1, by omega⟩
  rw [joined, if_pos (show k < jointLevels by simp only [jointLevels]; omega)]
  have hx := h (f := fuel) he (by omega)
  rw [show 3 + k = 2 + (k + 1) by omega, reader_joined (by omega)] at hx
  exact hx.andThen (hw fuel (by omega))

theorem JoinsAt.readsAt {k : Nat} (hk : k ≤ 10) (h : JoinsAt k u x) : ReadsAt (2 + k) u x := by
  intro fuel rest he hf
  rw [reader_joined (by omega)]
  refine h (he.mono (by omega)) hf fun f hf' => ?_
  obtain ⟨f, rfl⟩ : ∃ g, f = g + 1 := ⟨f - 1, by omega⟩
  rw [joinedTail, he.joint k (by omega)]
  exact .one x rest

theorem ReadsAt.joined_power (hu : 0 < u.length) (h : ReadsAt 14 u x) : ReadsAt 13 u x := by
  intro fuel rest he hf
  obtain ⟨fuel, rfl⟩ : ∃ f, fuel = f + 1 := ⟨fuel - 1, by omega⟩
  exact h (f := fuel) (he.mono (by omega)) (by omega)

theorem ReadsAt.power {level : Nat} (ho : Opens level u) (hl : 16 ≤ level) (h : ReadsAt 16 u x) :
    ReadsAt 14 u x := by
  intro fuel rest he hf
  have hu := ho.length_pos
  obtain ⟨fuel, rfl⟩ : ∃ f, fuel = f + 1 := ⟨fuel - 1, by omega⟩
  change Leads (Parser.power (fuel + 1) (u ++ rest)) x rest
  rw [Parser.power, (ho.noSign hl he.free).1]
  refine Leads.andThen (h (f := fuel) (he.mono (by omega)) (by omega)) ?_
  rw [he.power (by omega)]
  exact .one x rest

theorem ReadsAt.unary {level : Nat} (ho : Opens level u) (hl : 16 ≤ level) (h : ReadsAt 16 u x) :
    ReadsAt 15 u x := by
  intro fuel rest he hf
  have hu := ho.length_pos
  obtain ⟨fuel, rfl⟩ : ∃ f, fuel = f + 1 := ⟨fuel - 1, by omega⟩
  change Leads (Parser.unary (fuel + 1) (u ++ rest)) x rest
  rw [Parser.unary, (ho.noSign hl he.free).1]
  exact h (he.mono (by omega)) (by omega)

theorem ReadsAt.update {level : Nat} (ho : Opens level u) (hl : 16 ≤ level) (h : ReadsAt 17 u x) :
    ReadsAt 16 u x := by
  intro fuel rest he hf
  have hu := ho.length_pos
  obtain ⟨fuel, rfl⟩ : ∃ f, fuel = f + 1 := ⟨fuel - 1, by omega⟩
  change Leads (Parser.update (fuel + 1) (u ++ rest)) x rest
  rw [Parser.update, (ho.noSign hl he.free).2]
  refine Leads.andThen (h (f := fuel) (he.mono (by omega)) (by omega)) ?_
  rw [he.update (by omega)]
  exact .one x rest

theorem operand_succ (fuel : Nat) (cs : List Char) :
    operand (fuel + 1) cs = (heads fuel cs).andThen fun x r =>
      if x.2 then Parser.links fuel x.1 r else one x.1 r := by
  rw [operand, heads]
  cases keyword "new" (skipBlanks cs) with
  | some r => rfl
  | none => simp only [Outcomes.andThen, Outcomes.giving, List.flatMap_map, if_true]

theorem Starts.operand (hu : 0 < u.length) (h : Starts Parser.links u x) {fuel : Nat}
    {rest r : List Char} {y : Node} (hr : Free rest) (hf : 32 * u.length ≤ fuel + 17)
    (hw : ∀ f, fuel + 17 < f + 32 * u.length → Leads (Parser.links f x rest) y r) :
    Leads (operand fuel (u ++ rest)) y r := by
  obtain ⟨fuel, rfl⟩ : ∃ f, fuel = f + 1 := ⟨fuel - 1, by omega⟩
  obtain ⟨k, x₀, r₀, hk, hx₀, hwalk⟩ := h (f := fuel) hr (by omega)
  rw [operand_succ]
  exact hx₀.andThen ((hw k (by omega)).of_isPrefix hwalk)

theorem links_of_unlinked {fuel : Nat} {rest : List Char} (x : Node) (h : Unlinked rest) :
    Parser.links (fuel + 1) x rest = one x rest := by
  rw [Parser.links, h.dot]
  simp only [Option.bind_none, h.bracket, h.paren, h.template, h.optional]

theorem Starts.readsAt (hu : 0 < u.length) (h : Starts Parser.links u x) : ReadsAt 17 u x := by
  intro fuel rest he hf
  refine h.operand hu he.free hf fun f hf' => ?_
  obtain ⟨f, rfl⟩ : ∃ g, f = g + 1 := ⟨f - 1, by omega⟩
  rw [links_of_unlinked x (he.links (by omega))]
  exact .one x rest

/-- A text that is read at a level up to 14 is read at all looser ones. -/
theorem ReadsAt.below {s t : Nat} (ho : Opens s u) (hs : 1 ≤ s ∨ t = 0) (ht : t ≤ 14)
    (h : ReadsAt t u x) : ∀ t' ≤ t, ReadsAt t' u x := by
  intro t' ht'
  induction ht' using Nat.decreasingInduction with
  | self => exact h
  | of_succ t' hlt ih =>
    have hs : 1 ≤ s := by omega
    have hu := ho.length_pos
    have ih : ReadsAt (t' + 1) u x := ih
    by_cases h0 : t' = 0
    · subst h0
      exact ih.expression ho hs
    by_cases h1 : t' = 1
    · subst h1
      exact ih.ternary hu
    by_cases h13 : t' = 13
    · subst h13
      exact ih.joined_power hu
    · obtain ⟨k, rfl⟩ : ∃ k, t' = 2 + k := ⟨t' - 2, by omega⟩
      have hk : k ≤ 10 := by omega
      rw [show 2 + k + 1 = 3 + k by omega] at ih
      exact (ih.joins hu hk).readsAt hk

/-- A text of a level up to 1, or of joined operands, or a power. -/
theorem Reads.of_readsAt {level : Nat} (ho : Opens level u) (hl : level ≤ 14)
    (h : ReadsAt level u x) (hj : ∀ k ≤ 10, 2 + k = level → JoinsAt k u x) : Reads level u x := by
  have below := h.below ho (by omega) hl
  refine ⟨ho, fun t ht _ => below t ht, fun k hk hle => ?_, fun h => by omega, fun h => by omega⟩
  rcases Nat.lt_or_eq_of_le hle with hlt | heq
  · exact (below (3 + k) (by omega)).joins ho.length_pos hk
  · exact hj k hk heq

/-- A text of joined operands. -/
theorem Reads.of_joins {k : Nat} (ho : Opens (2 + k) u) (hk : k ≤ 10) (h : JoinsAt k u x) :
    Reads (2 + k) u x :=
  .of_readsAt ho (by omega) (h.readsAt hk) fun j _ hj => by
    obtain rfl : j = k := by omega
    exact h

/-- A text with an operator in front. -/
theorem Reads.of_unary (ho : Opens 15 u) (hp : ReadsAt 14 u x) (hu : ReadsAt 15 u x) :
    Reads 15 u x := by
  have below := Reads.of_readsAt (ho.mono (by omega)) (Nat.le_refl 14) hp fun k hk h => by omega
  refine ⟨ho, fun t ht _ => ?_, fun k hk h => below.joins k hk (by omega), fun h => by omega,
    fun h => by omega⟩
  rcases Nat.lt_or_eq_of_le ht with hlt | rfl
  · exact below.at' t (by omega) (by omega)
  · exact hu

/-- A text with no sign in front, read at the deepest level there is for it. -/
theorem Reads.of_update {level : Nat} (ho : Opens level u) (hl : 16 ≤ level)
    (hu : ReadsAt 16 u x) (hop : 17 ≤ level → ReadsAt 17 u x)
    (hlinks : 18 ≤ level → Starts Parser.links u x)
    (hmember : 19 ≤ level → Starts Parser.memberLinks u x) : Reads level u x := by
  have hp := hu.power ho hl
  have below := Reads.of_readsAt (ho.mono (show 14 ≤ level by omega)) (Nat.le_refl 14) hp
    fun k hk h => by omega
  refine ⟨ho, fun t ht ht' => ?_, fun k hk _ => below.joins k hk (by omega), hlinks, hmember⟩
  by_cases h14 : t ≤ 14
  · exact below.at' t h14 (by omega)
  · obtain rfl | rfl | rfl : t = 15 ∨ t = 16 ∨ t = 17 := by omega
    · exact hu.unary ho hl
    · exact hu
    · exact hop ht

theorem Reads.of_memberLinks {level : Nat} (ho : Opens level u) (hl : 18 ≤ level) 
    (h : Starts Parser.links u x) (hm : 19 ≤ level → Starts Parser.memberLinks u x) :
    Reads level u x :=
  have hop := h.readsAt ho.length_pos
  .of_update ho (by omega) (hop.update ho (by omega)) (fun _ => hop) (fun _ => h) hm

/-- A text that is a primary expression whatever comes after it. -/
theorem Starts.of_primary {walk : Nat → Node → List Char → Outcomes Node} (ho : Opens 20 u)
    (h : ∀ ⦃fuel rest⦄, Free rest → 32 * u.length ≤ fuel + 18 →
      Leads (primary fuel (u ++ rest)) x rest) : Starts walk u x := by
  intro fuel rest hr hf
  have hu := ho.length_pos
  refine ⟨fuel, x, rest, by omega, ?_, List.prefix_refl _⟩
  rw [heads, ho.noNew (by omega) hr]
  exact (h hr hf).giving _

theorem Reads.of_primary (ho : Opens 20 u)
    (h : ∀ ⦃fuel rest⦄, Free rest → 32 * u.length ≤ fuel + 18 →
      Leads (primary fuel (u ++ rest)) x rest) : Reads 20 u x :=
  .of_memberLinks ho (by omega) (.of_primary ho h) fun _ => .of_primary ho h

end

end Comprehend.Parser
