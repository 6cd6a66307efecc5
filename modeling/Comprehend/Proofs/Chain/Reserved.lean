import Comprehend.Proofs.Chain.Lowered
import Comprehend.Proofs.Script.Resolution
import Comprehend.Proofs.Syntax.RoundTrip

/-! # Reserved words in callbacks

There are two lists of reserved words. A plain loop variable is checked against the long one. A
pattern is read by the grammar, which only keeps the words apart that it has a use for itself, and
nothing checks the names in it again. So what a callback can bind of the long list are the words
that are not on the short one, and those only in a pattern. -/

namespace Comprehend

open Comprehend.Parser Comprehend.Lexeme Comprehend.Text

/-! ## Names in patterns -/

theorem Script.mem_bindersAll {name : String} {xs : List Node} :
    name ∈ bindersAll xs ↔ ∃ x ∈ xs, name ∈ binders x := by
  induction xs with
  | nil => simp [bindersAll]
  | cons x xs ih => simp [bindersAll, ih]

namespace Parser

section

variable {name : String} {w rest : List Char} {phrase : Phrase} {x : Node}

theorem IsName.not_mem_reservedWords (h : IsName w) : String.ofList w ∉ Lexeme.reservedWords := by
  have hfree := h.free
  rw [isReserved, ← Bool.not_eq_true, List.contains_iff_mem] at hfree
  exact hfree

theorem IsName.not_mem_of_binders (h : IsName w)
    (hname : name ∈ Script.binders (.bindingName (token .name w))) :
    name ∉ Lexeme.reservedWords := by
  obtain rfl := List.mem_singleton.1 hname
  exact h.not_mem_reservedWords

/-- No name that a tree of the grammar binds is one that the grammar reserves. -/
theorem Formed.not_mem_reservedWords (h : Formed phrase x) :
    ∀ name ∈ Script.binders x, name ∉ Lexeme.reservedWords := by
  have all {xs : List Node} (ih : ∀ x ∈ xs, ∀ name ∈ Script.binders x, name ∉ Lexeme.reservedWords)
      (name : String) (hname : name ∈ Script.bindersAll xs) : name ∉ Lexeme.reservedWords := by
    obtain ⟨x, hx, hname⟩ := Script.mem_bindersAll.1 hname
    exact ih x hx name hname
  induction h with
  | bindingName h | nameItem h | restItem h => exact fun _ => h.not_mem_of_binders
  | defaultItem h => exact fun _ => h.not_mem_of_binders
  | element _ ih | pattern _ ih | default _ _ ih | rest _ ih | propertyItem _ _ ih => exact ih
  | arrayPattern _ ih => exact all ih
  | objectPattern _ ih => exact all ih
  | _ => exact fun _ hname => absurd hname List.not_mem_nil

/-- A word that the grammar reserves is no target. -/
theorem bindingTarget_of_reserved (hw : word w = some (w, [])) (h : isReserved w = true)
    (hr : Free rest) (fuel : Nat) : bindingTarget fuel (w ++ rest) = [] := by
  cases fuel with
  | zero => rfl
  | succ fuel =>
    have hword : word (w ++ rest) = some (w, rest) := word_append hw hr
    have hname : plainName (w ++ rest) = none := by rw [plainName_of_word hword, h, if_pos rfl]
    have hopen : mark "[" (w ++ rest) = none := mark_of_word hword rfl rfl
    have hbrace : mark "\x7b" (w ++ rest) = none := mark_of_word hword rfl rfl
    rw [bindingTarget, hopen]
    simp only [hbrace, hname]

theorem patternElement_of_reserved (hw : word w = some (w, [])) (h : isReserved w = true)
    (hr : Free rest) (fuel : Nat) : patternElement fuel (w ++ rest) = [] := by
  cases fuel with
  | zero => rfl
  | succ fuel =>
    have hdots : mark "..." (w ++ rest) = none := mark_of_word (word_append hw hr) rfl rfl
    rw [patternElement, hdots]
    simp only [bindingTarget_of_reserved hw h hr fuel]
    rfl

theorem patternElement_bracketed_of_reserved (hw : word w = some (w, [])) (h : isReserved w = true)
    (fuel : Nat) : patternElement fuel (bracketed [w]) = [] := by
  have hitems (fuel : Nat) : itemsTo "]" (patternElement fuel) (w ++ [']']) = [] := by
    have hfree : Free [']'] := rfl
    have hclose : mark "]" (w ++ [']']) = none := mark_of_word (word_append hw hfree) rfl rfl
    rw [itemsTo, hclose]
    simp only [items, patternElement_of_reserved hw h hfree]
    rfl
  have htarget (fuel : Nat) : bindingTarget fuel (bracketed [w]) = [] := by
    cases fuel with
    | zero => rfl
    | succ fuel =>
      have hread := bindingTarget_bracketed [w] fuel []
      rw [List.append_nil, commas, hitems] at hread
      exact hread
  cases fuel with
  | zero => rfl
  | succ fuel =>
    have hdots : mark "..." (bracketed [w]) = none := rfl
    rw [patternElement, hdots]
    simp only [htarget fuel]
    rfl

/-- A list pattern of one word is read unless the grammar reserves the word. -/
theorem parsePattern_bracketed (hw : word w = some (w, [])) :
    parsePattern (String.ofList (bracketed [w])) =
      if isReserved w then .error (.badPattern (String.ofList (bracketed [w])))
      else .ok (.arrayPattern [.bindingName (token .name w)]) := by
  cases h : isReserved w with
  | false =>
    have hname : IsName w := ⟨hw, h⟩
    exact parsePattern_of_reads (ReadsTarget.array (.cons hname.target.element .nil)).element
  | true =>
    have hopens : OpensItem (bracketed [w]) := ⟨'[', _, rfl, rfl⟩
    have hnone : pattern? (String.ofList (bracketed [w])) = none := by
      rw [pattern?, String.toList_ofList, patternElement_bracketed_of_reserved hw h]
      rfl
    rw [parsePattern, isBlankText_of_opensItem hopens, hnone]
    rfl

end

end Parser

/-! ## Refusals -/

namespace Chain

section

variable {reader : OperandReader} {clause : Clause} {clauses outer inner : List Clause}
  {body source yield : Node} {fault : Fault}

theorem level_error (hs : reader.expression clause.iterable = .ok source)
    (hb : binding reader clause = .error fault) (op : Combinator) (body : Node) :
    level reader clause op body = .error fault := by
  rw [level, hs]
  simp only [bind, Except.bind, hb]

/-- A clause that is refused is refused after all those within it. -/
theorem fold_error (hinner : fold reader yield inner = .ok body)
    (hs : reader.expression clause.iterable = .ok source)
    (hb : binding reader clause = .error fault) (outer : List Clause) :
    fold reader yield (outer ++ clause :: inner) = .error fault := by
  induction outer with
  | nil =>
    cases inner with
    | nil => exact level_error hs hb .map yield
    | cons c inner =>
      rw [List.nil_append, fold, hinner]
      · exact level_error hs hb .flatMap body
      · simp
  | cons c outer ih =>
    obtain ⟨d, rest, hrest⟩ : ∃ d rest, outer ++ clause :: inner = d :: rest :=
      List.exists_cons_of_ne_nil (by simp)
    rw [List.cons_append]
    rw [hrest] at ih ⊢
    rw [fold, ih]
    · rfl
    · simp

theorem build_of_binding_error (hc : clauses = outer ++ clause :: inner) {maxClauses : Int}
    {text : String} (hmax : clauses.length ≤ maxClauses) (hy : reader.expression text = .ok yield)
    (hinner : fold reader yield inner = .ok body)
    (hs : reader.expression clause.iterable = .ok source)
    (hb : binding reader clause = .error fault) :
    build reader maxClauses text clauses = .error fault := by
  subst hc
  rw [build, if_neg (by simp), if_neg (by omega), hy]
  exact fold_error hinner hs hb outer

theorem binding_of_reserved (hd : clause.isDestructuring = false)
    (hw : clause.pattern ∈ Variable.reservedWords) (reader : OperandReader) :
    binding reader clause = .error (.reservedVariable clause.pattern) := by
  have hvalidate : ∀ w ∈ Variable.reservedWords,
      Variable.validate w = .error (.reservedVariable w) := by
    decide
  rw [binding, hd, if_neg Bool.false_ne_true, hvalidate _ hw]
  rfl

end

end Chain

open Chain

/-! ## Whole comprehensions -/

/-- What a level binds is never a word that the grammar reserves, and is a word that a plain
variable cannot be only in a pattern. -/
theorem Chain.Level.Reads.not_mem_reservedWords {c : Clause} {l : Level}
    (h : Level.Reads .script c l) : ∀ name ∈ Script.binders l.param.node,
      name ∈ Variable.reservedWords → l.param.isPattern = true ∧ name ∉ Lexeme.reservedWords := by
  intro name hname hreserved
  have hp := h.param
  unfold binding at hp
  split at hp
  · obtain ⟨p, hread, hl⟩ := ClauseToken.map_eq_ok hp
    rw [← hl] at hname ⊢
    exact ⟨rfl, (formed_of_parsePattern hread).not_mem_reservedWords name hname⟩
  · obtain ⟨u, hvalid, hl⟩ := ClauseToken.map_eq_ok hp
    rw [← hl] at hname
    obtain rfl := List.mem_singleton.1 hname
    exact absurd hreserved (Variable.validate_eq_ok_iff.1 hvalid).2.2

/-- A text with a list pattern of one word. -/
def listOf (w : String) : String := "x for ([" ++ w ++ "] of xs)"

namespace Comprehension

/-- A comprehension without a chain: the fault is that of a clause if all that is read before it can
be read, and some other fault otherwise. -/
structure RefusedAt (settings : Settings) (c : Comprehension) (clause : Clause)
    (inner : List Clause) (fault : Fault) : Prop where
  refused : ∀ g, c.chain settings ≠ .ok g
  fault : ∀ yield body source, c.clauses.length ≤ settings.maxClauses →
    settings.reader.expression c.yield = .ok yield →
    fold settings.reader yield inner = .ok body →
    settings.reader.expression clause.iterable = .ok source →
    c.chain settings = .error fault

section

variable {settings : Settings} {w : String} {c : Comprehension} {clause : Clause}
  {outer inner : List Clause} {fault : Fault}

theorem refusedAt_of_binding (hc : c.clauses = outer ++ clause :: inner)
    (hb : binding settings.reader clause = .error fault) :
    c.RefusedAt settings clause inner fault := by
  constructor
  · intro g hg
    obtain ⟨yield, l, ls, -, hls, -⟩ := build_ok hg
    have hrest := List.forall₂_drop outer.length hls
    rw [hc, List.drop_left] at hrest
    obtain ⟨k, -, hk, -, -⟩ := List.forall₂_cons_left_iff.1 hrest
    cases hk.param.symm.trans hb
  · exact fun yield body source hmax hy hinner hs => build_of_binding_error hc hmax hy hinner hs hb

theorem parse_listOf (hw : w ∈ Variable.reservedWords) (strict : Bool) :
    (Comprehension.parse strict (listOf w)).result =
      .ok ⟨"x", [⟨"[" ++ w ++ "]", "xs", none⟩], []⟩ := by
  have hall : ∀ w ∈ Variable.reservedWords, ∀ strict,
      (Comprehension.parse strict (listOf w)).result =
        .ok ⟨"x", [⟨"[" ++ w ++ "]", "xs", none⟩], []⟩ := by
    decide +kernel
  exact hall w hw strict

theorem binding_bracketed (hw : word w.toList = some (w.toList, []))
    (hp : clause.pattern = "[" ++ w ++ "]") :
    binding .script clause = if w ∈ Lexeme.reservedWords then .error (.badPattern clause.pattern)
      else .ok (.pattern (.arrayPattern [.bindingName ⟨.name, w⟩])) := by
  have htext : clause.pattern = String.ofList (bracketed [w.toList]) := by
    rw [hp, ← String.toList_inj]
    simp [bracketed, commas]
  have hd : clause.isDestructuring = true := by simp [Clause.isDestructuring, hp]
  have hread := parsePattern_bracketed hw
  rw [isReserved, String.ofList_toList, ← htext] at hread
  rw [binding, hd, if_pos rfl]
  change (parsePattern clause.pattern).map Param.pattern = _
  rw [hread]
  by_cases hreserved : w ∈ Lexeme.reservedWords
  · simp [hreserved, Except.map]
  · simp [hreserved, Except.map, token]

theorem exists_generate_listOf (hr : settings.reader = .script) (hmax : 1 ≤ settings.maxClauses)
    (hw : w ∈ Variable.reservedWords) (hfree : w ∉ Lexeme.reservedWords) :
    ∃ c g, Comprehension.generate settings (listOf w) = .ok (c, g) ∧
      ∃ param ∈ g.binders, w ∈ Script.binders param.node := by
  have hword : ∀ w ∈ Variable.reservedWords, word w.toList = some (w.toList, []) := by decide
  let clause : Clause := ⟨"[" ++ w ++ "]", "xs", none⟩
  have hx : OperandReader.script.expression "x" = .ok (.leaf .name ⟨.name, "x"⟩) := rfl
  have hxs : OperandReader.script.expression "xs" = .ok (.leaf .name ⟨.name, "xs"⟩) := rfl
  have hbinding : binding .script clause =
      .ok (.pattern (.arrayPattern [.bindingName ⟨.name, w⟩])) := by
    rw [binding_bracketed (hword w hw) rfl, if_neg hfree]
  refine ⟨⟨"x", [clause], []⟩, .chain .map (.leaf .name ⟨.name, "xs"⟩)
    (.pattern (.arrayPattern [.bindingName ⟨.name, w⟩])) (.leaf .name ⟨.name, "x"⟩),
    generate_eq_ok.2 ⟨parse_listOf hw _, ?_⟩, _, List.mem_append_right _ List.mem_cons_self,
    List.mem_singleton.2 rfl⟩
  rw [Comprehension.chain, hr, build, if_neg (by simp), if_neg (by simpa using hmax), hx]
  change level .script clause .map _ = _
  rw [level, hxs]
  simp only [bind, Except.bind, hbinding]
  rfl

/-- Of the words that a plain loop variable cannot be, the callbacks of generated chains bind those
that the grammar does not reserve, all of them and only in patterns. A clause that would bind one in
another way is refused. -/
theorem generate_reserved (hr : settings.reader = .script) :
    (∀ raw c g, Comprehension.generate settings raw = .ok (c, g) →
      ∀ param ∈ g.binders, ∀ name ∈ Script.binders param.node, name ∈ Variable.reservedWords →
        param.isPattern = true ∧ name ∉ Lexeme.reservedWords) ∧
    (1 ≤ settings.maxClauses → ∀ w ∈ Variable.reservedWords, w ∉ Lexeme.reservedWords →
      ∃ c g, Comprehension.generate settings (listOf w) = .ok (c, g) ∧
        ∃ param ∈ g.binders, w ∈ Script.binders param.node) ∧
    ∀ (c : Comprehension) outer clause inner, c.clauses = outer ++ clause :: inner →
      (clause.isDestructuring = false → clause.pattern ∈ Variable.reservedWords →
        c.RefusedAt settings clause inner (.reservedVariable clause.pattern)) ∧
      ∀ w ∈ Lexeme.reservedWords, clause.pattern = "[" ++ w ++ "]" →
        c.RefusedAt settings clause inner (.badPattern clause.pattern) := by
  have hword : ∀ w ∈ Lexeme.reservedWords, word w.toList = some (w.toList, []) := by decide
  refine ⟨fun raw c g h => ?_, fun hmax w hw hfree => exists_generate_listOf hr hmax hw hfree,
    fun c outer clause inner hc => ⟨fun hd hw => ?_, fun w hw hp => ?_⟩⟩
  · obtain ⟨yield, l, ls, hy, hls, rfl⟩ := generate_ok h
    rw [hr] at hy hls
    have hlevels := generated_of_reads hls (endsSolid_pattern (generate_eq_ok.1 h).1)
    intro param hparam
    obtain ⟨k, hk, rfl⟩ := mem_binders_nest (formed_of_parseExpression hy).isChain_eq_false hlevels
      param hparam
    obtain ⟨i, hi, rfl⟩ := List.getElem_of_mem hk
    exact ((List.forall₂_iff_get.1 hls).2 i (hls.length_eq ▸ hi) hi).not_mem_reservedWords
  · exact refusedAt_of_binding hc (binding_of_reserved hd hw _)
  · refine refusedAt_of_binding hc ?_
    rw [hr, binding_bracketed (hword w hw) hp, if_pos hw]

theorem generate_reserved_class : ∃ c g,
    Comprehension.generate .standard "x for ([class] of xs)" = .ok (c, g) ∧
      ∃ param ∈ g.binders, "class" ∈ Script.binders param.node :=
  (generate_reserved (show Settings.standard.reader = .script from rfl)).2.1 (by decide) "class"
    (by decide) (by decide)

end

end Comprehension

end Comprehend
