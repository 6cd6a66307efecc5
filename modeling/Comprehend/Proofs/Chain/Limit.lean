import Comprehend.Proofs.Chain.Lowered
import Comprehend.Proofs.Source.Expanded

/-! # The limit of a printed chain

The limit is held against what is written so far after every node, the whole chain included, so a
chain is printed under exactly the limits that its text fits. Its patterns are printed apart from it
and have a limit of their own, which is the default one whatever the limit of the chain is: a pattern
past it is refused under every limit. -/

namespace Comprehend

open Comprehend.Layout

/-! ## Chains without a limit -/

/-- A parameter of a callback, a pattern being written without a limit. -/
def Param.printUnlimited : Param → Except Fault String
  | .name text => .ok text
  | .pattern p => write (slot 0 p (pieces none p))

namespace Layout

/-- The pieces of a chain with no limit on its patterns. -/
def unlimited (style : ChainStyle) : Node → List Piece
  | .chain op x param body =>
    link style op (source style x (unlimited style x))
      (callback style param.isPattern param.printUnlimited
        (arrowBody body (unlimited style body)))
  | x => pieces (some style) x

end Layout

/-- Prints a chain without a limit. -/
def printUnlimited (style : ChainStyle) (x : Node) : Except Fault String :=
  write (slot 0 x (unlimited style x))

/-- A parameter that fits the limit of a pattern printed apart. -/
def Param.Fits (param : Param) : Prop :=
  ∀ p, param = .pattern p → ((text none p).length : Int) ≤ defaultLimit

section

variable {style : ChainStyle} {param : Param} {s : String} {g : Node}

theorem Param.printed_of_unlimited (h : param.printUnlimited = .ok s) :
    param.Fits ∧ printedParam param = .ok s ∨
      ¬ param.Fits ∧ printedParam param = .error (.outputTooLong defaultLimit) := by
  cases param with
  | name text => exact .inl ⟨nofun, h⟩
  | pattern p =>
    have hlength : s.length = (text none p).length := by
      obtain ⟨-, rfl⟩ := write_eq_ok.1 h
      rw [plain_eq_ofList_chars, chars_slot_zero, String.length_ofList, text]
    have hfits : (Param.pattern p).Fits ↔ (s.length : Int) ≤ defaultLimit := by
      simp [Param.Fits, hlength]
    rw [printedParam, settle_slot_of_write h, hfits]
    by_cases hl : (s.length : Int) ≤ defaultLimit
    · exact .inl ⟨hl, if_pos hl⟩
    · exact .inr ⟨hl, if_neg hl⟩

theorem Layout.exists_of_clean_callback {isPattern : Bool} {param : Except Fault String}
    {ps : List Piece} (h : Clean (callback style isPattern param ps)) : ∃ s, param = .ok s := by
  cases param with
  | ok s => exact ⟨s, rfl⟩
  | error fault => exact absurd List.mem_cons_self (h fault)

/-- A chain whose patterns fit has the same pieces with and without a limit on them. -/
theorem pieces_eq_unlimited (h : Clean (unlimited style g)) (hfits : ∀ param ∈ g.binders, param.Fits) :
    pieces (some style) g = unlimited style g := by
  induction g using unlimited.induct with
  | case1 op x param body ihx ihbody =>
    rw [unlimited, clean_link, clean_source] at h
    simp only [Node.binders, List.forall_mem_append, List.forall_mem_cons] at hfits
    obtain ⟨hx, hparam, hbody⟩ := hfits
    obtain ⟨s, hs⟩ := exists_of_clean_callback h.2
    have hprinted : printedParam param = param.printUnlimited := by
      rcases Param.printed_of_unlimited hs with ⟨-, hp⟩ | ⟨hlong, -⟩
      · rw [hp, hs]
      · exact absurd hparam hlong
    rw [pieces_chain, unlimited, ihx h.1 hx, ihbody (clean_arrowBody.1 h.2.callback) hbody, hprinted]
  | case2 x hx => exact (unlimited.eq_2 style x hx).symm

theorem Layout.refuse_mem_callback_ok {isPattern : Bool} {ps qs : List Piece} {fault : Fault}
    (hclean : Clean (callback style isPattern (.ok s) ps))
    (h : .refuse fault ∈ callback style isPattern (.ok s) qs) : .refuse fault ∈ qs := by
  by_cases hpattern : (isPattern && !style.dialect.supportsPatterns) = true
  · simp only [callback, if_pos hpattern] at hclean
    exact absurd List.mem_cons_self (hclean _)
  · simp only [callback, if_neg hpattern] at h
    split at h <;> simpa using h

/-- A chain that is written without a limit has nothing refused but a pattern that does not fit. -/
theorem refused_of_unlimited (hclean : Clean (unlimited style g)) {fault : Fault}
    (h : .refuse fault ∈ pieces (some style) g) : fault = .outputTooLong defaultLimit := by
  induction g using unlimited.induct with
  | case1 op x param body ihx ihbody =>
    rw [unlimited, clean_link, clean_source] at hclean
    obtain ⟨hx, hcallback⟩ := hclean
    rw [pieces_chain, refuse_mem_link, refuse_mem_source] at h
    rcases h with h | h
    · exact ihx hx h
    · obtain ⟨s, hs⟩ := exists_of_clean_callback hcallback
      rcases Param.printed_of_unlimited hs with ⟨-, hprinted⟩ | ⟨-, hprinted⟩
      · rw [hs] at hcallback
        rw [hprinted] at h
        have hbody := refuse_mem_callback_ok hcallback h
        exact ihbody (clean_arrowBody.1 hcallback.callback) (refuse_mem_arrowBody.1 hbody)
      · rw [hprinted] at h
        cases List.mem_singleton.1 h
        rfl
  | case2 x hx =>
    rw [unlimited.eq_2 style x hx] at hclean
    exact absurd h (hclean fault)

/-- A chain that is printed under some limit has patterns that fit their own. -/
theorem fits_of_clean (hclean : Clean (unlimited style g)) (h : Clean (pieces (some style) g)) :
    ∀ param ∈ g.binders, param.Fits := by
  induction g using unlimited.induct with
  | case1 op x param body ihx ihbody =>
    rw [unlimited, clean_link, clean_source] at hclean
    rw [pieces_chain, clean_link, clean_source] at h
    simp only [Node.binders, List.forall_mem_append, List.forall_mem_cons]
    refine ⟨ihx hclean.1 h.1, ?_, ihbody (clean_arrowBody.1 hclean.2.callback)
      (clean_arrowBody.1 h.2.callback)⟩
    obtain ⟨s, hs⟩ := exists_of_clean_callback hclean.2
    obtain ⟨t, ht⟩ := exists_of_clean_callback h.2
    rcases Param.printed_of_unlimited hs with ⟨hfits, -⟩ | ⟨-, hprinted⟩
    · exact hfits
    · rw [hprinted] at ht
      cases ht
  | case2 x hx =>
    have hoperand : x.isChain = false := by
      cases x with
      | chain op y param body => exact (hx op y param body rfl).elim
      | _ => rfl
    simp [Node.binders_of_operand hoperand]

/-- A chain is printed under the limits that its text fits, and is too long for every other limit,
unless one of its patterns is longer than the default limit: then it is too long for every limit. -/
theorem printChain_limit (h : printUnlimited style g = .ok s) :
    ((∀ param ∈ g.binders, param.Fits) → ∀ limit : Int,
      printChain limit style g =
        if s.length ≤ limit then .ok s else .error (.outputTooLong limit)) ∧
    ((∃ param ∈ g.binders, ¬ param.Fits) → ∀ limit : Int,
      ∃ bound, (bound = limit ∨ bound = defaultLimit) ∧
        printChain limit style g = .error (.outputTooLong bound)) := by
  have hclean : Clean (unlimited style g) := clean_slot.1 (write_eq_ok.1 h).1
  refine ⟨fun hfits limit => ?_, fun ⟨param, hparam, hlong⟩ limit => ?_⟩
  · rw [printChain, pieces_eq_unlimited hclean hfits]
    exact settle_slot_of_write h
  · cases hprinted : printChain limit style g with
    | ok out =>
      have hpieces : Clean (pieces (some style) g) := clean_slot.1 (clean_of_settleFrom hprinted)
      exact absurd (fits_of_clean hclean hpieces param hparam) hlong
    | error fault =>
      rcases settleFrom_error hprinted with rfl | hmem
      · exact ⟨limit, .inl rfl, rfl⟩
      · obtain rfl := refused_of_unlimited hclean (refuse_mem_slot.1 hmem)
        exact ⟨defaultLimit, .inr rfl, rfl⟩

end

/-- A chain whose text has 58 characters. -/
theorem printChain_limit_sumOfLists :
    let printed := "(a + b).flatMap(x => x.filter(([y]) => y).map(([y]) => y))"
    printChain 58 ⟨.es2019, false⟩ sumOfLists = .ok printed ∧
      printChain 57 ⟨.es2019, false⟩ sumOfLists = .error (.outputTooLong 57) ∧
      printChain (-1) ⟨.es2019, false⟩ sumOfLists = .error (.outputTooLong (-1)) := by
  have hwritten : printUnlimited ⟨.es2019, false⟩ sumOfLists =
      .ok "(a + b).flatMap(x => x.filter(([y]) => y).map(([y]) => y))" := by
    decide +kernel
  have hfits : ∀ param ∈ sumOfLists.binders, param.Fits := by
    intro param hparam
    have hitems : ((text none (.arrayPattern [.bindingName ⟨.name, "y"⟩])).length : Int) ≤
        defaultLimit := by
      decide +kernel
    have hbinders : sumOfLists.binders =
        [.name "x", .pattern (.arrayPattern [.bindingName ⟨.name, "y"⟩]),
          .pattern (.arrayPattern [.bindingName ⟨.name, "y"⟩])] := rfl
    simp only [hbinders, List.mem_cons, List.not_mem_nil, or_false] at hparam
    rcases hparam with rfl | rfl | rfl
    · exact nofun
    all_goals
      rintro p hp
      cases hp
      exact hitems
  have hlimits := (printChain_limit hwritten).1 hfits
  exact ⟨hlimits 58, hlimits 57, hlimits (-1)⟩

end Comprehend
