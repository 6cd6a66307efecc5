import Comprehend.Proofs.Clause.Lexing
import Comprehend.Proofs.Clause.Reading

/-! # The account of a lenient reading

A lenient reading goes on where a strict one stops, so it has to account for what it passes over.
Every token of the text is in the yield, in a part of a clause, in a dropped segment or in a
remainder, or it is one of the words and brackets of the notation itself. What was passed over is in
the notices, and nothing else is. -/

namespace Comprehend

open ClauseToken

/-- The classes and spellings of the tokens of a condition, with the word and the brackets around
it. -/
def conditionSpellings? : Option String → Option (List (ClauseTokenKind × List Char))
  | none => some []
  | some condition => do
    let inside ← spellings? condition
    return (.word, ['i', 'f']) :: (.opening, ['(']) :: inside ++ [(.closing, [')'])]

/-- What became of the segment of a loop. -/
inductive Account
  | read (segment : String) (clause : Clause) (remainder : String)
  | dropped (segment : String) (cause : ClauseFault)

namespace Account

def segment : Account → String
  | read segment _ _ => segment
  | dropped segment _ => segment

def clause? : Account → Option Clause
  | read _ clause _ => some clause
  | dropped _ _ => none

def dropped? : Account → Option String
  | read _ _ _ => none
  | dropped segment _ => some segment

/-- What is passed over is noted: a segment that is dropped, or a remainder if there is one. -/
def notice? : Account → Option Notice
  | read segment _ remainder =>
    if remainder = "" then none else some (.ignoredText segment remainder)
  | dropped segment cause => some (.droppedClause (.clause cause segment))

/-- The classes and spellings of the tokens that are accounted for. -/
def spellings? : Account → Option (List (ClauseTokenKind × List Char))
  | read _ clause remainder => do
    let pattern ← ClauseToken.spellings? clause.pattern
    let iterable ← ClauseToken.spellings? clause.iterable
    let condition ← conditionSpellings? clause.condition
    let remainder ← ClauseToken.spellings? remainder
    return (.opening, ['(']) :: pattern ++ (.word, ['o', 'f']) :: iterable ++ (.closing, [')']) ::
      condition ++ remainder
  | dropped segment _ => ClauseToken.spellings? segment

/-- The comprehension with the clause or the dropped segment at its end. -/
def addTo (a : Account) (c : Comprehension) : Comprehension :=
  { c with clauses := c.clauses ++ a.clause?.toList, dropped := c.dropped ++ a.dropped?.toList }

end Account

/-! ## One segment -/

section

variable {t : ClauseToken} {ts tail rest segment : List ClauseToken} {p : Parts}
  {condition : Option (List ClauseToken)} {w : String}

theorem ClauseToken.spelling_of_isKeyword (h : t.isKeyword w = true) :
    spelling t = (.word, w.toList) := by
  rw [spelling, kind_of_isKeyword h, text_of_isKeyword h]

theorem ClauseToken.IsRun.spannedText_eq_empty (h : IsRun ts) : spannedText ts = "" ↔ ts = [] := by
  refine ⟨fun hempty => ?_, fun hnil => by rw [hnil]; rfl⟩
  cases ts with
  | nil => rfl
  | cons t ts =>
    have hne : t.text ≠ [] := ne_nil_of_scan (h.scan_text t List.mem_cons_self)
    have hchars : (spannedText (t :: ts)).toList = [] := by rw [hempty]; rfl
    rw [spannedText, String.toList_ofList, spanned] at hchars
    exact absurd (List.append_eq_nil_iff.1 hchars).1 hne

theorem ClauseToken.Condition.spellings (h : Condition tail condition rest) (hrun : IsRun tail) :
    ∃ front, conditionSpellings? (condition.map spannedText) = some front ∧
      tail.map spelling = front ++ rest.map spelling := by
  cases h with
  | absent => exact ⟨[], rfl, rfl⟩
  | @present k o c inside _ hk ho hc =>
    have hinside : spellings? (spannedText inside) = some (inside.map spelling) :=
      hrun.tail.tail.left.spellings
    refine ⟨(.word, ['i', 'f']) :: (.opening, ['(']) :: inside.map spelling ++ [(.closing, [')'])],
      ?_, ?_⟩
    · simp [conditionSpellings?, hinside]
    · simp [spelling_of_isKeyword hk, ho, hc]

/-- The tokens of a clause segment are all accounted for. -/
theorem ClauseToken.Splits.spellings (h : Splits segment p) (hrun : IsRun segment) :
    (Account.read (spannedText segment) p.clause (spannedText p.remainder)).spellings? =
      some (segment.map spelling) := by
  cases h with
  | @intro o k c pattern iterable tail remainder condition ho _ _ _ hk _ _ hc hcondition =>
    have hgroup : IsRun (pattern ++ k :: iterable) := hrun.tail.left
    have htail : IsRun tail := hrun.tail.right.tail
    have hpattern := hgroup.left.spellings
    have hiterable := hgroup.right.tail.spellings
    have hremainder : IsRun remainder := hcondition.remainder_isRun htail
    obtain ⟨front, hfront, heq⟩ := hcondition.spellings htail
    simp [Account.spellings?, Parts.clause, hpattern, hiterable, hfront, hremainder.spellings, ho,
      hc, spelling_of_isKeyword hk, heq]

/-- Adding a segment whose brackets match adds what it is accounted for, and never fails. -/
theorem Comprehension.exists_account (hrun : IsRun segment) (hb : IsBalanced segment) :
    ∃ a : Account, a.spellings? = some (segment.map spelling) ∧
      ClauseToken.spellings? a.segment = a.spellings? ∧
      ∀ c, addSegment false c segment = ⟨a.notice?.toList, .ok (a.addTo c)⟩ := by
  rcases Clause.splits_or_fault hrun hb with ⟨p, hp⟩ | ⟨cause, hcause⟩
  · have hspell := hp.spellings hrun
    refine ⟨.read (spannedText segment) p.clause (spannedText p.remainder), hspell, ?_, fun c => ?_⟩
    · rw [hspell]
      exact hrun.spellings
    have hremainder : IsRun p.remainder := hp.remainder_isRun hrun
    rw [addSegment, Clause.ofSegment_of_splits hp]
    by_cases hnil : p.remainder = []
    · simp [hnil, Account.notice?, Account.addTo, Account.clause?, Account.dropped?, spannedText,
        spanned]
    · have hne : spannedText p.remainder ≠ "" := fun h => hnil (hremainder.spannedText_eq_empty.1 h)
      simp [hnil, hne, Account.notice?, Account.addTo, Account.clause?, Account.dropped?]
  · refine ⟨.dropped (spannedText segment) cause, hrun.spellings, rfl, fun c => ?_⟩
    simp [addSegment, hcause, Account.notice?, Account.addTo, Account.clause?, Account.dropped?]

end

/-! ## A whole text -/

section

variable {segments : List (List ClauseToken)}

theorem filterMap_cons_toList {α β : Type} (f : α → Option β) (x : α) (xs : List α) :
    (x :: xs).filterMap f = (f x).toList ++ xs.filterMap f := by
  cases h : f x <;> simp [h]

/-- Adding segments adds what they are accounted for, in their order. -/
theorem Comprehension.exists_accounts (hrun : ∀ s ∈ segments, IsRun s)
    (hb : ∀ s ∈ segments, IsBalanced s) :
    ∃ accounts : List Account, accounts.length = segments.length ∧
      accounts.mapM Account.spellings? = some (segments.map (·.map spelling)) ∧
      (∀ a ∈ accounts, ClauseToken.spellings? a.segment = a.spellings?) ∧
      ∀ c, addSegments false c segments =
        ⟨accounts.filterMap Account.notice?, .ok { c with
          clauses := c.clauses ++ accounts.filterMap Account.clause?
          dropped := c.dropped ++ accounts.filterMap Account.dropped? }⟩ := by
  induction segments with
  | nil => exact ⟨[], rfl, rfl, nofun, fun c => by simp [addSegments, pure, Noted.pure, Noted.of]⟩
  | cons s segments ih =>
    obtain ⟨hs, hrun⟩ := List.forall_mem_cons.1 hrun
    obtain ⟨hsb, hb⟩ := List.forall_mem_cons.1 hb
    obtain ⟨accounts, hlength, hspell, hwhole, hadd⟩ := ih hrun hb
    obtain ⟨a, haspell, hawhole, haadd⟩ := exists_account hs hsb
    refine ⟨a :: accounts, ?_, ?_, List.forall_mem_cons.2 ⟨hawhole, hwhole⟩, fun c => ?_⟩
    · rw [List.length_cons, hlength, List.length_cons]
    · simp [haspell, hspell]
    · rw [addSegments]
      simp only [haadd, bind, Noted.bind, hadd, Account.addTo, filterMap_cons_toList,
        List.append_assoc]

/-- An account is about a clause or about a dropped segment. -/
theorem Account.length_add_length (accounts : List Account) :
    (accounts.filterMap clause?).length + (accounts.filterMap dropped?).length =
      accounts.length := by
  induction accounts with
  | nil => rfl
  | cons a accounts ih =>
    rw [filterMap_cons_toList, filterMap_cons_toList, List.length_append, List.length_append,
      List.length_cons]
    cases a <;> simp only [clause?, dropped?, Option.toList, List.length_cons, List.length_nil] <;>
      omega

theorem ClauseToken.map_spelling_loopTokens {ps : List Loop} (hps : ∀ p ∈ ps, IsLoop p) :
    (loopTokens ps).map spelling =
      (ps.map fun p => p.2.map spelling).flatMap ((.word, ['f', 'o', 'r']) :: ·) := by
  induction ps with
  | nil => rfl
  | cons p ps ih =>
    obtain ⟨hp, hps⟩ := List.forall_mem_cons.1 hps
    rw [loopTokens_cons, List.map_cons, List.map_append, ih hps, spelling_of_isKeyword hp.keyword]
    rfl

/-- A lenient reading loses nothing: the tokens of the text are those of the yield and, behind each
loop keyword, those of an account. The clauses, the dropped segments and the notices are the ones of
the accounts in their order, and there is an account for every loop keyword. -/
theorem Comprehension.parse_accounts {raw : String} {c : Comprehension}
    (h : (Comprehension.parse false raw).result = .ok c) :
    ∃ (tokens : List ClauseToken) (accounts : List Account)
      (yielded : List (ClauseTokenKind × List Char))
      (loops : List (List (ClauseTokenKind × List Char))),
      tokens? raw.toList = some tokens ∧
      spellings? c.yield = some yielded ∧
      accounts.mapM Account.spellings? = some loops ∧
      tokens.map spelling = yielded ++ loops.flatMap ((.word, ['f', 'o', 'r']) :: ·) ∧
      (∀ a ∈ accounts, spellings? a.segment = a.spellings?) ∧
      c.clauses = accounts.filterMap Account.clause? ∧
      c.dropped = accounts.filterMap Account.dropped? ∧
      (Comprehension.parse false raw).notices = accounts.filterMap Account.notice? ∧
      c.clauses.length + c.dropped.length = loopCount 0 tokens := by
  obtain ⟨head, ps, hts, hne, hpsne, hhead, hps⟩ := exists_loops h
  have hrun : IsRun (head ++ loopTokens ps) := (tokens?_eq_some.1 hts).isRun
  have hruns : ∀ s ∈ ps.map (·.2), IsRun s :=
    List.forall_mem_map.2 hrun.right.segment_isRun
  have hbalanced : ∀ s ∈ ps.map (·.2), IsBalanced s :=
    List.forall_mem_map.2 fun p hp => (hps p hp).segment.balanced
  obtain ⟨accounts, hlength, hspell, hwhole, hadd⟩ := exists_accounts hruns hbalanced
  have hparse : Comprehension.parse false raw = _ := parse_of_loops hts hne hpsne hhead hps
  rw [hadd] at hparse
  rw [hparse] at h ⊢
  cases h
  have hcount : loopCount 0 (head ++ loopTokens ps) = accounts.length := by
    rw [hlength, List.length_map, ← loopCount_loopTokens hps]
    exact loopCount_append hhead.balanced hhead.whole (loopTokens ps)
  refine ⟨_, accounts, head.map spelling, _, hts, hrun.left.spellings, hspell, ?_, hwhole, rfl, rfl,
    rfl, ?_⟩
  · rw [List.map_append, map_spelling_loopTokens hps, List.map_map]
    rfl
  · rw [hcount]
    exact Account.length_add_length accounts

end

/-- A clause with a remainder, and a loop that is no clause. -/
def lossyText : String := "x for (x of xs) if (x) y for z"

def lossy : Comprehension := ⟨"x", [⟨"x", "xs", some "x"⟩], ["z"]⟩

theorem parse_lossy : (Comprehension.parse false lossyText).result = .ok lossy := by
  decide +kernel

theorem Comprehension.parse_accounts_lossy :
    ∃ (tokens : List ClauseToken) (accounts : List Account)
      (yielded : List (ClauseTokenKind × List Char))
      (loops : List (List (ClauseTokenKind × List Char))),
      tokens? lossyText.toList = some tokens ∧
      spellings? "x" = some yielded ∧
      accounts.mapM Account.spellings? = some loops ∧
      tokens.map spelling = yielded ++ loops.flatMap ((.word, ['f', 'o', 'r']) :: ·) ∧
      (∀ a ∈ accounts, spellings? a.segment = a.spellings?) ∧
      [⟨"x", "xs", some "x"⟩] = accounts.filterMap Account.clause? ∧
      ["z"] = accounts.filterMap Account.dropped? ∧
      (Comprehension.parse false lossyText).notices = accounts.filterMap Account.notice? ∧
      2 = loopCount 0 tokens :=
  parse_accounts parse_lossy

end Comprehend
