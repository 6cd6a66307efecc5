import Comprehend.Clause.Basic
import Comprehend.Clause.Token
import Comprehend.Notice

/-! Reading comprehension notation. The text is cut at every `for` outside brackets; what precedes
the first is the yield, and each segment after one is a clause, a group with an `of` in it and
perhaps a condition. A lenient reading drops a segment that is no clause and passes over what
follows one, with a notice each time; a strict reading refuses both. -/

namespace Comprehend

namespace ClauseToken

/-- Puts a token in front of the first segment. -/
def intoFirst (t : ClauseToken) : List (List ClauseToken) → List (List ClauseToken)
  | [] => [[t]]
  | s :: ss => (t :: s) :: ss

/-- The segments between loop keywords. `stack` holds the brackets that have to close, innermost
first, and `offset` counts the characters before. -/
def segments (raw : String) : (stack : List (List Char)) → (offset : Nat) → List ClauseToken →
    Except Fault (List (List ClauseToken))
  | [], _, [] => .ok [[]]
  | close :: _, _, [] => .error (.missingClose (String.ofList close) raw)
  | stack, offset, t :: ts =>
    let start := offset + t.before.length
    let stop := start + t.text.length
    match t.kind with
    | .opening => (segments raw (t.closer :: stack) stop ts).map (intoFirst t)
    | .closing =>
      match stack with
      | [] => .error (.unexpectedClose (String.ofList t.text) start raw)
      | close :: stack =>
        if close = t.text then (segments raw stack stop ts).map (intoFirst t)
        else .error (.unexpectedClose (String.ofList t.text) start raw)
    | _ =>
      if stack.isEmpty && t.isKeyword "for" then (segments raw stack stop ts).map ([] :: ·)
      else (segments raw stack stop ts).map (intoFirst t)

/-- The condition at the start of what follows a loop group, and what follows it in turn. An `if`
without a condition is left standing. -/
def conditionOf (rest : List ClauseToken) :
    Except Fault (Option (List ClauseToken) × List ClauseToken) :=
  match rest with
  | k :: o :: ts =>
    if k.isKeyword "if" && o.text == ['('] then
      match group 0 ts with
      | none => .error (.unclosedGroup "(")
      | some ([], _) => .ok (none, rest)
      | some (inside, after) => .ok (some inside, after)
    else .ok (none, rest)
  | _ => .ok (none, rest)

end ClauseToken

open ClauseToken

/-- The clause in a segment. -/
def Clause.ofSegment (strict : Bool) (segment : List ClauseToken) : Noted Clause := do
  let text := spannedText segment
  let fail (cause : ClauseFault) : Noted Clause := Noted.of (.error (.clause cause text))
  match segment with
  | [] => fail .noGroup
  | t :: ts =>
    if t.text ≠ ['('] then fail .noGroup
    else
      match group 0 ts with
      | none => Noted.of (.error (.unclosedGroup "("))
      | some (inside, rest) =>
        match cutAt "of" 0 inside with
        | none => fail .noKeyword
        | some ([], _) => fail .emptyPattern
        | some (_, []) => fail .emptyIterable
        | some (pattern, iterable) =>
          let (condition, rest) ← conditionOf rest
          let clause : Clause :=
            ⟨spannedText pattern, spannedText iterable, condition.map spannedText⟩
          if rest.isEmpty then return clause
          else if strict then fail (.trailing (spannedText rest))
          else
            Noted.note (.ignoredText text (spannedText rest))
            return clause

namespace Comprehension

/-- Adds a clause segment, or drops it. -/
def addSegment (strict : Bool) (c : Comprehension) (segment : List ClauseToken) :
    Noted Comprehension :=
  let clause := Clause.ofSegment strict segment
  match clause.result with
  | .ok clause' => ⟨clause.notices, .ok { c with clauses := c.clauses ++ [clause'] }⟩
  | .error fault =>
    if strict then ⟨clause.notices, .error fault⟩
    else
      ⟨clause.notices ++ [.droppedClause fault],
        .ok { c with dropped := c.dropped ++ [spannedText segment] }⟩

def addSegments (strict : Bool) (c : Comprehension) : List (List ClauseToken) →
    Noted Comprehension
  | [] => pure c
  | s :: ss => do addSegments strict (← addSegment strict c s) ss

/-- Reads notation text. -/
def parse (strict : Bool) (raw : String) : Noted Comprehension := do
  match tokens? raw.toList with
  | none => Noted.of (.error (.noTokens raw))
  | some tokens =>
    match ← segments raw [] 0 tokens with
    | [] => Noted.of (.error (.noLoop raw))
    | [_] => Noted.of (.error (.noLoop raw))
    | [] :: _ => Noted.of (.error (.emptyYield raw))
    | head :: rest => addSegments strict ⟨spannedText head, [], []⟩ rest

end Comprehension

end Comprehend
