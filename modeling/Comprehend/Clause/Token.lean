import Comprehend.Syntax.Lexeme

/-! The tokens of comprehension notation. Only brackets, literals and words matter to the clauses;
anything else that is not blank is punctuation. A token keeps the blanks on both of its sides, so a
run of tokens is a piece of the text and no positions are needed. -/

namespace Comprehend

open Text

inductive ClauseTokenKind
  | string
  | template
  | opening
  | closing
  | word
  | number
  | punctuation
  deriving DecidableEq, Repr

structure ClauseToken where
  before : List Char
  kind : ClauseTokenKind
  text : List Char
  after : List Char
  deriving DecidableEq, Repr

namespace ClauseToken

def isNumberPart (c : Char) : Bool := c.isAlphanum || c == '_' || c == '.'

def isOpening (c : Char) : Bool := c == '(' || c == '[' || c == '{'

def isClosing (c : Char) : Bool := c == ')' || c == ']' || c == '}'

def isQuote (c : Char) : Bool := c == '"' || c == '\'' || c == '\x60'

def isPunctuation (c : Char) : Bool :=
  !isSpace c && !Lexeme.isNamePart c && !isOpening c && !isClosing c && !isQuote c

/-- The token at the start of a text that does not start with a blank. -/
def scan : List Char → Option (ClauseTokenKind × List Char × List Char)
  | [] => none
  | c :: cs =>
    if c == '\x60' then (Lexeme.template (c :: cs)).map fun p => (.template, p.1, p.2)
    else if isQuote c then (Lexeme.string (c :: cs)).map fun p => (.string, p.1, p.2)
    else if isOpening c then some (.opening, [c], cs)
    else if isClosing c then some (.closing, [c], cs)
    else if Lexeme.isNameStart c then
      some (.word, c :: cs.takeWhile Lexeme.isNamePart, cs.dropWhile Lexeme.isNamePart)
    else if c.isDigit then
      some (.number, c :: cs.takeWhile isNumberPart, cs.dropWhile isNumberPart)
    else if isPunctuation c then
      some (.punctuation, c :: cs.takeWhile isPunctuation, cs.dropWhile isPunctuation)
    else none

/-- The tokens of a text, `more` bounding their number; none if some part of it is no token. -/
def scanAll : (more : Nat) → List Char → Option (List ClauseToken)
  | 0, cs => if (skipBlanks cs).isEmpty then some [] else none
  | more + 1, cs =>
    match skipBlanks cs with
    | [] => some []
    | rest =>
      match scan rest with
      | none => none
      | some (kind, text, r) =>
        (scanAll more r).map
          (⟨cs.takeWhile isBlank, kind, text, r.takeWhile isBlank⟩ :: ·)

def tokens? (raw : List Char) : Option (List ClauseToken) := scanAll raw.length raw

/-- A word that acts as a keyword has blanks on both sides. -/
def isKeyword (w : String) (t : ClauseToken) : Bool :=
  t.kind == .word && t.text == w.toList && !t.before.isEmpty && !t.after.isEmpty

/-- The text of a run of tokens, blanks at its ends left out. -/
def spanned : List ClauseToken → List Char
  | [] => []
  | t :: ts => t.text ++ ts.flatMap fun t => t.before ++ t.text

def spannedText (ts : List ClauseToken) : String := String.ofList (spanned ts)

/-- The bracket that closes an opening one. -/
def closer (t : ClauseToken) : List Char :=
  match t.text with
  | ['('] => [')']
  | ['['] => [']']
  | _ => ['}']

/-- The tokens up to the bracket that closes the group, and those after it; `depth` groups have
been opened in between. -/
def group : (depth : Nat) → List ClauseToken → Option (List ClauseToken × List ClauseToken)
  | _, [] => none
  | depth, t :: ts =>
    match t.kind, depth with
    | .opening, depth => (group (depth + 1) ts).map fun p => (t :: p.1, p.2)
    | .closing, 0 => some ([], ts)
    | .closing, depth + 1 => (group depth ts).map fun p => (t :: p.1, p.2)
    | _, depth => (group depth ts).map fun p => (t :: p.1, p.2)

/-- Cuts at the first keyword outside all brackets. -/
def cutAt (w : String) : (depth : Nat) → List ClauseToken →
    Option (List ClauseToken × List ClauseToken)
  | _, [] => none
  | depth, t :: ts =>
    match t.kind with
    | .opening => (cutAt w (depth + 1) ts).map fun p => (t :: p.1, p.2)
    | .closing => (cutAt w (depth - 1) ts).map fun p => (t :: p.1, p.2)
    | _ =>
      if depth == 0 && t.isKeyword w then some ([], ts)
      else (cutAt w depth ts).map fun p => (t :: p.1, p.2)

theorem cutAt_eq_some {w : String} {depth : Nat} {ts ls rs : List ClauseToken}
    (h : cutAt w depth ts = some (ls, rs)) :
    ∃ k : ClauseToken, k.isKeyword w = true ∧ ts = ls ++ k :: rs := by
  fun_induction cutAt w depth ts generalizing ls <;>
    simp_all only [Option.map_eq_some_iff, Prod.mk.injEq, Prod.exists, Bool.and_eq_true,
      Option.some.injEq, reduceCtorEq]
  all_goals grind

theorem group_eq_some {depth : Nat} {ts ls rs : List ClauseToken}
    (h : group depth ts = some (ls, rs)) :
    ∃ k : ClauseToken, k.kind = .closing ∧ ts = ls ++ k :: rs := by
  fun_induction group depth ts generalizing ls <;> simp_all <;> grind

end ClauseToken

end Comprehend
