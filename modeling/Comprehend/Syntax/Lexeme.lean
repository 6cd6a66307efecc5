import Comprehend.Text.Blank
import Comprehend.Text.Escape
import Comprehend.Syntax.Node

/-! The tokens of the expression language. A scanner looks at the start of a text and, when a token
of its class stands there, gives the longest one and what follows it, so that the two together are
the text. There is no token stream: the parser asks for the classes that can come next, which is
what tells a regular expression from a division. -/

namespace Comprehend.Lexeme

open Comprehend.Text

abbrev Scan := Option (List Char × List Char)

/-- Puts characters in front of a scanned token. -/
def cons (c : Char) (s : Scan) : Scan := s.map fun p => (c :: p.1, p.2)

theorem cons_eq_some {c : Char} {s : Scan} {t r : List Char} :
    cons c s = some (t, r) ↔ ∃ t', s = some (t', r) ∧ t = c :: t' := by
  simp only [cons, Option.map_eq_some_iff, Prod.exists, Prod.mk.injEq]
  constructor
  · rintro ⟨t', r', h, rfl, rfl⟩; exact ⟨t', h, rfl⟩
  · rintro ⟨t', h, rfl⟩; exact ⟨t', r, h, rfl, rfl⟩

def isNameStart (c : Char) : Bool := c.isAlpha || c == '_' || c == '$'

def isNamePart (c : Char) : Bool := c.isAlphanum || c == '_' || c == '$'

/-- The longest word at the start of a text. -/
def word : List Char → Scan
  | [] => none
  | c :: cs => if isNameStart c then some (c :: cs.takeWhile isNamePart, cs.dropWhile isNamePart)
      else none

theorem append_of_word {cs t r : List Char} (h : word cs = some (t, r)) : t ++ r = cs := by
  cases cs with
  | nil => simp [word] at h
  | cons c cs =>
    simp only [word] at h
    split at h
    · simp only [Option.some.injEq, Prod.mk.injEq] at h
      obtain ⟨rfl, rfl⟩ := h
      simp [List.takeWhile_append_dropWhile]
    · simp at h

/-- Words that no variable can have for a name. -/
def reservedWords : List String :=
  ["true", "false", "null", "undefined", "typeof", "void", "delete", "new", "in", "instanceof",
    "function", "return"]

def isReserved (w : List Char) : Bool := reservedWords.contains (String.ofList w)

/-- What follows a fixed spelling, if the text starts with it. -/
def after (spelling : String) (cs : List Char) : Option (List Char) :=
  spelling.toList.isPrefixOf? cs

def startsWith (test : Char → Bool) : List Char → Bool
  | [] => false
  | c :: _ => test c

/-- What follows a word that is exactly this keyword. -/
def keyword (spelling : String) (cs : List Char) : Option (List Char) :=
  (after spelling cs).filter fun r => !startsWith isNamePart r

def exponentPart : List Char → List Char × List Char
  | e :: cs =>
    if e == 'e' || e == 'E' then
      let (sign, ds) :=
        match cs with
        | '+' :: ds => (['+'], ds)
        | '-' :: ds => (['-'], ds)
        | ds => ([], ds)
      if startsWith Char.isDigit ds then
        (e :: sign ++ ds.takeWhile Char.isDigit, ds.dropWhile Char.isDigit)
      else ([], e :: cs)
    else ([], e :: cs)
  | [] => ([], [])

def decimal (cs : List Char) : Scan :=
  let whole := cs.takeWhile Char.isDigit
  let rest := cs.dropWhile Char.isDigit
  let fraction : Scan :=
    match rest with
    | '.' :: ds =>
      if whole.isEmpty && !startsWith Char.isDigit ds then none
      else some ('.' :: ds.takeWhile Char.isDigit, ds.dropWhile Char.isDigit)
    | ds => if whole.isEmpty then none else some ([], ds)
  fraction.map fun (f, rest) =>
    let (e, rest) := exponentPart rest
    (whole ++ f ++ e, rest)

def number : List Char → Scan
  | '0' :: x :: cs =>
    if (x == 'x' || x == 'X') && startsWith isHexDigit cs then
      some ('0' :: x :: cs.takeWhile isHexDigit, cs.dropWhile isHexDigit)
    else decimal ('0' :: x :: cs)
  | cs => decimal cs

/-- The rest of a literal up to its closing quote. A backslash takes the next character along, and
only some literals run over line ends. -/
def quotedRest (quote : Char) (overLines : Bool) : List Char → Scan
  | [] => none
  | [c] => if c = quote then some ([c], []) else none
  | c :: d :: cs =>
    if c = quote then some ([c], d :: cs)
    else if c = '\n' && !overLines then none
    else if c = '\\' then
      if d = '\n' && !overLines then none else cons c (cons d (quotedRest quote overLines cs))
    else cons c (quotedRest quote overLines (d :: cs))

theorem append_of_quotedRest {quote : Char} {overLines : Bool} {cs t r : List Char}
    (h : quotedRest quote overLines cs = some (t, r)) : t ++ r = cs := by
  fun_induction quotedRest quote overLines cs generalizing t r <;>
    simp_all [cons_eq_some] <;> grind

def string : List Char → Scan
  | '"' :: cs => cons '"' (quotedRest '"' false cs)
  | '\'' :: cs => cons '\'' (quotedRest '\'' false cs)
  | _ => none

def template : List Char → Scan
  | '\x60' :: cs => cons '\x60' (quotedRest '\x60' true cs)
  | _ => none

/-- The rest of a regular expression up to its closing slash, which does not count in a class. -/
def regexRest (inClass : Bool) : List Char → Scan
  | [] => none
  | [c] => if c = '/' && !inClass then some ([c], []) else none
  | c :: d :: cs =>
    if c = '\n' then none
    else if c = '\\' then (if d = '\n' then none else cons c (cons d (regexRest inClass cs)))
    else if inClass then cons c (regexRest (c != ']') (d :: cs))
    else if c = '/' then some ([c], d :: cs)
    else cons c (regexRest (c == '[') (d :: cs))

def isRegexFlag (c : Char) : Bool := "dgimsuvy".toList.contains c

def regex : List Char → Scan
  | '/' :: c :: cs =>
    if c = '*' || c = '/' then none
    else
      (regexRest false (c :: cs)).map fun (t, r) =>
        ('/' :: t ++ r.takeWhile isRegexFlag, r.dropWhile isRegexFlag)
  | _ => none

def token (cls : TokenClass) (text : List Char) : Token := ⟨cls, String.ofList text⟩

end Comprehend.Lexeme
