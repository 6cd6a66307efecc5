import Comprehend.Text.Word
import Comprehend.Syntax.Lexeme

/-! Where comprehensions stand in a source text. A tagged template is the tag `list`, which no name
runs into from the left, white space, and a template without live substitutions. A marked literal is
the marker comment and, right after it, a text between backticks. Each surface is searched from left
to right, and a match is passed over as a whole; of two that overlap the first counts. -/

namespace Comprehend

open Text

inductive Surface
  | taggedTemplate
  | markedLiteral
  deriving DecidableEq, Repr

structure Occurrence where
  surface : Surface
  start : Nat
  stop : Nat
  raw : String
  deriving DecidableEq, Repr

def listTag : String := "list"

def listMarker : String := "/*list*/"

namespace Surface

def name : Surface → String
  | .taggedTemplate => "tagged_template"
  | .markedLiteral => "marked_literal"

def parenthesizesSources : Surface → Bool
  | .taggedTemplate => false
  | .markedLiteral => true

def all : List Surface := [.taggedTemplate, .markedLiteral]

/-- Whether a tag may start after this character. -/
def mayPrecedeTag (c : Char) : Bool := !(isWord c || c == '$' || c == '.')

/-- The tagged template at the start of a text, `before` being the character in front. -/
def tagged (before : Option Char) (cs : List Char) : Lexeme.Scan :=
  if before.all mayPrecedeTag then
    match Lexeme.after listTag cs with
    | none => none
    | some r =>
      (Lexeme.template (r.dropWhile isSpace)).map fun p =>
        (listTag.toList ++ r.takeWhile isSpace ++ p.1, p.2)
  else none

/-- The marked literal at the start of a text. -/
def marked (cs : List Char) : Lexeme.Scan :=
  match Lexeme.after listMarker cs with
  | some ('\x60' :: r) =>
    let body := r.takeWhile (· != '\x60')
    match body, r.dropWhile (· != '\x60') with
    | _ :: _, '\x60' :: r => some (listMarker.toList ++ '\x60' :: body ++ ['\x60'], r)
    | _, _ => none
  | _ => none

def matchAt (surface : Surface) (before : Option Char) (cs : List Char) : Lexeme.Scan :=
  match surface with
  | .taggedTemplate => tagged before cs
  | .markedLiteral => marked cs

/-- The text between the backticks of a match. -/
def body (matched : List Char) : List Char :=
  ((matched.dropWhile (· != '\x60')).drop 1).dropLast

/-- Whether a match counts: a template with a live substitution does not. -/
def accepts (surface : Surface) (body : List Char) : Bool :=
  match surface with
  | .taggedTemplate => !substitutionFrom 0 body
  | .markedLiteral => true

/-- Searches on at an offset; the next `skip` characters belong to a match. -/
def search (surface : Surface) : (before : Option Char) → (offset skip : Nat) → List Char →
    List Occurrence
  | _, _, _, [] => []
  | _, offset, skip + 1, c :: cs => search surface (some c) (offset + 1) skip cs
  | before, offset, 0, c :: cs =>
    match surface.matchAt before (c :: cs) with
    | none => search surface (some c) (offset + 1) 0 cs
    | some (matched, _) =>
      let rest := search surface (some c) (offset + 1) (matched.length - 1) cs
      let inner := body matched
      if surface.accepts inner then
        ⟨surface, offset, offset + matched.length, String.ofList inner⟩ :: rest
      else rest

def find (surface : Surface) (source : String) : List Occurrence :=
  surface.search none 0 0 source.toList

end Surface

namespace Occurrence

/-- Drops every occurrence that starts before the last one kept has ended. -/
def disjointFrom : (stop : Nat) → List Occurrence → List Occurrence
  | _, [] => []
  | stop, o :: os => if stop ≤ o.start then o :: disjointFrom o.stop os else disjointFrom stop os

/-- The occurrences of some surfaces in source order. -/
def find (surfaces : List Surface) (source : String) : List Occurrence :=
  disjointFrom 0 ((surfaces.flatMap (·.find source)).mergeSort fun a b => a.start ≤ b.start)

/-- How an occurrence is named in notices. -/
def place (o : Occurrence) : String := o.surface.name ++ " at offset " ++ toString o.start

end Occurrence

end Comprehend
