import Comprehend.Text.CaseTable

/-! Upper and lower case of a text. A character may map to several, and a capital sigma becomes a
final one when it ends a word: the nearest character before it that the rule does not look through
has a case, and the nearest one after it has none. -/

namespace Comprehend.Text

def mapCase (expansions : List (Nat × List Nat)) (runs : List CaseRun) (c : Char) : List Char :=
  match expansions.find? (·.1 == c.toNat) with
  | some e => e.2.map Char.ofNat
  | none =>
    match runs.find? (·.covers c.toNat) with
    | some r => [Char.ofNat (c.toNat + r.shift).toNat]
    | none => [c]

def upperOf (c : Char) : List Char :=
  if c.toNat < 128 then [c.toUpper] else mapCase upperExpansions upperRuns c

def lowerOf (c : Char) : List Char :=
  if c.toNat < 128 then [c.toLower] else mapCase lowerExpansions lowerRuns c

def capitalSigma : Char := 'Σ'

/-- Whether the nearest character that a case rule stops at has a case. -/
def meetsCased (cs : List Char) : Bool :=
  match cs.dropWhile caseIgnorableRanges.has with
  | [] => false
  | c :: _ => casedRanges.has c

/-- Lower case from here on, `before` being what precedes, last character first. -/
def lowerFrom (before : List Char) : List Char → List Char
  | [] => []
  | c :: cs =>
    (if c = capitalSigma then
      (if meetsCased before && !meetsCased cs then ['ς'] else ['σ'])
    else lowerOf c) ++ lowerFrom (c :: before) cs

def upper (s : String) : String := String.ofList (s.toList.flatMap upperOf)

def lower (s : String) : String := String.ofList (lowerFrom [] s.toList)

/-- The one lower-case letter that stands for a character when case is ignored. -/
def foldCase (c : Char) : Char := (lowerOf c).headD c

end Comprehend.Text
