import Comprehend.Regexp.Parser
import Comprehend.Text.Case

/-! Matching by backtracking. A pattern is run from a state, a position and what the groups have
caught, with a continuation for what comes after it; the first way through that the continuation
accepts is taken. The run is a recursion on the pattern, and a repetition is one on the number of
rounds that can still gain ground: past the least number, a round that started where the one before
it did is not tried again. -/

namespace Comprehend.Regexp

open Text

structure Match where
  position : Nat
  /-- Start and end of what each group caught last, latest first. -/
  groups : List (Nat × Nat × Nat)

abbrev Continuation := Match → Option Match

def Match.caught? (m : Match) (index : Nat) : Option (Nat × Nat) :=
  (m.groups.find? (·.1 == index)).map (·.2)

def asciiOnly (flags : Flags) (c : Char) : Bool := !flags.ascii || c.toNat < 128

def CharClass.holds (flags : Flags) (cls : CharClass) (c : Char) : Bool :=
  asciiOnly flags c &&
    match cls with
    | .digit => isDecimal c
    | .space => isSpace c
    | .word => isWord c

def SetItem.holds (flags : Flags) (c : Char) : SetItem → Bool
  | .char code => c.toNat == code
  | .range first last => first ≤ c.toNat && c.toNat ≤ last
  | .cls kind negated => kind.holds flags c != negated

/-- Lower-case letters that differ and yet are one letter when case is ignored. -/
def caseSiblings : List (List Nat) :=
  [[0x69, 0x131], [0x73, 0x17F], [0xB5, 0x3BC], [0x345, 0x3B9, 0x1FBE], [0x390, 0x1FD3],
    [0x3B0, 0x1FE3], [0x3B2, 0x3D0], [0x3B5, 0x3F5], [0x3B8, 0x3D1], [0x3BA, 0x3F0],
    [0x3C0, 0x3D6], [0x3C1, 0x3F1], [0x3C2, 0x3C3], [0x3C6, 0x3D5], [0x432, 0x1C80],
    [0x434, 0x1C81], [0x43E, 0x1C82], [0x441, 0x1C83], [0x442, 0x1C84, 0x1C85], [0x44A, 0x1C86],
    [0x463, 0x1C87], [0x1C88, 0xA64B], [0x1E61, 0x1E9B], [0xFB05, 0xFB06]]

def fold (flags : Flags) (c : Char) : Char :=
  if flags.ascii then (if c.toNat < 128 then c.toLower else c) else foldCase c

/-- The letters whose lower case is a given one. -/
def foldedTo (flags : Flags) (lower : Nat) : List Nat :=
  if flags.ascii then
    (if 97 ≤ lower && lower ≤ 122 then [lower, lower - 32] else [lower])
  else
    lower :: (if 97 ≤ lower && lower ≤ 122 then [lower - 32] else []) ++
      (lowerExpansions.filter fun e => e.2.head? == some lower).map (·.1) ++
      lowerRuns.filterMap fun r =>
        let n := ((lower : Int) - r.shift).toNat
        if r.covers n then some n else none

/-- All characters that match one when case is ignored. -/
def caseClass (flags : Flags) (c : Char) : List Nat :=
  let lower := (fold flags c).toNat
  if flags.ascii then foldedTo flags lower
  else
    match caseSiblings.find? (·.contains lower) with
    | some siblings => siblings.flatMap (foldedTo flags)
    | none => foldedTo flags lower

def setHolds (flags : Flags) (items : List SetItem) (c : Char) : Bool :=
  if flags.ignoreCase then
    (caseClass flags c).any fun n => items.any (SetItem.holds flags (Char.ofNat n))
  else items.any (SetItem.holds flags c)

def isWordAt (flags : Flags) (text : Array Char) (position : Nat) : Bool :=
  match text[position]? with
  | some c => CharClass.word.holds flags c
  | none => false

def Anchor.holds (flags : Flags) (text : Array Char) (position : Nat) : Anchor → Bool
  | .textStart => position == 0
  | .textEnd => position == text.size
  | .lineStart => position == 0 || (flags.multiline && text[position - 1]? == some '\n')
  | .lineEnd =>
    position == text.size || (text[position]? == some '\n' &&
      (flags.multiline || position + 1 == text.size))
  | .boundary negated =>
    let before : Bool := 0 < position && isWordAt flags text (position - 1)
    !text.isEmpty && ((before != isWordAt flags text position) != negated)

/-- Whether the text at a position repeats a stretch of it. -/
def repeatsAt (flags : Flags) (text : Array Char) (start stop position : Nat) : Bool :=
  position + (stop - start) ≤ text.size &&
    (List.range (stop - start)).all fun i =>
      match text[start + i]?, text[position + i]? with
      | some a, some b => a == b || (flags.ignoreCase && fold flags a == fold flags b)
      | _, _ => false

/-- Rounds of a repetition, `rounds` of them at most. -/
def repeatLoop (body : Match → Continuation → Option Match) (lazy : Bool) (least : Nat)
    (most : Option Nat) : (rounds count : Nat) → (last : Option Nat) → Match → Continuation →
    Option Match
  | 0, _, _, _, _ => none
  | rounds + 1, count, last, m, k =>
    if count < least then
      body m fun m' => repeatLoop body lazy least most rounds (count + 1) last m' k
    else
      let again (_ : Unit) : Option Match :=
        if most.all (count < ·) && last != some m.position then
          body m fun m' =>
            repeatLoop body lazy least most rounds (count + 1) (some m.position) m' k
        else none
      if lazy then (k m).orElse again else (again ()).orElse fun _ => k m

/-- Runs a pattern, then the continuation. -/
def run (text : Array Char) (flags : Flags) : Pattern → Match → Continuation → Option Match
  | .empty, m, k => k m
  | .any, m, k =>
    match text[m.position]? with
    | some c => if c != '\n' || flags.dotAll then k { m with position := m.position + 1 } else none
    | none => none
  | .set negated items, m, k =>
    match text[m.position]? with
    | some c =>
      if setHolds flags items c != negated then k { m with position := m.position + 1 } else none
    | none => none
  | .anchor a, m, k => if a.holds flags text m.position then k m else none
  | .seq a b, m, k => run text flags a m fun m' => run text flags b m' k
  | .alt a b, m, k => (run text flags a m k).orElse fun _ => run text flags b m k
  | .group index p, m, k =>
    run text flags p m fun m' => k { m' with groups := (index, m.position, m'.position) :: m'.groups }
  | .scoped inner p, m, k => run text inner p m k
  | .repeated mode least most p, m, k =>
    let rounds := least + 2 * text.size + 3
    match mode with
    | .greedy => repeatLoop (run text flags p) false least most rounds 0 none m k
    | .lazy => repeatLoop (run text flags p) true least most rounds 0 none m k
    | .possessive => (repeatLoop (run text flags p) false least most rounds 0 none m some).bind k
  | .atomic p, m, k => (run text flags p m some).bind k
  | .ahead negated p, m, k =>
    match run text flags p m some with
    | some m' => if negated then none else k { m' with position := m.position }
    | none => if negated then k m else none
  | .behind negated width p, m, k =>
    let found :=
      if width ≤ m.position then run text flags p { m with position := m.position - width } some
      else none
    match found with
    | some m' => if negated then none else k { m' with position := m.position }
    | none => if negated then k m else none
  | .backReference index, m, k =>
    match m.caught? index with
    | some (start, stop) =>
      if repeatsAt flags text start stop m.position then
        k { m with position := m.position + (stop - start) }
      else none
    | none => none
  | .conditional index yes no, m, k =>
    if (m.caught? index).isSome then run text flags yes m k else run text flags no m k

end Comprehend.Regexp

namespace Comprehend

/-- A regular expression: source and flags as written, and the pattern they stand for. -/
structure Regexp where
  source : String
  flags : String
  pattern : Regexp.Pattern
  scope : Regexp.Flags
  deriving DecidableEq, Repr

namespace Regexp

/-- Of the flags only three change what matches. -/
def Flags.ofText (s : String) : Flags :=
  { ignoreCase := s.toList.contains 'i'
    multiline := s.toList.contains 'm'
    dotAll := s.toList.contains 's'
    ascii := false }

def compile (source flags : String) : Except SourceFault Regexp := do
  let (pattern, scope) ← parse source (.ofText flags)
  return ⟨source, flags, pattern, scope⟩

/-- Whether the expression matches anywhere in a text. -/
def test (r : Regexp) (s : String) : Bool :=
  let text := s.toList.toArray
  (List.range (text.size + 1)).any fun i => (run text r.scope r.pattern ⟨i, []⟩ some).isSome

end Regexp

end Comprehend
