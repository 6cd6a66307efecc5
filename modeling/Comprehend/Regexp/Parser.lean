import Comprehend.Decimal.Numeral
import Comprehend.Regexp.Syntax
import Comprehend.Text.Blank
import Comprehend.Text.Escape
import Comprehend.Text.Word

/-! Reading the source of a regular expression. The reader goes over marks, which are characters or
characters after a backslash, and keeps the groups it has opened and closed. A source may be
malformed, or ask for more repetitions than can be counted; nothing more is said about it. -/

namespace Comprehend.Regexp

open Text Decimal

inductive SourceFault
  | malformed
  | tooManyRepeats
  deriving DecidableEq, Repr

/-- A character, one after a backslash, or a backslash with nothing after it. -/
inductive Mark
  | plain (c : Char)
  | escaped (c : Char)
  | dangling
  deriving DecidableEq, Repr

def marks : List Char → List Mark
  | [] => []
  | ['\\'] => [.dangling]
  | '\\' :: c :: cs => .escaped c :: marks cs
  | c :: cs => .plain c :: marks cs

structure Reading where
  rest : List Mark
  flags : Flags
  verbose : Bool
  /-- The widths of the groups so far, none for one that is still open. -/
  groups : List (Option Width)
  names : List (String × Nat)
  /-- How many groups there were before the outermost look behind that is being read. -/
  behindFrom : Option Nat
  conditions : List Nat

abbrev Reader := StateT Reading (Except SourceFault)

namespace Reader

def malformed : Reader α := throw .malformed

def ensure (b : Bool) : Reader Unit := if b then pure () else malformed

def peek : Reader (Option Mark) := do return (← get).rest.head?

def next : Reader (Option Mark) := do
  match (← get).rest with
  | [] => return none
  | m :: ms =>
    ensure (m != .dangling)
    modify fun s => { s with rest := ms }
    return some m

/-- Takes a character if it comes next. -/
def accept (c : Char) : Reader Bool := do
  match (← get).rest with
  | m :: ms =>
    if m = .plain c then
      modify fun s => { s with rest := ms }
      return true
    else return false
  | [] => return false

def expect (c : Char) : Reader Unit := do ensure (← accept c)

/-- The longest run of characters of a kind at the start of some marks, at most `most`. -/
def runOf (test : Char → Bool) : (most : Nat) → List Mark → List Char × List Mark
  | most + 1, .plain c :: ms =>
    if test c then
      let (cs, rest) := runOf test most ms
      (c :: cs, rest)
    else ([], .plain c :: ms)
  | _, ms => ([], ms)

def takeRun (test : Char → Bool) (most : Nat) : Reader (List Char) := do
  let (cs, rest) := runOf test most (← get).rest
  modify fun s => { s with rest }
  return cs

/-- A name up to a closing character. -/
def nameTo (close : Char) : Reader (List Char) := do
  let ms := (← get).rest
  let (cs, rest) := runOf (· != close) ms.length ms
  modify fun s => { s with rest }
  expect close
  ensure !cs.isEmpty
  return cs

def isOctalDigit (c : Char) : Bool := '0' ≤ c && c ≤ '7'

def octalNumber (cs : List Char) : Nat := ofDigits 8 (cs.map fun c => c.toNat - 48)

def decimalNumber (cs : List Char) : Nat := ofDigits 10 (cs.map fun c => c.toNat - 48)

/-- A name of letters, digits and low lines that no digit starts. -/
def isGroupName : List Char → Bool
  | [] => false
  | c :: cs => isWord c && !isDigit c && cs.all isWord

def classOf (c : Char) : Option (CharClass × Bool) :=
  match c with
  | 'd' => some (.digit, false)
  | 'D' => some (.digit, true)
  | 's' => some (.space, false)
  | 'S' => some (.space, true)
  | 'w' => some (.word, false)
  | 'W' => some (.word, true)
  | _ => none

def controlOf (c : Char) : Option Nat :=
  match c with
  | 'a' => some 7
  | 'b' => some 8
  | 'f' => some 12
  | 'n' => some 10
  | 'r' => some 13
  | 't' => some 9
  | 'v' => some 11
  | '\\' => some 92
  | _ => none

def anchorOf (c : Char) : Option Anchor :=
  match c with
  | 'A' => some .textStart
  | 'Z' => some .textEnd
  | 'b' => some (.boundary false)
  | 'B' => some (.boundary true)
  | _ => none

/-- A code of exactly so many hexadecimal digits. -/
def hexCode (digits : Nat) : Reader Nat := do
  let ds ← takeRun isHexDigit digits
  ensure (ds.length = digits)
  return hexNumber ds

/-- The code that a letter after a backslash introduces, in a set or outside. -/
def codeEscape (c : Char) : Reader Nat := do
  if c = 'x' then hexCode 2
  else if c = 'u' then hexCode 4
  else if c = 'U' then
    let n ← hexCode 8
    ensure (n < 0x110000)
    return n
  else
    ensure !(c.isAlphanum)
    return c.toNat

/-- An escape in a set. -/
def setEscape (c : Char) : Reader SetItem := do
  match classOf c, controlOf c with
  | some (cls, negated), _ => return .cls cls negated
  | _, some n => return .char n
  | none, none =>
    if isOctalDigit c then
      let n := octalNumber (c :: (← takeRun isOctalDigit 2))
      ensure (n ≤ 255)
      return .char n
    else return .char (← codeEscape c)

/-- Whether a group may be referred to here: it is closed and, in a look behind, older than it. -/
def mayRefer (s : Reading) (index : Nat) : Bool :=
  match s.groups[index]? with
  | some (some _) => s.behindFrom.all fun n => index < n
  | _ => false

def reference (index : Nat) : Reader Pattern := do
  ensure (mayRefer (← get) index)
  return .backReference index

/-- A number after a backslash: an octal code of three digits or a back reference. -/
def numberEscape (c : Char) : Reader Pattern := do
  let second ← takeRun Char.isDigit 1
  match second with
  | [d] =>
    if isOctalDigit c && isOctalDigit d then
      match ← takeRun isOctalDigit 1 with
      | [e] =>
        let n := octalNumber [c, d, e]
        ensure (n ≤ 255)
        return .char n
      | _ => reference (decimalNumber [c, d])
    else reference (decimalNumber [c, d])
  | _ => reference (decimalNumber [c])

/-- An escape outside a set, and whether it is an anchor. -/
def escape (c : Char) : Reader (Pattern × Bool) := do
  match anchorOf c, classOf c, controlOf c with
  | some a, _, _ => return (.anchor a, true)
  | _, some (cls, negated), _ => return (.set false [.cls cls negated], false)
  | _, _, some n => return (.char n, false)
  | none, none, none =>
    if c = '0' then return (.char (octalNumber (c :: (← takeRun isOctalDigit 2))), false)
    else if c.isDigit then return (← numberEscape c, false)
    else return (.char (← codeEscape c), false)

def setMark : Mark → Reader SetItem
  | .plain c => return .char c.toNat
  | .escaped c => setEscape c
  | .dangling => malformed

/-- The rest of a set, `more` bounding its length. -/
def setItems : (more : Nat) → (read : List SetItem) → Reader (List SetItem)
  | 0, _ => malformed
  | more + 1, read => do
    let some m ← next | malformed
    if m = .plain ']' && !read.isEmpty then return read.reverse
    let first ← setMark m
    if ← accept '-' then
      let some m' ← next | malformed
      if m' = .plain ']' then return (.char '-'.toNat :: first :: read).reverse
      match first, ← setMark m' with
      | .char a, .char b =>
        ensure (a ≤ b)
        setItems more (.range a b :: read)
      | _, _ => malformed
    else setItems more (first :: read)

def charSet : Reader Pattern := do
  let negated ← accept '^'
  return .set negated (← setItems ((← get).rest.length + 1) [])

/-- Repetition counts stay below this. -/
def repeatLimit : Nat := 4294967295

def count (ds : List Char) : Reader (Option Nat) := do
  if ds.isEmpty then return none
  let n := decimalNumber ds
  if repeatLimit ≤ n then throw .tooManyRepeats
  return some n

/-- The bounds after an opening brace; none if the brace stands for itself. -/
def bounds : Reader (Option (Nat × Option Nat)) := do
  let saved ← get
  if saved.rest.head? = some (.plain '}') then return none
  let low ← takeRun Char.isDigit saved.rest.length
  let ranged ← accept ','
  let high ← if ranged then takeRun Char.isDigit saved.rest.length else pure low
  if !(← accept '}') then
    set saved
    return none
  let least := (← count low).getD 0
  let most ← count high
  ensure (most.all fun m => least ≤ m)
  return some (least, most)

inductive ItemKind
  | anchor
  | repetition
  | other
  deriving DecidableEq, Repr

abbrev Items := List (Pattern × ItemKind)

/-- The sequence of some items, last one first. -/
def sequenceOf (items : Items) : Pattern :=
  items.foldl (fun p i => if p = .empty then i.1 else .seq i.1 p) .empty

/-- Repeats the last item. -/
def repeatLast (least : Nat) (most : Option Nat) (items : Items) : Reader Items := do
  match items with
  | [] => malformed
  | (p, kind) :: items =>
    ensure (kind = .other)
    let mode ←
      if ← accept '?' then pure RepeatMode.lazy
      else if ← accept '+' then pure RepeatMode.possessive
      else pure RepeatMode.greedy
    return (.repeated mode least most p, .repetition) :: items

/-- Flags that a group turns on or off. -/
structure FlagChange where
  ignoreCase : Bool := false
  multiline : Bool := false
  dotAll : Bool := false
  ascii : Bool := false
  unicode : Bool := false
  verbose : Bool := false
  deriving DecidableEq

def isFlag (c : Char) : Bool := "imsxau".toList.contains c

def FlagChange.addFlag (f : FlagChange) (c : Char) : FlagChange :=
  match c with
  | 'i' => { f with ignoreCase := true }
  | 'm' => { f with multiline := true }
  | 's' => { f with dotAll := true }
  | 'a' => { f with ascii := true }
  | 'u' => { f with unicode := true }
  | _ => { f with verbose := true }

def FlagChange.ofChars (cs : List Char) : FlagChange := cs.foldl addFlag {}

def FlagChange.turnOn (f : FlagChange) (g : Flags) : Flags :=
  { ignoreCase := g.ignoreCase || f.ignoreCase
    multiline := g.multiline || f.multiline
    dotAll := g.dotAll || f.dotAll
    ascii := (g.ascii && !f.unicode) || f.ascii }

def FlagChange.turnOff (f : FlagChange) (g : Flags) : Flags :=
  { ignoreCase := g.ignoreCase && !f.ignoreCase
    multiline := g.multiline && !f.multiline
    dotAll := g.dotAll && !f.dotAll
    ascii := g.ascii }

/-- A group number or name in a condition. -/
def conditionIndex (name : List Char) : Reader Nat := do
  if isGroupName name then
    match (← get).names.find? (·.1 == String.ofList name) with
    | some (_, index) => return index
    | none => malformed
  else
    match readDecimal (trim name) with
    | .ok (.ofNat (n + 1)) =>
      modify fun s => { s with conditions := (n + 1) :: s.conditions }
      return n + 1
    | _ => malformed

/-- Passes over a comment. -/
def comment : Reader Unit := do
  let ms := (← get).rest
  let rest := ms.dropWhile (· != .plain ')')
  ensure (!rest.isEmpty && !ms.contains .dangling)
  modify fun s => { s with rest := rest.drop 1 }

def groupWidth (s : Reading) (index : Nat) : Width :=
  ((s.groups[index]?).join).getD (.ofNat 0)

def openGroup (name : Option (List Char)) : Reader Nat := do
  let index := (← get).groups.length
  match name with
  | none => modify fun s => { s with groups := s.groups ++ [none] }
  | some name =>
    let name := String.ofList name
    ensure ((← get).names.all (·.1 != name))
    modify fun s => { s with groups := s.groups ++ [none], names := (name, index) :: s.names }
  return index

def closeGroup (index : Nat) (p : Pattern) : Reader Unit :=
  modify fun s => { s with groups := s.groups.set index (some (p.width (groupWidth s))) }

/-- A look behind, if its width is fixed. -/
def behind (negated : Bool) (p : Pattern) : Reader Pattern := do
  let w := p.width (groupWidth (← get))
  ensure (w.greatest = some w.least && w.least < repeatLimit + 1)
  return .behind negated w.least p

/-- What follows `(?` decides the kind of a group. -/
inductive GroupKind
  | capturing (name : Option (List Char))
  | plain
  | atomic
  | ahead (negated : Bool)
  | behind (negated : Bool)
  | scoped (on off : FlagChange)
  | reference (index : Nat)
  | condition (index : Nat)
  | comment
  | globalFlags (on : FlagChange)

def nextChar : Reader Char := do
  match ← next with
  | some (.plain c) => return c
  | _ => malformed

/-- The flags of a group, the first one read already, and the mark that ends them. -/
def flagRun (more : Nat) (first : List Char) : Reader (List Char × Char) := do
  let cs ← takeRun isFlag more
  return (first ++ cs, ← nextChar)

def flagGroup (c : Char) : Reader GroupKind := do
  let more := (← get).rest.length
  let (on, close) ← if c = '-' then pure ([], c) else flagRun more [c]
  let change := FlagChange.ofChars on
  ensure !(change.ascii && change.unicode)
  if close = ')' then return .globalFlags change
  else if close = ':' then return .scoped change {}
  else
    ensure (close = '-')
    let (off, close) ← flagRun more []
    ensure (close = ':' && !off.isEmpty)
    ensure (off.all fun c => c != 'a' && c != 'u' && !on.contains c)
    return .scoped change (FlagChange.ofChars off)

def namedGroup : Reader GroupKind := do
  match ← nextChar with
  | '<' =>
    let name ← nameTo '>'
    ensure (isGroupName name)
    return .capturing (some name)
  | '=' =>
    let name ← nameTo ')'
    ensure (isGroupName name)
    match (← get).names.find? (·.1 == String.ofList name) with
    | some (_, index) => return .reference index
    | none => malformed
  | _ => malformed

def groupKind : Reader GroupKind := do
  if !(← accept '?') then return .capturing none
  match ← nextChar with
  | 'P' => namedGroup
  | ':' => return .plain
  | '#' => return .comment
  | '=' => return .ahead false
  | '!' => return .ahead true
  | '<' =>
    match ← nextChar with
    | '=' => return .behind false
    | '!' => return .behind true
    | _ => malformed
  | '(' => return .condition (← conditionIndex (← nameTo ')'))
  | '>' => return .atomic
  | c => if isFlag c || c = '-' then flagGroup c else malformed

/-- Blanks that a verbose source may hold anywhere. -/
def isLayout (c : Char) : Bool := " \t\n\r\x0b\x0c".toList.contains c

def lineComment : Reader Unit :=
  modify fun s => { s with rest := (s.rest.dropWhile (· != .plain '\n')).drop 1 }

mutual

/-- Alternatives up to a closing bracket or the end. -/
def alternatives : (fuel : Nat) → (top : Bool) → Reader Pattern
  | 0, _ => malformed
  | fuel + 1, top => do
    let p ← sequence fuel top []
    alternativesAfter fuel p

def alternativesAfter : (fuel : Nat) → Pattern → Reader Pattern
  | 0, _ => malformed
  | fuel + 1, p => do
    if ← accept '|' then
      let q ← sequence fuel false []
      return .alt p (← alternativesAfter fuel q)
    else return p

/-- A sequence, `items` having been read, last one first. -/
def sequence : (fuel : Nat) → (top : Bool) → Items → Reader Pattern
  | 0, _, _ => malformed
  | fuel + 1, top, items => do
    match ← peek with
    | none => return sequenceOf items
    | some (.plain '|') => return sequenceOf items
    | some (.plain ')') => return sequenceOf items
    | some m =>
      let _ ← next
      match m with
      | .dangling => malformed
      | .escaped c =>
        let (p, isAnchor) ← escape c
        sequence fuel top ((p, if isAnchor then .anchor else .other) :: items)
      | .plain c =>
        if (← get).verbose && isLayout c then sequence fuel top items
        else if (← get).verbose && c = '#' then
          lineComment
          sequence fuel top items
        else
          match c with
          | '.' => sequence fuel top ((.any, .other) :: items)
          | '^' => sequence fuel top ((.anchor .lineStart, .anchor) :: items)
          | '$' => sequence fuel top ((.anchor .lineEnd, .anchor) :: items)
          | '[' => sequence fuel top ((← charSet, .other) :: items)
          | '?' => sequence fuel top (← repeatLast 0 (some 1) items)
          | '*' => sequence fuel top (← repeatLast 0 none items)
          | '+' => sequence fuel top (← repeatLast 1 none items)
          | '{' =>
            match ← bounds with
            | none => sequence fuel top ((.char c.toNat, .other) :: items)
            | some (least, most) => sequence fuel top (← repeatLast least most items)
          | '(' => sequence fuel top (← group fuel top items)
          | c => sequence fuel top ((.char c.toNat, .other) :: items)

/-- The rest of a group, added to the items before it. -/
def group : (fuel : Nat) → (top : Bool) → Items → Reader Items
  | 0, _, _ => malformed
  | fuel + 1, top, items => do
    let add (p : Pattern) : Reader Items := return (p, .other) :: items
    match ← groupKind with
    | .comment =>
      comment
      return items
    | .reference index => add (← reference index)
    | .globalFlags on =>
      ensure (top && items.isEmpty)
      let s ← get
      ensure !(on.unicode && s.flags.ascii)
      modify fun s => { s with flags := on.turnOn s.flags, verbose := s.verbose || on.verbose }
      return items
    | .capturing name =>
      let index ← openGroup name
      let p ← enclosed fuel
      closeGroup index p
      add (.group index p)
    | .plain => add (← enclosed fuel)
    | .atomic => add (.atomic (← enclosed fuel))
    | .ahead negated => add (.ahead negated (← enclosed fuel))
    | .behind negated =>
      let outer := (← get).behindFrom
      modify fun s => { s with behindFrom := some (outer.getD s.groups.length) }
      let p ← enclosed fuel
      modify fun s => { s with behindFrom := outer }
      add (← behind negated p)
    | .scoped on off =>
      let saved ← get
      let inner := off.turnOff (on.turnOn saved.flags)
      modify fun s =>
        { s with flags := inner, verbose := (s.verbose || on.verbose) && !off.verbose }
      let p ← enclosed fuel
      modify fun s => { s with flags := saved.flags, verbose := saved.verbose }
      add (.scoped inner p)
    | .condition index =>
      let s ← get
      ensure (s.behindFrom.isNone || mayRefer s index)
      let yes ← sequence fuel false []
      let no ← if ← accept '|' then sequence fuel false [] else pure .empty
      expect ')'
      add (.conditional index yes no)

/-- Alternatives and the bracket that closes them. -/
def enclosed : (fuel : Nat) → Reader Pattern
  | 0 => malformed
  | fuel + 1 => do
    let p ← alternatives fuel false
    expect ')'
    return p

end

end Reader

/-- Reads the source of a regular expression whose flags outside it are these. -/
def parse (source : String) (flags : Flags) : Except SourceFault (Pattern × Flags) := do
  let ms := marks source.toList
  let (p, s) ← (Reader.alternatives (4 * ms.length + 8) true).run
    { rest := ms, flags, verbose := false, groups := [some (.ofNat 0)], names := []
      behindFrom := none, conditions := [] }
  if s.rest.isEmpty && s.conditions.all (· < s.groups.length) then return (p, s.flags)
  else throw .malformed

end Comprehend.Regexp
