/-! Regular expressions as patterns. Flags are scoped: a part of a pattern may turn some on or off for
itself. A look behind has a fixed width, which is worked out from the widths of the parts, a back
reference being as wide as the group it refers to. -/

namespace Comprehend.Regexp

structure Flags where
  ignoreCase : Bool
  multiline : Bool
  dotAll : Bool
  ascii : Bool
  deriving DecidableEq, Repr

def Flags.none : Flags := ⟨false, false, false, false⟩

inductive CharClass
  | digit
  | space
  | word
  deriving DecidableEq, Repr

/-- A member of a set of characters, by code point. -/
inductive SetItem
  | char (code : Nat)
  | range (first last : Nat)
  | cls (cls : CharClass) (negated : Bool)
  deriving DecidableEq, Repr

/-- A condition on a position that takes up no text. -/
inductive Anchor
  | lineStart
  | lineEnd
  | textStart
  | textEnd
  | boundary (negated : Bool)
  deriving DecidableEq, Repr

inductive RepeatMode
  | greedy
  | lazy
  | possessive
  deriving DecidableEq, Repr

inductive Pattern
  | empty
  | any
  | set (negated : Bool) (items : List SetItem)
  | anchor (anchor : Anchor)
  | seq (first second : Pattern)
  | alt (first second : Pattern)
  | group (index : Nat) (body : Pattern)
  | scoped (flags : Flags) (body : Pattern)
  | repeated (mode : RepeatMode) (least : Nat) (most : Option Nat) (body : Pattern)
  | atomic (body : Pattern)
  | ahead (negated : Bool) (body : Pattern)
  | behind (negated : Bool) (width : Nat) (body : Pattern)
  | backReference (index : Nat)
  | conditional (index : Nat) (yes no : Pattern)
  deriving DecidableEq, Repr

/-- The least and the greatest number of characters a pattern takes up, if there is a greatest. -/
structure Width where
  least : Nat
  greatest : Option Nat
  deriving DecidableEq, Repr

namespace Width

def ofNat (n : Nat) : Width := ⟨n, some n⟩

def add (a b : Width) : Width :=
  ⟨a.least + b.least, a.greatest.bind fun m => b.greatest.map (m + ·)⟩

def or (a b : Width) : Width :=
  ⟨min a.least b.least, a.greatest.bind fun m => b.greatest.map (max m ·)⟩

def times (a : Width) (least : Nat) (most : Option Nat) : Width :=
  ⟨a.least * least,
    match a.greatest, most with
    | some 0, _ => some 0
    | some n, some m => some (n * m)
    | none, some 0 => some 0
    | _, _ => none⟩

end Width

/-- The width of a pattern, given those of the groups it may refer to. -/
def Pattern.width (groups : Nat → Width) : Pattern → Width
  | .empty | .anchor _ | .ahead .. | .behind .. => .ofNat 0
  | .any | .set .. => .ofNat 1
  | .seq a b => (a.width groups).add (b.width groups)
  | .alt a b => (a.width groups).or (b.width groups)
  | .group _ p | .scoped _ p | .atomic p => p.width groups
  | .repeated _ least most p => (p.width groups).times least most
  | .backReference n => groups n
  | .conditional _ yes no => (yes.width groups).or (no.width groups)

def Pattern.char (code : Nat) : Pattern := .set false [.char code]

end Comprehend.Regexp
