import Comprehend.Explain
import Comprehend.Source.Surface

/-! Expanding a source text or a tree. A comprehension whose text is malformed, or that has no
usable clause, stays as it is, with a notice. Any other fault ends the expansion, unless faults are
to be skipped; then it becomes a notice too. -/

namespace Comprehend

open Text

structure ExpansionSettings extends Settings where
  surfaces : List Surface
  skipFaults : Bool

namespace Expansion

/-- Turns a fault into a notice where the settings say so. -/
def passingOver (settings : ExpansionSettings) (place : String) (a : Noted α) :
    Noted (Option α) :=
  match a.result with
  | .ok x => ⟨a.notices, .ok (some x)⟩
  | .error fault =>
    if fault.family = .comprehension then ⟨a.notices ++ [.malformed place fault], .ok none⟩
    else if settings.skipFaults then ⟨a.notices ++ [.skipped place fault], .ok none⟩
    else ⟨a.notices, .error fault⟩

/-- The chain of a notation text, or nothing where it is to stay. -/
def chain? (settings : ExpansionSettings) (place raw : String) : Noted (Option Node) := do
  let chain ← passingOver settings place do
    let c ← Comprehension.parse settings.strict raw
    if c.clauses.isEmpty then
      Noted.note (.unusable place raw)
      return none
    else return some (← c.chain settings.toSettings)
  return chain.join

/-- The program text of an occurrence, or nothing where it is to stay. -/
def code? (settings : ExpansionSettings) (o : Occurrence) : Noted (Option String) := do
  match ← chain? settings o.place o.raw with
  | none => return none
  | some chain =>
    let style : ChainStyle := ⟨settings.style.dialect, o.surface.parenthesizesSources⟩
    passingOver settings o.place (printChain settings.maxOutput style chain : Except Fault String)

/-- Splices program text into a source, `position` characters of which are done. -/
def splice (settings : ExpansionSettings) (source : List Char) : (position : Nat) →
    List Occurrence → Noted (List Char)
  | position, [] => pure (source.drop position)
  | position, o :: os => do
    match ← code? settings o with
    | none => splice settings source position os
    | some code =>
      return (source.drop position).take (o.start - position) ++ code.toList ++
        (← splice settings source o.stop os)

def source (settings : ExpansionSettings) (text : String) : Noted String := do
  let out ← splice settings text.toList 0 (Occurrence.find settings.surfaces text)
  return String.ofList out

/-- The place of a comprehension in a tree, as notices name it. -/
def treePlace : String := "tagged template node"

/-- What a tagged template becomes, its tag expanded already. -/
def tagged (settings : ExpansionSettings) (tag : Node) (template : Token) : Noted Node := do
  let kept : Node := .tagged tag template
  let raw := literalBody template.text
  match tag with
  | .leaf .name t =>
    if t.text ≠ listTag || hasSubstitution raw then return kept
    else
      match ← chain? settings treePlace raw with
      | none => return kept
      | some chain => return chain.lower
  | _ => return kept

mutual

/-- Expands the tagged templates of a tree, inner ones first. -/
def tree (settings : ExpansionSettings) : Node → Noted Node
  | .array items => return .array (← trees settings items)
  | .object members => return .object (← trees settings members)
  | .spread x => return .spread (← tree settings x)
  | .property key x => return .property key (← tree settings x)
  | .arrow ps body => return .arrow (← trees settings ps) (← tree settings body)
  | .function ps body => return .function (← trees settings ps) (← tree settings body)
  | .ternary test yes no =>
    return .ternary (← tree settings test) (← tree settings yes) (← tree settings no)
  | .logical op lhs rhs => return .logical op (← tree settings lhs) (← tree settings rhs)
  | .binary group op lhs rhs =>
    return .binary group op (← tree settings lhs) (← tree settings rhs)
  | .power base exponent => return .power (← tree settings base) (← tree settings exponent)
  | .unary op x => return .unary op (← tree settings x)
  | .prefixUpdate op x => return .prefixUpdate op (← tree settings x)
  | .postfixUpdate x op => return .postfixUpdate (← tree settings x) op
  | .member optional target name => return .member optional (← tree settings target) name
  | .index optional target key =>
    return .index optional (← tree settings target) (← tree settings key)
  | .call optional callee args =>
    return .call optional (← tree settings callee) (← trees settings args)
  | .construct callee args => return .construct (← tree settings callee) (← trees settings args)
  | .tagged tag template => do tagged settings (← tree settings tag) template
  | .params ps => return .params (← trees settings ps)
  | .arrayPattern items => return .arrayPattern (← trees settings items)
  | .objectPattern items => return .objectPattern (← trees settings items)
  | .patternDefault target x =>
    return .patternDefault (← tree settings target) (← tree settings x)
  | .patternRest target => return .patternRest (← tree settings target)
  | .propertyPattern key target => return .propertyPattern key (← tree settings target)
  | .other label children => return .other label (← trees settings children)
  | x => return x

def trees (settings : ExpansionSettings) : List Node → Noted (List Node)
  | [] => return []
  | x :: xs => return (← tree settings x) :: (← trees settings xs)

end

end Expansion

end Comprehend
