import Comprehend.Script.Operator

/-! The memory of a run: frames of variables, the next tag, and what the functions of the surrounding
program have noted for later calls, which the script never sees. A frame only grows while the
parameters of a call are bound, and a function written in a default value sees what is bound after
it. Tags are handed out in order, so every array, object and function made has one of its own. -/

namespace Comprehend.Script

abbrev Frame := List (String × Value)

structure Memory where
  frames : Array Frame
  fresh : Tag
  notes : List Value

/-- No frames and no notes. Tag zero belongs to the library object. -/
def Memory.initial : Memory := ⟨#[], 1, []⟩

abbrev Run := StateT Memory (Except Stop)

instance : MonadLift (Except Refusal) Run where
  monadLift a := StateT.lift (a.mapError .refusal)

namespace Run

def stop (s : Stop) : Run α := throw s

def newTag : Run Tag := modifyGet fun m => (m.fresh, { m with fresh := m.fresh + 1 })

def newArray (items : List Value) : Run Value := return .array (← newTag) items

def newObject (fields : List (String × Value)) : Run Value := return .object (← newTag) fields

def newFrame (vars : Frame) : Run Tag :=
  modifyGet fun m => (m.frames.size, { m with frames := m.frames.push vars })

def assign (frame : Tag) (name : String) (v : Value) : Run Unit :=
  modify fun m => { m with frames := m.frames.modify frame (setField · name v) }

/-- The value of a name in the innermost frame that has it. -/
def lookup? (scope : Scope) (name : String) : Run (Option Value) := do
  let m ← get
  return scope.findSome? fun tag => m.frames[tag]?.bind (getField? · name)

end Run

end Comprehend.Script
