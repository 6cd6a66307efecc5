import Comprehend.Fault

/-! Notices about what a lenient reading passes over, and results that come with them. Notices are
kept in order, and one that ends in a fault keeps those made before. -/

namespace Comprehend

open Text

inductive Notice
  | droppedClause (fault : Fault)
  | ignoredText (segment rest : String)
  | unusable (place raw : String)
  | malformed (place : String) (fault : Fault)
  | skipped (place : String) (fault : Fault)
  deriving DecidableEq, Repr

def Notice.text : Notice → String
  | .droppedClause fault => "dropping malformed clause: " ++ fault.detail
  | .ignoredText segment rest =>
    "ignoring text after clause " ++ quoted segment ++ ": " ++ quoted rest
  | .unusable place raw =>
    "leaving " ++ place ++ " untransformed: no usable clauses in " ++ quoted raw
  | .malformed place fault => "leaving " ++ place ++ " untransformed: " ++ fault.detail
  | .skipped place fault => "skipping " ++ place ++ " after error: " ++ fault.detail

/-- A result and the notices made on the way to it. -/
structure Noted (α : Type) where
  notices : List Notice
  result : Except Fault α

namespace Noted

def of (result : Except Fault α) : Noted α := ⟨[], result⟩

def note (n : Notice) : Noted Unit := ⟨[n], .ok ()⟩

protected def pure (x : α) : Noted α := of (.ok x)

protected def bind (a : Noted α) (f : α → Noted β) : Noted β :=
  match a.result with
  | .ok x => ⟨a.notices ++ (f x).notices, (f x).result⟩
  | .error fault => ⟨a.notices, .error fault⟩

instance : Monad Noted where
  pure := Noted.pure
  bind := Noted.bind

instance : MonadLift (Except Fault) Noted where
  monadLift := of

theorem pure_bind (x : α) (f : α → Noted β) : (Noted.pure x).bind f = f x := by
  simp [Noted.bind, Noted.pure, of]

theorem bind_assoc (a : Noted α) (f : α → Noted β) (g : β → Noted γ) :
    (a.bind f).bind g = a.bind fun x => (f x).bind g := by
  rcases a with ⟨ns, _ | x⟩
  · rfl
  · rcases h : f x with ⟨ms, _ | y⟩ <;> simp [Noted.bind, h, List.append_assoc]

end Noted

end Comprehend
