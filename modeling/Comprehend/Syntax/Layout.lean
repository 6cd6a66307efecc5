import Comprehend.Fault

/-! Output as a list of pieces: texts, checkpoints where the length so far is held against the
limit, and refusals. Settling a list writes its texts until a checkpoint is past the limit or a
refusal is reached, so which of the two is reported is a matter of order alone. -/

namespace Comprehend

inductive Piece
  | text (s : String)
  | checkpoint
  | refuse (fault : Fault)
  deriving DecidableEq, Repr

namespace Layout

/-- Writes on from a text of `size` characters. -/
def settleFrom (limit : Int) :
    (written : String) → (size : Nat) → List Piece → Except Fault String
  | written, _, [] => .ok written
  | written, size, .text s :: ps => settleFrom limit (written ++ s) (size + s.length) ps
  | written, size, .checkpoint :: ps =>
    if limit < size then .error (.outputTooLong limit) else settleFrom limit written size ps
  | _, _, .refuse fault :: _ => .error fault

def settle (limit : Int) (ps : List Piece) : Except Fault String := settleFrom limit "" 0 ps

def parenthesized (ps : List Piece) : List Piece := .text "(" :: ps ++ [.text ")"]

/-- All texts of a list, in a row. -/
def plain : List Piece → String
  | [] => ""
  | .text s :: ps => s ++ plain ps
  | _ :: ps => plain ps

theorem settleFrom_ok {limit : Int} {written out : String} {size : Nat} {ps : List Piece}
    (h : settleFrom limit written size ps = .ok out) : out = written ++ plain ps := by
  induction ps generalizing written size with
  | nil => simp_all [settleFrom, plain]
  | cons p ps ih =>
    cases p with
    | text s => simpa [plain, String.append_assoc] using ih h
    | checkpoint =>
      simp only [settleFrom] at h
      split at h
      · simp at h
      · simpa [plain] using ih h
    | refuse fault => simp [settleFrom] at h

theorem settle_ok {limit : Int} {out : String} {ps : List Piece} (h : settle limit ps = .ok out) :
    out = plain ps := by
  simpa using settleFrom_ok h

end Layout

end Comprehend
