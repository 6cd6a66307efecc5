import Comprehend.Proofs.Syntax.RoundTrip

/-! # The limit of a printed tree

The length of what is written so far is held against the limit after every node, in the middle of a
text, with commas and brackets written in between, and last after the tree as a whole. What is too
long in the middle stays too long to the end, and the last check sees the whole text, so a tree is
printed under exactly the limits that its text fits. -/

namespace Comprehend

open Comprehend.Layout

namespace Layout

/-! ## Writing without a limit -/

/-- What pieces come to where no limit is held against them. -/
def write : List Piece → Except Fault String
  | [] => .ok ""
  | .text s :: ps => (write ps).map (s ++ ·)
  | .checkpoint :: ps => write ps
  | .refuse fault :: _ => .error fault

variable {limit : Int} {written s : String} {size precedence : Nat} {x : Node} {ps : List Piece}

theorem write_eq_ok : write ps = .ok s ↔ Clean ps ∧ s = plain ps := by
  induction ps generalizing s with
  | nil => simp [write, plain, eq_comm]
  | cons p ps ih =>
    cases p with
    | text u =>
      rw [write, plain, clean_text]
      cases hw : write ps with
      | ok t =>
        obtain ⟨hclean, rfl⟩ := ih.1 hw
        simp [Except.map, hclean, eq_comm]
      | error fault =>
        have hrefused : ¬ Clean ps := fun hclean => by
          rw [ih.2 ⟨hclean, rfl⟩] at hw
          cases hw
        simp [Except.map, hrefused]
    | checkpoint => simpa [write, plain] using ih
    | refuse fault =>
      have hrefused : ¬ Clean (.refuse fault :: ps) := fun h => h fault List.mem_cons_self
      simp [write, hrefused]

theorem clean_of_settleFrom (h : settleFrom limit written size ps = .ok s) : Clean ps := by
  induction ps generalizing written size with
  | nil => exact clean_nil
  | cons p ps ih =>
    cases p with
    | text u => exact clean_text.2 (ih h)
    | checkpoint =>
      rw [settleFrom] at h
      split at h
      · cases h
      · exact clean_checkpoint.2 (ih h)
    | refuse fault => cases h

theorem write_of_settle (h : settle limit ps = .ok s) : write ps = .ok s :=
  write_eq_ok.2 ⟨clean_of_settleFrom h, settle_ok h⟩

/-! ## Writing under a limit -/

/-- Pieces that end in a checkpoint are written where they fit, and nowhere else. -/
theorem settleFrom_checked (h : Clean ps) :
    settleFrom limit written size (ps ++ [.checkpoint]) =
      if (size + (plain ps).length : Nat) ≤ limit then .ok (written ++ plain ps)
      else .error (.outputTooLong limit) := by
  induction ps generalizing written size with
  | nil =>
    by_cases hl : (size : Int) ≤ limit
    · simp [settleFrom, plain, hl, Int.not_lt.2 hl]
    · simp [settleFrom, plain, hl, Int.not_le.1 hl]
  | cons p ps ih =>
    cases p with
    | text s =>
      rw [List.cons_append, settleFrom, ih (clean_text.1 h), plain, String.length_append,
        Nat.add_assoc, String.append_assoc]
    | checkpoint =>
      have hplain : plain (.checkpoint :: ps) = plain ps := rfl
      rw [List.cons_append, settleFrom, ih (clean_checkpoint.1 h), hplain]
      -- what is too long here stays too long to the end
      by_cases hl : limit < (size : Int)
      · rw [if_pos hl, if_neg (by omega)]
      · rw [if_neg hl]
    | refuse fault => exact absurd List.mem_cons_self (h fault)

theorem plain_eq_ofList_chars (ps : List Piece) : plain ps = String.ofList (chars ps) := by
  rw [chars, String.ofList_toList]

/-- A node is printed under the limits that its text fits, and under no other. -/
theorem settle_slot_of_write (h : write (slot precedence x ps) = .ok s) :
    settle limit (slot precedence x ps) =
      if s.length ≤ limit then .ok s else .error (.outputTooLong limit) := by
  obtain ⟨hclean, rfl⟩ := write_eq_ok.1 h
  rw [slot] at hclean ⊢
  generalize (if x.precedence < precedence then parenthesized ps else ps) = qs at hclean ⊢
  have hplain : plain (qs ++ [.checkpoint]) = plain qs := by
    simp [plain_eq_ofList_chars]
  rw [settle, settleFrom_checked (clean_append.1 hclean).1, Nat.zero_add, String.empty_append, hplain]

end Layout

/-! ## Trees -/

/-- Prints a tree without a limit. -/
def writeTree (x : Node) : Except Fault String := write (slot 0 x (pieces none x))

/-- A tree that is printed at all, which is so when it is printed under some limit, is printed under
the limits that its text fits, and is too long for every other limit. -/
theorem printTree_limit (x : Node) (s : String) :
    (writeTree x = .ok s ↔ ∃ limit : Int, printTree limit x = .ok s) ∧
    (writeTree x = .ok s → ∀ limit : Int,
      printTree limit x = if s.length ≤ limit then .ok s else .error (.outputTooLong limit)) := by
  have hexact (h : writeTree x = .ok s) (limit : Int) :
      printTree limit x = if s.length ≤ limit then .ok s else .error (.outputTooLong limit) :=
    settle_slot_of_write h
  refine ⟨⟨fun h => ⟨s.length, ?_⟩, fun ⟨_, h⟩ => write_of_settle h⟩, hexact⟩
  rw [hexact h, if_pos (Int.le_refl _)]

/-- A tree of 11 characters, the last of them behind the text of every node in it, and a bare word
without a character. -/
theorem printTree_limit_array :
    printTree 11 (.array [productInSum]) = .ok "[a * b + c]" ∧
      printTree 10 (.array [productInSum]) = .error (.outputTooLong 10) ∧
      printTree 0 (.token ⟨.name, ""⟩) = .ok "" ∧
      printTree (-1) (.token ⟨.name, ""⟩) = .error (.outputTooLong (-1)) := by
  have harray : writeTree (.array [productInSum]) = .ok "[a * b + c]" := by
    decide +kernel
  have hempty : writeTree (.token ⟨.name, ""⟩) = .ok "" := by
    decide +kernel
  have harrayLimits := (printTree_limit (.array [productInSum]) _).2 harray
  have hemptyLimits := (printTree_limit (.token ⟨.name, ""⟩) _).2 hempty
  exact ⟨harrayLimits 11, harrayLimits 10, hemptyLimits 0, hemptyLimits (-1)⟩

end Comprehend
