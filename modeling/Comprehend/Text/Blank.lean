/-! Blanks. Three classes meet here: the five blanks that the grammars skip, the wider class of
white space that trimming removes and regular expressions call `s`, and line ends. The grammar's
blanks are white space, so a text of them alone trims to nothing. -/

namespace Comprehend.Text

/-- A character of white space in any script. -/
def isSpace (c : Char) : Bool :=
  let n := c.toNat
  (0x9 ≤ n && n ≤ 0xD) || (0x1C ≤ n && n ≤ 0x20) || n == 0x85 || n == 0xA0 || n == 0x1680 ||
    (0x2000 ≤ n && n ≤ 0x200A) || n == 0x2028 || n == 0x2029 || n == 0x202F || n == 0x205F ||
    n == 0x3000

/-- A blank that the grammars skip between tokens. -/
def isBlank (c : Char) : Bool :=
  c == ' ' || c == '\t' || c == '\x0c' || c == '\r' || c == '\n'

theorem isSpace_of_isBlank {c : Char} (h : isBlank c = true) : isSpace c = true := by
  simp only [isBlank, Bool.or_eq_true, beq_iff_eq] at h
  rcases h with (((h | h) | h) | h) | h <;> subst h <;> decide

/-- The text from its first character that is not white space on. -/
def trimLeft (cs : List Char) : List Char := cs.dropWhile isSpace

/-- The text up to its last character that is not white space. -/
def trimRight (cs : List Char) : List Char := (cs.reverse.dropWhile isSpace).reverse

def trim (cs : List Char) : List Char := trimRight (trimLeft cs)

def skipBlanks (cs : List Char) : List Char := cs.dropWhile isBlank

theorem length_skipBlanks_le (cs : List Char) : (skipBlanks cs).length ≤ cs.length :=
  (List.dropWhile_sublist _).length_le

@[simp] theorem trim_nil : trim [] = [] := rfl

/-- Whether nothing but white space is there. -/
def isBlankText (s : String) : Bool := s.toList.all isSpace

end Comprehend.Text
