import Comprehend.Refusal

/-! Escapes inside string and template literals. A backslash and what follows it stand for one
character, or for nothing at a line end; a backslash that ends the text stands for itself. A
substitution is live when an even number of backslashes precedes it. -/

namespace Comprehend.Text

def isHexDigit (c : Char) : Bool :=
  c.isDigit || ('a' ≤ c && c ≤ 'f') || ('A' ≤ c && c ≤ 'F')

def hexValue (c : Char) : Nat :=
  if c.isDigit then c.toNat - 48 else if 'a' ≤ c then c.toNat - 87 else c.toNat - 55

def hexNumber (cs : List Char) : Nat := cs.foldl (fun n c => 16 * n + hexValue c) 0

/-- The character with a code point. A surrogate is half a character and reads as the replacement
character; above the last code point there is none. -/
def charAt (n : Nat) : Except Refusal Char :=
  if 0xD800 ≤ n && n ≤ 0xDFFF then .ok '\uFFFD'
  else if n < 0x110000 then .ok (Char.ofNat n)
  else if n < 0x80000000 then .error .outOfDomain
  else .error .tooLarge

def simpleEscape (c : Char) : List Char :=
  match c with
  | 'n' => ['\n']
  | 't' => ['\t']
  | 'r' => ['\r']
  | 'b' => ['\x08']
  | 'f' => ['\x0c']
  | 'v' => ['\x0b']
  | '0' => ['\x00']
  | '\n' => []
  | '\r' => []
  | '\u2028' => []
  | '\u2029' => []
  | c => [c]

/-- What the text after a backslash stands for, and how many of its characters belong to it. -/
def escapeAt : List Char → Option (Nat × Except Refusal (List Char))
  | [] => none
  | '\r' :: '\n' :: _ => some (2, .ok [])
  | 'x' :: a :: b :: _ =>
    if isHexDigit a && isHexDigit b then some (3, (charAt (hexNumber [a, b])).map ([·]))
    else some (1, .ok ['x'])
  | 'u' :: '{' :: cs =>
    let ds := cs.takeWhile isHexDigit
    match ds, cs.drop ds.length with
    | _ :: _, '}' :: _ => some (ds.length + 3, (charAt (hexNumber ds)).map ([·]))
    | _, _ => some (1, .ok ['u'])
  | 'u' :: a :: b :: c :: d :: _ =>
    if [a, b, c, d].all isHexDigit then some (5, (charAt (hexNumber [a, b, c, d])).map ([·]))
    else some (1, .ok ['u'])
  | c :: _ => some (1, .ok (simpleEscape c))

/-- Decodes a text whose first `skip` characters were read with an escape before them. -/
def decodeFrom : (skip : Nat) → List Char → Except Refusal (List Char)
  | _, [] => .ok []
  | skip + 1, _ :: cs => decodeFrom skip cs
  | 0, c :: cs =>
    if c = '\\' then
      match escapeAt cs with
      | none => do return c :: (← decodeFrom 0 cs)
      | some (n, r) => do
        let head ← r
        return head ++ (← decodeFrom n cs)
    else do return c :: (← decodeFrom 0 cs)

def decodeEscapes (s : String) : Except Refusal String :=
  (decodeFrom 0 s.toList).map String.ofList

theorem decodeFrom_of_plain {cs : List Char} (h : '\\' ∉ cs) : decodeFrom 0 cs = .ok cs := by
  induction cs with
  | nil => rfl
  | cons c cs ih =>
    simp only [List.mem_cons, not_or] at h
    simp [decodeFrom, Ne.symm h.1, ih h.2, bind, Except.bind, pure, Except.pure]

/-- A literal without its first and last character. -/
def literalBody (s : String) : String := String.ofList (s.toList.drop 1).dropLast

def decodeLiteral (s : String) : Except Refusal String := decodeEscapes (literalBody s)

/-- Whether a live substitution follows, `slashes` backslashes standing right before. -/
def substitutionFrom (slashes : Nat) : List Char → Bool
  | '$' :: '{' :: cs => slashes % 2 == 0 || substitutionFrom 0 cs
  | '\\' :: cs => substitutionFrom (slashes + 1) cs
  | _ :: cs => substitutionFrom 0 cs
  | [] => false

def hasSubstitution (s : String) : Bool := substitutionFrom 0 s.toList

end Comprehend.Text
