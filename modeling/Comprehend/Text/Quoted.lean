import Comprehend.Text.Printable

/-! Quoted text in messages. The quote is an apostrophe, or a double quote when the text holds an
apostrophe and no double quote. The backslash and the chosen quote are escaped, the three common
controls have letters, and any other character that does not print is written in hexadecimal, two,
four or eight digits wide. -/

namespace Comprehend.Text

/-- Lower-case digits in a base up to sixteen, at least `width` of them. -/
def digitsPadded (base width n : Nat) : List Char :=
  let ds := Nat.toDigits base n
  List.replicate (width - ds.length) '0' ++ ds

def quoteFor (cs : List Char) : Char :=
  if cs.contains '\'' && !cs.contains '"' then '"' else '\''

def quoteChar (quote c : Char) : List Char :=
  let n := c.toNat
  if c = quote || c = '\\' then ['\\', c]
  else if c = '\n' then ['\\', 'n']
  else if c = '\r' then ['\\', 'r']
  else if c = '\t' then ['\\', 't']
  else if isPrintable c then [c]
  else if n < 0x100 then '\\' :: 'x' :: digitsPadded 16 2 n
  else if n < 0x10000 then '\\' :: 'u' :: digitsPadded 16 4 n
  else '\\' :: 'U' :: digitsPadded 16 8 n

def quotedChars (cs : List Char) : List Char :=
  let q := quoteFor cs
  q :: cs.flatMap (quoteChar q) ++ [q]

def quoted (s : String) : String := String.ofList (quotedChars s.toList)

end Comprehend.Text
