import TemporalMonitor.Text.GraphemeExtender
import TemporalMonitor.Text.Unprintable

/-!
# Quoted text

A text between double quotes in which every character can be seen: the quote, the backslash and the
common control characters have a backslash form of their own, and a character that has no printed
form, or that would join its neighbour, is written by its code point.
-/

namespace TemporalMonitor.Text

/-- The code point of a character between `\u{` and `}`, in lower-case hexadecimal digits without
leading zeros. -/
def codePoint (c : Char) : String :=
  "\\u\x7b" ++ String.ofList (Nat.toDigits 16 c.toNat) ++ "\x7d"

/-- One character inside double quotes. -/
def escape (c : Char) : String :=
  if c = '\x00' then "\\0"
  else if c = '\t' then "\\t"
  else if c = '\r' then "\\r"
  else if c = '\n' then "\\n"
  else if c = '\\' then "\\\\"
  else if c = '"' then "\\\""
  else if graphemeExtenders.covers c || unprintable.covers c then codePoint c
  else String.singleton c

/-- A text in double quotes. -/
def quote (s : String) : String :=
  "\"" ++ String.join (s.toList.map escape) ++ "\""

end TemporalMonitor.Text
