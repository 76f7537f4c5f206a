/-!
# JSON values

Values and how they are written on several lines: each element of an array and each field of an
object has a line of its own, indented by two blanks per level. An empty array and an empty object
are written without a line break. The fields of an object are in order, and keys may repeat.
-/

namespace TemporalMonitor.Json

/-- A JSON value. -/
inductive Value where
  | null
  | bool (b : Bool)
  /-- A number, by its text. -/
  | number (text : String)
  | string (s : String)
  | array (elements : List Value)
  | object (fields : List (String × Value))

/-- The two hexadecimal digits of a small number. -/
def twoHexDigits (n : Nat) : List Char := [Nat.digitChar (n / 16), Nat.digitChar (n % 16)]

/-- A character inside a string. -/
def escapeChar (c : Char) : List Char :=
  match c with
  | '"' => ['\\', '"']
  | '\\' => ['\\', '\\']
  | '\x08' => ['\\', 'b']
  | '\x0c' => ['\\', 'f']
  | '\n' => ['\\', 'n']
  | '\r' => ['\\', 'r']
  | '\t' => ['\\', 't']
  | c => if c.toNat < 0x20 then ['\\', 'u', '0', '0'] ++ twoHexDigits c.toNat else [c]

/-- A string in quotes. -/
def quoted (s : String) : String :=
  String.ofList ('"' :: s.toList.flatMap escapeChar ++ ['"'])

/-- A line break and the blanks in front of a line. -/
def newline (indent : Nat) : String := "\n" ++ "".pushn ' ' (2 * indent)

namespace Value

mutual

/-- The text of a value whose first line is indented by `indent` levels. -/
def pretty (indent : Nat) : Value → String
  | null => "null"
  | bool b => if b then "true" else "false"
  | number text => text
  | string s => quoted s
  | array [] => "[]"
  | array (v :: vs) =>
    "[" ++ newline (indent + 1) ++ v.pretty (indent + 1) ++ prettyElements (indent + 1) vs ++
      newline indent ++ "]"
  | object [] => "\x7b\x7d"
  | object ((k, v) :: fields) =>
    "\x7b" ++ newline (indent + 1) ++ quoted k ++ ": " ++ v.pretty (indent + 1) ++
      prettyFields (indent + 1) fields ++ newline indent ++ "\x7d"

/-- The elements behind the first one. -/
def prettyElements (indent : Nat) : List Value → String
  | [] => ""
  | v :: vs => "," ++ newline indent ++ v.pretty indent ++ prettyElements indent vs

/-- The fields behind the first one. -/
def prettyFields (indent : Nat) : List (String × Value) → String
  | [] => ""
  | (k, v) :: fields =>
    "," ++ newline indent ++ quoted k ++ ": " ++ v.pretty indent ++ prettyFields indent fields

end

/-- The text of a value. -/
def render (v : Value) : String := v.pretty 0

/-- A natural number. -/
def ofNat (n : Nat) : Value := .number n.repr

end Value

end TemporalMonitor.Json
