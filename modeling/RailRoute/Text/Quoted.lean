import RailRoute.Text.Basic
import RailRoute.Text.Hidden

/-!
# Quoted strings

Two ways of writing a string between quotes. `escape` writes the inside of a JSON string: quotes,
backslashes and control characters are escaped and all else stands for itself. `literal` writes a
whole literal in which all characters that do not show are written by their code points.
-/

namespace RailRoute.Text

/-- The lower-case hexadecimal digit of a number below sixteen. -/
def hexDigit (d : Nat) : Char :=
  if d < 10 then Char.ofNat (48 + d) else Char.ofNat (87 + d)

/-- The last `count` hexadecimal digits of a number. -/
def hexDigits : Nat → Nat → List Char
  | 0, _ => []
  | count + 1, n => hexDigits count (n / 16) ++ [hexDigit (n % 16)]

/-- How a character is written inside a JSON string. -/
def escapeChar (c : Char) : List Char :=
  if c = '"' then ['\\', '"']
  else if c = '\\' then ['\\', '\\']
  else if c = '\n' then ['\\', 'n']
  else if c = '\r' then ['\\', 'r']
  else if c = '\t' then ['\\', 't']
  else if c.toNat < 0x20 then '\\' :: 'u' :: hexDigits 4 c.toNat
  else [c]

/-- The inside of the JSON string that stands for a text. -/
def escape (s : String) : String := String.ofList (s.toList.flatMap escapeChar)

/-- The hexadecimal digits of a number, without zeros before them. -/
def hexNumber (n : Nat) : List Char := Nat.toDigits 16 n

/-- How a character is written inside a literal. -/
def literalChar (c : Char) : List Char :=
  if c = '"' ∨ c = '\\' then ['\\', c]
  else if c = '\n' then ['\\', 'n']
  else if c = '\r' then ['\\', 'r']
  else if c = '\t' then ['\\', 't']
  else if c = '\x00' then ['\\', '0']
  else if isHidden c then "\\u\x7b".toList ++ hexNumber c.toNat ++ ['\x7d']
  else [c]

/-- The literal that stands for a text, quotes included. -/
def literal (s : String) : String :=
  String.ofList ('"' :: (s.toList.flatMap literalChar ++ ['"']))

end RailRoute.Text
