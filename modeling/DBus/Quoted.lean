import DBus.Unprintable

/-!
# Quoted text

Messages show a text in double quotes and a single character in single quotes. A backslash
marks what would be misread: the enclosing quote, the backslash itself, line feed, carriage
return, tab and nul by a letter, and every character that does not show by its code point in
lower-case hexadecimal, as in `\u{200b}`.
-/

namespace DBus

/-- Digits of `n` in base 16, lower case, without leading zeros. -/
def hexDigits (n : Nat) : List Char := Nat.toDigits 16 n

/-- How `c` is written between two `mark`s. -/
def escapeChar (mark c : Char) : List Char :=
  if c = '\x00' then ['\\', '0']
  else if c = '\t' then ['\\', 't']
  else if c = '\n' then ['\\', 'n']
  else if c = '\r' then ['\\', 'r']
  else if c = '\\' || c = mark then ['\\', c]
  else if Charset.isVisible c then [c]
  else ['\\', 'u', '\x7b'] ++ hexDigits c.toNat ++ ['\x7d']

/-- A text in double quotes. -/
def quote (s : String) : String :=
  String.ofList ('\x22' :: s.toList.flatMap (escapeChar '\x22') ++ ['\x22'])

/-- A character in single quotes. -/
def quoteChar (c : Char) : String :=
  String.ofList ('\x27' :: escapeChar '\x27' c ++ ['\x27'])

end DBus
