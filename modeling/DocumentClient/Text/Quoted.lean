import DocumentClient.Bytes
import DocumentClient.Text.Unprintable

/-!
# Quoted text

Text between double quotes, as messages show it: a quote and a backslash are preceded by a
backslash, the usual control characters have their short forms, and a character without a
glyph of its own is shown by its code point.
-/

namespace DocumentClient.Text

/-- Lower case hexadecimal digits, most significant first. -/
def hexDigits (n : Nat) : List Char :=
  if n < 16 then [Bytes.hexDigit n] else hexDigits (n / 16) ++ [Bytes.hexDigit (n % 16)]

/-- One character of quoted text. -/
def quotedChar (c : Char) : List Char :=
  if c = '"' then ['\\', '"']
  else if c = '\\' then ['\\', '\\']
  else if c = '\t' then ['\\', 't']
  else if c = '\r' then ['\\', 'r']
  else if c = '\n' then ['\\', 'n']
  else if c.toNat = 0 then ['\\', '0']
  else if unprintable c then ['\\', 'u', '{'] ++ hexDigits c.toNat ++ ['}']
  else [c]

/-- A text between double quotes. -/
def quoted (s : String) : String :=
  String.ofList ('"' :: (s.toList.flatMap quotedChar ++ ['"']))

/-- Texts between brackets, separated by commas. -/
def quotedList (xs : List String) : String :=
  "[" ++ ", ".intercalate (xs.map quoted) ++ "]"

end DocumentClient.Text
