import TypedModels.Text.Hidden

/-!
# Quoted text for messages

A name in a message stands between double quotes. Quotes and backslashes are escaped, and so is
every character that cannot be seen.

## Main definitions

* `Text.quoted` : a text between quotes.
* `Text.quotedList` : texts between quotes, in brackets.
-/

namespace TypedModels.Text

/-- The hexadecimal digits of a number. -/
def hex (n : Nat) : List Char := Nat.toDigits 16 n

def escape (c : Char) : List Char :=
  if c = '"' then ['\\', '"']
  else if c = '\\' then ['\\', '\\']
  else if c = '\n' then ['\\', 'n']
  else if c = '\r' then ['\\', 'r']
  else if c = '\t' then ['\\', 't']
  else if c = '\x00' then ['\\', '0']
  else if isHidden c then ['\\', 'u', '{'] ++ hex c.toNat ++ ['}']
  else [c]

/-- A text between quotes. -/
def quoted (s : String) : String := String.ofList ('"' :: (s.toList.flatMap escape ++ ['"']))

/-- Texts between quotes, in brackets and with commas between them. -/
def quotedList (texts : List String) : String :=
  "[" ++ String.intercalate ", " (texts.map quoted) ++ "]"

end TypedModels.Text
