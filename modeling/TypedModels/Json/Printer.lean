import TypedModels.Json.Shortest
import TypedModels.Json.Value
import TypedModels.Text.Hexadecimal

/-!
# Compact JSON text

Values are written without blanks. In strings only the quote, the backslash and the control
characters below U+0020 are escaped.

## Main definitions

* `JsonText.quote` : a string between quotes.
* `Value.text` : the compact text of a value.
* `Written` : what a producer hands to a writer piece by piece, with the sizes that it announces.
-/

namespace TypedModels

namespace JsonText

def escape (c : Char) : List Char :=
  if c = '"' then ['\\', '"']
  else if c = '\\' then ['\\', '\\']
  else if c = '\x08' then ['\\', 'b']
  else if c = '\x0c' then ['\\', 'f']
  else if c = '\n' then ['\\', 'n']
  else if c = '\r' then ['\\', 'r']
  else if c = '\t' then ['\\', 't']
  else if c.toNat < 0x20 then
    ['\\', 'u', '0', '0', Text.hexDigit (c.toNat / 16), Text.hexDigit (c.toNat % 16)]
  else [c]

/-- A string between quotes. -/
def quoteChars (s : String) : List Char := '"' :: (s.toList.flatMap escape ++ ['"'])

def quote (s : String) : String := String.ofList (quoteChars s)

/-- Texts with a comma between any two. -/
def separated : List (List Char) → List Char
  | [] => []
  | [t] => t
  | t :: u :: ts => t ++ ',' :: separated (u :: ts)

/-- The text of an array whose items have the given texts. -/
def arrayChars (items : List (List Char)) : List Char := '[' :: (separated items ++ [']'])

/-- The text of an object whose members have the given keys and texts. -/
def objectChars (members : List (String × List Char)) : List Char :=
  '{' :: (separated (members.map fun m => quoteChars m.1 ++ ':' :: m.2) ++ ['}'])

end JsonText

open JsonText

/-! ## Values -/

namespace Value

mutual

def chars : Value → List Char
  | .null => ['n', 'u', 'l', 'l']
  | .bool true => ['t', 'r', 'u', 'e']
  | .bool false => ['f', 'a', 'l', 's', 'e']
  | .num n => n.text.toList
  | .str s => quoteChars s
  | .arr items => arrayChars (charsItems items)
  | .obj members => objectChars (charsMembers members)

def charsItems : List Value → List (List Char)
  | [] => []
  | v :: vs => v.chars :: charsItems vs

def charsMembers : List (String × Value) → List (String × List Char)
  | [] => []
  | (k, v) :: ms => (k, v.chars) :: charsMembers ms

end

/-- The compact text of a value. -/
def text (v : Value) : String := String.ofList v.chars

end Value

/-! ## Pieces -/

/-- A value as a producer hands it over piece by piece: finished values, sequences and maps, each of
the latter with the number of entries that was announced for it. -/
inductive Written where
  | value (v : Value)
  | sequence (announced : Nat) (items : List Written)
  | map (announced : Nat) (entries : List (String × Written))
deriving Inhabited

namespace Written

mutual

def chars : Written → List Char
  | .value v => v.chars
  | .sequence _ items => arrayChars (charsItems items)
  | .map _ entries => objectChars (charsEntries entries)

def charsItems : List Written → List (List Char)
  | [] => []
  | w :: ws => w.chars :: charsItems ws

def charsEntries : List (String × Written) → List (String × List Char)
  | [] => []
  | (k, w) :: es => (k, w.chars) :: charsEntries es

end

/-- The compact text of the pieces, in the order in which they are handed over. -/
def text (w : Written) : String := String.ofList w.chars

mutual

/-- The value that the pieces make up. -/
def toValue : Written → Value
  | .value v => v
  | .sequence _ items => .arr (toValueItems items)
  | .map _ entries => Value.ofMembers (toValueEntries entries)

def toValueItems : List Written → List Value
  | [] => []
  | w :: ws => w.toValue :: toValueItems ws

def toValueEntries : List (String × Written) → List (String × Value)
  | [] => []
  | (k, w) :: es => (k, w.toValue) :: toValueEntries es

end

mutual

/-- Whether every announced size is the number of entries handed over. -/
def exact : Written → Bool
  | .value _ => true
  | .sequence n items => n == items.length && exactItems items
  | .map n entries => n == entries.length && exactEntries entries

def exactItems : List Written → Bool
  | [] => true
  | w :: ws => w.exact && exactItems ws

def exactEntries : List (String × Written) → Bool
  | [] => true
  | (_, w) :: es => w.exact && exactEntries es

end

end Written

end TypedModels
