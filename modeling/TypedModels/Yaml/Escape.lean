import TypedModels.Text.Hexadecimal

/-!
# Escapes

In a scalar between double quotes a backslash starts an escape: a letter that stands for a
character, or a letter with the hexadecimal digits of a character's code. In a tag a percent sign
starts an escape: two hexadecimal digits for one octet of the UTF-8 form.

## Main definitions

* `Yaml.escaped?` : the character that an escape denotes.
* `Yaml.Octets`, `Yaml.tagOctets?` : the octets that a tag denotes.
-/

namespace TypedModels.Yaml

/-! ## Scalars -/

/-- The character that a one-letter escape denotes. -/
def unescape? (c : Char) : Option Char :=
  [('0', '\x00'), ('a', '\x07'), ('b', '\x08'), ('t', '\t'), ('\t', '\t'), ('n', '\n'),
    ('v', '\x0b'), ('f', '\x0c'), ('r', '\r'), ('e', '\x1b'), (' ', ' '), ('"', '"'), ('/', '/'),
    ('\\', '\\'), ('N', '\u0085'), ('_', '\u00a0'), ('L', '\u2028'), ('P', '\u2029')].lookup c

/-- How many hexadecimal digits follow an escape letter. -/
def hexLength? (c : Char) : Option Nat :=
  [('x', 2), ('u', 4), ('U', 8)].lookup c

/-- The character whose code has the given hexadecimal digits. -/
def charOfHex? (digits : List Char) : Option Char := do
  let code ← Text.ofHex? digits
  if code.isValidChar then some (Char.ofNat code) else none

/-- The character that an escape letter denotes before the given text, and how much of that text
belongs to the escape. -/
def escaped? (letter : Char) (rest : List Char) : Option (Char × Nat) :=
  match hexLength? letter with
  | some n =>
    if (rest.take n).length = n then (charOfHex? (rest.take n)).map (·, n) else none
  | none => (unescape? letter).map (·, 0)

/-- An escape does not reach beyond the text. -/
theorem le_length_of_escaped? {letter c : Char} {rest : List Char} {n : Nat}
    (h : escaped? letter rest = some (c, n)) : n ≤ rest.length := by
  unfold escaped? at h
  split at h
  · split at h
    · simp only [Option.map_eq_some_iff, Prod.mk.injEq] at h
      obtain ⟨_, _, _, rfl⟩ := h
      simp only [List.length_take] at *
      omega
    · cases h
  · simp only [Option.map_eq_some_iff, Prod.mk.injEq] at h
    obtain ⟨_, _, _, rfl⟩ := h
    exact Nat.zero_le _

/-! ## Tags -/

/-- Octets, which need not be a text in UTF-8. -/
abbrev Octets := List UInt8

/-- The octets of a text in UTF-8. -/
def Octets.ofString (s : String) : Octets := s.toUTF8.toList

/-- The octet of an exclamation mark. -/
def exclamation : UInt8 := 0x21

/-- Whether octets are a text in UTF-8. -/
def Octets.isText (os : Octets) : Bool := (String.fromUTF8? ⟨os.toArray⟩).isSome

/-- How many octets follow a first one with the given value; `none` if no character starts so. -/
def followers? (first : UInt8) : Option Nat :=
  if first < 0x80 then some 0
  else if first < 0xc0 then none
  else if first < 0xe0 then some 1
  else if first < 0xf0 then some 2
  else if first < 0xf8 then some 3
  else none

/-- Whether octets can be grouped into characters by the lengths that their first octets state, when
the first group lacks a number of octets. -/
def areGrouped (lacking : Nat) : Octets → Bool
  | [] => lacking = 0
  | o :: os =>
    match lacking with
    | 0 =>
      match followers? o with
      | some n => areGrouped n os
      | none => false
    | n + 1 => 0x80 ≤ o && o < 0xc0 && areGrouped n os

/-- The octets of a text in which percent signs start escapes; `read` holds those before it, last
first. -/
def percentOctets? (read : Octets) : List Char → Option Octets
  | [] => some read.reverse
  | '%' :: a :: b :: rest =>
    match Text.ofHex? [a, b] with
    | some n => percentOctets? (n.toUInt8 :: read) rest
    | none => none
  | c :: rest => if c = '%' then none else percentOctets? (c.toNat.toUInt8 :: read) rest

/-- The octets that ASCII characters with percent escapes denote. A zero ends them. -/
def tagOctets? (cs : List Char) : Option Octets := do
  let os ← percentOctets? [] cs
  if areGrouped 0 os then some (os.takeWhile (· ≠ 0)) else none

end TypedModels.Yaml
