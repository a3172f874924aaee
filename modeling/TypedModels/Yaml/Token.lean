import TypedModels.Yaml.Character
import TypedModels.Yaml.Escape

/-!
# Tokens of a YAML text

A text is a sequence of marks and scalars. The marks of block style are not all written: where a
block collection starts and ends follows from the columns, and a key is known as such only by the
colon behind it.

The marks that carry a name are read here, each from the text behind its first character. They come
with the number of characters that belong to them.

## Main definitions

* `Yaml.Token` : marks and scalars.
* `Yaml.anchorName?`, `Yaml.tag?`, `Yaml.directive?` : marks with a name.
-/

namespace TypedModels.Yaml

inductive Token where
  /-- A version directive, which has no other effect than that there may be only one. -/
  | version
  /-- A directive by which a handle stands for the start of a tag. -/
  | tagDirective (handle : String) (start : Octets)
  /-- The marker `---`. -/
  | documentStart
  /-- The marker `...`. -/
  | documentEnd
  | blockSequence
  | blockMapping
  /-- The end of a collection in block style. -/
  | blockEnd
  | openSequence
  | closeSequence
  | openMapping
  | closeMapping
  | comma
  /-- The mark of an item in block style. -/
  | dash
  /-- The mark of a key, written or not. -/
  | key
  /-- The mark of a value. -/
  | value
  | anchor (name : String)
  | alias (name : String)
  | tag (handle : String) (suffix : Octets)
  | scalar (text : String) (plain : Bool)
  | textEnd
deriving DecidableEq, Repr

/-! ## Anchors and tags -/

/-- The name of an anchor or alias behind its first character. -/
def anchorName? (rest : List Char) : Option (String × Nat) :=
  let name := rest.takeWhile isWord
  let after := rest.drop name.length
  if name ≠ [] && (endsWord after || after.head?.any ("?:,]\x7d%@\x60".toList.contains ·)) then
    some (String.ofList name, name.length)
  else none

/-- The handle and suffix of a tag that is written without angle brackets. -/
def splitTag? (written : List Char) : Option (String × List Char) :=
  let name := written.takeWhile isWord
  match written.drop name.length with
  | '!' :: suffix =>
    if suffix = [] then none else some (String.ofList ('!' :: (name ++ ['!'])), suffix)
  | _ => some ("!", written)

/-- The tag behind an exclamation mark: in angle brackets, or with a handle, or with a suffix only.
A tag in angle brackets has the empty handle, and so has the lone mark, which is its own suffix. -/
def tag? (flow : Bool) (rest : List Char) : Option (Token × Nat) := do
  let (handle, suffix, length) ←
    match rest with
    | '<' :: more =>
      let written := more.takeWhile isBracketedUri
      if written ≠ [] && more[written.length]? = some '>' then
        some ("", written, written.length + 2)
      else none
    | _ =>
      let written := rest.takeWhile isUri
      (splitTag? written).map fun (handle, suffix) => (handle, suffix, written.length)
  let after := rest.drop length
  let suffix ← tagOctets? suffix
  if endsWord after || (flow && after.head? = some ',') then
    some (if handle = "!" && suffix = [] then .tag "" [exclamation] else .tag handle suffix, length)
  else none

/-! ## Directives -/

/-- The longest number in a version. -/
def maxVersionLength : Nat := 9

/-- A number of a version at the start of a line, and the line after it. -/
def versionNumber? (line : List Char) : Option (Nat × List Char) :=
  let digits := line.takeWhile Char.isDigit
  if digits ≠ [] && digits.length ≤ maxVersionLength then
    (String.ofList digits).toNat?.map (·, line.drop digits.length)
  else none

/-- Whether a line holds a version that is known. -/
def isKnownVersion (line : List Char) : Bool :=
  match versionNumber? (line.dropWhile isBlank) with
  | some (1, '.' :: line) =>
    match versionNumber? line with
    | some (minor, line) => (minor = 1 || minor = 2) && endsLine line
    | none => false
  | _ => false

/-- The directive for a handle in a line. -/
def tagDirective? (line : List Char) : Option Token :=
  match line.dropWhile isBlank with
  | '!' :: line => do
    let name := line.takeWhile isWord
    let (handle, line) ←
      match line.drop name.length with
      | '!' :: line => some (String.ofList ('!' :: (name ++ ['!'])), line)
      | line => if name = [] then some ("!", line) else none
    let written := (line.dropWhile isBlank).takeWhile isBracketedUri
    let after := (line.dropWhile isBlank).drop written.length
    if line.head?.any isBlank && written ≠ [] && endsWord after && endsLine after then
      some (.tagDirective handle (← tagOctets? written))
    else none
  | _ => none

/-- The directive that a line holds behind its percent sign. -/
def directive? (line : List Char) : Option Token :=
  let name := line.takeWhile isWord
  let line := line.drop name.length
  if !endsWord line then none
  else if name = "YAML".toList then if isKnownVersion line then some .version else none
  else if name = "TAG".toList then tagDirective? line
  else none

end TypedModels.Yaml
