import TypedModels.Text.Hexadecimal
import TypedModels.Yaml.Reader

/-!
# The data of YAML nodes

A plain scalar is a null, a boolean, a number or a text by its spelling; a scalar with quotes or in
a block is a text. The tags of these types have a scalar read as what they name; by any other tag it
is a text.

Integers of 64 bits are data, and so are finite numbers with a fraction or an exponent. An integer
that needs up to 128 bits cannot be read, and one that needs more is such a number if it is decimal,
and otherwise a text. Digits behind a leading zero are a text.

Aliases are followed, but not for ever: a reading of a graph ends when it has followed a hundred
times as many as there are events in the graph, and when too many collections are open.

## Main definitions

* `Yaml.Datum` : data.
* `Yaml.plainDatum?`, `Yaml.scalarDatum?` : the datum of a scalar.
* `Yaml.Graph.datum` : the datum of a node.
-/

namespace TypedModels.Yaml

inductive Datum where
  | null
  | bool (b : Bool)
  /-- A natural number of 64 bits. -/
  | index (n : Nat)
  /-- Any other number. -/
  | number
  | text (s : String)
  | list (items : List Datum)
  | table (entries : List (Datum × Datum))
deriving Repr, Inhabited

/-! ## Numbers -/

/-- The number that digits in a base below 17 denote, if there are any. -/
def natOfDigits? (base : Nat) (digits : List Char) : Option Nat :=
  if digits = [] then none
  else
    digits.foldlM (fun n c =>
      match Text.hexValue? c with
      | some d => if d < base then some (n * base + d) else none
      | none => none) 0

/-- Whether a text is a zero and further digits. -/
def hasLeadingZero (cs : List Char) : Bool :=
  1 < cs.length && cs.head? = some '0' && cs.all Char.isDigit

/-- The number that a text without a sign denotes, in decimal digits or behind a mark of the
base. -/
def natural? (cs : List Char) : Option Nat :=
  match cs with
  | '0' :: 'x' :: digits => natOfDigits? 16 digits
  | '0' :: 'o' :: digits => natOfDigits? 8 digits
  | '0' :: 'b' :: digits => natOfDigits? 2 digits
  | _ => if hasLeadingZero cs then none else natOfDigits? 10 cs

/-- Whether a text is negative, and the text without a sign. -/
def splitSign (cs : List Char) : Bool × List Char :=
  match cs with
  | '-' :: cs => (true, cs)
  | '+' :: cs => (false, cs)
  | cs => (false, cs)

/-- A decimal: the digits around its point, and its exponent. -/
structure Decimal where
  whole : List Char
  fraction : List Char
  exponent : Int
deriving Repr

namespace Decimal

/-- The exponent that the end of a decimal states, or zero at its end. -/
def exponent? (cs : List Char) : Option Int :=
  match cs with
  | [] => some 0
  | e :: cs =>
    if e = 'e' || e = 'E' then
      let (negative, digits) := splitSign cs
      (natOfDigits? 10 digits).map fun n => if negative then -(n : Int) else n
    else none

/-- The decimal that a text without a sign denotes, with a digit on one side of its point. -/
def ofChars? (cs : List Char) : Option Decimal :=
  let whole := cs.takeWhile Char.isDigit
  let after := cs.drop whole.length
  let (fraction, after) := match after with
    | '.' :: rest => (rest.takeWhile Char.isDigit, rest.dropWhile Char.isDigit)
    | _ => ([], after)
  if whole = [] && fraction = [] then none
  else (exponent? after).map fun exponent => { whole, fraction, exponent }

/-- The significant digits from the first that is not zero. -/
def significand (d : Decimal) : List Char := (d.whole ++ d.fraction).dropWhile (· = '0')

/-- The exponent of the first significant digit. -/
def magnitude (d : Decimal) : Int :=
  d.exponent + (d.significand.length : Int) - d.fraction.length - 1

/-- The exponent of the first digit of the largest finite number. -/
def maxMagnitude : Int := 308

/-- The least number that rounds beyond all finite numbers. -/
def overflow : Nat := (Nat.pow 2 54 - 1) * Nat.pow 2 970

/-- Whether a decimal rounds to a finite binary number of 64 bits. Only in the last magnitude the
digits have to be looked at. -/
def isFinite (d : Decimal) : Bool :=
  d.significand = [] || d.magnitude < maxMagnitude ||
    (d.magnitude = maxMagnitude &&
      match natOfDigits? 10 d.significand with
      | some n =>
        n * Nat.pow 10 maxMagnitude.toNat < overflow * Nat.pow 10 (d.significand.length - 1)
      | none => false)

end Decimal

/-- Whether a text denotes a number with a fraction or an exponent, or an infinity, or no number by
its name. -/
def isReal (cs : List Char) : Bool :=
  let unsigned := (splitSign cs).2
  [".inf", ".Inf", ".INF"].contains (String.ofList unsigned) ||
    [".nan", ".NaN", ".NAN"].contains (String.ofList cs) ||
    (Decimal.ofChars? unsigned).any (·.isFinite)

/-- The datum of an integer; `none` if it needs more than 64 bits. The integers with a minus sign
have a bit for it. -/
def integer? (negative : Bool) (n : Nat) : Option Datum :=
  if negative then if n ≤ Nat.pow 2 63 then some .number else none
  else if n < Nat.pow 2 64 then some (.index n) else none

/-- Whether an integer fits into 128 bits. -/
def fits128 (negative : Bool) (n : Nat) : Bool :=
  if negative then n ≤ Nat.pow 2 127 else n < Nat.pow 2 128

/-! ## Scalars -/

def isNull (text : String) : Bool := ["~", "null", "Null", "NULL"].contains text

def bool? (text : String) : Option Bool :=
  if ["true", "True", "TRUE"].contains text then some true
  else if ["false", "False", "FALSE"].contains text then some false
  else none

/-- The datum of an integer and a text that is none: the text itself, or what `other` makes of it.
An integer of 65 to 128 bits is not readable. -/
def integerDatum? (text : String) (other : Option Datum) : Option Datum :=
  let (negative, cs) := splitSign text.toList
  match natural? cs with
  | some n =>
    match integer? negative n with
    | some d => some d
    | none => if fits128 negative n then none else other
  | none => other

/-- The datum of a plain scalar; `none` if it is not readable. -/
def plainDatum? (text : String) : Option Datum :=
  if text = "" || isNull text then some .null
  else
    match bool? text with
    | some b => some (.bool b)
    | none =>
      integerDatum? text <|
        let cs := text.toList
        some (if !hasLeadingZero (splitSign cs).2 && isReal cs then .number else .text text)

/-- The types of scalars that a tag may name. -/
inductive ScalarType where
  | null
  | bool
  | int
  | float
deriving DecidableEq, Repr

/-- The type that a tag names. -/
def scalarType? (tag : Octets) : Option ScalarType :=
  if tag = Octets.ofString "tag:yaml.org,2002:null" then some .null
  else if tag = Octets.ofString "tag:yaml.org,2002:bool" then some .bool
  else if tag = Octets.ofString "tag:yaml.org,2002:int" then some .int
  else if tag = Octets.ofString "tag:yaml.org,2002:float" then some .float
  else none

/-- The datum of a scalar; `none` if it is not readable. A tag that starts with an exclamation mark
counts for nothing here. -/
def scalarDatum? (text : String) (plain : Bool) (tag : Option Octets) : Option Datum :=
  let untagged := if plain then plainDatum? text else some (.text text)
  match tag with
  | none => untagged
  | some tag =>
    match scalarType? tag with
    | some .null => if isNull text then some .null else none
    | some .bool => (bool? text).map .bool
    | some .int => integerDatum? text none
    | some .float => if isReal text.toList then some .number else none
    | none => if tag.head? = some exclamation then untagged else some (.text text)

/-! ## Nodes -/

/-- Whether a tag is a text that starts with an exclamation mark. Such tags are of one text only, so
that nothing is known about the data. -/
def isLocal (tag : Option Octets) : Bool :=
  tag.any fun os => os.head? = some exclamation && os.isText

/-- Readings of a graph: they may fail, and the number is that of the aliases that they may still
follow. -/
abbrev Visit := StateT Nat Option

namespace Graph

/-- How many aliases a reading may follow. -/
def maxFollowed (g : Graph) : Nat := 100 * g.weight

/-- The node that an alias stands for; another node stands for itself. -/
def follow (g : Graph) : Node → Visit Node
  | .alias number => fun left =>
    if left = 0 then none else (g.anchors.target? number).map (·, left - 1)
  | node => pure node

/-- The datum of a node, inside of which `room` collections may be open at once. -/
def datum (g : Graph) (room : Nat) (node : Node) : Visit Datum := do
  match ← g.follow node, room with
  | .scalar text plain tag, _ =>
    if isLocal tag then failure
    liftM (scalarDatum? text plain tag)
  | .sequence tag items, room + 1 =>
    if isLocal tag then failure
    return .list (← items.mapM (g.datum room))
  | .mapping tag entries, room + 1 =>
    if isLocal tag then failure
    return .table (← entries.mapM fun e => do return (← g.datum room e.1, ← g.datum room e.2))
  | _, _ => failure

end Graph

end TypedModels.Yaml
