import TypedModels.Yaml.Character

/-!
# Block scalars

A block scalar takes whole lines as they are, without the indentation that they share. Its header
says whether the lines are folded, how deep they are indented, and what becomes of the breaks at its
end. In a folded scalar a lone line feed between two lines that start with a visible character is a
blank.

## Main definitions

* `Yaml.Block` : a block scalar as far as it has been read.
* `Yaml.Block.ofHeader?` : the scalar of a header.
* `Yaml.Block.startLine`, `Yaml.Block.text` : a further line, and the text at the end.
-/

namespace TypedModels.Yaml

/-- What becomes of the breaks at the end of a block scalar. -/
inductive Chomp where
  | strip
  /-- One break is kept. -/
  | clip
  | keep
deriving DecidableEq, Repr

/-- Where in a block scalar the reading is. -/
inductive BlockPlace where
  | header
  /-- Before the first character of a line behind its indentation. -/
  | margin
  | line
deriving DecidableEq, Repr

structure Block where
  folded : Bool
  chomp : Chomp := .clip
  /-- The column of the lines, once it is known. -/
  indent : Option Nat := none
  place : BlockPlace := .header
  /-- The text up to the last line, last character first. -/
  read : List Char := []
  /-- The break behind the last line. -/
  lineEnd : Option Char := none
  /-- The breaks of the empty lines after it, last first. -/
  emptyLines : List Char := []
  /-- Whether the last line starts with a blank. -/
  indented : Bool := false
  /-- The widest indentation of an empty line before the first line. -/
  widest : Nat := 0
deriving Repr

namespace Block

/-- What becomes of the breaks by a mark in the header. -/
def chomp? (c : Char) : Option Chomp := [('-', Chomp.strip), ('+', Chomp.keep)].lookup c

/-- The depth of indentation that a digit in the header states. -/
def depth? (c : Char) : Option Nat := if c.isDigit then some (c.toNat - 48) else none

/-- The marks of a header, in either order, and what is left of its line. -/
def headerMarks (line : List Char) : Chomp × Option Nat × List Char :=
  match line with
  | [] => (.clip, none, [])
  | c :: line =>
    match chomp? c, depth? c with
    | some chomp, _ =>
      match line.head?.bind depth? with
      | some depth => (chomp, some depth, line.tail)
      | none => (chomp, none, line)
    | none, some depth =>
      match line.head?.bind chomp? with
      | some chomp => (chomp, some depth, line.tail)
      | none => (.clip, some depth, line)
    | none, none => (.clip, none, c :: line)

/-- The scalar whose header holds the given line behind its first character, inside of a collection
that stands in column `base`. -/
def ofHeader? (folded : Bool) (base : Nat) (line : List Char) : Option Block :=
  let (chomp, depth, line) := headerMarks line
  if depth = some 0 || !endsLine line then none
  else some { folded, chomp, indent := depth.map (base + ·) }

/-- Whether a column belongs to the indentation of the lines. -/
def isIndentation (column : Nat) (b : Block) : Bool :=
  match b.indent with
  | some indent => column < indent
  | none => true

/-- The column of the lines, which the first of them determines; `least` is the least possible. -/
def lineColumn (least : Nat) (b : Block) : Nat := b.indent.getD (max b.widest (max least 1))

/-- The scalar with the first character of a further line. -/
def startLine (column : Nat) (c : Char) (b : Block) : Block :=
  let joined :=
    if b.folded && b.lineEnd = some '\n' && !b.indented && !isBlank c then
      if b.emptyLines = [] then ' ' :: b.read else b.emptyLines ++ b.read
    else b.emptyLines ++ (b.lineEnd.toList ++ b.read)
  { b with
    indent := some column
    place := .line
    read := c :: joined
    lineEnd := none
    emptyLines := []
    indented := isBlank c }

/-- The text of a scalar that ends here. -/
def text (b : Block) : String :=
  let read := match b.chomp with
    | .strip => b.read
    | .clip => b.lineEnd.toList ++ b.read
    | .keep => b.emptyLines ++ (b.lineEnd.toList ++ b.read)
  String.ofList read.reverse

end Block

end TypedModels.Yaml
