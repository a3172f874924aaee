import TypedModels.Yaml.Token

/-!
# The layout of a YAML text

The structure of block style lies in the columns. While a text is read, its layout holds the columns
of the open block collections, and for the present flow collection, or for the block style outside
of all of them, the last place where a key may have started. Whether it is one turns out at the next
colon: then the mark of the key, and of the mapping if this is its first, are put before tokens that
have been found already.

## Main definitions

* `Yaml.Candidate` : a place where a key may start.
* `Yaml.Layout` : the layout up to a place of a text, with the tokens found.
* `Layout.propose`, `Layout.settleKey`, `Layout.openBlock`, `Layout.closeBlocks` : its changes.
-/

namespace TypedModels.Yaml

/-- A place where a key may start. -/
structure Candidate where
  /-- How many tokens come before the key. -/
  index : Nat
  line : Nat
  column : Nat
  /-- How many octets of the line come before the key. -/
  octet : Nat
  /-- Whether nothing but a key may start here. -/
  required : Bool
deriving DecidableEq, Repr

structure Layout where
  line : Nat := 0
  column : Nat := 0
  /-- How many octets of the line come before this place. -/
  octet : Nat := 0
  /-- The columns of the open block collections, innermost first. -/
  indents : List Nat := []
  candidate : Option Candidate := none
  /-- The candidates around the open flow collections, innermost first. -/
  outer : List (Option Candidate) := []
  /-- Whether a key may start at the next token. -/
  keyAllowed : Bool := true
  /-- The tokens found, last first. -/
  found : List Token := []
  /-- How many tokens have been found. -/
  count : Nat := 0
deriving Repr

namespace Layout

/-- The layout behind a character. -/
def past (c : Char) (l : Layout) : Layout :=
  if isBreak c then { l with line := l.line + 1, column := 0, octet := 0 }
  else { l with column := l.column + 1, octet := l.octet + c.utf8Size }

/-- Whether a flow collection is open. -/
def inFlow (l : Layout) : Bool := !l.outer.isEmpty

/-- The least column of what belongs to the innermost block collection. -/
def margin (l : Layout) : Nat :=
  match l.indents with
  | [] => 0
  | indent :: _ => indent + 1

/-! ## Tokens -/

def emit (t : Token) (l : Layout) : Layout :=
  { l with found := t :: l.found, count := l.count + 1 }

/-- Puts a token before those from an index on. -/
def insertAt (index : Nat) (t : Token) (l : Layout) : Layout :=
  let later := l.count - index
  { l with
    found := l.found.take later ++ t :: l.found.drop later
    count := l.count + 1 }

/-! ## Keys -/

/-- How many octets of UTF-8 may stand between the start of a key and its colon. -/
def maxKeyLength : Nat := 1024

/-- Whether a candidate can be the key of a colon that stands here. -/
def reaches (k : Candidate) (l : Layout) : Bool :=
  k.line = l.line && l.octet ≤ k.octet + maxKeyLength

/-- Gives up the candidate; `none` if it had to be a key. -/
def dropCandidate (l : Layout) : Option Layout :=
  if l.candidate.any (·.required) then none else some { l with candidate := none }

/-- Takes the next token for a candidate if a key may start there. In block style it has to be a key
where the keys of the innermost collection stand. -/
def propose (l : Layout) : Option Layout :=
  if l.keyAllowed then
    l.dropCandidate.map fun l =>
      { l with
        candidate := some
          { index := l.count
            line := l.line
            column := l.column
            octet := l.octet
            required := !l.inFlow && l.indents.head? = some l.column } }
  else some l

/-! ## Blocks -/

/-- Opens a block collection in a column, before the tokens from an index on, unless one is open
there or a flow collection is open. -/
def openBlock (column index : Nat) (t : Token) (l : Layout) : Layout :=
  if l.inFlow || l.indents.head?.any (column ≤ ·) then l
  else { l.insertAt index t with indents := column :: l.indents }

/-- Opens a block collection at the present place, where a key must be allowed. -/
def openBlockHere (t : Token) (l : Layout) : Option Layout :=
  if l.inFlow then some l
  else if l.keyAllowed then some (l.openBlock l.column l.count t)
  else none

/-- Ends the innermost block collections up to the first whose column may stay. -/
def closeBlocks (stays : Nat → Bool) (l : Layout) : Layout :=
  if l.inFlow then l
  else
    let ended := (l.indents.takeWhile fun column => !stays column).length
    { l with
      indents := l.indents.drop ended
      found := List.replicate ended .blockEnd ++ l.found
      count := l.count + ended }

/-- Ends all block collections before a mark that stands outside of them. -/
def closeAll (l : Layout) : Option Layout :=
  (l.closeBlocks fun _ => false).dropCandidate.map fun l => { l with keyAllowed := false }

/-- Settles at a colon what its key is: the candidate if the colon is within its reach, and
otherwise a key that is marked or absent. -/
def settleKey (l : Layout) : Option Layout :=
  match l.candidate with
  | some k =>
    if l.reaches k then
      let l := (l.insertAt k.index .key).openBlock k.column k.index .blockMapping
      some { l with candidate := none, keyAllowed := false }
    else if k.required then none
    else markedKey l
  | none => markedKey l
where
  /-- The layout at a colon behind a key that is marked or absent. -/
  markedKey (l : Layout) : Option Layout :=
    (l.openBlockHere .blockMapping).map fun l => { l with keyAllowed := !l.inFlow }

/-! ## Flow collections -/

/-- Opens a flow collection. -/
def openFlow (t : Token) (l : Layout) : Option Layout :=
  l.propose.map fun l =>
    { l.emit t with candidate := none, outer := l.candidate :: l.outer, keyAllowed := true }

/-- Ends a flow collection, if one is open. -/
def closeFlow (t : Token) (l : Layout) : Option Layout :=
  l.dropCandidate.map fun l =>
    match l.outer with
    | [] => { l.emit t with keyAllowed := false }
    | candidate :: outer => { l.emit t with candidate, outer, keyAllowed := false }

end Layout

end TypedModels.Yaml
