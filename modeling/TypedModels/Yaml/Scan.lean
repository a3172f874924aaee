import TypedModels.Yaml.Block
import TypedModels.Yaml.Gap
import TypedModels.Yaml.Layout

/-!
# Cutting a YAML text into tokens

The text is read one character at a time, with a look at the characters behind. What a character
means depends on what is being read: a space between tokens, a comment, or a scalar of one of three
forms. Tokens of a fixed form are taken at their first character, and the rest of them is passed
over.

## Main definitions

* `Yaml.Scan` : how far a text has been read.
* `Yaml.Scan.step` : the reading of a character.
* `Yaml.tokens?` : the tokens of a text.
-/

namespace TypedModels.Yaml

inductive Quote where
  | single
  | double
deriving DecidableEq, Repr

/-- What is being read. Characters of an unfinished scalar are held last first. -/
inductive Mode where
  | between
  | comment
  | plain (read : List Char) (gap : Gap)
  | quoted (quote : Quote) (read : List Char) (gap : Gap)
  | block (b : Block)

/-- How far a text has been read. -/
structure Scan where
  layout : Layout
  mode : Mode := .between
  /-- How many characters have been taken already. -/
  skip : Nat := 0

namespace Scan

/-! ## Tokens -/

/-- Takes the start of a scalar or of another node, where a key may start. -/
def startNode (l : Layout) : Option Layout :=
  l.propose.map fun l => { l with keyAllowed := false }

/-- Takes the mark of an item. -/
def takeDash (l : Layout) : Option Layout := do
  let l ← (← l.openBlockHere .blockSequence).dropCandidate
  some { l.emit .dash with keyAllowed := true }

/-- Takes the mark of a key that is written. -/
def takeKey (l : Layout) : Option Layout := do
  let l ← (← l.openBlockHere .blockMapping).dropCandidate
  some { l.emit .key with keyAllowed := !l.inFlow }

/-- Takes the comma behind a part of a flow collection. -/
def takeComma (l : Layout) : Option Layout :=
  l.dropCandidate.map fun l => { l.emit .comma with keyAllowed := true }

/-- Whether a plain scalar may start with a character that is no mark of its own. -/
def startsPlain (c : Char) : Bool :=
  !isBlank c && (!isIndicator c || c = '-' || c = '?' || c = ':')

/-- Takes a block scalar with the text behind its first character. -/
def takeBlock (folded : Bool) (l : Layout) (rest : List Char) : Option Scan := do
  let line := rest.takeWhile fun c => !isBreak c
  let b ← Block.ofHeader? folded (l.indents.head?.getD 0) line
  let l ← l.dropCandidate
  some { layout := { l with keyAllowed := true }, mode := .block b, skip := line.length }

/-- Takes the token that starts with `c` before `rest` behind the start of a line. -/
def startToken (l : Layout) (c : Char) (rest : List Char) : Option Scan :=
  match c with
  | '[' => (l.openFlow .openSequence).map ({ layout := · })
  | '\x7b' => (l.openFlow .openMapping).map ({ layout := · })
  | ']' => (l.closeFlow .closeSequence).map ({ layout := · })
  | '\x7d' => (l.closeFlow .closeMapping).map ({ layout := · })
  | ',' => (takeComma l).map ({ layout := · })
  | '*' => do
    let (name, skip) ← anchorName? rest
    some { layout := (← startNode l).emit (.alias name), skip }
  | '&' => do
    let (name, skip) ← anchorName? rest
    some { layout := (← startNode l).emit (.anchor name), skip }
  | '!' => do
    let (t, skip) ← tag? l.inFlow rest
    some { layout := (← startNode l).emit t, skip }
  | '\'' => do some { layout := ← startNode l, mode := .quoted .single [] .none }
  | '"' => do some { layout := ← startNode l, mode := .quoted .double [] .none }
  | c =>
    if c = '-' && endsWord rest then (takeDash l).map ({ layout := · })
    else if c = '?' && (l.inFlow || endsWord rest) then (takeKey l).map ({ layout := · })
    else if c = ':' && (l.inFlow || endsWord rest) then do
      some { layout := (← l.settleKey).emit .value }
    else if (c = '|' || c = '>') && !l.inFlow then takeBlock (c = '>') l rest
    else if startsPlain c then do
      some { layout := ← startNode l, mode := .plain [c] .none }
    else none

/-- Takes the token that starts with `c` before `rest`. At the start of a line it may be a directive
or the marker of the start or end of a document. -/
def startLine (l : Layout) (c : Char) (rest : List Char) : Option Scan :=
  if l.column = 0 && c = '%' then do
    let line := rest.takeWhile fun c => !isBreak c
    let t ← directive? line
    some { layout := (← l.closeAll).emit t, skip := line.length }
  else if l.column = 0 && startsMarker (c :: rest) then do
    let t := if c = '-' then Token.documentStart else .documentEnd
    some { layout := (← l.closeAll).emit t, skip := 2 }
  else startToken l c rest

/-- Whether a character between tokens is passed over: a space, a tab where it cannot be taken for
indentation, and a byte order mark at the start of a line. -/
def isSpace (l : Layout) (c : Char) : Bool :=
  c = ' ' || (c = '\t' && (l.inFlow || !l.keyAllowed)) || (c = '\ufeff' && l.column = 0)

/-- Takes a character between tokens. -/
def between (l : Layout) (c : Char) (rest : List Char) : Option Scan :=
  if isSpace l c then some { layout := l }
  else if c = '#' then some { layout := l, mode := .comment }
  else if isBreak c then some { layout := { l with keyAllowed := l.keyAllowed || !l.inFlow } }
  else startLine (l.closeBlocks (· ≤ l.column)) c rest

/-! ## Scalars -/

/-- The layout behind a plain scalar. Behind a line break a key may start. -/
def endPlain (l : Layout) (read : List Char) (gap : Gap) : Layout :=
  { l.emit (.scalar (String.ofList read.reverse) true) with
    keyAllowed := l.keyAllowed || gap.isBroken }

/-- Whether a plain scalar ends in the gap before `c`: the line belongs to an outer collection, or
starts with a marker or a comment. -/
def endsInGap (l : Layout) (gap : Gap) (c : Char) (rest : List Char) : Bool :=
  gap ≠ .none &&
    ((!l.inFlow && l.column < l.margin) || (l.column = 0 && startsMarker (c :: rest)) || c = '#')

/-- Takes a character in a plain scalar. It ends before a colon with a blank behind it and, inside
of a flow collection, before an indicator of such a collection. -/
def inPlain (l : Layout) (read : List Char) (gap : Gap) (c : Char) (rest : List Char) :
    Option Scan :=
  if isBlank c || isBreak c then
    if c = '\t' && gap.isBroken && l.column < l.margin then none
    else some { layout := l, mode := .plain read (gap.add c) }
  else if endsInGap l gap c rest then between (endPlain l read gap) c rest
  else if l.inFlow && c = ':' && rest.head?.any (fun d => isFlowIndicator d || d = '?') then none
  else if (c = ':' && endsWord rest) || (l.inFlow && isFlowIndicator c) then
    between (endPlain l read gap) c rest
  else some { layout := l, mode := .plain (c :: gap.fill read) .none }

/-- The layout behind a quoted scalar. -/
def endQuoted (l : Layout) (read : List Char) : Layout :=
  l.emit (.scalar (String.ofList read.reverse) false)

/-- Takes a visible character between single quotes, in which a doubled quote stands for one. -/
def inSingle (l : Layout) (read : List Char) (c : Char) (rest : List Char) : Scan :=
  if c ≠ '\'' then { layout := l, mode := .quoted .single (c :: read) .none }
  else if rest.head? = some '\'' then
    { layout := l, mode := .quoted .single ('\'' :: read) .none, skip := 1 }
  else { layout := endQuoted l read }

/-- Takes a visible character between double quotes. A backslash starts an escape; before a break it
ends the line without a break. -/
def inDouble (l : Layout) (read : List Char) (c : Char) (rest : List Char) : Option Scan :=
  if c = '"' then some { layout := endQuoted l read }
  else if c ≠ '\\' then some { layout := l, mode := .quoted .double (c :: read) .none }
  else
    match rest with
    | [] => none
    | letter :: rest =>
      if isBreak letter then
        some { layout := l, mode := .quoted .double read (.breaks none []), skip := 1 }
      else do
        let (c, length) ← escaped? letter rest
        some { layout := l, mode := .quoted .double (c :: read) .none, skip := length + 1 }

/-- Takes a character in a quoted scalar. No line of it may start with a marker. -/
def inQuoted (l : Layout) (quote : Quote) (read : List Char) (gap : Gap) (c : Char)
    (rest : List Char) : Option Scan :=
  if isBlank c || isBreak c then some { layout := l, mode := .quoted quote read (gap.add c) }
  else if l.column = 0 && startsMarker (c :: rest) then none
  else
    match quote with
    | .single => some (inSingle l (gap.fill read) c rest)
    | .double => inDouble l (gap.fill read) c rest

/-- Takes a character in the margin of a block scalar. It ends before the first line with visible
characters whose indentation is another. -/
def inMargin (l : Layout) (b : Block) (c : Char) (rest : List Char) : Option Scan :=
  let indentation := b.isIndentation l.column
  if c = ' ' && indentation then some { layout := l, mode := .block b }
  else if c = '\t' && indentation then none
  else
    let b := { b with widest := max b.widest l.column }
    if isBreak c then
      some { layout := l, mode := .block { b with emptyLines := c :: b.emptyLines } }
    else if l.column = b.lineColumn l.margin then
      some { layout := l, mode := .block (b.startLine l.column c) }
    else between (l.emit (.scalar b.text false)) c rest

/-- Takes a character in a block scalar. -/
def inBlock (l : Layout) (b : Block) (c : Char) (rest : List Char) : Option Scan :=
  match b.place with
  | .header => some { layout := l, mode := .block { b with place := .margin } }
  | .margin => inMargin l b c rest
  | .line =>
    if isBreak c then
      some { layout := l, mode := .block { b with place := .margin, lineEnd := some c } }
    else some { layout := l, mode := .block { b with read := c :: b.read } }

/-! ## Texts -/

/-- Takes the character `c` before `rest`. -/
def step (s : Scan) (c : Char) (rest : List Char) : Option Scan :=
  match s.mode with
  | .between => between s.layout c rest
  | .comment => if isBreak c then between s.layout c rest else some s
  | .plain read gap => inPlain s.layout read gap c rest
  | .quoted quote read gap => inQuoted s.layout quote read gap c rest
  | .block b => inBlock s.layout b c rest

/-- Reads a text to its end. -/
def run (s : Scan) : List Char → Option Scan
  | [] => some s
  | c :: rest =>
    if 0 < s.skip then run { s with layout := s.layout.past c, skip := s.skip - 1 } rest
    else
      match s.step c rest with
      | some s => run { s with layout := s.layout.past c } rest
      | none => none

/-- The layout at the end of a text, with a scalar that ends there. -/
def atEnd (s : Scan) : Option Layout :=
  match s.mode with
  | .between | .comment => some s.layout
  | .plain read gap => some (endPlain s.layout read gap)
  | .quoted _ _ _ => none
  | .block b => some (s.layout.emit (.scalar b.text false))

/-- The tokens of a text that has been read to its end. -/
def tokens? (s : Scan) : Option (List Token) := do
  let l ← (← s.atEnd).closeAll
  some (l.emit .textEnd).found.reverse

end Scan

/-- The tokens of a text; `none` if it is malformed. -/
def tokens? (text : String) : Option (List Token) := do
  (← Scan.run { layout := {} } (← characters? text)).tokens?

end TypedModels.Yaml
