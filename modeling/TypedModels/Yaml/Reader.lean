import TypedModels.Yaml.Node
import TypedModels.Yaml.Scan

/-!
# Reading nodes from tokens

The reader is a machine that takes one token at a time. Its state says what may come next and holds
the collections that are still open, so reading is a recursion on the tokens alone.

Much may be left out: a value, an item, the end of a sequence that stands under a key. So before a
token is taken the state is settled: what the token shows to be absent or finished is completed.

## Main definitions

* `Yaml.Reader.State` : what may come next.
* `Yaml.Reader.settle`, `Yaml.Reader.take` : the two halves of a step.
* `Yaml.Graph.ofText?` : the nodes that a text holds.
-/

namespace TypedModels.Yaml

namespace Reader

/-- What is written before the content of a node. -/
structure Label where
  /-- The rank of the node among those with an anchor. -/
  rank : Option Nat := none
  tag : Option Octets := none
deriving DecidableEq, Repr

inductive SequenceStyle where
  | block
  /-- Under a key, in the column of the key. -/
  | indentless
  | flow
deriving DecidableEq, Repr

inductive MappingStyle where
  | block
  | flow
  /-- A single entry in the place of an item of a flow sequence. -/
  | pair
deriving DecidableEq, Repr

/-- The place of a node in an open collection, with the finished parts, last first. -/
inductive Context where
  | item (style : SequenceStyle) (label : Label) (done : List Node)
  | key (style : MappingStyle) (label : Label) (done : List (Node × Node))
  | value (style : MappingStyle) (label : Label) (done : List (Node × Node)) (key : Node)
  /-- A key in a flow mapping that has no value. -/
  | loneKey (label : Label) (done : List (Node × Node))

/-- What may come next, inside the given contexts, innermost first. -/
inductive State where
  /-- A directive or the document. -/
  | prologue (directives : Bool)
  /-- The outermost node, or nothing. -/
  | content
  /-- The content of a node, behind what is written before it. -/
  | node (label : Label) (around : List Context)
  /-- An item of a flow sequence, or its end. -/
  | item (label : Label) (done : List Node) (around : List Context)
  /-- An entry of a flow mapping, or its end. -/
  | entry (label : Label) (done : List (Node × Node)) (around : List Context)
  /-- A further item of a sequence, or its end. -/
  | afterItem (style : SequenceStyle) (label : Label) (done : List Node) (around : List Context)
  /-- The value of a key. -/
  | afterKey (style : MappingStyle) (label : Label) (done : List (Node × Node)) (key : Node)
    (around : List Context)
  /-- A further entry of a mapping, or its end. -/
  | afterEntry (style : MappingStyle) (label : Label) (done : List (Node × Node))
    (around : List Context)
  /-- The end of the text, behind its only document. -/
  | epilogue (root : Node)
  | finished (root : Option Node)

end Reader

/-- A machine that reads the nodes of a text. -/
structure Reader where
  state : Reader.State := .prologue false
  /-- Whether a version has been stated. -/
  versioned : Bool := false
  /-- The start of the tags with each handle. -/
  handles : List (String × Octets) := []
  anchors : Anchors := {}
  /-- How many events tell of the nodes read. -/
  weight : Nat := 0

namespace Reader

/-! ## Finished nodes -/

/-- Hands a finished node to the innermost context. -/
def hand (r : Reader) (node : Node) : List Context → Reader
  | [] => { r with state := .epilogue node, weight := r.weight + node.weight }
  | .item style label done :: around =>
    { r with
      state := .afterItem style label (node :: done) around
      weight := r.weight + node.weight }
  | .key style label done :: around =>
    { r with state := .afterKey style label done node around, weight := r.weight + node.weight }
  | .value .pair _ _ key :: around =>
    hand { r with weight := r.weight + node.weight } (.mapping none [(key, node)]) around
  | .value style label done key :: around =>
    { r with
      state := .afterEntry style label ((key, node) :: done) around
      weight := r.weight + node.weight }
  | .loneKey label done :: around =>
    { r with
      state := .afterEntry .flow label ((node, .absent) :: done) around
      weight := r.weight + node.weight + Node.absent.weight }

/-- Hands a finished node with a label to the innermost context. -/
def complete (r : Reader) (label : Label) (node : Node) (around : List Context) : Reader :=
  hand { r with anchors := r.anchors.keep label.rank node } node around

/-! ## Settling -/

/-- Whether the node in a context is absent if the token comes next. -/
def Context.isAbsentBefore (t : Token) : Context → Bool
  | .item .block _ _ => t = .dash || t = .blockEnd
  | .item .indentless _ _ => t = .dash || t = .key || t = .value || t = .blockEnd
  | .key .block _ _ | .value .block _ _ _ => t = .key || t = .value || t = .blockEnd
  | .key .flow _ _ => t = .value || t = .comma || t = .closeMapping
  | .value .flow _ _ _ => t = .comma || t = .closeMapping
  | .value .pair _ _ _ => t = .comma || t = .closeSequence
  | .item .flow _ _ | .key .pair _ _ | .loneKey _ _ => false

/-- Whether a node in a context may be in block style. -/
def Context.isBlock : Context → Bool
  | .item style _ _ => style ≠ .flow
  | .key style _ _ | .value style _ _ _ => style = .block
  | .loneKey _ _ => false

/-- Whether a sequence in a context may stand in the column of the context. -/
def Context.allowsIndentless : Context → Bool
  | .key style _ _ | .value style _ _ _ => style = .block
  | .item _ _ _ | .loneKey _ _ => false

/-- Whether a token goes on with a node behind its label. -/
def continuesNode (label : Label) (around : List Context) : Token → Bool
  | .anchor _ => label.rank.isNone
  | .tag _ _ => label.tag.isNone
  | .scalar _ _ | .openSequence | .openMapping => true
  | .blockSequence | .blockMapping => around.head?.all (·.isBlock)
  | .dash => around.head?.any (·.allowsIndentless)
  | _ => false

/-- Completes a node that is absent before the token. -/
def settleNode (t : Token) (r : Reader) : Reader :=
  match r.state with
  | .content =>
    match t with
    | .version | .tagDirective _ _ | .documentStart | .documentEnd | .textEnd => r.hand .absent []
    | _ => { r with state := .node {} [] }
  | .node label around =>
    if label = {} then
      if around.head?.any (·.isAbsentBefore t) then r.hand .absent around else r
    else if continuesNode label around t then r
    else r.complete label (.scalar "" true label.tag) around
  | _ => r

/-- Ends a sequence in the column of its key at a token that starts no item. -/
def settleItems (t : Token) (r : Reader) : Reader :=
  match r.state with
  | .afterItem .indentless label done around =>
    if t = .dash then r else r.complete label (.sequence label.tag done.reverse) around
  | _ => r

/-- Completes a value that is absent before the token. -/
def settleValue (t : Token) (r : Reader) : Reader :=
  match r.state with
  | .afterKey style label done key around =>
    if t = .value then r else r.hand .absent (.value style label done key :: around)
  | _ => r

/-- Completes whatever the token shows to be absent or finished. -/
def settle (t : Token) (r : Reader) : Reader := settleValue t (settleItems t (settleNode t r))

/-! ## Tokens -/

/-- The start of the tags with a handle. -/
def handleStart? (r : Reader) (handle : String) : Option Octets :=
  if handle = "" then some []
  else
    match r.handles.lookup handle with
    | some start => some start
    | none =>
      ([("!", "!"), ("!!", "tag:yaml.org,2002:")].lookup handle).map Octets.ofString

/-- Takes the first token of a node, or of what is written before it. -/
def takeNode (r : Reader) (label : Label) (around : List Context) (t : Token) : Option Reader :=
  match t with
  | .alias name =>
    if label = {} then (r.anchors.number? name).map fun number => r.hand (.alias number) around
    else none
  | .anchor name =>
    if label.rank.isSome then none
    else
      let (anchors, rank) := r.anchors.declare name
      some { r with anchors, state := .node { label with rank := some rank } around }
  | .tag handle suffix =>
    if label.tag.isSome then none
    else (r.handleStart? handle).map fun start =>
      { r with state := .node { label with tag := some (start ++ suffix) } around }
  | .scalar text plain =>
    let tag := if label.tag = some [exclamation] then none else label.tag
    some (r.complete label (.scalar text plain tag) around)
  | .openSequence => some { r with state := .item label [] around }
  | .openMapping => some { r with state := .entry label [] around }
  | .blockSequence =>
    if around.head?.all (·.isBlock) then some { r with state := .afterItem .block label [] around }
    else none
  | .blockMapping =>
    if around.head?.all (·.isBlock) then some { r with state := .afterEntry .block label [] around }
    else none
  | .dash =>
    if around.head?.any (·.allowsIndentless) then
      some { r with state := .node {} (.item .indentless label [] :: around) }
    else none
  | .value | .comma | .closeSequence =>
    match around with
    | .key .pair _ _ :: _ => if label = {} then some (r.hand .absent around) else none
    | _ => none
  | _ => none

/-- Takes a token before the document. -/
def takePrologue (r : Reader) (directives : Bool) (t : Token) : Option Reader :=
  match t with
  | .version =>
    if r.versioned then none else some { r with versioned := true, state := .prologue true }
  | .tagDirective handle start =>
    if r.handles.any (·.1 = handle) then none
    else some { r with handles := (handle, start) :: r.handles, state := .prologue true }
  | .documentStart => some { r with state := .content }
  | .textEnd => if directives then none else some { r with state := .finished none }
  | t => if directives then none else r.takeNode {} [] t

/-- Takes a token that continues or ends a sequence. -/
def takeAfterItem (r : Reader) (style : SequenceStyle) (label : Label) (done : List Node)
    (around : List Context) (t : Token) : Option Reader :=
  match style, t with
  | .block, .dash | .indentless, .dash =>
    some { r with state := .node {} (.item style label done :: around) }
  | .flow, .comma => some { r with state := .item label done around }
  | .block, .blockEnd | .flow, .closeSequence =>
    some (r.complete label (.sequence label.tag done.reverse) around)
  | _, _ => none

/-- Takes a token that continues or ends a mapping. -/
def takeAfterEntry (r : Reader) (style : MappingStyle) (label : Label) (done : List (Node × Node))
    (around : List Context) (t : Token) : Option Reader :=
  match style, t with
  | .block, .key => some { r with state := .node {} (.key .block label done :: around) }
  | .flow, .comma => some { r with state := .entry label done around }
  | .block, .blockEnd | .flow, .closeMapping =>
    some (r.complete label (.mapping label.tag done.reverse) around)
  | _, _ => none

/-- Takes a token in a state that is settled before it. -/
def take (r : Reader) (t : Token) : Option Reader :=
  match r.state with
  | .prologue directives => r.takePrologue directives t
  | .content => none
  | .node label around => r.takeNode label around t
  | .item label done around =>
    match t with
    | .closeSequence => some (r.complete label (.sequence label.tag done.reverse) around)
    | .key =>
      some { r with state := .node {} (.key .pair {} [] :: .item .flow label done :: around) }
    | t => r.takeNode {} (.item .flow label done :: around) t
  | .entry label done around =>
    match t with
    | .closeMapping => some (r.complete label (.mapping label.tag done.reverse) around)
    | .key => some { r with state := .node {} (.key .flow label done :: around) }
    | t => r.takeNode {} (.loneKey label done :: around) t
  | .afterItem style label done around => r.takeAfterItem style label done around t
  | .afterKey style label done key around =>
    if t = .value then some { r with state := .node {} (.value style label done key :: around) }
    else none
  | .afterEntry style label done around => r.takeAfterEntry style label done around t
  | .epilogue root =>
    match t with
    | .documentEnd => some r
    | .textEnd => some { r with state := .finished (some root) }
    | _ => none
  | .finished _ => none

/-- Takes the next token. -/
def step (r : Reader) (t : Token) : Option Reader := (r.settle t).take t

end Reader

/-- The nodes that a text holds in its only document; `none` if it is malformed. -/
def Graph.ofText? (text : String) : Option Graph := do
  let r ← (← tokens? text).foldlM Reader.step {}
  match r.state with
  | .finished root => some { root, anchors := r.anchors, weight := r.weight }
  | _ => none

end TypedModels.Yaml
