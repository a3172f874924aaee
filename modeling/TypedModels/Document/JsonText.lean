import TypedModels.Document.Codec
import TypedModels.Json.Reader

/-!
# Documents in JSON text

A text is read from left to right and the first fault ends the reading, so it does not matter what
follows a misshapen node. The document itself and its list of definitions are read token by token.
Each definition is read as a tree, whose kind is checked on the way, and decoded at its end.

A value under an unknown key of the document is only passed over: it may be nested to any depth and
hold scalars without content.

## Main definitions

* `Document.Reading`, `Document.Reading.step` : how far a document has been read.
* `Document.ofTokens` : reads a document from the tokens of a text.
* `Document.ofJson` : the document that a JSON text holds.
-/

namespace TypedModels

open DocumentFault

/-- The fault of a token that starts a value of a wrong shape, or no readable value at all. -/
def Token.shapeFault : Token → DocumentFault
  | .null | .bool _ | .num (some _) | .str (some _) | .openArray | .openObject => wrongShape
  | _ => unreadable

/-- Refuses the kind of a definition that is not a string, and a second kind, as soon as the token
is reached. -/
def Definition.kindFault? : Reader.State → Token → Option DocumentFault
  | .key done [], .str (some "kind") =>
    if done.any (·.1 = "kind") then some (duplicateField "kind") else none
  | .value [.member _ "kind"], .str (some _) => none
  | .value [.member _ "kind"], t => some t.shapeFault
  | .firstItem [], .str (some _) | .firstItem [], .closeArray => none
  | .firstItem [], t => some t.shapeFault
  | _, _ => none

/-- How many containers may be open inside a list of definitions, which has two around it. -/
def Definition.room : Nat := Value.maxDepth - 2

namespace Document

/-- Where the list of definitions stands: under its key, or alone in an array. -/
inductive Place where
  | member
  | alone
deriving DecidableEq, Repr

/-- How far a document has been read. Definitions of an unfinished list come last first; `found` is
the list under the key `definitions`, once it has been read. -/
inductive Reading where
  | start
  | firstKey
  | key (found : Option (List Definition))
  | colon (found : Option (List Definition)) (name : String)
  /-- Inside a value that is passed over. -/
  | passing (found : Option (List Definition)) (state : Reader.State)
  | afterMember (found : Option (List Definition))
  /-- Behind the bracket of a document that is an array. -/
  | onlyItem
  | afterItem (definitions : List Definition)
  | list (place : Place)
  | firstDefinition (place : Place)
  | definition (place : Place) (read : List Definition)
  | inside (place : Place) (read : List Definition) (state : Reader.State)
  | afterDefinition (place : Place) (read : List Definition)
  | finished (doc : Document)

namespace Reading

/-- Takes the key of a member. -/
def takeKey (found : Option (List Definition)) : Token → Except DocumentFault Reading
  | .str (some name) =>
    if name = "definitions" ∧ found.isSome then .error (duplicateField name)
    else .ok (.colon found name)
  | _ => .error unreadable

/-- Takes the first token of the list of definitions. -/
def takeList (place : Place) : Token → Except DocumentFault Reading
  | .openArray => .ok (.firstDefinition place)
  | t => .error t.shapeFault

/-- Takes a token of a definition. -/
def takeInside (place : Place) (read : List Definition) (state : Reader.State) (t : Token) :
    Except DocumentFault Reading :=
  match Definition.kindFault? state t with
  | some fault => .error fault
  | none =>
    match Reader.step (.strict Definition.room) state t with
    | .more state => .ok (.inside place read state)
    | .done v => (Definition.decode v).map fun d => .afterDefinition place (d :: read)
    | .broken => .error unreadable

/-- Takes the first token of a definition. -/
def takeDefinition (place : Place) (read : List Definition) : Token → Except DocumentFault Reading
  | .openObject => takeInside place read (.value []) .openObject
  | .openArray => takeInside place read (.value []) .openArray
  | t => .error t.shapeFault

/-- The state behind a finished list. -/
def endList (definitions : List Definition) : Place → Reading
  | .member => .afterMember (some definitions)
  | .alone => .afterItem definitions

def step : Reading → Token → Except DocumentFault Reading
  | .start, .openObject => .ok .firstKey
  | .start, .openArray => .ok .onlyItem
  | .start, t => .error t.shapeFault
  | .firstKey, .closeObject => .ok (.finished Document.empty)
  | .firstKey, t => takeKey none t
  | .key found, t => takeKey found t
  | .colon found name, .colon =>
    .ok (if name = "definitions" then .list .member else .passing found (.value []))
  | .colon _ _, _ => .error unreadable
  | .passing found state, t =>
    match Reader.step .lenient state t with
    | .more state => .ok (.passing found state)
    | .done _ => .ok (.afterMember found)
    | .broken => .error unreadable
  | .afterMember found, .comma => .ok (.key found)
  | .afterMember found, .closeObject => .ok (.finished ⟨found.getD []⟩)
  | .afterMember _, _ => .error unreadable
  | .onlyItem, .closeArray => .ok (.finished Document.empty)
  | .onlyItem, t => takeList .alone t
  | .afterItem definitions, .closeArray => .ok (.finished ⟨definitions⟩)
  | .afterItem _, _ => .error unreadable
  | .list place, t => takeList place t
  | .firstDefinition place, .closeArray => .ok (endList [] place)
  | .firstDefinition place, t => takeDefinition place [] t
  | .definition place read, t => takeDefinition place read t
  | .inside place read state, t => takeInside place read state t
  | .afterDefinition place read, .comma => .ok (.definition place read)
  | .afterDefinition place read, .closeArray => .ok (endList read.reverse place)
  | .afterDefinition _ _, _ => .error unreadable
  | .finished _, _ => .error unreadable

end Reading

/-- Reads a document from the tokens of a text. -/
def ofTokens (ts : List Token) : Except DocumentFault Document := do
  match ← ts.foldlM Reading.step .start with
  | .finished doc => return doc
  | _ => throw unreadable

/-- The document that a JSON text holds. -/
def ofJson (text : String) : Except DocumentError Document :=
  (ofTokens (Token.ofText text)).mapError .json

end Document

end TypedModels
