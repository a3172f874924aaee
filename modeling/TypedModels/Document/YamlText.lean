import TypedModels.Document.Codec
import TypedModels.Yaml.Datum

/-!
# Documents in YAML text

A YAML text holds the same tree as a JSON text. The keys of the document and the kinds of its
definitions are taken as written, however they are spelled; what a document does not know is not
looked at. A definition is read whole. Inside of the nodes of its body a key may also be the number
of a part, counted from zero.

## Main definitions

* `Document.Part` : the places in a definition.
* `Yaml.Datum.toValue?` : the tree of a datum in a place.
* `Document.ofYaml` : the document that a YAML text holds.
-/

namespace TypedModels

/-! ## Places -/

namespace Document

/-- A place in a definition. -/
inductive Part where
  | body
  | field
  | type
  | name
  | fieldList
  | typeList
  /-- A place without parts, or one that is not known. -/
  | leaf
deriving DecidableEq, Repr

namespace Part

/-- The members of the nodes in a place, in the order in which they are counted. -/
def members : Part → List (String × Part)
  | .body => [("name", .name), ("fields", .fieldList), ("interfaces", .typeList)]
  | .field => [("name", .name), ("type", .type)]
  | .type => [("kind", .leaf), ("name", .name), ("type", .type)]
  | .name => [("kind", .leaf), ("value", .leaf)]
  | .fieldList | .typeList | .leaf => []

/-- The place of the item with an index. -/
def item (n : Nat) : Part → Part
  | .fieldList => .field
  | .typeList => .type
  | p => (p.members[n]?.map (·.2)).getD .leaf

/-- The place of the member with a key. -/
def member (key : String) (p : Part) : Part := (p.members.lookup key).getD .leaf

/-- The key that a datum stands for: itself, or that of the member with its number. A number that is
too large stands for a key that no node knows. -/
def key? (p : Part) : Yaml.Datum → Option String
  | .text key => some key
  | .index n => some ((p.members[n]?.map (·.1)).getD "")
  | _ => none

end Part

end Document

/-! ## Trees -/

namespace Yaml

namespace Datum

open Document

mutual

/-- The tree of a datum in a place; `none` if a node in it has a key that is no text. No number
matters in a document, so all of them stand for zero. -/
def toValue? (p : Part) : Datum → Option Value
  | .null => some .null
  | .bool b => some (.bool b)
  | .index _ | .number => some (.num (.int 0))
  | .text s => some (.str s)
  | .list items => (toItems? p 0 [] items).map .arr
  | .table entries =>
    if p.members = [] then some (.obj []) else (toMembers? p [] entries).map .obj

/-- The trees of items in the places from an index on; `read` are those before them, last first. -/
def toItems? (p : Part) (n : Nat) (read : List Value) : List Datum → Option (List Value)
  | [] => some read.reverse
  | d :: ds =>
    match d.toValue? (p.item n) with
    | some v => toItems? p (n + 1) (v :: read) ds
    | none => none

/-- The members that entries stand for; `read` are those before them, last first. -/
def toMembers? (p : Part) (read : List (String × Value)) :
    List (Datum × Datum) → Option (List (String × Value))
  | [] => some read.reverse
  | (k, d) :: entries =>
    match p.key? k with
    | some key =>
      match d.toValue? (p.member key) with
      | some v => toMembers? p ((key, v) :: read) entries
      | none => none
    | none => none

end

end Datum

/-! ## Definitions -/

/-- Whether definitions of a kind have a body. -/
def hasBody (kind : String) : Bool :=
  kind = "ObjectTypeDefinition" || kind = "InterfaceTypeDefinition"

/-- The tree of a definition with the given kinds, which should be one, and the entries beside
them. -/
def definitionOfEntries? (kinds : List String) (entries : List (Datum × Datum)) : Option Value := do
  let members ← if kinds.all hasBody then Datum.toMembers? .body [] entries else some []
  some (.obj (kinds.map (fun kind => ("kind", .str kind)) ++ members))

/-- The tree of a definition with the given kind and the items behind it. -/
def definitionOfItems? (kind : String) (items : List Datum) : Option Value := do
  let items ←
    if hasBody kind then Datum.toItems? .body 0 [] items else some (items.map fun _ => .null)
  some (.arr (.str kind :: items))

namespace Graph

/-- How many collections may be open at once. -/
def maxDepth : Nat := 128

/-- The text of a scalar as it is written. -/
def written (g : Graph) (node : Node) : Visit String := do
  match ← g.follow node with
  | .scalar text _ _ => return text
  | _ => failure

/-- Reads an entry of a definition: a kind as it is written, or the data of another key and its
value. -/
def entry (g : Graph) (room : Nat) (e : Node × Node) : Visit (String ⊕ (Datum × Datum)) := do
  match ← g.datum room e.1 with
  | .text "kind" => return .inl (← g.written e.2)
  | key => return .inr (key, ← g.datum room e.2)

/-- The tree of a definition. -/
def definition (g : Graph) (room : Nat) (node : Node) : Visit Value := do
  match ← g.follow node with
  | .mapping tag entries =>
    if isLocal tag then failure
    let read ← entries.mapM (g.entry room)
    liftM (definitionOfEntries? (read.filterMap (·.getLeft?)) (read.filterMap (·.getRight?)))
  | .sequence tag (kind :: items) =>
    if isLocal tag then failure
    let kind ← g.written kind
    liftM (definitionOfItems? kind (← items.mapM (g.datum room)))
  | _ => failure

/-- The tree of a list of definitions, which an absent value stands for too. -/
def definitions (g : Graph) (room : Nat) (node : Node) : Visit Value := do
  match ← g.follow node with
  | .sequence _ items => return .arr (← items.mapM (g.definition room))
  | .scalar "" true _ => return .arr []
  | _ => failure

/-- Reads a member of the document. The value of an unknown key is not looked at. -/
def member (g : Graph) (e : Node × Node) : Visit (String × Value) := do
  let key ← g.written e.1
  if key = "definitions" then
    -- the document, the list and the definition are open inside of a definition
    return (key, ← g.definitions (maxDepth - 3) e.2)
  else return (key, .null)

/-- The tree of the document, which an absent node stands for too. -/
def document (g : Graph) : Visit Value := do
  match g.root with
  | none | some (.scalar "" true _) => return .obj []
  | some (.mapping _ entries) => return .obj (← entries.mapM g.member)
  | _ => failure

/-- The tree of the document in a graph. -/
def document? (g : Graph) : Option Value := (g.document.run g.maxFollowed).map (·.1)

end Graph

end Yaml

/-- The document that a YAML text holds. -/
def Document.ofYaml (text : String) : Except DocumentError Document :=
  match (Yaml.Graph.ofText? text).bind (·.document?) with
  | some v => (Document.decode v).mapError fun _ => .yaml
  | none => .error .yaml

end TypedModels
