import TypedModels.Model.Workspace

/-!
# Descriptions

Short texts that describe models, workspaces and operations in messages, with all names quoted.

## Main definitions

* `Text.record` : the text of a record.
* `Workspace.description`, `Model.description`, `Model.declaration`, `Operation.description` : the
  texts.
-/

namespace TypedModels

/-- The text of a record. An open record has further fields that are not shown. -/
def Text.record (name : String) (fields : List (String × String)) (isOpen : Bool := false) :
    String :=
  let shown := fields.map fun f => f.1 ++ ": " ++ f.2
  name ++ " \x7b " ++ String.intercalate ", " (if isOpen then shown ++ [".."] else shown) ++ " \x7d"

def Workspace.description (w : Workspace) : String :=
  Text.record "ModelRegistry" [("models", Text.quotedList w.catalog.names)]

namespace Model

def description (m : Model) : String :=
  Text.record "Model" [("name", Text.quoted m.name), ("type_name", Text.quoted m.typeName)]

/-- The text of everything that is declared of a model, but for its schema. -/
def declaration (m : Model) : String :=
  Text.record "ModelDefinition"
    [("name", Text.quoted m.name), ("type_name", Text.quoted m.typeName),
      ("dependencies", Text.quotedList m.dependencies),
      ("resolve_type", toString m.resolveType.isSome),
      ("resolvers", Text.quotedList (OrderedMap.keys m.resolvers))] true

end Model

def Dispatch.description : Dispatch → String
  | .concrete => "Concrete"
  | .interface _ => "Interface(<discriminator>)"

def Operation.description (op : Operation) : String :=
  Text.record "Operation"
    [("type_defs", toString op.source.document.definitions.length),
      ("resolvers", Text.quotedList (OrderedMap.keys op.resolvers)),
      ("models", Text.quotedList op.models)]

end TypedModels
